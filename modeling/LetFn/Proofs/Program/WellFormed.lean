import LetFn.Program.Render
import LetFn.Proofs.Program.Relabel
import LetFn.Proofs.Token.Lexed

/-! Trees that can be read: their names, numbers, operators and keywords are spelled as in a
text. -/

namespace LetFn

def unaryOperators : List String := ["!", "-"]

def binaryOperators : List String := ["+", "-", "*", "/", "<", ">", "==", "!="]

mutual

def Expr.WellFormed : Expr → Prop
  | .ident name => IsName name.name
  | .int _ value => 0 ≤ value
  | .bool _ _ => True
  | .unary _ operator operand _ => operator ∈ unaryOperators ∧ operand.WellFormed
  | .binary _ left operator right _ =>
    operator ∈ binaryOperators ∧ left.WellFormed ∧ right.WellFormed
  | .cond _ test consequence alternative _ =>
    test.WellFormed ∧ consequence.WellFormed ∧ WellFormedElse alternative
  | .fn token parameters body _ =>
    token.literal = "fn" ∧ (∀ p ∈ parameters, IsName p.name) ∧ body.WellFormed
  | .call _ callee arguments _ => callee.WellFormed ∧ WellFormedArguments arguments

def WellFormedElse : Option Block → Prop
  | none => True
  | some alternative => alternative.WellFormed

def WellFormedArguments : List Expr → Prop
  | [] => True
  | e :: es => e.WellFormed ∧ WellFormedArguments es

def Stmt.WellFormed : Stmt → Prop
  | .bind token name value _ => token.literal = "let" ∧ IsName name.name ∧ value.WellFormed
  | .ret token value _ => token.literal = "return" ∧ value.WellFormed
  | .expr _ value _ => value.WellFormed

def Block.WellFormed : Block → Prop
  | .mk _ statements _ => WellFormedBody statements

def WellFormedBody : List Stmt → Prop
  | [] => True
  | s :: ss => s.WellFormed ∧ WellFormedBody ss

end

theorem wellFormedBody_iff {ss : List Stmt} : WellFormedBody ss ↔ ∀ s ∈ ss, s.WellFormed := by
  induction ss with
  | nil => simp [WellFormedBody]
  | cons s ss ih => simp [WellFormedBody, ih]

theorem Block.WellFormed.statements {b : Block} (h : b.WellFormed) :
    WellFormedBody b.statements := by
  cases b
  exact h

/-! ### Tokens and places are not written -/

theorem Ident.name_eq {i j : Ident} (h : i.erase = j.erase) : i.name = j.name :=
  show i.erase.name = j.erase.name from congrArg Ident.name h

theorem map_name_eq {names names' : List Ident}
    (h : names.map Ident.erase = names'.map Ident.erase) :
    names.map Ident.name = names'.map Ident.name := by
  have := congrArg (List.map Ident.name) h
  simpa [Function.comp_def, Ident.erase, Ident.relabel] using this

mutual

theorem Expr.render_eq (e e' : Expr) (h : e.WellFormed) (h' : e'.WellFormed)
    (he : e.erase = e'.erase) : e.render = e'.render :=
  match e, h with
  | .ident name, _ => by
    cases e' with
    | ident name' =>
      simp only [Expr.erase_ident, Expr.ident.injEq] at he
      simpa [Expr.render] using Ident.name_eq he
    | _ => simp at he
  | .int _ value, _ => by
    cases e' with
    | int => simp_all [Expr.render]
    | _ => simp at he
  | .bool _ value, _ => by
    cases e' with
    | bool => simp_all [Expr.render]
    | _ => simp at he
  | .unary _ operator right _, ⟨_, h⟩ => by
    cases e' with
    | unary _ _ right' _ =>
      obtain ⟨_, h'⟩ := h'
      simp only [Expr.erase_unary, Expr.unary.injEq, true_and, and_true] at he
      rw [Expr.render, Expr.render, he.1, right.render_eq right' h h' he.2]
    | _ => simp at he
  | .binary _ left operator right _, ⟨_, hl, hr⟩ => by
    cases e' with
    | binary _ left' _ right' _ =>
      obtain ⟨_, hl', hr'⟩ := h'
      simp only [Expr.erase_binary, Expr.binary.injEq, true_and, and_true] at he
      rw [Expr.render, Expr.render, left.render_eq left' hl hl' he.1, he.2.1,
        right.render_eq right' hr hr' he.2.2]
    | _ => simp at he
  | .cond _ test consequence alternative _, ⟨ht, hc, ha⟩ => by
    cases e' with
    | cond _ test' consequence' alternative' _ =>
      obtain ⟨ht', hc', ha'⟩ := h'
      simp only [Expr.erase_cond, Expr.cond.injEq, true_and, and_true] at he
      rw [Expr.render, Expr.render, test.render_eq test' ht ht' he.1,
        consequence.render_eq consequence' hc hc' he.2.1,
        renderElse_eq alternative alternative' ha ha' he.2.2]
    | _ => simp at he
  | .fn _ names body _, ⟨hk, _, hb⟩ => by
    cases e' with
    | fn _ names' body' _ =>
      obtain ⟨hk', _, hb'⟩ := h'
      simp only [Expr.erase_fn, Expr.fn.injEq, true_and, and_true] at he
      rw [Expr.render, Expr.render, hk, hk', map_name_eq he.1, body.render_eq body' hb hb' he.2]
    | _ => simp at he
  | .call _ callee args _, ⟨hc, ha⟩ => by
    cases e' with
    | call _ callee' args' _ =>
      obtain ⟨hc', ha'⟩ := h'
      simp only [Expr.erase_call, Expr.call.injEq, true_and, and_true] at he
      rw [Expr.render, Expr.render, callee.render_eq callee' hc hc' he.1,
        renderArguments_eq args args' ha ha' he.2]
    | _ => simp at he
termination_by structural e

theorem renderElse_eq (a a' : Option Block) (h : WellFormedElse a) (h' : WellFormedElse a')
    (he : eraseElse a = eraseElse a') : renderElse a = renderElse a' :=
  match a, a', h, h' with
  | none, none, _, _ => rfl
  | none, some _, _, _ => by simp at he
  | some _, none, _, _ => by simp at he
  | some a, some a', h, h' => by
    rw [renderElse, renderElse, a.render_eq a' h h' (by simpa using he)]
termination_by structural a

theorem renderArguments_eq (es es' : List Expr) (h : WellFormedArguments es)
    (h' : WellFormedArguments es') (he : eraseArguments es = eraseArguments es') :
    renderArguments es = renderArguments es' :=
  match es, es', h, h' with
  | [], [], _, _ => rfl
  | [], _ :: _, _, _ => by simp at he
  | _ :: _, [], _, _ => by simp at he
  | e :: es, e' :: es', ⟨h, hs⟩, ⟨h', hs'⟩ => by
    simp only [eraseArguments_cons, List.cons.injEq] at he
    rw [renderArguments, renderArguments, e.render_eq e' h h' he.1,
      renderArguments_eq es es' hs hs' he.2]
termination_by structural es

theorem Stmt.render_eq (s s' : Stmt) (h : s.WellFormed) (h' : s'.WellFormed)
    (he : s.erase = s'.erase) : s.render = s'.render :=
  match s, h with
  | .bind _ name value _, ⟨hk, _, h⟩ => by
    cases s' with
    | bind _ name' value' _ =>
      obtain ⟨hk', _, h'⟩ := h'
      simp only [Stmt.erase_bind, Stmt.bind.injEq, true_and, and_true] at he
      rw [Stmt.render, Stmt.render, hk, hk', Ident.name_eq he.1, value.render_eq value' h h' he.2]
    | _ => simp at he
  | .ret _ value _, ⟨hk, h⟩ => by
    cases s' with
    | ret _ value' _ =>
      obtain ⟨hk', h'⟩ := h'
      simp only [Stmt.erase_ret, Stmt.ret.injEq, true_and, and_true] at he
      rw [Stmt.render, Stmt.render, hk, hk', value.render_eq value' h h' he]
    | _ => simp at he
  | .expr _ value _, h => by
    cases s' with
    | expr _ value' _ =>
      simp only [Stmt.erase_expr, Stmt.expr.injEq, true_and, and_true] at he
      rw [Stmt.render, Stmt.render, value.render_eq value' h h' he]
    | _ => simp at he
termination_by structural s

theorem Block.render_eq (b b' : Block) (h : b.WellFormed) (h' : b'.WellFormed)
    (he : b.erase = b'.erase) : b.render = b'.render :=
  match b, b', h, h' with
  | .mk _ ss _, .mk _ ss' _, h, h' => by
    simp only [Block.erase_mk, Block.mk.injEq, true_and, and_true] at he
    rw [Block.render, Block.render, renderBody_eq ss ss' h h' he]
termination_by structural b

theorem renderBody_eq (ss ss' : List Stmt) (h : WellFormedBody ss) (h' : WellFormedBody ss')
    (he : eraseBody ss = eraseBody ss') : renderBody ss = renderBody ss' :=
  match ss, ss', h, h' with
  | [], [], _, _ => rfl
  | [], _ :: _, _, _ => by simp at he
  | _ :: _, [], _, _ => by simp at he
  | s :: ss, s' :: ss', ⟨h, hs⟩, ⟨h', hs'⟩ => by
    simp only [eraseBody_cons, List.cons.injEq] at he
    have first := s.render_eq s' h h' he.1
    have rest := renderBody_eq ss ss' hs hs' he.2
    cases s <;> cases s' <;> simp_all [renderBody, Stmt.render]
termination_by structural ss

end

end LetFn
