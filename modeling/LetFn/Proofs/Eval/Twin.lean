import LetFn.Proofs.Eval.Alike
import LetFn.Proofs.Heap.Lookup
import LetFn.Proofs.Heap.Matched
import LetFn.Proofs.Program.WellFormed

/-! Trees that can be read and differ in tokens and places only. They do the same, and whatever
functions they make can be read again. -/

namespace LetFn

/-- Both can be read, and apart from tokens and places they are the same. -/
structure Expr.Twin (e e' : Expr) : Prop where
  left : e.WellFormed
  right : e'.WellFormed
  erase_eq : e.erase = e'.erase

/-- The literal that makes the function. -/
def Closure.literal (f : Closure) : Expr :=
  .fn ⟨.fnWord, "fn", .point 0⟩ f.parameters f.body (.point 0)

theorem Closure.render_literal (f : Closure) : f.literal.render = f.render := by
  simp [literal, Expr.render, Closure.render]

structure Closure.Twin (f g : Closure) : Prop where
  literal : f.literal.Twin g.literal
  scope : g.scope = f.scope

theorem Closure.Twin.render_eq {f g : Closure} (twin : f.Twin g) : g.render = f.render := by
  obtain ⟨left, right, erase_eq⟩ := twin.literal
  rw [← render_literal, ← render_literal, Expr.render_eq _ _ right left erase_eq.symm]

/-! ### Looking into twins -/

theorem Ident.matched_of_erase {i j : Ident} (he : i.erase = j.erase) :
    i.Matched (fun _ => True) j :=
  ⟨(Ident.name_eq he).symm, trivial⟩

theorem matched_parameters {ps ps' : List Ident}
    (he : ps.map Ident.erase = ps'.map Ident.erase) :
    List.Forall₂ (Ident.Matched fun _ => True) ps ps' := by
  have erased := List.forall₂_eq_eq_eq ▸ he
  rw [List.forall₂_map_left_iff, List.forall₂_map_right_iff] at erased
  exact erased.imp fun _ _ => Ident.matched_of_erase

theorem twin_arguments {es es' : List Expr} (h : WellFormedArguments es)
    (h' : WellFormedArguments es') (he : eraseArguments es = eraseArguments es') :
    List.Forall₂ Expr.Twin es es' := by
  induction es generalizing es' with
  | nil =>
    cases es' with
    | nil => exact .nil
    | cons => simp at he
  | cons e es ih =>
    cases es' with
    | nil => simp at he
    | cons e' es' =>
      simp only [eraseArguments_cons, List.cons.injEq] at he
      exact .cons ⟨h.1, h'.1, he.1⟩ (ih h.2 h'.2 he.2)

theorem Stmt.matched_twin {s s' : Stmt} (h : s.WellFormed) (h' : s'.WellFormed)
    (he : s.erase = s'.erase) : s.Matched (fun _ => True) Expr.Twin s' := by
  cases s with
  | bind _ name value _ =>
    cases s' with
    | bind _ name' value' _ =>
      simp only [Stmt.erase_bind, Stmt.bind.injEq, true_and, and_true] at he
      exact .bind (Ident.matched_of_erase he.1) ⟨h.2.2, h'.2.2, he.2⟩
    | _ => simp at he
  | ret _ value _ =>
    cases s' with
    | ret _ value' _ =>
      simp only [Stmt.erase_ret, Stmt.ret.injEq, true_and, and_true] at he
      exact .ret ⟨h.2, h'.2, he⟩
    | _ => simp at he
  | expr _ value _ =>
    cases s' with
    | expr _ value' _ =>
      simp only [Stmt.erase_expr, Stmt.expr.injEq, true_and, and_true] at he
      exact .expr ⟨h, h', he⟩
    | _ => simp at he

theorem twin_body {ss ss' : List Stmt} (h : WellFormedBody ss) (h' : WellFormedBody ss')
    (he : eraseBody ss = eraseBody ss') :
    List.Forall₂ (Stmt.Matched (fun _ => True) Expr.Twin) ss ss' := by
  induction ss generalizing ss' with
  | nil =>
    cases ss' with
    | nil => exact .nil
    | cons => simp at he
  | cons s ss ih =>
    cases ss' with
    | nil => simp at he
    | cons s' ss' =>
      simp only [eraseBody_cons, List.cons.injEq] at he
      exact .cons (Stmt.matched_twin h.1 h'.1 he.1) (ih h.2 h'.2 he.2)

theorem Block.matched_twin {b b' : Block} (h : b.WellFormed) (h' : b'.WellFormed)
    (he : b.erase = b'.erase) : b.Matched (fun _ => True) Expr.Twin b' := by
  cases b with
  | mk _ ss _ =>
    cases b' with
    | mk _ ss' _ =>
      simp only [Block.erase_mk, Block.mk.injEq, true_and, and_true] at he
      exact twin_body h h' he

theorem twin_else {o o' : Option Block} (h : WellFormedElse o) (h' : WellFormedElse o')
    (he : eraseElse o = eraseElse o') :
    Option.Rel (Block.Matched (fun _ => True) Expr.Twin) o o' := by
  cases o with
  | none =>
    cases o' with
    | none => exact .none
    | some => simp at he
  | some b =>
    cases o' with
    | none => simp at he
    | some b' => exact .some (Block.matched_twin h h' (Option.some.inj he))

namespace Eval

theorem matching_twin : Matching (fun _ => True) id Expr.Twin Closure.Twin where
  tree := by
    rintro e e' ⟨h, h', he⟩
    cases e with
    | ident name =>
      cases e' with
      | ident name' =>
        simp only [Expr.erase_ident, Expr.ident.injEq] at he
        exact .ident (Ident.matched_of_erase he)
      | _ => simp at he
    | int _ value =>
      cases e' with
      | int _ value' =>
        simp only [Expr.erase_int, Expr.int.injEq, true_and] at he
        exact he ▸ .int value
      | _ => simp at he
    | bool _ value =>
      cases e' with
      | bool _ value' =>
        simp only [Expr.erase_bool, Expr.bool.injEq, true_and] at he
        exact he ▸ .bool value
      | _ => simp at he
    | unary _ operator operand _ =>
      cases e' with
      | unary _ _ operand' _ =>
        simp only [Expr.erase_unary, Expr.unary.injEq, true_and, and_true] at he
        exact he.1 ▸ .unary operator ⟨h.2, h'.2, he.2⟩
      | _ => simp at he
    | binary _ left operator right _ =>
      cases e' with
      | binary _ left' _ right' _ =>
        simp only [Expr.erase_binary, Expr.binary.injEq, true_and, and_true] at he
        exact he.2.1 ▸ .binary operator ⟨h.2.1, h'.2.1, he.1⟩ ⟨h.2.2, h'.2.2, he.2.2⟩
      | _ => simp at he
    | cond _ test consequence alternative _ =>
      cases e' with
      | cond _ test' consequence' alternative' _ =>
        simp only [Expr.erase_cond, Expr.cond.injEq, true_and, and_true] at he
        exact .cond ⟨h.1, h'.1, he.1⟩ (Block.matched_twin h.2.1 h'.2.1 he.2.1)
          (twin_else h.2.2 h'.2.2 he.2.2)
      | _ => simp at he
    | fn _ parameters body _ =>
      cases e' with
      | fn _ parameters' body' _ =>
        refine .fn fun id id' scope => ⟨⟨⟨rfl, h.2⟩, ⟨rfl, h'.2⟩, ?_⟩, rfl⟩
        simpa [Closure.literal] using he
      | _ => simp at he
    | call _ callee arguments _ =>
      cases e' with
      | call _ callee' arguments' _ =>
        simp only [Expr.erase_call, Expr.call.injEq, true_and, and_true] at he
        exact .call ⟨h.1, h'.1, he.1⟩ (twin_arguments h.2 h'.2 he.2)
      | _ => simp at he
  function := by
    rintro f g ⟨⟨⟨-, -, h⟩, ⟨-, -, h'⟩, he⟩, scope⟩
    simp only [Closure.literal, Expr.erase_fn, Expr.fn.injEq, true_and, and_true] at he
    exact ⟨matched_parameters he.1, Block.matched_twin h h' he.2, scope⟩

end Eval

/-! ### What can be read again -/

theorem Expr.WellFormed.twin {e : Expr} (h : e.WellFormed) : e.Twin e := ⟨h, h, rfl⟩

/-- Its function, if it has one in it, can be read again. -/
def Value.WellFormed : Value → Prop
  | fn f => f.literal.WellFormed
  | returned v => v.WellFormed
  | int _ | bool _ | error _ | null => True

theorem Value.wellFormed_iff {v : Value} : v.WellFormed ↔ Value.Rel Closure.Twin v v := by
  constructor
  · intro h
    induction v with
    | fn f => exact .fn ⟨Expr.WellFormed.twin h, rfl⟩
    | returned v ih => exact .returned (ih h)
    | int | bool | error | null => constructor
  · intro related
    induction v with
    | fn f =>
      cases related with
      | fn twin => exact twin.literal.left
    | returned v ih =>
      cases related with
      | returned related => exact ih related
    | int | bool | error | null => trivial

namespace Heap

/-- All functions that are bound can be read again. -/
def WellFormed (h : Heap) : Prop := ∀ i x v, h.own? i x = some v → v.WellFormed

variable {F : Closure → Closure → Prop} {h k : Heap}

/-- It does not matter how many functions have been made. -/
theorem matched_of_same (same : k.scopes = h.scopes)
    (bound : ∀ i x v, h.own? i x = some v → Value.Rel F v v) :
    h.Matched (fun _ => True) id F none k where
  next n := by rw [id, next, next, same]
  scope i := by
    rw [id, same]
    cases hs : h.scopes[i]? with
    | none => exact .none
    | some s =>
      refine .some ⟨by simp, fun x _ => ?_⟩
      cases hv : s.get? x with
      | none => exact .none
      | some v => exact .some (bound i x v (by rw [own?, hs]; exact hv))
  blank := nofun

theorem simulation_same :
    Simulation (fun _ => True) id F (Matched (fun _ => True) id F none) :=
  simulation_matched Iff.rfl nofun

theorem wellFormed_iff : h.WellFormed ↔ h.Matched (fun _ => True) id Closure.Twin none h := by
  constructor
  · intro wf
    exact matched_of_same rfl fun i x v hv => Value.wellFormed_iff.1 (wf i x v hv)
  · intro matched i x v hv
    obtain ⟨s, hs, hv⟩ := Option.bind_eq_some_iff.1 hv
    have scopes := matched.scope i
    rw [id, hs] at scopes
    obtain ⟨scopes⟩ := scopes
    have bound := scopes.get? x trivial
    rw [hv] at bound
    obtain ⟨value⟩ := bound
    exact Value.wellFormed_iff.2 value

theorem wellFormed_empty : Heap.empty.WellFormed := by
  intro i x v hv
  simp [own?, empty] at hv

namespace WellFormed

theorem add (wf : h.WellFormed) (outer : Option ScopeId) : (h.add outer).WellFormed :=
  wellFormed_iff.2 ((wellFormed_iff.1 wf).add Iff.rfl (by simp))

theorem set (wf : h.WellFormed) (scope : ScopeId) (name : String) {v : Value}
    (hv : v.WellFormed) : (h.set scope name v).WellFormed := by
  have value := Value.wellFormed_iff.1 hv
  exact wellFormed_iff.2 (simulation_same.set (wellFormed_iff.1 wf) scope name v v trivial value)

theorem get? (wf : h.WellFormed) {scope : ScopeId} {name : String} {v : Value}
    (hv : h.get? scope name = some v) : v.WellFormed := by
  have found := simulation_same.get? (wellFormed_iff.1 wf) scope name trivial
  rw [id, hv] at found
  obtain ⟨value⟩ := found
  exact Value.wellFormed_iff.2 value

end WellFormed

end Heap

namespace Eval

/-- What a program that can be read makes of functions can be read again. -/
theorem wellFormed_program {n : Nat} {p : Program} (hp : WellFormedBody p.statements)
    {scope : ScopeId} {h h' : Heap} (wf : h.WellFormed) {v : Value}
    (run : program n p scope h = some (v, h')) : h'.WellFormed ∧ v.WellFormed := by
  have related := matching_twin.related_program Heap.simulation_same n
    (twin_body hp hp rfl) scope (Heap.wellFormed_iff.1 wf)
  rw [id, run] at related
  obtain ⟨value, heaps⟩ := related
  exact ⟨Heap.wellFormed_iff.2 heaps, Value.wellFormed_iff.2 value⟩

/-- Functions that are twins do the same with whatever they are called with, wherever that comes
from. -/
theorem related_apply_of_twin {f g : Closure} (twin : f.Twin g) (values : List Value) {h k : Heap}
    (same : k.scopes = h.scopes) (n : Nat) :
    Related Value.LooksLike (fun _ _ => True) (apply n (.fn f) values h)
      (apply n (.fn g) values k) := by
  -- what is called may call what it is given, and that may be no twin of itself
  let F (f g : Closure) : Prop := f.Alike (fun _ => True) id g ∨ f.Twin g
  have self : ∀ v, Value.Rel F v v := by
    intro v
    induction v with
    | fn f => exact .fn (.inl (.intro f.id fun _ _ => trivial))
    | returned v ih => exact .returned ih
    | int | bool | error | null => constructor
  have render_eq : ∀ f g, F f g → g.render = f.render := by
    rintro f g (alike | twin)
    · exact alike.render_eq
    · exact twin.render_eq
  have related := (matching_same.or matching_twin).related_apply
    Heap.simulation_same n (.fn (.inr twin))
    (List.forall₂_same.2 fun v (_ : v ∈ values) => self v)
    (Heap.matched_of_same same fun _ _ v _ => self v)
  exact related.mono (fun _ _ => Value.Rel.looksLike render_eq) fun _ _ _ => trivial

end Eval

end LetFn
