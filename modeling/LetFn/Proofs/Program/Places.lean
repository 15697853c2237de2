import LetFn.Parsed
import LetFn.Program.Render
import LetFn.Proofs.Program.Relabel
import LetFn.Proofs.Token.Words

/-! Trees and errors whose places have been moved, and trees and errors without places. Either way
every token keeps its kind and its literal. -/

namespace LetFn

/-! ### Changing a tree twice, and not at all -/

section

variable {f f' : Token → Token} {g g' : Span → Span}

theorem Ident.relabel_relabel (i : Ident) : (i.relabel f).relabel f' = i.relabel (f' ∘ f) := rfl

theorem map_relabel_relabel (names : List Ident) :
    (names.map (Ident.relabel f)).map (Ident.relabel f') = names.map (Ident.relabel (f' ∘ f)) := by
  rw [List.map_map]
  rfl

mutual

theorem Expr.relabel_relabel (e : Expr) :
    (e.relabel f g).relabel f' g' = e.relabel (f' ∘ f) (g' ∘ g) := by
  match e with
  | .ident _ | .int _ _ | .bool _ _ => rfl
  | .unary _ _ operand _ => simp [Expr.relabel, operand.relabel_relabel]
  | .binary _ left _ right _ => simp [Expr.relabel, left.relabel_relabel, right.relabel_relabel]
  | .cond _ test consequence alternative _ =>
    simp [Expr.relabel, test.relabel_relabel, consequence.relabel_relabel,
      relabelElse_relabelElse alternative]
  | .fn _ parameters body _ =>
    simp only [Expr.relabel, map_relabel_relabel, body.relabel_relabel, Function.comp]
  | .call _ callee arguments _ =>
    simp [Expr.relabel, callee.relabel_relabel, relabelArguments_relabelArguments arguments]

theorem relabelElse_relabelElse (alternative : Option Block) :
    relabelElse f' g' (relabelElse f g alternative) =
      relabelElse (f' ∘ f) (g' ∘ g) alternative := by
  match alternative with
  | none => rfl
  | some block => simp [relabelElse, block.relabel_relabel]

theorem relabelArguments_relabelArguments (es : List Expr) :
    relabelArguments f' g' (relabelArguments f g es) = relabelArguments (f' ∘ f) (g' ∘ g) es := by
  match es with
  | [] => rfl
  | e :: es => simp [relabelArguments, e.relabel_relabel, relabelArguments_relabelArguments es]

theorem Stmt.relabel_relabel (s : Stmt) :
    (s.relabel f g).relabel f' g' = s.relabel (f' ∘ f) (g' ∘ g) := by
  match s with
  | .bind _ _ value _ => simp [Stmt.relabel, value.relabel_relabel, Ident.relabel_relabel]
  | .ret _ value _ | .expr _ value _ => simp [Stmt.relabel, value.relabel_relabel]

theorem Block.relabel_relabel (b : Block) :
    (b.relabel f g).relabel f' g' = b.relabel (f' ∘ f) (g' ∘ g) := by
  match b with
  | .mk _ statements _ => simp [Block.relabel, relabelBody_relabelBody statements]

theorem relabelBody_relabelBody (ss : List Stmt) :
    relabelBody f' g' (relabelBody f g ss) = relabelBody (f' ∘ f) (g' ∘ g) ss := by
  match ss with
  | [] => rfl
  | s :: ss => simp [relabelBody, s.relabel_relabel, relabelBody_relabelBody ss]

end

mutual

theorem Expr.relabel_id (e : Expr) : e.relabel id id = e := by
  match e with
  | .ident _ | .int _ _ | .bool _ _ => rfl
  | .unary _ _ operand _ => simp [Expr.relabel, operand.relabel_id]
  | .binary _ left _ right _ => simp [Expr.relabel, left.relabel_id, right.relabel_id]
  | .cond _ test consequence alternative _ =>
    simp [Expr.relabel, test.relabel_id, consequence.relabel_id, relabelElse_id alternative]
  | .fn _ parameters body _ =>
    have names : parameters.map (Ident.relabel id) = parameters := List.map_id parameters
    simp [Expr.relabel, names, body.relabel_id]
  | .call _ callee arguments _ =>
    simp [Expr.relabel, callee.relabel_id, relabelArguments_id arguments]

theorem relabelElse_id (alternative : Option Block) :
    relabelElse id id alternative = alternative := by
  match alternative with
  | none => rfl
  | some block => simp [relabelElse, block.relabel_id]

theorem relabelArguments_id (es : List Expr) : relabelArguments id id es = es := by
  match es with
  | [] => rfl
  | e :: es => simp [relabelArguments, e.relabel_id, relabelArguments_id es]

theorem Stmt.relabel_id (s : Stmt) : s.relabel id id = s := by
  match s with
  | .bind _ _ value _ => simp [Stmt.relabel, Ident.relabel, value.relabel_id]
  | .ret _ value _ | .expr _ value _ => simp [Stmt.relabel, value.relabel_id]

theorem Block.relabel_id (b : Block) : b.relabel id id = b := by
  match b with
  | .mk _ statements _ => simp [Block.relabel, relabelBody_id statements]

theorem relabelBody_id (ss : List Stmt) : relabelBody id id ss = ss := by
  match ss with
  | [] => rfl
  | s :: ss => simp [relabelBody, s.relabel_id, relabelBody_id ss]

end

theorem relabelBody_eq_map (ss : List Stmt) :
    relabelBody f g ss = ss.map (Stmt.relabel f g) := by
  induction ss with
  | nil => rfl
  | cons s ss ih => rw [relabelBody, ih, List.map_cons]

theorem relabelArguments_eq_map (es : List Expr) :
    relabelArguments f g es = es.map (Expr.relabel f g) := by
  induction es with
  | nil => rfl
  | cons e es ih => rw [relabelArguments, ih, List.map_cons]

end

/-! ### What is written does not depend on places -/

section

variable {f : Token → Token} {g : Span → Span}

theorem map_name_relabel (names : List Ident) :
    (names.map (Ident.relabel f)).map Ident.name = names.map Ident.name := by
  rw [List.map_map]
  rfl

mutual

theorem Expr.render_relabel (hf : ∀ t, (f t).literal = t.literal) (e : Expr) :
    (e.relabel f g).render = e.render := by
  match e with
  | .ident _ | .int _ _ | .bool _ _ => rfl
  | .unary _ _ operand _ => simp [Expr.relabel, Expr.render, operand.render_relabel hf]
  | .binary _ left _ right _ =>
    simp [Expr.relabel, Expr.render, left.render_relabel hf, right.render_relabel hf]
  | .cond _ test consequence alternative _ =>
    simp [Expr.relabel, Expr.render, test.render_relabel hf, consequence.render_relabel hf,
      renderElse_relabel hf alternative]
  | .fn _ parameters body _ =>
    simp only [Expr.relabel, Expr.render, map_name_relabel, body.render_relabel hf, hf]
  | .call _ callee arguments _ =>
    simp [Expr.relabel, Expr.render, callee.render_relabel hf,
      renderArguments_relabel hf arguments]

theorem renderElse_relabel (hf : ∀ t, (f t).literal = t.literal) (alternative : Option Block) :
    renderElse (relabelElse f g alternative) = renderElse alternative := by
  match alternative with
  | none => rfl
  | some block => simp [relabelElse, renderElse, block.render_relabel hf]

theorem renderArguments_relabel (hf : ∀ t, (f t).literal = t.literal) (es : List Expr) :
    renderArguments (relabelArguments f g es) = renderArguments es := by
  match es with
  | [] => rfl
  | e :: es =>
    simp [relabelArguments, renderArguments, e.render_relabel hf, renderArguments_relabel hf es]

theorem Stmt.render_relabel (hf : ∀ t, (f t).literal = t.literal) (s : Stmt) :
    (s.relabel f g).render = s.render := by
  match s with
  | .bind _ _ value _ =>
    simp [Stmt.relabel, Stmt.render, Ident.relabel, value.render_relabel hf, hf]
  | .ret _ value _ | .expr _ value _ =>
    simp [Stmt.relabel, Stmt.render, value.render_relabel hf, hf]

theorem Block.render_relabel (hf : ∀ t, (f t).literal = t.literal) (b : Block) :
    (b.relabel f g).render = b.render := by
  match b with
  | .mk _ statements _ =>
    simp [Block.relabel, Block.render, renderBody_relabel hf statements]

theorem renderBody_relabel (hf : ∀ t, (f t).literal = t.literal) (ss : List Stmt) :
    renderBody (relabelBody f g ss) = renderBody ss := by
  match ss with
  | [] => rfl
  | .bind token name value span :: ss | .ret token value span :: ss =>
    simp [relabelBody, Stmt.relabel, renderBody, Stmt.render, Ident.relabel,
      value.render_relabel hf, renderBody_relabel hf ss, hf]
  | .expr token value span :: ss =>
    simp [relabelBody, Stmt.relabel, renderBody, value.render_relabel hf,
      renderBody_relabel hf ss]

end

end

/-! ### Moving -/

/-- Puts what stood at an offset to where `φ` says. -/
def Span.move (φ : Nat → Nat) (s : Span) : Span := ⟨φ s.start, φ s.stop⟩

def Token.move (φ : Nat → Nat) (t : Token) : Token := { t with span := t.span.move φ }

def ParseError.move (φ : Nat → Nat) (e : ParseError) : ParseError :=
  { e with span := e.span.move φ }

abbrev Ident.move (φ : Nat → Nat) : Ident → Ident := Ident.relabel (Token.move φ)

abbrev Expr.move (φ : Nat → Nat) : Expr → Expr := Expr.relabel (Token.move φ) (Span.move φ)

abbrev Stmt.move (φ : Nat → Nat) : Stmt → Stmt := Stmt.relabel (Token.move φ) (Span.move φ)

abbrev Block.move (φ : Nat → Nat) : Block → Block := Block.relabel (Token.move φ) (Span.move φ)

def Program.move (φ : Nat → Nat) (p : Program) : Program := ⟨p.statements.map (Stmt.move φ)⟩

section

variable (φ ψ : Nat → Nat)

@[simp] theorem Token.kind_move (t : Token) : (t.move φ).kind = t.kind := rfl

@[simp] theorem Token.literal_move (t : Token) : (t.move φ).literal = t.literal := rfl

@[simp] theorem Token.span_move (t : Token) : (t.move φ).span = t.span.move φ := rfl

@[simp] theorem Expr.span_move (e : Expr) : (e.move φ).span = e.span.move φ := by
  cases e <;> rfl

@[simp] theorem Block.span_move (b : Block) : (b.move φ).span = b.span.move φ := by
  cases b
  rfl

theorem Program.move_move (p : Program) : (p.move φ).move ψ = p.move (ψ ∘ φ) := by
  simp only [move, List.map_map]
  congr 1
  exact List.map_congr_left fun s _ => s.relabel_relabel

theorem map_move_id (ss : List Stmt) : ss.map (Stmt.move id) = ss :=
  (List.map_congr_left fun s _ => s.relabel_id).trans (List.map_id ss)

end

/-! ### Without places -/

def Token.placeless : Token → Token := Token.move fun _ => 0

def ParseError.placeless : ParseError → ParseError := ParseError.move fun _ => 0

def Program.placeless : Program → Program := Program.move fun _ => 0

theorem Token.literal_placeless (t : Token) : t.placeless.literal = t.literal := rfl

/-- What is left of a token without its place is its kind and its literal. -/
theorem Token.placeless_eq_iff {t t' : Token} : t.placeless = t'.placeless ↔ t.word = t'.word := by
  obtain ⟨kind, literal, span⟩ := t
  obtain ⟨kind', literal', span'⟩ := t'
  simp [placeless, move, word, Span.move]

end LetFn
