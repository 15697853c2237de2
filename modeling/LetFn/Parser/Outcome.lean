import LetFn.Cursor

/-! What a parsing step leaves behind. -/

namespace LetFn

/-- A result or the error that ended the step, where reading goes on, and the errors of the
statements dropped on the way. -/
inductive Outcome (α : Type) (σ : Type := TokenList) where
  | ok (value : α) (next : Cursor σ) (dropped : List ParseError)
  | error (cause : ParseError) (next : Cursor σ) (dropped : List ParseError)
  | outOfFuel

namespace Outcome

variable {α β σ : Type}

/-- The outcome of a step that had errors dropped before it. -/
def after (earlier : List ParseError) : Outcome α σ → Outcome α σ
  | ok value next dropped => ok value next (earlier ++ dropped)
  | error cause next dropped => error cause next (earlier ++ dropped)
  | outOfFuel => outOfFuel

/-- Goes on with the result, unless there is none. -/
def bind (o : Outcome α σ) (f : α → Cursor σ → Outcome β σ) : Outcome β σ :=
  match o with
  | ok value next dropped => (f value next).after dropped
  | error cause next dropped => error cause next dropped
  | outOfFuel => outOfFuel

def map (f : α → β) : Outcome α σ → Outcome β σ
  | ok value next dropped => ok (f value) next dropped
  | error cause next dropped => error cause next dropped
  | outOfFuel => outOfFuel

@[simp] theorem after_nil (o : Outcome α σ) : o.after [] = o := by cases o <;> rfl

@[simp] theorem after_after (es fs : List ParseError) (o : Outcome α σ) :
    (o.after fs).after es = o.after (es ++ fs) := by
  cases o <;> simp [after]

end Outcome

/-- Advances onto the next token if it has the expected kind. -/
def Cursor.expect {σ : Type} [TokenSource σ] (c : Cursor σ) (kind : Kind) : Outcome Token σ :=
  if c.peekIs kind then .ok c.peek c.advance [] else .error (unexpected kind c.peek) c []

end LetFn
