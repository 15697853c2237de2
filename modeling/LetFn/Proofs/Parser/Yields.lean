import LetFn.Parser

/-! Steps that go well as long as their fuel lasts. That it lasts is shown apart, so nothing here
counts fuel. -/

namespace LetFn

namespace Outcome

variable {α β : Type} {G H : α → Cursor → Prop}

/-- Unless fuel runs out there is a result, nothing was dropped for it, and `G` holds. -/
def Yields (G : α → Cursor → Prop) : Outcome α → Prop
  | ok value next dropped => dropped = [] ∧ G value next
  | error _ _ _ => False
  | outOfFuel => True

theorem Yields.mono {o : Outcome α} (ho : o.Yields G) (h : ∀ v c, G v c → H v c) :
    o.Yields H := by
  cases o with
  | ok value next dropped => exact ⟨ho.1, h _ _ ho.2⟩
  | error => exact ho
  | outOfFuel => trivial

theorem Yields.bind {o : Outcome α} {f : α → Cursor → Outcome β} {G' : β → Cursor → Prop}
    (ho : o.Yields G) (hf : ∀ v c, G v c → (f v c).Yields G') : (o.bind f).Yields G' := by
  cases o with
  | ok value next dropped =>
    obtain ⟨rfl, h⟩ := ho
    simpa [Outcome.bind] using hf value next h
  | error => exact ho
  | outOfFuel => trivial

@[simp] theorem yields_map {o : Outcome α} {f : α → β} {G' : β → Cursor → Prop} :
    (o.map f).Yields G' ↔ o.Yields fun v c => G' (f v) c := by
  cases o <;> rfl

end Outcome

namespace Parser

theorem operand_unary {n : Nat} {c : Cursor}
    (hk : c.current.kind = .bang ∨ c.current.kind = .minus) :
    operand (n + 1) c = (expression n .unary c.advance).bind fun right c' =>
      .ok (.unary c.current c.current.literal right
        ⟨c.current.span.start, right.span.stop⟩) c' [] := by
  rcases hk with hk | hk
  · simp only [operand, hk]
  · simp only [operand, hk]

/-- A list of statements goes on behind the first one. -/
theorem statements_yields_cons {n : Nat} {closes : Kind → Bool} {c : Cursor}
    {G : Stmt → Cursor → Prop} {H : List Stmt → Cursor → Prop}
    (opens : ¬ closes c.current.kind = true) (first : (statement n c).Yields G)
    (rest : ∀ s c₁, G s c₁ → (statements n closes c₁.advance).Yields fun ss => H (s :: ss)) :
    (statements (n + 1) closes c).Yields H := by
  simp only [statements]
  rw [if_neg opens]
  cases h : statement n c with
  | ok s c₁ dropped =>
    rw [h] at first
    obtain ⟨rfl, hs⟩ := first
    simpa using rest s c₁ hs
  | error =>
    rw [h] at first
    exact first.elim
  | outOfFuel => trivial

end Parser

namespace Cursor

variable {β : Type} {G : β → Cursor → Prop} {c : Cursor} {kind : Kind}

theorem yields_expect_bind {f : Token → Cursor → Outcome β} (hk : c.peek.kind = kind)
    (h : (f c.peek c.advance).Yields G) : ((c.expect kind).bind f).Yields G := by
  simpa [expect, peekIs, hk, Outcome.bind] using h

theorem yields_expect_map {f : Token → β} (hk : c.peek.kind = kind)
    (h : G (f c.peek) c.advance) : ((c.expect kind).map f).Yields G := by
  simpa [expect, peekIs, hk, Outcome.map] using ⟨rfl, h⟩

theorem current_eq {t : Token} {w : List Token} (h : c.tokens = t :: w) : c.current = t := by
  simp [current_eq_headD, h]

theorem advance_eq {t : Token} {w : List Token} (h : c.tokens = t :: w) :
    c.advance.tokens = w := by
  simp [h]

theorem peek_eq {t : Token} {w : List Token} (h : c.advance.tokens = t :: w) : c.peek = t :=
  current_eq (c := c.advance) h

end Cursor

end LetFn
