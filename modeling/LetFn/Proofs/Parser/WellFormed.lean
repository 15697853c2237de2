import LetFn.Parsed
import LetFn.Proofs.Decimal
import LetFn.Proofs.Grammar
import LetFn.Proofs.Program.WellFormed

/-! Everything that is read from a text is well-formed, also behind a statement that was dropped. -/

namespace LetFn

/-! ### Tokens of a text -/

namespace Token

variable {t : Token}

theorem Lexed.unary (h : t.Lexed) (hk : t.kind.isUnary = true) : t.literal ∈ unaryOperators := by
  have text := h.text
  cases kind : t.kind <;> simp_all [Kind.isUnary, Kind.text?, unaryOperators]

theorem Lexed.binary (h : t.Lexed) (hk : t.kind.isBinary = true) :
    t.literal ∈ binaryOperators := by
  have text := h.text
  cases kind : t.kind <;> simp_all [Kind.isBinary, Kind.text?, binaryOperators]

theorem Lexed.eof (offset : Nat) : (Token.eof offset).Lexed := Spelled.eof

end Token

namespace Cursor

variable {c : Cursor}

def Lexed (c : Cursor) : Prop := ∀ t ∈ c.tokens, t.Lexed

theorem Lexed.advance (h : c.Lexed) : c.advance.Lexed :=
  fun t ht => h t (List.mem_of_mem_tail ht)

theorem Lexed.current (h : c.Lexed) : c.current.Lexed := by
  obtain ⟨tokens, stop⟩ := c
  cases tokens with
  | nil => exact .eof stop
  | cons t ts => exact h t List.mem_cons_self

theorem Lexed.peek (h : c.Lexed) : c.peek.Lexed := h.advance.current

theorem Lexed.skipSemicolon (h : c.Lexed) : c.skipSemicolon.Lexed := by
  unfold Cursor.skipSemicolon
  split
  · exact h.advance
  · exact h

end Cursor

namespace Outcome

variable {α β : Type} {G : α → Prop}

/-- The result, if there is one, satisfies `G`; what is left to read is still from a text. -/
def Ensures (G : α → Prop) : Outcome α → Prop
  | ok value next _ => G value ∧ next.Lexed
  | error _ next _ => next.Lexed
  | outOfFuel => True

@[simp] theorem ensures_after {es : List ParseError} {o : Outcome α} :
    (o.after es).Ensures G ↔ o.Ensures G := by
  cases o <;> rfl

@[simp] theorem ensures_map {H : β → Prop} {f : α → β} {o : Outcome α} :
    (o.map f).Ensures H ↔ o.Ensures fun v => H (f v) := by
  cases o <;> rfl

theorem Ensures.mono {G' : α → Prop} {o : Outcome α} (ho : o.Ensures G)
    (h : ∀ v, G v → G' v) : o.Ensures G' := by
  cases o with
  | ok value next dropped => exact ⟨h value ho.1, ho.2⟩
  | error | outOfFuel => exact ho

theorem Ensures.bind {H : β → Prop} {o : Outcome α} {f : α → Cursor → Outcome β}
    (ho : o.Ensures G) (hf : ∀ v c, G v → c.Lexed → (f v c).Ensures H) : (o.bind f).Ensures H := by
  cases o with
  | ok value next dropped => exact ensures_after.2 (hf value next ho.1 ho.2)
  | error | outOfFuel => exact ho

theorem ensures_expect_bind {H : β → Prop} {c : Cursor} {kind : Kind}
    {f : Token → Cursor → Outcome β} (hc : c.Lexed)
    (hf : c.peek.kind = kind → c.advance.Lexed → (f c.peek c.advance).Ensures H) :
    ((c.expect kind).bind f).Ensures H := by
  by_cases hk : c.peek.kind = kind
  · simpa [Cursor.expect, Cursor.peekIs, hk, Outcome.bind] using hf hk hc.advance
  · simpa [Cursor.expect, Cursor.peekIs, hk, Outcome.bind, Ensures] using hc

theorem ensures_expect_map {H : β → Prop} {c : Cursor} {kind : Kind} {f : Token → β}
    (hc : c.Lexed) (hf : c.peek.kind = kind → H (f c.peek)) :
    ((c.expect kind).map f).Ensures H := by
  by_cases hk : c.peek.kind = kind
  · simpa [Cursor.expect, Cursor.peekIs, hk, Outcome.map] using ⟨hf hk, hc.advance⟩
  · simpa [Cursor.expect, Cursor.peekIs, hk, Outcome.map, Ensures] using hc

end Outcome

namespace Parser

open Outcome

/-! ### Every step -/

theorem integer_ensures {c : Cursor} (hc : c.Lexed) (hk : c.current.kind = .int) :
    (integer c).Ensures Expr.WellFormed := by
  unfold integer
  split
  · next value hv => exact ⟨Decimal.nonneg_of_digits (hc.current.digits hk).2 hv, hc⟩
  · exact hc

theorem parameters_ensures {n : Nat} {c : Cursor} (hc : c.Lexed) :
    (parameters n c).Ensures fun names => ∀ p ∈ names, IsName p.name := by
  induction n generalizing c with
  | zero => trivial
  | succ n ih =>
    simp only [parameters]
    split
    · exact ⟨by simp, hc.advance⟩
    apply ensures_expect_bind hc
    intro hk hc'
    have name : IsName c.peek.literal := hc.peek.name hk
    split
    · exact ensures_map.2 ((ih hc'.advance).mono fun names h => by simpa using ⟨name, h⟩)
    · exact ensures_expect_map hc' fun _ => by simpa using name

mutual

theorem expression_ensures {n : Nat} {floor : Precedence} {c : Cursor} (hc : c.Lexed) :
    (expression n floor c).Ensures Expr.WellFormed := by
  match n with
  | 0 => trivial
  | n + 1 =>
    simp only [expression]
    apply (operand_ensures hc).bind
    intro left c' hl hc'
    exact climb_ensures hc' hl

theorem operand_ensures {n : Nat} {c : Cursor} (hc : c.Lexed) :
    (operand n c).Ensures Expr.WellFormed := by
  match n with
  | 0 => trivial
  | n + 1 =>
    simp only [operand]
    split
    case h_1 hk => exact ⟨hc.current.name hk, hc⟩
    case h_2 hk => exact integer_ensures hc hk
    case h_3 | h_4 => exact ⟨trivial, hc⟩
    case h_5 hk | h_6 hk =>
      apply (expression_ensures hc.advance).bind
      intro right c' hr hc'
      exact ⟨⟨hc.current.unary (by simp [hk, Kind.isUnary]), hr⟩, hc'⟩
    case h_7 =>
      apply (expression_ensures hc.advance).bind
      intro inner c' hi hc'
      exact ensures_expect_map hc' fun _ => hi
    case h_8 => exact conditional_ensures hc
    case h_9 hk => exact function_ensures hc hk
    case h_10 => exact hc

theorem climb_ensures {n : Nat} {floor : Precedence} {left : Expr} {c : Cursor} (hc : c.Lexed)
    (hl : left.WellFormed) : (climb n floor left c).Ensures Expr.WellFormed := by
  match n with
  | 0 => trivial
  | n + 1 =>
    simp only [climb]
    split
    · next hp =>
      split
      · refine (arguments_ensures hc.advance).bind fun args c' ha hc' => ?_
        exact climb_ensures hc' ⟨hl, ha⟩
      · next hk =>
        have hb := (Precedence.isBinary_or_lparen hp).resolve_right hk
        apply (expression_ensures hc.advance.advance).bind
        intro right c' hr hc'
        exact climb_ensures hc' ⟨hc.peek.binary hb, hl, hr⟩
    · exact ⟨hl, hc⟩

theorem arguments_ensures {n : Nat} {c : Cursor} (hc : c.Lexed) :
    (arguments n c).Ensures WellFormedArguments := by
  match n with
  | 0 => trivial
  | n + 1 =>
    simp only [arguments]
    split
    · exact ⟨trivial, hc.advance⟩
    apply (expression_ensures hc.advance).bind
    intro first c' hf hc'
    split
    · exact ensures_map.2 ((arguments_ensures hc'.advance).mono fun es h => ⟨hf, h⟩)
    · exact ensures_expect_map hc' fun _ => ⟨hf, trivial⟩

theorem conditional_ensures {n : Nat} {c : Cursor} (hc : c.Lexed) :
    (conditional n c).Ensures Expr.WellFormed := by
  match n with
  | 0 => trivial
  | n + 1 =>
    simp only [conditional]
    apply ensures_expect_bind hc
    intro _ hc
    apply (expression_ensures hc.advance).bind
    intro test c₁ ht hc₁
    apply ensures_expect_bind hc₁
    intro _ hc₁
    apply ensures_expect_bind hc₁
    intro _ hc₁
    apply (block_ensures hc₁).bind
    intro body c₂ hb hc₂
    split
    · refine ensures_expect_bind hc₂.advance fun _ hc₂ => ?_
      exact ensures_map.2 ((block_ensures hc₂).mono fun body' hb' => ⟨ht, hb, hb'⟩)
    · exact ⟨⟨ht, hb, trivial⟩, hc₂⟩

theorem function_ensures {n : Nat} {c : Cursor} (hc : c.Lexed) (hk : c.current.kind = .fnWord) :
    (function n c).Ensures Expr.WellFormed := by
  match n with
  | 0 => trivial
  | n + 1 =>
    have word : c.current.literal = "fn" := hc.current.text _ (by rw [hk, Kind.text?])
    simp only [function]
    apply ensures_expect_bind hc
    intro _ hc
    apply (parameters_ensures hc).bind
    intro names c₁ hn hc₁
    apply ensures_expect_bind hc₁
    intro _ hc₁
    exact ensures_map.2 ((block_ensures hc₁).mono fun body hb => ⟨word, hn, hb⟩)

theorem block_ensures {n : Nat} {c : Cursor} (hc : c.Lexed) :
    (block n c).Ensures Block.WellFormed := by
  match n with
  | 0 => trivial
  | n + 1 =>
    simp only [block]
    apply (statements_ensures hc.advance).bind
    intro body c' hb hc'
    split
    · exact hc'
    · exact ⟨hb, hc'⟩

/-- What is left behind a statement that failed is from the text as well. -/
theorem statements_ensures {n : Nat} {closes : Kind → Bool} {c : Cursor} (hc : c.Lexed) :
    (statements n closes c).Ensures WellFormedBody := by
  match n with
  | 0 => trivial
  | n + 1 =>
    simp only [statements]
    split
    · exact ⟨trivial, hc⟩
    have first : (statement n c).Ensures Stmt.WellFormed := statement_ensures hc
    cases h : statement n c with
    | ok s c₁ dropped =>
      rw [h] at first
      obtain ⟨hs, hc₁⟩ := first
      exact ensures_after.2 <| ensures_map.2 <|
        (statements_ensures hc₁.advance).mono fun ss hss => ⟨hs, hss⟩
    | error cause c₁ dropped =>
      rw [h] at first
      have hc₁ : c₁.Lexed := first
      exact ensures_after.2 (statements_ensures hc₁.skipSemicolon.advance)
    | outOfFuel => trivial

theorem statement_ensures {n : Nat} {c : Cursor} (hc : c.Lexed) :
    (statement n c).Ensures Stmt.WellFormed := by
  match n with
  | 0 => trivial
  | n + 1 =>
    simp only [statement]
    split
    · next hk => exact binding_ensures hc hk
    · next hk => exact ret_ensures hc hk
    · exact expressionStatement_ensures hc

theorem binding_ensures {n : Nat} {c : Cursor} (hc : c.Lexed) (hk : c.current.kind = .letWord) :
    (binding n c).Ensures Stmt.WellFormed := by
  match n with
  | 0 => trivial
  | n + 1 =>
    have word : c.current.literal = "let" := hc.current.text _ (by rw [hk, Kind.text?])
    simp only [binding]
    apply ensures_expect_bind hc
    intro hn hc₁
    have name : IsName c.peek.literal := hc.peek.name hn
    apply ensures_expect_bind hc₁
    intro _ hc₂
    apply (expression_ensures hc₂.advance).bind
    intro value c₃ hv hc₃
    exact ⟨⟨word, name, hv⟩, hc₃.skipSemicolon⟩

theorem ret_ensures {n : Nat} {c : Cursor} (hc : c.Lexed) (hk : c.current.kind = .returnWord) :
    (ret n c).Ensures Stmt.WellFormed := by
  match n with
  | 0 => trivial
  | n + 1 =>
    have word : c.current.literal = "return" := hc.current.text _ (by rw [hk, Kind.text?])
    simp only [ret]
    apply (expression_ensures hc.advance).bind
    intro value c₁ hv hc₁
    exact ⟨⟨word, hv⟩, hc₁.skipSemicolon⟩

theorem expressionStatement_ensures {n : Nat} {c : Cursor} (hc : c.Lexed) :
    (expressionStatement n c).Ensures Stmt.WellFormed := by
  match n with
  | 0 => trivial
  | n + 1 =>
    simp only [expressionStatement]
    apply (expression_ensures hc).bind
    intro value c₁ hv hc₁
    exact ⟨hv, hc₁.skipSemicolon⟩

end

end Parser

/-- Whatever is read from a text is well-formed, at any depth, with or without errors. -/
theorem wellFormed_of_mem_parseChars {cs : List Char} {s : Stmt}
    (h : s ∈ (parseChars cs).program.statements) : s.WellFormed := by
  have ensures : (Parser.program (.ofTokens (Token.ofChars cs))).Ensures WellFormedBody :=
    Parser.statements_ensures fun t ht => Token.lexed_of_mem_ofChars ht
  simp only [parseChars, parseTokens, Parser.read] at h
  cases hp : Parser.program (.ofTokens (Token.ofChars cs)) with
  | ok ss c es =>
    rw [hp] at ensures h
    exact wellFormedBody_iff.1 ensures.1 s h
  | error | outOfFuel =>
    rw [hp] at h
    cases h

end LetFn
