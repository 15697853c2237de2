import LetFn.Parsed

/-! Reading always ends. No step runs out of the fuel that reading a program starts with, and none
goes back: a loop takes at least one token each time round. -/

namespace LetFn

namespace Cursor

variable {σ : Type} [TokenSource σ] {c : Cursor σ} {kind : Kind}

theorem size_advance (c : Cursor σ) : c.advance.size ≤ c.size - 1 := TokenSource.size_next c.source

theorem size_advance_le (c : Cursor σ) : c.advance.size ≤ c.size :=
  Nat.le_trans c.size_advance (Nat.sub_le _ _)

theorem size_pos_of_current (h : c.current.kind ≠ .eof) : 0 < c.size :=
  Nat.pos_of_ne_zero fun none => h (TokenSource.kind_next c.source none)

/-- Behind a token that is no end of input there is less left. -/
theorem size_advance_of_current (h : c.current.kind ≠ .eof) : c.advance.size + 1 ≤ c.size := by
  have less := c.size_advance
  have some := size_pos_of_current h
  omega

theorem size_advance_of_peek (h : c.peek.kind ≠ .eof) : c.advance.size + 1 ≤ c.size := by
  have less := c.size_advance
  have some := size_pos_of_current (c := c.advance) h
  omega

theorem peekIs_iff : c.peekIs kind = true ↔ c.peek.kind = kind := by
  simp [peekIs]

theorem size_skipSemicolon_le (c : Cursor σ) :
    c.skipSemicolon.size ≤ c.size := by
  unfold skipSemicolon
  split
  · exact c.size_advance_le
  · exact Nat.le_refl _

end Cursor

namespace Outcome

variable {α β σ : Type} [TokenSource σ] {m : Nat}

/-- The step did not run out of fuel, and left at most `m` tokens to be read. -/
def Within (m : Nat) : Outcome α σ → Prop
  | ok _ next _ => next.size ≤ m
  | error _ next _ => next.size ≤ m
  | outOfFuel => False

theorem Within.mono {o : Outcome α σ} {m' : Nat} (h : o.Within m) (le : m ≤ m') : o.Within m' := by
  cases o with
  | ok value next dropped => exact Nat.le_trans h le
  | error cause next dropped => exact Nat.le_trans h le
  | outOfFuel => exact h

@[simp] theorem within_after {es : List ParseError} {o : Outcome α σ} :
    (o.after es).Within m ↔ o.Within m := by
  cases o <;> rfl

@[simp] theorem within_map {f : α → β} {o : Outcome α σ} : (o.map f).Within m ↔ o.Within m := by
  cases o <;> rfl

theorem within_bind {o : Outcome α σ} {f : α → Cursor σ → Outcome β σ} (ho : o.Within m)
    (hf : ∀ v c, c.size ≤ m → (f v c).Within m) : (o.bind f).Within m := by
  cases o with
  | ok value next dropped => exact within_after.2 (hf value next ho)
  | error cause next dropped => exact ho
  | outOfFuel => exact ho

end Outcome

namespace Cursor

variable {β σ : Type} [TokenSource σ] {m : Nat} {c : Cursor σ} {kind : Kind}

theorem within_expect (hm : c.size ≤ m) (kind : Kind) : (c.expect kind).Within m := by
  unfold expect
  split
  · exact Nat.le_trans c.size_advance_le hm
  · exact hm

/-- What follows an expected token has one token less to read. -/
theorem within_expect_bind {f : Token → Cursor σ → Outcome β σ} (hk : kind ≠ .eof)
    (hm : c.size ≤ m)
    (hf : c.advance.size + 1 ≤ c.size → (f c.peek c.advance).Within m) :
    ((c.expect kind).bind f).Within m := by
  unfold expect
  split
  · next h =>
    rw [peekIs_iff] at h
    simpa [Outcome.bind] using hf (size_advance_of_peek (h ▸ hk))
  · exact hm

end Cursor

namespace Parser

variable {σ : Type} [TokenSource σ]

/-! ### Every step ends within what is left to read -/

theorem within_integer {m : Nat} {c : Cursor σ} (hm : c.size ≤ m) :
    (integer c).Within m := by
  unfold integer
  split <;> exact hm

theorem within_parameters {n m : Nat} {c : Cursor σ} (hn : 8 * c.size + 1 ≤ n)
    (hm : c.size ≤ m) : (parameters n c).Within m := by
  induction n generalizing c with
  | zero => omega
  | succ n ih =>
    have advance := c.size_advance_le
    simp only [parameters]
    split
    · exact Nat.le_trans advance hm
    apply Cursor.within_expect_bind (by decide) hm
    intro shorter
    split
    · next hp =>
      rw [Cursor.peekIs_iff] at hp
      have shorter' := Cursor.size_advance_of_peek (hp ▸ by decide : c.advance.peek.kind ≠ .eof)
      exact Outcome.within_map.2 (ih (by omega) (by omega))
    · exact Outcome.within_map.2 (Cursor.within_expect (by omega) _)

mutual

theorem within_expression {n m : Nat} {floor : Precedence} {c : Cursor σ}
    (hn : 8 * c.size + 3 ≤ n) (hm : c.size ≤ m) :
    (expression n floor c).Within m := by
  match n, hn with
  | 0, hn => omega
  | n + 1, hn =>
    simp only [expression]
    refine Outcome.Within.mono ?_ hm
    apply Outcome.within_bind (within_operand (by omega) (Nat.le_refl _))
    intro left c' hc
    exact within_climb (by omega) hc
termination_by structural n

theorem within_operand {n m : Nat} {c : Cursor σ} (hn : 8 * c.size + 2 ≤ n)
    (hm : c.size ≤ m) : (operand n c).Within m := by
  match n, hn with
  | 0, hn => omega
  | n + 1, hn =>
    have shorter := c.size_advance_of_current
    simp only [operand]
    split
    case h_2 => exact within_integer hm
    case h_5 hk | h_6 hk =>
      have shorter := shorter (by simp [hk])
      exact Outcome.within_bind (within_expression (by omega) (by omega)) fun right c' hc => hc
    case h_7 hk =>
      have shorter := shorter (by simp [hk])
      apply Outcome.within_bind (within_expression (by omega) (by omega))
      intro inner c' hc
      exact Outcome.within_map.2 (Cursor.within_expect hc _)
    case h_8 hk => exact within_conditional (by omega) hm
    case h_9 hk => exact within_function (by omega) hm
    all_goals exact hm
termination_by structural n

theorem within_climb {n m : Nat} {floor : Precedence} {left : Expr} {c : Cursor σ}
    (hn : 8 * c.size + 2 ≤ n) (hm : c.size ≤ m) :
    (climb n floor left c).Within m := by
  match n, hn with
  | 0, hn => omega
  | n + 1, hn =>
    simp only [climb]
    split
    · next hp =>
      have shorter : c.advance.size + 1 ≤ c.size := by
        apply Cursor.size_advance_of_peek
        intro he
        rw [Cursor.peekPrecedence, he] at hp
        exact Nat.not_lt_zero _ hp
      have advance := c.advance.size_advance_le
      refine Outcome.Within.mono ?_ (Nat.le_trans c.size_advance_le hm)
      split
      · refine Outcome.within_bind (within_arguments (by omega) (Nat.le_refl _)) ?_
        intro args c' hc
        exact within_climb (by omega) hc
      · refine Outcome.within_bind (within_expression (by omega) advance) ?_
        intro right c' hc
        exact within_climb (by omega) hc
    · exact hm
termination_by structural n

theorem within_arguments {n m : Nat} {c : Cursor σ} (hn : 8 * c.size + 4 ≤ n)
    (hm : c.size ≤ m) : (arguments n c).Within m := by
  match n, hn with
  | 0, hn => omega
  | n + 1, hn =>
    have advance := c.size_advance_le
    simp only [arguments]
    refine Outcome.Within.mono ?_ hm
    split
    · exact advance
    apply Outcome.within_bind (within_expression (by omega) advance)
    intro first c' hc
    split
    · next hp =>
      rw [Cursor.peekIs_iff] at hp
      have shorter := Cursor.size_advance_of_peek (hp ▸ by decide : c'.peek.kind ≠ .eof)
      exact Outcome.within_map.2 (within_arguments (by omega) (by omega))
    · exact Outcome.within_map.2 (Cursor.within_expect hc _)
termination_by structural n

theorem within_conditional {n m : Nat} {c : Cursor σ} (hn : 8 * c.size + 1 ≤ n)
    (hm : c.size ≤ m) : (conditional n c).Within m := by
  match n, hn with
  | 0, hn => omega
  | n + 1, hn =>
    simp only [conditional]
    apply Cursor.within_expect_bind (by decide) hm
    intro shorter
    have advance := c.advance.size_advance_le
    refine Outcome.Within.mono ?_ (Nat.le_trans c.size_advance_le hm)
    apply Outcome.within_bind (within_expression (by omega) advance)
    intro test c₁ h₁
    apply Cursor.within_expect_bind (by decide) h₁
    intro shorter₁
    apply Cursor.within_expect_bind (by decide) (by omega)
    intro shorter₂
    apply Outcome.within_bind (within_block (by omega) (by omega))
    intro consequence c₂ h₂
    split
    · have advance₂ := c₂.size_advance_le
      apply Cursor.within_expect_bind (by decide) (by omega)
      intro shorter₃
      exact Outcome.within_map.2 (within_block (by omega) (by omega))
    · exact h₂
termination_by structural n

theorem within_function {n m : Nat} {c : Cursor σ} (hn : 8 * c.size + 1 ≤ n)
    (hm : c.size ≤ m) : (function n c).Within m := by
  match n, hn with
  | 0, hn => omega
  | n + 1, hn =>
    simp only [function]
    apply Cursor.within_expect_bind (by decide) hm
    intro shorter
    refine Outcome.Within.mono ?_ (Nat.le_trans c.size_advance_le hm)
    refine Outcome.within_bind (within_parameters (by omega) (Nat.le_refl _)) ?_
    intro params c₁ h₁
    apply Cursor.within_expect_bind (by decide) h₁
    intro shorter₁
    exact Outcome.within_map.2 (within_block (by omega) (by omega))
termination_by structural n

theorem within_block {n m : Nat} {c : Cursor σ} (hn : 8 * c.size + 7 ≤ n)
    (hm : c.size ≤ m) : (block n c).Within m := by
  match n, hn with
  | 0, hn => omega
  | n + 1, hn =>
    have advance := c.size_advance_le
    simp only [block]
    apply Outcome.within_bind (within_statements rfl (by omega) (by omega))
    intro body c' hc
    split <;> exact hc
termination_by structural n

theorem within_statements {n m : Nat} {closes : Kind → Bool} {c : Cursor σ}
    (he : closes .eof = true) (hn : 8 * c.size + 6 ≤ n) (hm : c.size ≤ m) :
    (statements n closes c).Within m := by
  match n, hn with
  | 0, hn => omega
  | n + 1, hn =>
    simp only [statements]
    split
    · exact hm
    next hc =>
    have first : (statement n c).Within c.size :=
      within_statement (by omega) (Nat.le_refl _)
    have some : 0 < c.size := by
      have := c.size_advance_of_current fun h => hc (h ▸ he)
      omega
    cases h : statement n c with
    | ok value c₁ dropped =>
      have h₁ : c₁.size ≤ c.size := by simpa [h, Outcome.Within] using first
      have advance := c₁.size_advance
      exact Outcome.within_after.2 <| Outcome.within_map.2 <|
        within_statements he (by omega) (by omega)
    | error cause c₁ dropped =>
      have h₁ : c₁.size ≤ c.size := by simpa [h, Outcome.Within] using first
      have skip := c₁.size_skipSemicolon_le
      have advance := c₁.skipSemicolon.size_advance
      exact Outcome.within_after.2 (within_statements he (by omega) (by omega))
    | outOfFuel => simp [h, Outcome.Within] at first
termination_by structural n

theorem within_statement {n m : Nat} {c : Cursor σ} (hn : 8 * c.size + 5 ≤ n)
    (hm : c.size ≤ m) : (statement n c).Within m := by
  match n, hn with
  | 0, hn => omega
  | n + 1, hn =>
    simp only [statement]
    split
    · exact within_binding (by omega) hm
    · exact within_ret (by omega) hm
    · exact within_expressionStatement (by omega) hm
termination_by structural n

theorem within_binding {n m : Nat} {c : Cursor σ} (hn : 8 * c.size + 4 ≤ n)
    (hm : c.size ≤ m) : (binding n c).Within m := by
  match n, hn with
  | 0, hn => omega
  | n + 1, hn =>
    simp only [binding]
    apply Cursor.within_expect_bind (by decide) hm
    intro shorter
    apply Cursor.within_expect_bind (by decide) (by omega)
    intro shorter₁
    have advance := c.advance.advance.size_advance_le
    apply Outcome.within_bind (within_expression (by omega) (by omega))
    intro value c' hc
    exact Nat.le_trans c'.size_skipSemicolon_le hc
termination_by structural n

theorem within_ret {n m : Nat} {c : Cursor σ} (hn : 8 * c.size + 4 ≤ n)
    (hm : c.size ≤ m) : (ret n c).Within m := by
  match n, hn with
  | 0, hn => omega
  | n + 1, hn =>
    have advance := c.size_advance_le
    simp only [ret]
    apply Outcome.within_bind (within_expression (by omega) (by omega))
    intro value c' hc
    exact Nat.le_trans c'.size_skipSemicolon_le hc
termination_by structural n

theorem within_expressionStatement {n m : Nat} {c : Cursor σ}
    (hn : 8 * c.size + 4 ≤ n) (hm : c.size ≤ m) :
    (expressionStatement n c).Within m := by
  match n, hn with
  | 0, hn => omega
  | n + 1, hn =>
    simp only [expressionStatement]
    apply Outcome.within_bind (within_expression (by omega) hm)
    intro value c' hc
    exact Nat.le_trans c'.size_skipSemicolon_le hc
termination_by structural n

end

/-! ### Programs -/

theorem statements_ne_error {n : Nat} {closes : Kind → Bool} {c c' : Cursor σ}
    {cause : ParseError} {es : List ParseError} :
    statements n closes c ≠ .error cause c' es := by
  induction n generalizing c c' cause es with
  | zero => simp [statements]
  | succ n ih =>
    simp only [statements]
    split
    · simp
    cases statement n c with
    | ok first c₁ dropped =>
      simp only
      cases h : statements n closes c₁.advance with
      | ok rest c₂ dropped₂ => simp [Outcome.map, Outcome.after]
      | error cause₂ c₂ dropped₂ => exact (ih h).elim
      | outOfFuel => simp [Outcome.map, Outcome.after]
    | error cause₁ c₁ dropped =>
      simp only
      cases h : statements n closes c₁.skipSemicolon.advance with
      | ok rest c₂ dropped₂ => simp [Outcome.after]
      | error cause₂ c₂ dropped₂ => exact (ih h).elim
      | outOfFuel => simp [Outcome.after]
    | outOfFuel => simp

/-- Statements are read up to a token that closes them. -/
theorem closes_of_statements {n : Nat} {closes : Kind → Bool} {c c' : Cursor σ} {ss : List Stmt}
    {es : List ParseError} (h : statements n closes c = .ok ss c' es) :
    closes c'.current.kind = true := by
  induction n generalizing c ss es with
  | zero => simp [statements] at h
  | succ n ih =>
    simp only [statements] at h
    split at h
    · next closed =>
      cases h
      exact closed
    cases hs : statement n c with
    | ok first c₁ dropped =>
      simp only [hs] at h
      cases rest : statements n closes c₁.advance with
      | ok ss c₂ dropped₂ =>
        rw [rest] at h
        cases h
        exact ih rest
      | error | outOfFuel => simp [rest, Outcome.map, Outcome.after] at h
    | error cause c₁ dropped =>
      simp only [hs] at h
      cases rest : statements n closes c₁.skipSemicolon.advance with
      | ok ss c₂ dropped₂ =>
        rw [rest] at h
        cases h
        exact ih rest
      | error | outOfFuel => simp [rest, Outcome.after] at h
    | outOfFuel => simp [hs] at h

/-- A program is always read to its end, with or without errors. -/
theorem exists_program_eq_ok (c : Cursor σ) :
    ∃ ss c' es, program c = .ok ss c' es := by
  have within : (program c).Within c.size :=
    within_statements rfl (by simp only [fuel]; omega) (Nat.le_refl _)
  cases h : program c with
  | ok ss c' es => exact ⟨ss, c', es, rfl⟩
  | error cause c' es => exact (statements_ne_error h).elim
  | outOfFuel => simp [h, Outcome.Within] at within

theorem read_eq {c c' : Cursor σ} {ss : List Stmt} {es : List ParseError}
    (h : program c = .ok ss c' es) : read c = (⟨⟨ss⟩, es⟩, c') := by
  rw [read, h]

/-- Reading stops at an end token. -/
theorem read_current_kind (c : Cursor σ) : (read c).2.current.kind = .eof := by
  obtain ⟨ss, c', es, h⟩ := exists_program_eq_ok c
  rw [read_eq h]
  simpa using closes_of_statements h

end Parser

end LetFn
