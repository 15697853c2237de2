import LetFn.Parser

/-! More fuel changes nothing. A step that ended would have ended the same way with more fuel, so
how much it started with does not matter. -/

namespace LetFn

namespace Outcome

variable {α β σ : Type} {o o' : Outcome α σ}

/-- The same outcome, unless the first one ran out of fuel. -/
def Below (o o' : Outcome α σ) : Prop := o = outOfFuel ∨ o = o'

theorem Below.refl (o : Outcome α σ) : o.Below o := .inr rfl

theorem below_outOfFuel (o : Outcome α σ) : outOfFuel.Below o := .inl rfl

theorem Below.eq (h : o.Below o') (ho : o ≠ outOfFuel) : o = o' := h.resolve_left ho

theorem Below.after (h : o.Below o') (es : List ParseError) :
    (o.after es).Below (o'.after es) := by
  obtain rfl | rfl := h
  · exact .inl rfl
  · exact .refl _

theorem Below.map (h : o.Below o') (f : α → β) : (o.map f).Below (o'.map f) := by
  obtain rfl | rfl := h
  · exact .inl rfl
  · exact .refl _

theorem Below.bind {f f' : α → Cursor σ → Outcome β σ} (h : o.Below o')
    (hf : ∀ v c, (f v c).Below (f' v c)) : (o.bind f).Below (o'.bind f') := by
  obtain rfl | rfl := h
  · exact .inl rfl
  · cases o with
    | ok v c es => exact (hf v c).after es
    | error | outOfFuel => exact .refl _

end Outcome

namespace Parser

open Outcome

variable {σ : Type} [TokenSource σ]

theorem parameters_below {n m : Nat} (hn : n ≤ m) (c : Cursor σ) :
    (parameters n c).Below (parameters m c) := by
  induction n generalizing m c with
  | zero => exact below_outOfFuel _
  | succ n ih =>
    obtain ⟨m, rfl⟩ := Nat.exists_eq_add_of_le' (Nat.le_of_add_left_le hn)
    have hn : n ≤ m := Nat.le_of_succ_le_succ hn
    simp only [parameters]
    split
    · exact .refl _
    refine (Below.refl _).bind fun name c => ?_
    split
    · exact (ih hn _).map _
    · exact .refl _

mutual

theorem expression_below {n m : Nat} (hn : n ≤ m) (floor : Precedence) (c : Cursor σ) :
    (expression n floor c).Below (expression m floor c) := by
  match n, m, hn with
  | 0, _, _ => exact below_outOfFuel _
  | n + 1, m + 1, hn =>
    have hn : n ≤ m := Nat.le_of_succ_le_succ hn
    simp only [expression]
    exact (operand_below hn c).bind fun left c => climb_below hn floor left c
termination_by structural n

theorem operand_below {n m : Nat} (hn : n ≤ m) (c : Cursor σ) :
    (operand n c).Below (operand m c) := by
  match n, m, hn with
  | 0, _, _ => exact below_outOfFuel _
  | n + 1, m + 1, hn =>
    have hn : n ≤ m := Nat.le_of_succ_le_succ hn
    simp only [operand]
    split
    case h_5 | h_6 => exact (expression_below hn _ _).bind fun right c' => .refl _
    case h_7 => exact (expression_below hn _ _).bind fun inner c => .refl _
    case h_8 => exact conditional_below hn c
    case h_9 => exact function_below hn c
    all_goals exact .refl _
termination_by structural n

theorem climb_below {n m : Nat} (hn : n ≤ m) (floor : Precedence) (left : Expr) (c : Cursor σ) :
    (climb n floor left c).Below (climb m floor left c) := by
  match n, m, hn with
  | 0, _, _ => exact below_outOfFuel _
  | n + 1, m + 1, hn =>
    have hn : n ≤ m := Nat.le_of_succ_le_succ hn
    simp only [climb]
    split
    · split
      · exact (arguments_below hn _).bind fun args c => climb_below hn _ _ _
      · exact (expression_below hn _ _).bind fun right c => climb_below hn _ _ _
    · exact .refl _
termination_by structural n

theorem arguments_below {n m : Nat} (hn : n ≤ m) (c : Cursor σ) :
    (arguments n c).Below (arguments m c) := by
  match n, m, hn with
  | 0, _, _ => exact below_outOfFuel _
  | n + 1, m + 1, hn =>
    have hn : n ≤ m := Nat.le_of_succ_le_succ hn
    simp only [arguments]
    split
    · exact .refl _
    refine (expression_below hn _ _).bind fun first c => ?_
    split
    · exact (arguments_below hn _).map _
    · exact .refl _
termination_by structural n

theorem conditional_below {n m : Nat} (hn : n ≤ m) (c : Cursor σ) :
    (conditional n c).Below (conditional m c) := by
  match n, m, hn with
  | 0, _, _ => exact below_outOfFuel _
  | n + 1, m + 1, hn =>
    have hn : n ≤ m := Nat.le_of_succ_le_succ hn
    simp only [conditional]
    refine (Below.refl _).bind fun _ c => ?_
    refine (expression_below hn _ _).bind fun test c => ?_
    refine (Below.refl _).bind fun _ c => (Below.refl _).bind fun _ c => ?_
    refine (block_below hn _).bind fun consequence c => ?_
    split
    · exact (Below.refl _).bind fun _ c => (block_below hn _).map _
    · exact .refl _
termination_by structural n

theorem function_below {n m : Nat} (hn : n ≤ m) (c : Cursor σ) :
    (function n c).Below (function m c) := by
  match n, m, hn with
  | 0, _, _ => exact below_outOfFuel _
  | n + 1, m + 1, hn =>
    have hn : n ≤ m := Nat.le_of_succ_le_succ hn
    simp only [function]
    refine (Below.refl _).bind fun _ c => ?_
    refine (parameters_below hn _).bind fun params c => ?_
    exact (Below.refl _).bind fun _ c => (block_below hn _).map _
termination_by structural n

theorem block_below {n m : Nat} (hn : n ≤ m) (c : Cursor σ) : (block n c).Below (block m c) := by
  match n, m, hn with
  | 0, _, _ => exact below_outOfFuel _
  | n + 1, m + 1, hn =>
    have hn : n ≤ m := Nat.le_of_succ_le_succ hn
    simp only [block]
    exact (statements_below hn _ _).bind fun body c => .refl _
termination_by structural n

theorem statements_below {n m : Nat} (hn : n ≤ m) (closes : Kind → Bool) (c : Cursor σ) :
    (statements n closes c).Below (statements m closes c) := by
  match n, m, hn with
  | 0, _, _ => exact below_outOfFuel _
  | n + 1, m + 1, hn =>
    have hn : n ≤ m := Nat.le_of_succ_le_succ hn
    simp only [statements]
    split
    · exact .refl _
    obtain first | first := statement_below hn c
    · rw [first]
      exact below_outOfFuel _
    rw [first]
    cases statement m c with
    | ok s c₁ dropped => exact ((statements_below hn _ _).map _).after _
    | error cause c₁ dropped => exact (statements_below hn _ _).after _
    | outOfFuel => exact .refl _
termination_by structural n

theorem statement_below {n m : Nat} (hn : n ≤ m) (c : Cursor σ) :
    (statement n c).Below (statement m c) := by
  match n, m, hn with
  | 0, _, _ => exact below_outOfFuel _
  | n + 1, m + 1, hn =>
    have hn : n ≤ m := Nat.le_of_succ_le_succ hn
    simp only [statement]
    split
    · exact binding_below hn c
    · exact ret_below hn c
    · exact expressionStatement_below hn c
termination_by structural n

theorem binding_below {n m : Nat} (hn : n ≤ m) (c : Cursor σ) :
    (binding n c).Below (binding m c) := by
  match n, m, hn with
  | 0, _, _ => exact below_outOfFuel _
  | n + 1, m + 1, hn =>
    have hn : n ≤ m := Nat.le_of_succ_le_succ hn
    simp only [binding]
    refine (Below.refl _).bind fun name c => (Below.refl _).bind fun _ c => ?_
    exact (expression_below hn _ _).bind fun value c => .refl _
termination_by structural n

theorem ret_below {n m : Nat} (hn : n ≤ m) (c : Cursor σ) : (ret n c).Below (ret m c) := by
  match n, m, hn with
  | 0, _, _ => exact below_outOfFuel _
  | n + 1, m + 1, hn =>
    have hn : n ≤ m := Nat.le_of_succ_le_succ hn
    simp only [ret]
    exact (expression_below hn _ _).bind fun value c => .refl _
termination_by structural n

theorem expressionStatement_below {n m : Nat} (hn : n ≤ m) (c : Cursor σ) :
    (expressionStatement n c).Below (expressionStatement m c) := by
  match n, m, hn with
  | 0, _, _ => exact below_outOfFuel _
  | n + 1, m + 1, hn =>
    have hn : n ≤ m := Nat.le_of_succ_le_succ hn
    simp only [expressionStatement]
    exact (expression_below hn _ _).bind fun value c => .refl _
termination_by structural n

end

/-- Two runs that both end do so alike, whatever fuel they were given. -/
theorem statements_eq_of_ne {n m : Nat} {closes : Kind → Bool} {c : Cursor σ}
    (hn : statements n closes c ≠ .outOfFuel) (hm : statements m closes c ≠ .outOfFuel) :
    statements n closes c = statements m closes c := by
  rcases Nat.le_total n m with h | h
  · exact (statements_below h closes c).eq hn
  · exact ((statements_below h closes c).eq hm).symm

end Parser

end LetFn
