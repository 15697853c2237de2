import Mathlib.Data.Int.ModEq
import LetFn.Proofs.Eval.Unwinding

/-! Integer arithmetic. However often it overflows on the way, an expression of negations, sums,
differences and products comes to what it would be if nothing overflowed, reduced once to 64 bits.
Quotients are those of the reduced numbers. -/

namespace LetFn

/-- Built from integers by `-`, `+` and `*`, the expression has this value if nothing overflows. -/
inductive Expr.Amounts : Expr → Int → Prop
  | int {token : Token} {value : Int64} : Amounts (.int token value) value.toInt
  | opposite {token : Token} {e : Expr} {m : Int} {span : Span} : Amounts e m →
      Amounts (.unary token "-" e span) (-m)
  | sum {token : Token} {left right : Expr} {m k : Int} {span : Span} : Amounts left m →
      Amounts right k → Amounts (.binary token left "+" right span) (m + k)
  | difference {token : Token} {left right : Expr} {m k : Int} {span : Span} : Amounts left m →
      Amounts right k → Amounts (.binary token left "-" right span) (m - k)
  | product {token : Token} {left right : Expr} {m k : Int} {span : Span} : Amounts left m →
      Amounts right k → Amounts (.binary token left "*" right span) (m * k)

/-! ### Reduction to 64 bits -/

/-- Of the numbers of 64 bits, `v` is the one that is congruent to `m`. -/
structure Reduces (m : Int) (v : Int64) : Prop where
  congruent : v.toInt ≡ m [ZMOD 2 ^ 64]
  only : ∀ w : Int, -2 ^ 63 ≤ w → w < 2 ^ 63 → w ≡ m [ZMOD 2 ^ 64] → w = v.toInt

theorem reduces_of_congruent {m : Int} {v : Int64} (congruent : v.toInt ≡ m [ZMOD 2 ^ 64]) :
    Reduces m v := by
  refine ⟨congruent, fun w above below congruent' => ?_⟩
  have least := Int64.le_toInt v
  have less := Int64.toInt_lt v
  have same : w % 2 ^ 64 = v.toInt % 2 ^ 64 := congruent'.trans congruent.symm
  omega

theorem reduces_ofInt (m : Int) : Reduces m (.ofInt m) := by
  refine reduces_of_congruent ?_
  rw [Int64.toInt_ofInt]
  exact Int.bmod_emod

theorem Reduces.eq {m : Int} {v w : Int64} (hv : Reduces m v) (hw : Reduces m w) : v = w :=
  Int64.toInt_inj.1 (hw.only v.toInt (Int64.le_toInt v) (Int64.toInt_lt v) hv.congruent)

/-- The only quotient that does not fit is the one of the least number by -1. -/
theorem reduces_div (a b : Int64) : Reduces (a.toInt.tdiv b.toInt) (a / b) := by
  refine reduces_of_congruent ?_
  rw [Int64.toInt_div]
  exact Int.bmod_emod

namespace Eval

/-! ### Operators -/

section

variable {token : Token} {left right e : Expr} {operator : String} {span : Span} {scope : ScopeId}
  {h h₁ h₂ : Heap} {v w : Value}

theorem settles_unary (operand : Settles (fun n => expr n e scope h) (v, h₁))
    (hv : v.isUnwinding = false) :
    Settles (fun n => expr n (.unary token operator e span) scope h)
      (.unaryOperator operator v, h₁) := by
  obtain ⟨n, hn⟩ := operand
  refine .succ n fun m hm => ?_
  simp only [expr, hn m hm, andThen, hv]
  rfl

theorem settles_binary (first : Settles (fun n => expr n left scope h) (v, h₁))
    (second : Settles (fun n => expr n right scope h₁) (w, h₂)) (hv : v.isUnwinding = false)
    (hw : w.isUnwinding = false) :
    Settles (fun n => expr n (.binary token left operator right span) scope h)
      (.binaryOperator operator v w, h₂) := by
  obtain ⟨n₁, h₁⟩ := first
  obtain ⟨n₂, h₂⟩ := second
  refine .succ (max n₁ n₂) fun m hm => ?_
  simp only [expr, h₁ m (by omega), h₂ m (by omega), andThen, hv, hw]
  rfl

end

/-- Each operator reduces what it gets from its operands, and that is congruent to what they
amount to. -/
theorem settles_amount {e : Expr} {m : Int} (amounts : e.Amounts m) (scope : ScopeId) (h : Heap) :
    Settles (fun n => expr n e scope h) (.int (.ofInt m), h) := by
  induction amounts with
  | int =>
    rw [Int64.ofInt_toInt]
    refine .succ 0 fun n _ => ?_
    rw [expr]
  | opposite _ ih =>
    rw [Int64.ofInt_neg]
    exact settles_unary ih rfl
  | sum _ _ ihl ihr =>
    rw [Int64.ofInt_add]
    exact settles_binary ihl ihr rfl rfl
  | difference _ _ ihl ihr =>
    rw [Int64.ofInt_sub]
    exact settles_binary ihl ihr rfl rfl
  | product _ _ ihl ihr =>
    rw [Int64.ofInt_mul]
    exact settles_binary ihl ihr rfl rfl

/-- A quotient of numbers is a number, unless the divisor is zero. -/
theorem binaryOperator_div (a b : Int64) :
    Value.binaryOperator "/" (.int a) (.int b) =
      if b = 0 then .error ("division by zero: " ++ Decimal.ofInt a.toInt ++ " / 0")
      else .int (a / b) := by
  change (if b = 0 then Value.raise (.divisionByZero a b) else .int (a / b)) = _
  by_cases hb : b = 0
  · have message : (RuntimeError.divisionByZero a 0).message =
        "division by zero: " ++ Decimal.ofInt a.toInt ++ " / " ++ Decimal.ofInt (0 : Int64).toInt :=
      rfl
    have ends : " / " ++ Decimal.ofInt 0 = " / 0" := by decide
    rw [Int64.toInt_zero, String.append_assoc, ends] at message
    rw [if_pos hb, if_pos hb, hb, Value.raise, message]
  · rw [if_neg hb, if_neg hb]

/-- In every scope of every heap arithmetic is exact modulo 2 ^ 64, through any nesting: what is
left to say about overflow is said by the value over all integers. A division fails exactly if its
divisor is zero when reduced, and truncates otherwise. -/
theorem settles_reduced (scope : ScopeId) (h : Heap) :
    (∀ e m, e.Amounts m →
      ∃ v, Reduces m v ∧ Settles (fun n => expr n e scope h) (.int v, h)) ∧
    ∀ left right m k, left.Amounts m → right.Amounts k →
      ∃ a b, Reduces m a ∧ Settles (fun n => expr n left scope h) (.int a, h) ∧
        Reduces k b ∧ Settles (fun n => expr n right scope h) (.int b, h) ∧
        ∀ token span,
          (b = 0 → Settles (fun n => expr n (.binary token left "/" right span) scope h)
            (.error ("division by zero: " ++ Decimal.ofInt a.toInt ++ " / 0"), h)) ∧
          (b ≠ 0 → ∃ q, Reduces (a.toInt.tdiv b.toInt) q ∧
            Settles (fun n => expr n (.binary token left "/" right span) scope h) (.int q, h)) := by
  refine ⟨fun e m amounts => ⟨_, reduces_ofInt m, settles_amount amounts scope h⟩, ?_⟩
  intro left right m k first second
  have ha := settles_amount first scope h
  have hb := settles_amount second scope h
  refine ⟨_, _, reduces_ofInt m, ha, reduces_ofInt k, hb, fun token span => ?_⟩
  have quotient : Settles (fun n => expr n (.binary token left "/" right span) scope h)
      (.binaryOperator "/" (.int (.ofInt m)) (.int (.ofInt k)), h) :=
    settles_binary ha hb rfl rfl
  rw [binaryOperator_div] at quotient
  constructor
  · intro zero
    rw [if_pos zero] at quotient
    exact quotient
  · intro nonzero
    rw [if_neg nonzero] at quotient
    exact ⟨_, reduces_div _ _, quotient⟩

/-- `9223372036854775807 + 1`, which overflows. -/
def overflow : Expr :=
  .binary (.eof 0) (.int (.eof 0) .maxValue) "+" (.int (.eof 0) 1) (.point 0)

/-- `-(9223372036854775807 + 1) * 2`, which overflows three times and comes to nothing. -/
def wholeTurn : Expr :=
  .binary (.eof 0) (.unary (.eof 0) "-" overflow (.point 0)) "*" (.int (.eof 0) 2) (.point 0)

theorem settles_reduced_overflow :
    overflow.Amounts (2 ^ 63) ∧ wholeTurn.Amounts (-2 ^ 64) ∧
      (Expr.int (.eof 0) (-1)).Amounts (-1) ∧
      Settles (fun n => expr n overflow 0 .root) (.int .minValue, .root) ∧
      Settles (fun n => expr n (.binary (.eof 0) overflow "/" wholeTurn (.point 0)) 0 .root)
        (.error "division by zero: -9223372036854775808 / 0", .root) ∧
      Settles (fun n => expr n (.binary (.eof 0) overflow "/" (.int (.eof 0) (-1)) (.point 0)) 0
        .root) (.int .minValue, .root) := by
  have half : overflow.Amounts (2 ^ 63) := .sum .int .int
  have whole : wholeTurn.Amounts (-2 ^ 64) := .product (.opposite half) .int
  have less : (Expr.int (.eof 0) (-1)).Amounts (-1) := .int
  have least : Reduces (2 ^ 63) .minValue := reduces_ofInt _
  obtain ⟨reduced, quotients⟩ := settles_reduced 0 .root
  refine ⟨half, whole, less, ?_, ?_, ?_⟩
  · obtain ⟨v, hv, evaluated⟩ := reduced _ _ half
    rwa [hv.eq least] at evaluated
  · obtain ⟨a, b, ha, -, hb, -, divided⟩ := quotients _ _ _ _ half whole
    obtain rfl := ha.eq least
    exact (divided _ _).1 (hb.eq (reduces_ofInt _))
  · obtain ⟨a, b, ha, -, hb, -, divided⟩ := quotients _ _ _ _ half less
    obtain rfl := ha.eq least
    obtain rfl : b = -1 := hb.eq (reduces_ofInt _)
    obtain ⟨q, hq, evaluated⟩ := (divided _ _).2 (by decide)
    rwa [hq.eq (reduces_ofInt _)] at evaluated

end Eval

end LetFn
