import LetFn.Decimal

/-! Numbers that are read from digits alone, numbers that read back, and their texts. -/

namespace LetFn.Decimal

theorem ne_of_isDigit {c d : Char} (hc : c.isDigit = true) (hd : d.isDigit = false) : c ≠ d :=
  ne_of_apply_ne Char.isDigit (by simp [hc, hd])

/-- Digits have no sign in front. -/
theorem toInt64?_eq_positive? {cs : List Char} (h : ∀ c ∈ cs, c.isDigit = true) :
    toInt64? cs = positive? cs := by
  cases cs with
  | nil => rfl
  | cons c cs =>
    have hc := h c List.mem_cons_self
    unfold toInt64?
    split
    · next h => exact (ne_of_isDigit hc (by decide) (List.cons.inj h).1).elim
    · next h => exact (ne_of_isDigit hc (by decide) (List.cons.inj h).1).elim
    · rfl

theorem nonneg_of_positive? {cs : List Char} {value : Int64} (h : positive? cs = some value) :
    0 ≤ value := by
  obtain ⟨n, -, h⟩ := Option.bind_eq_some_iff.1 h
  split at h
  · next hn =>
    cases h
    rw [Int64.le_iff_toInt_le, Int64.toInt_ofNat_of_lt (by simpa [bound] using hn)]
    exact Int.natCast_nonneg n
  · cases h

theorem nonneg_of_digits {cs : List Char} {value : Int64} (hd : ∀ c ∈ cs, c.isDigit = true)
    (h : toInt64? cs = some value) : 0 ≤ value := by
  rw [toInt64?_eq_positive? hd] at h
  exact nonneg_of_positive? h

theorem isDigit_of_mem_toDigits {n : Nat} : ∀ c ∈ Nat.toDigits 10 n, c.isDigit = true :=
  fun _ hc => Nat.isDigit_of_mem_toDigits (by decide) (by decide) hc

theorem toNat?_toDigits (n : Nat) : toNat? (Nat.toDigits 10 n) = some n := by
  have digits : (Nat.toDigits 10 n).all Char.isDigit = true :=
    List.all_eq_true.2 isDigit_of_mem_toDigits
  rw [toNat?, if_pos ⟨Nat.toDigits_ne_nil, digits⟩, Nat.ofDigitChars_ten_toDigits]

theorem toList_ofInt {value : Int64} (h : 0 ≤ value) :
    (ofInt value.toInt).toList = Nat.toDigits 10 value.toInt.natAbs := by
  have nonneg : 0 ≤ value.toInt := Int64.le_iff_toInt_le.1 h
  rw [ofInt, if_neg (by omega), Nat.toList_repr]

/-- A number that is not negative is written in digits, from which it is read again. -/
theorem toInt64?_ofInt {value : Int64} (h : 0 ≤ value) :
    toInt64? (ofInt value.toInt).toList = some value := by
  have nonneg : 0 ≤ value.toInt := Int64.le_iff_toInt_le.1 h
  have lt : value.toInt.natAbs < bound := by
    have := Int64.toInt_lt value
    simp only [bound]
    omega
  have same : Int64.ofNat value.toInt.natAbs = value := by
    apply Int64.toInt_inj.1
    rw [Int64.toInt_ofNat_of_lt (by simpa [bound] using lt)]
    omega
  rw [toList_ofInt h, toInt64?_eq_positive? isDigit_of_mem_toDigits, positive?, toNat?_toDigits]
  simp [lt, same]

/-- Digits are only refused if they stand for too large a number. -/
theorem exists_toNat?_of_refused {cs : List Char} (ne : cs ≠ [])
    (digits : ∀ c ∈ cs, c.isDigit = true) (refused : toInt64? cs = none) :
    ∃ n : Nat, toNat? cs = some n ∧ Int64.maxValue.toInt < n := by
  have number : toNat? cs = some (Nat.ofDigitChars 10 cs 0) :=
    if_pos ⟨ne, List.all_eq_true.2 digits⟩
  refine ⟨_, number, ?_⟩
  rw [toInt64?_eq_positive? digits, positive?, number, Option.bind_some] at refused
  have large : ¬ Nat.ofDigitChars 10 cs 0 < bound := by simpa using refused
  simp only [bound] at large
  simp only [Int64.toInt_maxValue]
  omega

/-! ### Texts of numbers -/

theorem repr_injective {m n : Nat} (h : Nat.repr m = Nat.repr n) : m = n := by
  have digits := congrArg (fun s => Nat.ofDigitChars 10 (String.toList s) 0) h
  simpa only [Nat.toList_repr, Nat.ofDigitChars_ten_toDigits] using digits

theorem isDigit_of_mem_repr {n : Nat} {c : Char} (h : c ∈ (Nat.repr n).toList) :
    c.isDigit = true := by
  rw [Nat.toList_repr] at h
  exact isDigit_of_mem_toDigits c h

theorem not_mem_repr {n : Nat} {d : Char} (hd : d.isDigit = false) : d ∉ (Nat.repr n).toList :=
  fun h => ne_of_isDigit (isDigit_of_mem_repr h) hd rfl

theorem toList_ofInt_of_neg {i : Int} (h : i < 0) :
    (ofInt i).toList = '-' :: (Nat.repr i.natAbs).toList := by
  simp [ofInt, h]

theorem ofInt_of_nonneg {i : Int} (h : 0 ≤ i) : ofInt i = Nat.repr i.natAbs :=
  if_neg (Int.not_lt.2 h)

/-- Only the text of a negative number begins with a sign. -/
theorem ofInt_injective {i j : Int} (h : ofInt i = ofInt j) : i = j := by
  have sign (m : Nat) {k : Int} (hk : k < 0) : Nat.repr m ≠ ofInt k := by
    intro same
    have minus : '-' ∈ (Nat.repr m).toList := by
      rw [same, toList_ofInt_of_neg hk]
      exact List.mem_cons_self
    exact not_mem_repr (by decide) minus
  by_cases hi : i < 0
  · by_cases hj : j < 0
    · have digits := congrArg String.toList h
      rw [toList_ofInt_of_neg hi, toList_ofInt_of_neg hj] at digits
      have same := repr_injective (String.toList_inj.1 (List.cons.inj digits).2)
      omega
    · rw [ofInt_of_nonneg (Int.not_lt.1 hj)] at h
      exact (sign _ hi h.symm).elim
  · rw [ofInt_of_nonneg (Int.not_lt.1 hi)] at h
    by_cases hj : j < 0
    · exact (sign _ hj h).elim
    · rw [ofInt_of_nonneg (Int.not_lt.1 hj)] at h
      have same := repr_injective h
      omega

theorem blank_not_mem_ofInt (i : Int) : ' ' ∉ (ofInt i).toList := by
  by_cases hi : i < 0
  · rw [toList_ofInt_of_neg hi, List.mem_cons, not_or]
    exact ⟨by decide, not_mem_repr (by decide)⟩
  · rw [ofInt_of_nonneg (Int.not_lt.1 hi)]
    exact not_mem_repr (by decide)

end LetFn.Decimal
