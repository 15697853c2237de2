import Mathlib.Algebra.Group.Nat.Defs
import LetFn.Text.Utf8

/-! Decoding undoes encoding, and what can be decoded is an encoding: the decoder hands out the
longest text at the beginning of its input, and stops only where no further character is written. -/

namespace LetFn.Text.Utf8

/-- The bytes of a text. -/
def encode (cs : List Char) : List UInt8 := cs.flatMap String.utf8EncodeChar

@[simp] theorem encode_cons (c : Char) (cs : List Char) :
    encode (c :: cs) = String.utf8EncodeChar c ++ encode cs := rfl

theorem toUTF8_eq_encode (s : String) : s.toUTF8.data.toList = encode s.toList := by
  have bytes : s.toUTF8 = (encode s.toList).toByteArray := by
    have same := String.toByteArray_ofList (l := s.toList)
    rwa [String.ofList_toList] at same
  rw [bytes, List.data_toByteArray]

/-! ### One character -/

theorem isContinuation_iff {b : UInt8} :
    isContinuation b = true ↔ 128 ≤ b.toNat ∧ b.toNat < 192 := by
  simp [isContinuation, UInt8.le_iff_toNat_le, UInt8.lt_iff_toNat_lt]

/-- The lowest `n` digits of a number to the base of 64, as continuation bytes. -/
def digits : (n : Nat) → (number : Nat) → List UInt8
  | 0, _ => []
  | n + 1, number => UInt8.ofNat (number / 64 ^ n % 64 + 128) :: digits n number

theorem continued_eq_ok_iff {n bits number : Nat} {bytes rest : List UInt8} :
    continued n bits bytes = (.ok number, rest) ↔
      number / 64 ^ n = bits ∧ bytes = digits n number ++ rest := by
  induction n generalizing bits bytes with
  | zero => simp [continued, digits, eq_comm]
  | succ n ih =>
    cases bytes with
    | nil => simp [continued, digits]
    | cons b bytes =>
      -- The byte holds the highest of the digits, the bits from before are what stands above it.
      have high : number / 64 ^ (n + 1) = number / 64 ^ n / 64 := by
        rw [Nat.pow_succ, Nat.div_div_eq_div_mul]
      have low : b = UInt8.ofNat (number / 64 ^ n % 64 + 128) ↔
          b.toNat = number / 64 ^ n % 64 + 128 := by
        rw [← UInt8.toNat_inj, UInt8.toNat_ofNat', Nat.mod_eq_of_lt (by omega)]
      simp only [continued, digits, List.cons_append, List.cons.injEq, high, low]
      split
      · next hb =>
        rw [isContinuation_iff] at hb
        rw [ih]
        constructor
        · rintro ⟨hn, hr⟩
          exact ⟨by omega, by omega, hr⟩
        · rintro ⟨hn, hd, hr⟩
          exact ⟨by omega, hr⟩
      · next hb =>
        rw [isContinuation_iff] at hb
        simp only [Prod.mk.injEq, reduceCtorEq, false_and, false_iff]
        omega

/-- The forms that characters have: with `n` continuation bytes and `bits` in the first byte, which
is `first`, for numbers from `least`. -/
def Form (n bits least first : Nat) : Prop :=
  n = 0 ∧ least = 0 ∧ bits < 0x80 ∧ first = bits ∨
  n = 1 ∧ least = 0x80 ∧ bits < 0x20 ∧ first = 0xc0 + bits ∨
  n = 2 ∧ least = 0x800 ∧ bits < 0x10 ∧ first = 0xe0 + bits ∨
  n = 3 ∧ least = 0x10000 ∧ bits < 8 ∧ first = 0xf0 + bits

theorem lead_eq_some_iff {b : UInt8} {n bits least : Nat} :
    lead b = some (n, bits, least) ↔ Form n bits least b.toNat := by
  have bounded := b.toNat_lt
  simp only [lead, Form, UInt8.lt_iff_toNat_lt, UInt8.reduceToNat]
  repeat' split
  all_goals
    simp only [Option.some.injEq, Prod.mk.injEq, reduceCtorEq, false_iff]
    omega

theorem lead_ofNat {n bits least first : Nat} (h : Form n bits least first) :
    lead (UInt8.ofNat first) = some (n, bits, least) := by
  have bounded : first < 256 := by
    unfold Form at h
    omega
  rwa [lead_eq_some_iff, UInt8.toNat_ofNat', Nat.mod_eq_of_lt bounded]

theorem checked_eq_ok_iff {least number : Nat} {c : Char} :
    checked least number = .ok c ↔ least ≤ number ∧ c.toNat = number := by
  by_cases h : least ≤ number ∧ number.isValidChar
  · have toNat : (Char.ofNatAux number h.2).toNat = number := by
      rfl
    rw [checked, dif_pos h, Except.ok.injEq, ← Char.toNat_inj, toNat, eq_comm]
    exact (and_iff_right h.1).symm
  · rw [checked, dif_neg h]
    simp only [reduceCtorEq, false_iff, not_and]
    rintro hl rfl
    exact h ⟨hl, c.valid⟩

/-- Every character has a form, the first byte of which holds the bits that the others do not. -/
theorem exists_lead (c : Char) :
    ∃ b n least, lead b = some (n, c.toNat / 64 ^ n, least) ∧ least ≤ c.toNat := by
  have bounded : c.toNat < 0x110000 := by
    have valid : c.toNat.isValidChar := c.valid
    omega
  suffices form : ∃ n least first, Form n (c.toNat / 64 ^ n) least first ∧ least ≤ c.toNat by
    obtain ⟨n, least, first, form, le⟩ := form
    exact ⟨_, n, least, lead_ofNat form, le⟩
  unfold Form
  rcases Nat.lt_or_ge c.toNat 0x80 with short | h₁
  · exact ⟨0, 0, c.toNat, by omega⟩
  rcases Nat.lt_or_ge c.toNat 0x800 with short | h₂
  · exact ⟨1, 0x80, 0xc0 + c.toNat / 64, by omega⟩
  rcases Nat.lt_or_ge c.toNat 0x10000 with short | h₃
  · exact ⟨2, 0x800, 0xe0 + c.toNat / 64 ^ 2, by omega⟩
  · exact ⟨3, 0x10000, 0xf0 + c.toNat / 64 ^ 3, by omega⟩

/-- A character is written in the only form whose bits and least number fit it. -/
theorem utf8EncodeChar_eq_of_lead {c : Char} {b : UInt8} {n least : Nat}
    (hb : lead b = some (n, c.toNat / 64 ^ n, least)) (le : least ≤ c.toNat) :
    String.utf8EncodeChar c = b :: digits n c.toNat := by
  have first {m : Nat} (h : b.toNat = m) : UInt8.ofNat m = b := by
    rw [← h, UInt8.ofNat_toNat]
  rw [lead_eq_some_iff] at hb
  rw [String.utf8EncodeChar]
  simp only [Char.toNat] at *
  rcases hb with ⟨rfl, rfl, hc, hb⟩ | ⟨rfl, rfl, hc, hb⟩ | ⟨rfl, rfl, hc, hb⟩ | ⟨rfl, rfl, hc, hb⟩
  · rw [if_pos (by omega), first (by omega)]
    rfl
  · rw [if_neg (by omega), if_pos (by omega), first (by omega)]
    simp [digits]
  · rw [if_neg (by omega), if_neg (by omega), if_pos (by omega), first (by omega)]
    simp [digits]
  · rw [if_neg (by omega), if_neg (by omega), if_neg (by omega), first (by omega)]
    simp [digits]

/-- A character is read where its bytes stand, and nowhere else. -/
theorem next_eq_ok_iff {b : UInt8} {bytes rest : List UInt8} {c : Char} :
    next b bytes = (.ok c, rest) ↔ b :: bytes = String.utf8EncodeChar c ++ rest := by
  constructor
  · intro h
    unfold next at h
    split at h
    · cases h
    next n bits least hb =>
    rcases hn : continued n bits bytes with ⟨_ | number, rest'⟩
    · simp [hn, Except.bind] at h
    simp only [hn, Except.bind, Prod.mk.injEq, checked_eq_ok_iff] at h
    obtain ⟨⟨le, rfl⟩, rfl⟩ := h
    obtain ⟨rfl, rfl⟩ := continued_eq_ok_iff.1 hn
    rw [utf8EncodeChar_eq_of_lead hb le, List.cons_append]
  · intro h
    obtain ⟨first, n, least, hb, le⟩ := exists_lead c
    rw [utf8EncodeChar_eq_of_lead hb le, List.cons_append, List.cons.injEq] at h
    obtain ⟨rfl, rfl⟩ := h
    have number : continued n (c.toNat / 64 ^ n) (digits n c.toNat ++ rest) = (.ok c.toNat, rest) :=
      continued_eq_ok_iff.2 ⟨rfl, rfl⟩
    have char : checked least c.toNat = .ok c := checked_eq_ok_iff.2 ⟨le, rfl⟩
    simp [next, hb, number, Except.bind, char]

theorem exists_next (c : Char) (rest : List UInt8) :
    ∃ b bytes, String.utf8EncodeChar c ++ rest = b :: bytes ∧ next b bytes = (.ok c, rest) := by
  obtain ⟨b, n, least, hb, le⟩ := exists_lead c
  have bytes : String.utf8EncodeChar c ++ rest = b :: (digits n c.toNat ++ rest) := by
    rw [utf8EncodeChar_eq_of_lead hb le, List.cons_append]
  exact ⟨b, _, bytes, next_eq_ok_iff.2 bytes.symm⟩

/-! ### Texts -/

theorem decode_of_ok {b : UInt8} {bytes rest : List UInt8} {c : Char}
    (h : next b bytes = (.ok c, rest)) :
    decode (b :: bytes) = (c :: (decode rest).1, (decode rest).2) := by
  rw [decode]
  split
  · next h' =>
    rw [h, Prod.mk.injEq, Except.ok.injEq] at h'
    obtain ⟨rfl, rfl⟩ := h'
    rfl
  · next h' => simp [h] at h'

theorem decode_of_error {b : UInt8} {bytes rest : List UInt8} {fault : Fault}
    (h : next b bytes = (.error fault, rest)) :
    decode (b :: bytes) = ([], some (fault, rest)) := by
  rw [decode]
  split
  · next h' => simp [h] at h'
  · next h' =>
    rw [h, Prod.mk.injEq, Except.error.injEq] at h'
    obtain ⟨rfl, rfl⟩ := h'
    rfl

/-- A text at the beginning is read, and then what follows it. -/
theorem decode_encode_append (cs : List Char) (bytes : List UInt8) :
    decode (encode cs ++ bytes) = (cs ++ (decode bytes).1, (decode bytes).2) := by
  induction cs with
  | nil => rfl
  | cons c cs ih =>
    obtain ⟨b, tail, hb, hn⟩ := exists_next c (encode cs ++ bytes)
    rw [encode_cons, List.append_assoc, hb, decode_of_ok hn, ih]
    rfl

theorem decode_encode (cs : List Char) : decode (encode cs) = (cs, none) := by
  simpa [decode] using decode_encode_append cs []

theorem decode?_encode (cs : List Char) : decode? (encode cs) = some cs := by
  rw [decode?, decode_encode]

/-- Input is a text, or a text and then bytes that are at fault. -/
theorem eq_encode_or (bytes : List UInt8) :
    (∃ cs, bytes = encode cs) ∨
      ∃ cs b more fault rest, bytes = encode cs ++ b :: more ∧
        next b more = (.error fault, rest) := by
  fun_induction decode bytes with
  | case1 => exact .inl ⟨[], rfl⟩
  | case2 b bytes c rest h more ih =>
    rw [next_eq_ok_iff.1 h]
    rcases ih with ⟨cs, rfl⟩ | ⟨cs, b', more', fault, rest', rfl, hf⟩
    · exact .inl ⟨c :: cs, rfl⟩
    · exact .inr ⟨c :: cs, b', more', fault, rest', by simp, hf⟩
  | case3 b bytes fault rest h => exact .inr ⟨[], b, bytes, fault, rest, rfl, h⟩

theorem eq_encode_of_decode? {bytes : List UInt8} {cs : List Char} (h : decode? bytes = some cs) :
    bytes = encode cs := by
  obtain ⟨cs', rfl⟩ | ⟨cs', b, more, fault, rest, rfl, hn⟩ := eq_encode_or bytes
  · rw [decode?_encode, Option.some.injEq] at h
    rw [h]
  · rw [decode?, decode_encode_append, decode_of_error hn] at h
    cases h

end LetFn.Text.Utf8
