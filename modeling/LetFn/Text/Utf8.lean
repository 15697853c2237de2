/-! Decoding UTF-8. -/

namespace LetFn.Text.Utf8

inductive Fault where
  /-- Bytes that no character is written with. -/
  | invalid
  /-- The input ends within a character. -/
  | truncated
  deriving DecidableEq, Repr

def isContinuation (b : UInt8) : Bool := 0x80 ≤ b && b < 0xc0

/-- Adds the bits of `n` continuation bytes. A byte of another kind is left where it is. -/
def continued : (n : Nat) → (bits : Nat) → List UInt8 → Except Fault Nat × List UInt8
  | 0, bits, bytes => (.ok bits, bytes)
  | _ + 1, _, [] => (.error .truncated, [])
  | n + 1, bits, b :: bytes =>
    if isContinuation b then continued n (bits * 64 + b.toNat % 64) bytes
    else (.error .invalid, b :: bytes)

/-- The character with that number, unless a shorter form should have been used for it. -/
def checked (least : Nat) (number : Nat) : Except Fault Char :=
  if h : least ≤ number ∧ number.isValidChar then .ok (Char.ofNatAux number h.2)
  else .error .invalid

/-- What the first byte of a character tells: the number of continuation bytes, its own bits, and
the least number that this form is for. -/
def lead (b : UInt8) : Option (Nat × Nat × Nat) :=
  if b < 0x80 then some (0, b.toNat, 0)
  else if b < 0xc0 then none
  else if b < 0xe0 then some (1, b.toNat % 32, 0x80)
  else if b < 0xf0 then some (2, b.toNat % 16, 0x800)
  else if b < 0xf8 then some (3, b.toNat % 8, 0x10000)
  else none

/-- Takes the bytes of one character, or those that are at fault, off the input. -/
def next (b : UInt8) (bytes : List UInt8) : Except Fault Char × List UInt8 :=
  match lead b with
  | none => (.error .invalid, bytes)
  | some (n, bits, least) =>
    let (number, rest) := continued n bits bytes
    (number.bind (checked least), rest)

theorem length_continued (n bits : Nat) (bytes : List UInt8) :
    (continued n bits bytes).2.length ≤ bytes.length := by
  induction n generalizing bits bytes with
  | zero => simp [continued]
  | succ n ih =>
    cases bytes with
    | nil => simp [continued]
    | cons b bytes =>
      simp only [continued]
      split
      · exact Nat.le_succ_of_le (ih _ _)
      · simp

theorem length_next (b : UInt8) (bytes : List UInt8) :
    (next b bytes).2.length ≤ bytes.length := by
  simp only [next]
  split
  · exact Nat.le_refl _
  · exact length_continued _ _ _

/-- The characters up to the first fault; the fault comes with the bytes that follow it. -/
def decode : List UInt8 → List Char × Option (Fault × List UInt8)
  | [] => ([], none)
  | b :: bytes =>
    match _h : next b bytes with
    | (.ok c, rest) =>
      let more := decode rest
      (c :: more.1, more.2)
    | (.error fault, rest) => ([], some (fault, rest))
termination_by bytes => bytes.length
decreasing_by
  have := length_next b bytes
  rw [_h] at this
  simpa using Nat.lt_succ_of_le this

/-- The text, if the bytes are one. -/
def decode? (bytes : List UInt8) : Option (List Char) :=
  match decode bytes with
  | (cs, none) => some cs
  | (_, some _) => none

end LetFn.Text.Utf8
