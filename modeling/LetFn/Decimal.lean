/-! Integers written in decimal digits. -/

namespace LetFn.Decimal

def ofInt (i : Int) : String :=
  if i < 0 then "-" ++ Nat.repr i.natAbs else Nat.repr i.natAbs

/-- Reads one or more digits, with any number of leading zeros. -/
def toNat? (digits : List Char) : Option Nat :=
  if digits ≠ [] ∧ digits.all Char.isDigit then some (Nat.ofDigitChars 10 digits 0) else none

/-- The least number that 64 bits hold only if it is negated. -/
def bound : Nat := 9223372036854775808

def positive? (digits : List Char) : Option Int64 :=
  (toNat? digits).bind fun n => if n < bound then some (Int64.ofNat n) else none

def negative? (digits : List Char) : Option Int64 :=
  (toNat? digits).bind fun n => if n ≤ bound then some (Int64.ofInt (-Int.ofNat n)) else none

/-- Reads an optional sign and digits; refuses what does not fit in 64 bits. -/
def toInt64? : List Char → Option Int64
  | '-' :: digits => negative? digits
  | '+' :: digits => positive? digits
  | digits => positive? digits

end LetFn.Decimal
