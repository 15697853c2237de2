import LetFn.Text.Utf8
import LetFn.Token.Scanner

/-! Bytes as a source of characters: they are decoded as far as it is asked for characters. -/

namespace LetFn

/-- Bytes that are being decoded, and what has come out of them. -/
structure Feed where
  bytes : List UInt8
  /-- Where the next character will stand. -/
  offset : Nat
  /-- The characters handed out, the last one first. -/
  text : List Char
  /-- The last fault met. -/
  fault : Option Text.Utf8.Fault

namespace Feed

def ofBytes (bytes : List UInt8) : Feed := ⟨bytes, 0, [], none⟩

/-- Asks for a character; there is none at the end and at a fault. A fault takes the place of an
earlier one. -/
def pull (f : Feed) : Option (Nat × Char) × Feed :=
  match f.bytes with
  | [] => (none, f)
  | b :: bytes =>
    match Text.Utf8.next b bytes with
    | (.ok c, rest) => (some (f.offset, c), ⟨rest, f.offset + c.utf8Size, c :: f.text, f.fault⟩)
    | (.error fault, rest) => (none, { f with bytes := rest, fault := some fault })

theorem length_pull (f : Feed) :
    f.pull.2.bytes.length + f.pull.1.isSome.toNat ≤ f.bytes.length := by
  obtain ⟨bytes, offset, text, fault⟩ := f
  cases bytes with
  | nil => simp [pull]
  | cons b bytes =>
    have shorter := Text.Utf8.length_next b bytes
    simp only [pull]
    split <;> rename_i hn <;> rw [hn] at shorter <;> simp at shorter ⊢ <;> omega

instance : CharSource Feed where
  pull := pull
  size f := f.bytes.length
  size_pull := length_pull

end Feed

def Scanner.ofBytes (bytes : List UInt8) : Scanner Feed := .start (.ofBytes bytes)

end LetFn
