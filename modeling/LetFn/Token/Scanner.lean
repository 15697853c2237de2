import LetFn.Token.Lexer
import LetFn.Token.Source

/-! Cutting characters into tokens one at a time.

A scanner shows the character to be read and the one behind it. Each time it moves, its input is
asked for one more character, also behind the last one; from there it goes on with the offset where
that one ends, and answers every call with an end token. -/

namespace LetFn

/-- What characters are taken from, with the offsets where they stand. -/
class CharSource (σ : Type) where
  /-- Asks for a character. If there is none, it may be asked all the same. -/
  pull : σ → Option (Nat × Char) × σ
  /-- How many characters can come. -/
  size : σ → Nat
  size_pull (s : σ) : size (pull s).2 + (pull s).1.isSome.toNat ≤ size s

instance : CharSource (List (Nat × Char)) where
  pull cs := (cs.head?, cs.tail)
  size := List.length
  size_pull cs := by cases cs <;> simp

structure Scanner (σ : Type := List (Nat × Char)) where
  current : Option Char
  ahead : Option Char
  /-- Offset of the current character. -/
  position : Nat
  aheadPosition : Nat
  /-- What follows the character ahead. -/
  input : σ

namespace Scanner

variable {σ : Type} [CharSource σ]

/-- Moves on by one character. -/
def shift (s : Scanner σ) : Scanner σ :=
  match CharSource.pull s.input with
  | (none, input) =>
    ⟨s.ahead, none, s.aheadPosition, s.aheadPosition + (s.ahead.map Char.utf8Size).getD 0, input⟩
  | (some (offset, c), input) => ⟨s.ahead, some c, s.aheadPosition, offset, input⟩

/-- At the first character. -/
def start (input : σ) : Scanner σ := shift (shift ⟨none, none, 0, 0, input⟩)

def ofStream (cs : List (Nat × Char)) : Scanner := start cs

def ofText (text : String) : Scanner :=
  ofStream ((Token.offsets 0 text.toList).zip text.toList)

/-- How many characters are left. -/
def left (s : Scanner σ) : Nat :=
  CharSource.size s.input + s.ahead.isSome.toNat + s.current.isSome.toNat

theorem current_shift (s : Scanner σ) : s.shift.current = s.ahead := by
  unfold shift
  split <;> rfl

theorem left_shift {s : Scanner σ} {c : Char} (h : s.current = some c) :
    s.shift.left < s.left := by
  have less := CharSource.size_pull s.input
  unfold shift
  split <;> rename_i pull <;> rw [pull] at less <;> simp [left, h] at less ⊢ <;> omega

/-- Moves over characters as long as they satisfy `p`. -/
def takeWhile (p : Char → Bool) (s : Scanner σ) : List Char × Scanner σ :=
  match _h : s.current with
  | none => ([], s)
  | some c =>
    if p c then
      let more := takeWhile p s.shift
      (c :: more.1, more.2)
    else ([], s)
termination_by s.left
decreasing_by exact left_shift _h

theorem takeWhile_of_none {s : Scanner σ} (p : Char → Bool) (h : s.current = none) :
    s.takeWhile p = ([], s) := by
  rw [takeWhile]
  split
  · rfl
  · next hc => simp [h] at hc

theorem left_takeWhile (p : Char → Bool) (s : Scanner σ) : (s.takeWhile p).2.left ≤ s.left := by
  fun_induction takeWhile p s with
  | case1 s _ => exact Nat.le_refl _
  | case2 s c h _ _ ih => exact Nat.le_trans ih (Nat.le_of_lt (left_shift h))
  | case3 s c _ _ => exact Nat.le_refl _

/-- The kind and the characters of the token that begins with the current character `c`, and the
scanner behind it. -/
def lexeme (c : Char) (s : Scanner σ) : Kind × List Char × Scanner σ :=
  if c = '=' && s.ahead == some '=' then (.equal, [c, '='], s.shift.shift)
  else if c = '!' && s.ahead == some '=' then (.notEqual, [c, '='], s.shift.shift)
  else if isWordStart c then
    let (more, s) := s.shift.takeWhile isWordPart
    ((Kind.ofWord? (String.ofList (c :: more))).getD .ident, c :: more, s)
  else if c.isDigit then
    let (more, s) := s.shift.takeWhile Char.isDigit
    (.int, c :: more, s)
  else (Lexeme.symbol c, [c], s.shift)

theorem left_lexeme {s : Scanner σ} {c : Char} (h : s.current = some c) :
    (s.lexeme c).2.2.left < s.left := by
  have first := left_shift h
  have second {d : Char} (two : (s.ahead == some d) = true) : s.shift.shift.left < s.left :=
    Nat.lt_trans (left_shift (s.current_shift.trans (beq_iff_eq.1 two))) first
  simp only [lexeme]
  split
  · next two => exact second (Bool.and_eq_true_iff.1 two).2
  split
  · next two => exact second (Bool.and_eq_true_iff.1 two).2
  split
  · exact Nat.lt_of_le_of_lt (left_takeWhile _ _) first
  split
  · exact Nat.lt_of_le_of_lt (left_takeWhile _ _) first
  · exact first

/-- The next token, and the scanner behind it. -/
def next (s : Scanner σ) : Token × Scanner σ :=
  let start := (s.takeWhile isSpace).2
  match start.current with
  | none => (.eof start.position, start)
  | some c =>
    let (kind, text, rest) := start.lexeme c
    (⟨kind, String.ofList text, ⟨start.position, rest.position⟩⟩, rest)

/-- What the first `n` calls answer. -/
def calls : (n : Nat) → Scanner σ → List Token
  | 0, _ => []
  | n + 1, s => s.next.1 :: calls n s.next.2

/-- How many tokens can come: none behind the last character, and else one for each at most. -/
def size (s : Scanner σ) : Nat :=
  match s.current with
  | none => 0
  | some _ => s.left

theorem size_le_left (s : Scanner σ) : s.size ≤ s.left := by
  unfold size
  split
  · exact Nat.zero_le _
  · exact Nat.le_refl _

theorem size_next (s : Scanner σ) : s.next.2.size ≤ s.size - 1 := by
  have skipped := left_takeWhile isSpace s
  cases hs : s.current with
  | none =>
    simp [next, takeWhile_of_none isSpace hs, hs, size]
  | some c =>
    have all : s.size = s.left := by simp [size, hs]
    rw [next, all]
    split
    · next hc => simp [size, hc]
    · next d hc =>
      have less := Nat.lt_of_lt_of_le (left_lexeme hc) skipped
      exact Nat.le_trans (size_le_left _) (Nat.le_sub_one_of_lt less)

theorem kind_next (s : Scanner σ) (h : s.size = 0) : s.next.1.kind = .eof := by
  cases hs : s.current with
  | none =>
    simp [next, takeWhile_of_none isSpace hs, hs, Token.eof]
  | some c => simp [size, left, hs] at h

instance : TokenSource (Scanner σ) where
  next := next
  size := size
  size_next := size_next
  kind_next := kind_next

end Scanner

end LetFn
