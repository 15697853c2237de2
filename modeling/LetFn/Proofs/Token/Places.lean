import LetFn.Proofs.Token.Lexed
import LetFn.Text.Blank

/-! Where the tokens of a text are: read one after the other, each starts behind the bytes of what
was read before it. -/

namespace LetFn

open Text (byteLength)

namespace Text

theorem byteLength_append (cs ds : List Char) :
    byteLength (cs ++ ds) = byteLength cs + byteLength ds := by
  induction cs with
  | nil => simp [byteLength]
  | cons c cs ih => simp [byteLength, ih, Nat.add_assoc]

end Text

namespace Lexeme

/-- A wider gap passes over one more offset. -/
theorem place_after_succ (stop gap : Nat) (cs : List Char) (offsets : List Nat) :
    place stop (after (gap + 1) cs) offsets = place stop (after gap cs) offsets.tail := by
  induction cs generalizing gap with
  | nil => simp [after, place]
  | cons c cs ih =>
    rw [after, after]
    split
    · exact ih (gap + 1)
    · simp [place]

theorem drop_length_takeWhile {p : Char → Bool} (cs : List Char) :
    cs.drop (cs.takeWhile p).length = cs.dropWhile p := by
  have split : (cs.takeWhile p ++ cs.dropWhile p).drop (cs.takeWhile p).length = cs.dropWhile p :=
    List.drop_left
  rwa [List.takeWhile_append_dropWhile] at split

end Lexeme

namespace Token

theorem offsets_append (start : Nat) (cs ds : List Char) :
    offsets start (cs ++ ds) = offsets start cs ++ offsets (start + byteLength cs) ds := by
  induction cs generalizing start with
  | nil => simp [offsets, byteLength]
  | cons c cs ih => simp [offsets, byteLength, ih, Nat.add_assoc]

theorem headD_offsets (start : Nat) (cs : List Char) :
    (offsets start cs).headD (start + byteLength cs) = start := by
  cases cs <;> simp [offsets, byteLength]

/-- The tokens of a text that starts at an offset. -/
def startingAt (start : Nat) (cs : List Char) : List Token :=
  Lexeme.place (start + byteLength cs) (Lexeme.ofChars cs) (offsets start cs) ++
    [eof (start + byteLength cs)]

theorem startingAt_nil (start : Nat) : startingAt start [] = [eof start] := by
  simp [startingAt, Lexeme.ofChars, Lexeme.after, Lexeme.place, byteLength]

theorem startingAt_space {c : Char} (h : isSpace c = true) (start : Nat) (cs : List Char) :
    startingAt start (c :: cs) = startingAt (start + c.utf8Size) cs := by
  simp only [startingAt, Lexeme.ofChars, offsets, byteLength, ← Nat.add_assoc]
  rw [Lexeme.after, if_pos h, Lexeme.place_after_succ, List.tail_cons]

theorem startingAt_cons {c : Char} (h : isSpace c = false) (start : Nat) (cs : List Char) :
    let n := (Lexeme.munch c cs).2
    let stop := start + byteLength (c :: cs.take n)
    startingAt start (c :: cs) =
      ⟨(Lexeme.munch c cs).1, String.ofList (c :: cs.take n), ⟨start, stop⟩⟩ ::
        startingAt stop (cs.drop n) := by
  intro n stop
  have split : c :: cs = (c :: cs.take n) ++ cs.drop n := by simp
  have whole : start + byteLength (c :: cs) = stop + byteLength (cs.drop n) := by
    rw [split, Text.byteLength_append, Nat.add_assoc]
  have next : (offsets start (c :: cs)).drop (c :: cs.take n).length =
      offsets stop (cs.drop n) := by
    rw [split, offsets_append, List.drop_left']
    exact length_offsets _ _
  simp only [startingAt, Lexeme.ofChars]
  rw [Lexeme.after, if_neg (by simp [h])]
  simp only [Lexeme.place, List.drop_zero, List.cons_append]
  rw [next, whole, headD_offsets, offsets, List.headD_cons]

theorem endOffset_zip (start : Nat) (c : Char) (cs : List Char) :
    endOffset ((offsets start (c :: cs)).zip (c :: cs)) = start + byteLength (c :: cs) := by
  induction cs generalizing start c with
  | nil => rfl
  | cons d cs ih =>
    rw [byteLength, ← Nat.add_assoc, ← ih (start + c.utf8Size) d]
    simp [endOffset, offsets]

theorem endOffset_offsets (cs : List Char) :
    endOffset ((offsets 0 cs).zip cs) = byteLength cs := by
  cases cs with
  | nil => rfl
  | cons c cs => rw [endOffset_zip, Nat.zero_add]

theorem ofChars_eq_startingAt (cs : List Char) : ofChars cs = startingAt 0 cs := by
  have stop : endOffset ((offsets 0 cs).zip cs) = 0 + byteLength cs := by
    rw [endOffset_offsets, Nat.zero_add]
  have length := length_offsets 0 cs
  rw [ofChars, ofStream, stop, List.map_snd_zip (Nat.le_of_eq length.symm),
    List.map_fst_zip (Nat.le_of_eq length)]
  rfl

end Token

end LetFn
