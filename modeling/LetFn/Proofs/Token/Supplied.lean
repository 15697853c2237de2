import Mathlib.Data.List.Forall2
import LetFn.Proofs.Token.Scanner

/-! Characters that come with offsets, be these what they may. The characters alone decide what the
tokens are; the offsets say where they are. -/

namespace LetFn

open Text (byteLength)

/-- The text of characters that come with offsets. -/
def Text.supplied (cs : List (Nat × Char)) : String := String.ofList (cs.map Prod.snd)

@[simp] theorem Text.toList_supplied (cs : List (Nat × Char)) :
    (supplied cs).toList = cs.map Prod.snd :=
  String.toList_ofList

/-- The token `u` of the text that the characters make up, and `t`, the same token at the offsets
that come with them: from that of its first character to that of the character behind it, or to
where the stream ends if there is none. -/
structure Token.Supplied (cs : List (Nat × Char)) (u t : Token) : Prop where
  word_eq : t.word = u.word
  span : ∃ front first more back, cs = front ++ first :: more ++ back ∧
    u.literal.toList = (first :: more).map Prod.snd ∧
    u.span = ⟨byteLength (front.map Prod.snd), byteLength ((front ++ first :: more).map Prod.snd)⟩ ∧
    t.span = ⟨first.1, (back.map Prod.fst).headD (endOffset cs)⟩

/-- However much of the stream has been read already. -/
theorem Tiling.supplied {start : Nat} {chars : List Char} {us : List Token}
    (tiling : Tiling start chars us) {front cs : List (Nat × Char)}
    (hc : chars = cs.map Prod.snd) (hs : start = byteLength (front.map Prod.snd)) :
    List.Forall₂ (Token.Supplied (front ++ cs)) us
      (Scanner.tokens (Token.endOffset (front ++ cs)) cs) := by
  induction tiling generalizing front cs with
  | nil =>
    obtain rfl := List.map_eq_nil_iff.1 hc.symm
    rw [Scanner.tokens_nil]
    exact .nil
  | @space start c chars us space _ ih =>
    obtain ⟨⟨offset, d⟩, cs, rfl, hd, rfl⟩ := List.map_eq_cons_iff.1 hc.symm
    obtain rfl : c = d := hd.symm
    have passed : start + c.utf8Size = byteLength ((front ++ [(offset, c)]).map Prod.snd) := by
      simp [hs, Text.byteLength_append, byteLength]
    rw [Scanner.tokens_space space]
    simpa using ih rfl passed
  | @token start kind text chars us m _ ih =>
    obtain ⟨c, rest, rfl, space, munch⟩ := m.munch_eq
    obtain ⟨⟨offset, d⟩, cs, rfl, hd, hcs⟩ := List.map_eq_cons_iff.1 hc.symm
    obtain rfl : c = d := hd.symm
    obtain ⟨more, back, rfl, rfl, rfl⟩ := List.map_eq_append_iff.1 hcs
    have passed : start + byteLength (c :: more.map Prod.snd) =
        byteLength ((front ++ (offset, c) :: more).map Prod.snd) := by
      simp [hs, Text.byteLength_append, byteLength]
    rw [← List.map_append, List.length_map] at munch
    have here : Token.Supplied (front ++ (offset, c) :: (more ++ back))
        ⟨kind, String.ofList (c :: more.map Prod.snd),
          ⟨start, start + byteLength (c :: more.map Prod.snd)⟩⟩
        ⟨kind, String.ofList (c :: more.map Prod.snd),
          ⟨offset, (back.map Prod.fst).headD
            (Token.endOffset (front ++ (offset, c) :: (more ++ back)))⟩⟩ := by
      refine ⟨rfl, front, (offset, c), more, back, by simp, by simp, ?_, rfl⟩
      rw [passed, hs]
    have behind := ih rfl passed
    rw [Scanner.tokens_cons space munch, List.map_append, List.take_left' (by simp),
      List.drop_left]
    refine .cons here ?_
    simpa using behind

namespace Token

/-- The tokens of a stream are those of its text, put where the stream says. -/
theorem exists_supplied (cs : List (Nat × Char)) :
    ∃ us ts, ofText (Text.supplied cs) = us ++ [.eof (byteLength (Text.supplied cs).toList)] ∧
      ofStream cs = ts ++ [.eof (endOffset cs)] ∧ List.Forall₂ (Supplied cs) us ts := by
  obtain ⟨us, tokens, tiling⟩ := exists_tiling_ofText (Text.supplied cs)
  have nothing : 0 = byteLength (([] : List (Nat × Char)).map Prod.snd) := rfl
  exact ⟨us, _, tokens, rfl, tiling.supplied (Text.toList_supplied cs) nothing⟩

theorem Supplied.map_word_eq {cs : List (Nat × Char)} {us ts : List Token}
    (supplied : List.Forall₂ (Supplied cs) us ts) : ts.map word = us.map word := by
  induction supplied with
  | nil => rfl
  | cons first _ ih => rw [List.map_cons, List.map_cons, first.word_eq, ih]

end Token

/-- Whatever offsets come with the characters, a scanner answers with the kinds and literals that it
would answer for the text alone, as often as it is asked. Each token lies between the offset of its
first character and that of the character behind its last one; behind the last character of all is
the offset where the stream ends, and there is the end, for ever. -/
theorem scanner_supplied (cs : List (Nat × Char)) :
    (∀ n, ((Scanner.ofStream cs).calls n).map Token.word =
      ((Scanner.ofText (Text.supplied cs)).calls n).map Token.word) ∧
    ∃ us ts, List.Forall₂ (Token.Supplied cs) us ts ∧
      (∀ n, (Scanner.ofText (Text.supplied cs)).calls (us.length + n) =
        us ++ List.replicate n (.eof (byteLength (Text.supplied cs).toList))) ∧
      ∀ n, (Scanner.ofStream cs).calls (ts.length + n) =
        ts ++ List.replicate n (.eof (Token.endOffset cs)) := by
  obtain ⟨us, ts, tokens, stream, supplied⟩ := Token.exists_supplied cs
  refine ⟨fun n => ?_, us, ts, supplied, fun n => ?_, Scanner.calls_ofStream stream⟩
  · rw [Scanner.calls_ofStream_eq_take stream (Nat.le_add_left n _),
      Scanner.calls_ofText tokens (Nat.le_add_left n _), List.map_take, List.map_take,
      List.map_append, List.map_append, Token.Supplied.map_word_eq supplied, List.map_replicate,
      List.map_replicate]
    rfl
  · rw [Scanner.calls_ofText tokens (Nat.le_refl _), List.take_of_length_le (by simp)]

/-- The offsets of these characters fall. -/
example : Token.ofStream [(9, 'a'), (7, '='), (7, '='), (0, '§')] =
    [⟨.ident, "a", ⟨9, 7⟩⟩, ⟨.equal, "==", ⟨7, 0⟩⟩, ⟨.illegal, "§", ⟨0, 2⟩⟩, .eof 2] := by
  decide +kernel

end LetFn
