import LetFn.Proofs.Grammar
import LetFn.Proofs.Token.Append

/-! Tokens cut out of a text together with what is between them: the piece alone is cut into the
same tokens. A token that may end in front of something may end at the end of the text, too. -/

namespace LetFn

open Text (byteLength)

/-! ### Pieces of a text -/

theorem Text.eq_nil_of_byteLength {cs : List Char} (h : byteLength cs = 0) : cs = [] :=
  Decidable.byContradiction fun some => Nat.ne_of_gt (byteLength_pos some) h

/-- Where a text can be cut is determined by how many bytes are in front. -/
theorem Text.eq_of_byteLength_eq {cs ds es fs : List Char} (whole : cs ++ es = ds ++ fs)
    (length : byteLength cs = byteLength ds) : cs = ds ∧ es = fs := by
  rcases List.append_eq_append_iff.1 whole with ⟨gap, rfl, rfl⟩ | ⟨gap, rfl, rfl⟩
  · rw [byteLength_append] at length
    obtain rfl : gap = [] := eq_nil_of_byteLength (by omega)
    simp
  · rw [byteLength_append] at length
    obtain rfl : gap = [] := eq_nil_of_byteLength (by omega)
    simp

/-- A span covers one part of a text at most. -/
theorem Span.Covers.unique {start : Nat} {cs part part' : List Char} {span : Span}
    (covers : span.Covers start cs part) (covers' : span.Covers start cs part') : part = part' := by
  obtain ⟨front, back, whole, begins, ends⟩ := covers
  obtain ⟨front', back', whole', begins', ends'⟩ := covers'
  have cut := whole.symm.trans whole'
  rw [List.append_assoc, List.append_assoc] at cut
  obtain ⟨-, rest⟩ := Text.eq_of_byteLength_eq cut (by omega)
  exact (Text.eq_of_byteLength_eq rest (by omega)).1

namespace Tiling

variable {start : Nat} {cs : List Char} {a b w : List Token} {t : Token}

/-- A text cut right in front of one of its tokens. -/
theorem exists_behind (tiling : Tiling start cs (a ++ t :: w)) :
    ∃ front rest, cs = front ++ rest ∧ t.span.start = start + byteLength front ∧
      Tiling (start + byteLength front) rest (t :: w) := by
  generalize hts : a ++ t :: w = ts at tiling
  induction tiling generalizing a with
  | nil => simp at hts
  | @space start c cs ts space tiling ih =>
    obtain ⟨front, rest, rfl, begins, behind⟩ := ih hts
    rw [Nat.add_assoc] at begins behind
    exact ⟨c :: front, rest, rfl, begins, behind⟩
  | @token start kind text rest ts m tiling ih =>
    cases a with
    | nil =>
      obtain ⟨rfl, rfl⟩ := List.cons.inj hts
      exact ⟨[], text ++ rest, rfl, rfl, .token m tiling⟩
    | cons first a =>
      obtain ⟨front, rest, rfl, begins, behind⟩ := ih (List.cons.inj hts).2
      rw [Nat.add_assoc, ← Text.byteLength_append] at begins behind
      exact ⟨text ++ front, rest, (List.append_assoc _ _ _).symm, begins, behind⟩

/-- A text cut right behind one of its tokens, or at once. -/
theorem exists_upTo (tiling : Tiling start cs (w ++ b)) :
    ∃ part back, cs = part ++ back ∧ Tiling start part w ∧
      start + byteLength part = w.getLast?.elim start fun t => t.span.stop := by
  generalize hts : w ++ b = ts at tiling
  induction tiling generalizing w with
  | nil =>
    obtain ⟨rfl, rfl⟩ := List.append_eq_nil_iff.1 hts
    exact ⟨[], [], rfl, .nil, rfl⟩
  | @space start c cs ts space tiling ih =>
    cases w with
    | nil => exact ⟨[], c :: cs, rfl, .nil, rfl⟩
    | cons t w =>
      obtain ⟨part, back, rfl, upTo, ends⟩ := ih hts
      refine ⟨c :: part, back, rfl, .space space upTo, ?_⟩
      rw [byteLength, ← Nat.add_assoc, ends, List.getLast?_cons]
      rfl
  | @token start kind text rest ts m tiling ih =>
    cases w with
    | nil => exact ⟨[], text ++ rest, rfl, .nil, rfl⟩
    | cons t w =>
      obtain ⟨rfl, others⟩ := List.cons.inj hts
      obtain ⟨part, back, rfl, upTo, ends⟩ := ih others
      have fewer : ∀ c ∈ part.head?, c ∈ (part ++ back).head? := by
        cases part <;> simp
      refine ⟨text ++ part, back, (List.append_assoc _ _ _).symm, .token (m.mono fewer) upTo, ?_⟩
      rw [Text.byteLength_append, ← Nat.add_assoc, ends, List.getLast?_cons]
      cases w.getLast? <;> rfl

/-- The piece of a text from the first to the last one of some tokens. -/
theorem exists_slice (tiling : Tiling start cs (a ++ (w ++ b))) (ne : w ≠ []) :
    ∃ part, (Grammar.extent w).Covers start cs part ∧
      Tiling (Grammar.extent w).start part w := by
  obtain ⟨t, w, rfl⟩ := List.exists_cons_of_ne_nil ne
  obtain ⟨front, rest, rfl, begins, behind⟩ := tiling.exists_behind
  obtain ⟨part, back, rfl, upTo, ends⟩ := exists_upTo (w := t :: w) behind
  have here : (Grammar.extent (t :: w)).start = start + byteLength front := begins
  have there : (Grammar.extent (t :: w)).stop = start + byteLength front + byteLength part := by
    rw [ends, Grammar.extent, List.getLast?_cons]
    rfl
  refine ⟨part, ⟨front, back, (List.append_assoc _ _ _).symm, here, ?_⟩, here ▸ upTo⟩
  rw [there, here]

end Tiling

/-- A text moved to the beginning is cut in the same places. -/
theorem Token.ofText_slice {start : Nat} {part : List Char} {w : List Token}
    (tiling : Tiling start part w) :
    ofText (String.ofList part) =
      w.map (Token.move (· - start)) ++ [.eof (byteLength part)] := by
  obtain ⟨us, alone, tiling'⟩ := exists_tiling_ofText (String.ofList part)
  rw [String.toList_ofList] at alone tiling'
  have moved := (tiling'.move start).startingAt_eq
  rw [Nat.zero_add, tiling.startingAt_eq, List.append_cancel_right_eq] at moved
  rw [alone, moved, List.map_map]
  have same : Token.move (· - start) ∘ Token.move (· + start) = id := by
    funext t
    simp [Token.move, Span.move]
  rw [same, List.map_id]

end LetFn
