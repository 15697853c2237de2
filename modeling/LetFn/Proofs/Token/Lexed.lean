import LetFn.Proofs.Token.Words

/-! What the tokens of a text look like: their literals are spelled as their kinds demand. -/

namespace LetFn

/-- A letter or an underscore, then letters, digits and underscores. -/
def IsWord (s : String) : Prop :=
  ∃ c cs, s.toList = c :: cs ∧ isWordStart c = true ∧ ∀ d ∈ cs, isWordPart d = true

def IsName (s : String) : Prop := IsWord s ∧ Kind.ofWord? s = none

theorem isWord_of_reserved {w : String} {kind : Kind} (h : Kind.ofWord? w = some kind) :
    IsWord w := by
  obtain ⟨hk, ht⟩ := Kind.ofWord?_eq_some_iff.1 h
  cases kind <;> simp [Kind.isReserved] at hk <;>
    simp only [Kind.text?, Option.some.injEq] at ht <;> subst ht <;>
    exact ⟨_, _, rfl, by decide, List.all_eq_true.1 (by decide)⟩

/-- A token of this kind may have this literal. -/
structure Spelled (kind : Kind) (literal : String) : Prop where
  name : kind = .ident → IsName literal
  digits : kind = .int →
    literal.toList ≠ [] ∧ ∀ c ∈ literal.toList, c.isDigit = true
  text : ∀ s, kind.text? = some s → literal = s

namespace Spelled

theorem of_text {kind : Kind} {literal : String} (h : kind.text? = some literal) :
    Spelled kind literal := by
  refine ⟨?_, ?_, ?_⟩
  · rintro rfl
    cases h
  · rintro rfl
    cases h
  · intro s hs
    rw [h] at hs
    exact Option.some.inj hs

theorem eof : Spelled .eof "" := ⟨nofun, nofun, nofun⟩

theorem illegal {literal : String} : Spelled .illegal literal := ⟨nofun, nofun, nofun⟩

theorem ident {literal : String} (h : IsName literal) : Spelled .ident literal :=
  ⟨fun _ => h, nofun, nofun⟩

theorem int {literal : String} (hn : literal.toList ≠ [])
    (hd : ∀ c ∈ literal.toList, c.isDigit = true) : Spelled .int literal :=
  ⟨nofun, fun _ => ⟨hn, hd⟩, nofun⟩

end Spelled

namespace Lexeme

theorem symbol_spelled (c : Char) : Spelled (symbol c) (String.ofList [c]) := by
  unfold symbol
  split <;> first | exact .of_text rfl | exact .illegal

theorem take_length_takeWhile {p : Char → Bool} (cs : List Char) :
    cs.take (cs.takeWhile p).length = cs.takeWhile p :=
  (List.prefix_iff_eq_take.1 (List.takeWhile_prefix p)).symm

theorem of_mem_takeWhile {p : Char → Bool} {c : Char} {cs : List Char}
    (h : c ∈ cs.takeWhile p) : p c = true :=
  List.all_eq_true.1 List.all_takeWhile c h

/-- A word is reserved, or it is a name. -/
theorem word_spelled {c : Char} {cs : List Char} (hc : isWordStart c = true)
    (hcs : ∀ d ∈ cs, isWordPart d = true) :
    Spelled ((Kind.ofWord? (String.ofList (c :: cs))).getD .ident) (String.ofList (c :: cs)) := by
  cases h : Kind.ofWord? (String.ofList (c :: cs)) with
  | none => exact .ident ⟨⟨c, cs, by simp, hc, hcs⟩, h⟩
  | some kind => exact .of_text (Kind.ofWord?_eq_some_iff.1 h).2

theorem munch_spelled (c : Char) (rest : List Char) :
    Spelled (munch c rest).1 (String.ofList (c :: rest.take (munch c rest).2)) := by
  have next (h : rest.head? = some '=') : rest.take 1 = ['='] := by
    cases rest with
    | nil => cases h
    | cons d rest => simpa using h
  unfold munch
  split
  · next h =>
    simp only [Bool.and_eq_true, decide_eq_true_eq, beq_iff_eq] at h
    rw [h.1, next h.2]
    exact .of_text rfl
  split
  · next h =>
    simp only [Bool.and_eq_true, decide_eq_true_eq, beq_iff_eq] at h
    rw [h.1, next h.2]
    exact .of_text rfl
  split
  · next h =>
    simp only [take_length_takeWhile]
    exact word_spelled h fun d hd => of_mem_takeWhile hd
  split
  · next h =>
    simp only [take_length_takeWhile]
    refine .int (by simp) ?_
    intro d hd
    rw [String.toList_ofList, List.mem_cons] at hd
    rcases hd with rfl | hd
    · exact h
    · exact of_mem_takeWhile hd
  · simpa using symbol_spelled c

theorem after_spelled (gap : Nat) (cs : List Char) :
    ∀ x ∈ after gap cs, Spelled x.kind (String.ofList x.text) := by
  fun_induction after gap cs with
  | case1 => simp
  | case2 gap c rest h ih => exact ih
  | case3 gap c rest h kind n hm ih =>
    intro x hx
    rw [List.mem_cons] at hx
    rcases hx with rfl | hx
    · have := munch_spelled c rest
      rwa [hm] at this
    · exact ih x hx

end Lexeme

namespace Token

def Lexed (t : Token) : Prop := Spelled t.kind t.literal

theorem lexed_of_mem_ofChars {cs : List Char} {t : Token} (h : t ∈ ofChars cs) : t.Lexed := by
  have hw : t.word ∈ (ofChars cs).map word := List.mem_map_of_mem h
  rw [map_word_ofChars, List.mem_append, words, List.mem_map] at hw
  rcases hw with ⟨x, hx, ht⟩ | ht
  · simp only [Lexeme.word, word, Prod.mk.injEq] at ht
    rw [Lexed, ← ht.1, ← ht.2]
    exact Lexeme.after_spelled 0 cs x hx
  · simp only [word, List.mem_singleton, Prod.mk.injEq] at ht
    rw [Lexed, ht.1, ht.2]
    exact .eof

end Token

end LetFn
