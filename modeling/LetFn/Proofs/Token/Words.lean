import LetFn.Token.Lexer

/-! The kinds and literals of the tokens of a text, without their places, and how they follow from
the characters at its beginning. -/

namespace LetFn

namespace Lexeme

def word (x : Lexeme) : Kind × String := (x.kind, String.ofList x.text)

theorem map_word_after (gap gap' : Nat) (cs : List Char) :
    (after gap cs).map word = (after gap' cs).map word := by
  induction h : cs.length using Nat.strongRecOn generalizing gap gap' cs with
  | ind n ih =>
    cases cs with
    | nil => simp [after]
    | cons c cs =>
      rw [after, after]
      split
      · exact ih cs.length (by simp [← h]) _ _ _ rfl
      · rfl

theorem map_word_place (stop : Nat) (xs : List Lexeme) (offsets : List Nat) :
    (place stop xs offsets).map (fun t => (t.kind, t.literal)) = xs.map word := by
  induction xs generalizing offsets with
  | nil => rfl
  | cons x xs ih => simp [place, word, ih]

end Lexeme

open Lexeme

def words (cs : List Char) : List (Kind × String) := (ofChars cs).map word

/-! ### Tokens and their places -/

namespace Token

def word (t : Token) : Kind × String := (t.kind, t.literal)

theorem length_offsets (start : Nat) (cs : List Char) :
    (offsets start cs).length = cs.length := by
  induction cs generalizing start with
  | nil => rfl
  | cons c cs ih => simp [offsets, ih]

/-- Offsets are attached to what the characters alone decide. -/
theorem map_word_ofChars (cs : List Char) :
    (ofChars cs).map word = words cs ++ [(.eof, "")] := by
  have chars : ((offsets 0 cs).zip cs).map Prod.snd = cs :=
    List.map_snd_zip (Nat.le_of_eq (length_offsets 0 cs).symm)
  simp only [ofChars, ofStream, List.map_append, chars]
  rw [show word = fun t => (t.kind, t.literal) from rfl, map_word_place]
  rfl

end Token

/-! ### The first word of a text -/

@[simp] theorem words_nil : words [] = [] := by
  simp [words, ofChars, after]

theorem words_space {c : Char} {cs : List Char} (h : isSpace c = true) :
    words (c :: cs) = words cs := by
  rw [words, ofChars, after, if_pos h, map_word_after (0 + 1) 0]
  rfl

@[simp] theorem words_blank (cs : List Char) : words (' ' :: cs) = words cs :=
  words_space (by decide)

theorem words_gap {gap cs : List Char} (blank : ∀ c ∈ gap, isSpace c = true) :
    words (gap ++ cs) = words cs := by
  induction gap with
  | nil => rfl
  | cons c gap ih =>
    obtain ⟨hc, rest⟩ := List.forall_mem_cons.1 blank
    rw [List.cons_append, words_space hc, ih rest]

theorem words_cons {c : Char} {cs : List Char} (h : isSpace c = false) :
    words (c :: cs) = ((munch c cs).1, String.ofList (c :: cs.take (munch c cs).2)) ::
      words (cs.drop (munch c cs).2) := by
  rw [words, ofChars, after, if_neg (by simp [h])]
  rfl

/-- A character that is a token by itself, unless it is the first half of a longer one. -/
theorem munch_symbol {c : Char} {cs : List Char} (hk : symbol c ≠ .illegal)
    (h : c = '=' ∨ c = '!' → cs.head? ≠ some '=') :
    isSpace c = false ∧ munch c cs = (symbol c, 0) := by
  obtain ⟨space, start, digit⟩ : isSpace c = false ∧ isWordStart c = false ∧ c.isDigit = false := by
    unfold symbol at hk
    split at hk <;> first | decide | exact (hk rfl).elim
  have single : ∀ d, d = '=' ∨ d = '!' → (c = d && cs.head? == some '=') = false := by
    intro d hd
    by_cases hc : c = d
    · simpa [hc] using h (hc ▸ hd)
    · simp [hc]
  exact ⟨space, by simp [munch, single, start, digit]⟩

theorem words_symbol {c : Char} {cs : List Char} (hk : symbol c ≠ .illegal)
    (h : c = '=' ∨ c = '!' → cs.head? ≠ some '=') :
    words (c :: cs) = (symbol c, String.ofList [c]) :: words cs := by
  obtain ⟨space, munch_eq⟩ := munch_symbol hk h
  rw [words_cons space, munch_eq]
  simp

@[simp] theorem words_equal (cs : List Char) :
    words ('=' :: '=' :: cs) = (.equal, "==") :: words cs := by
  rw [words_cons (by decide)]
  simp [munch]

@[simp] theorem words_notEqual (cs : List Char) :
    words ('!' :: '=' :: cs) = (.notEqual, "!=") :: words cs := by
  rw [words_cons (by decide)]
  simp [munch]

theorem takeWhile_append {p : Char → Bool} {cs rest : List Char} (h : ∀ c ∈ cs, p c = true)
    (hr : ∀ c ∈ rest.head?, p c = false) : (cs ++ rest).takeWhile p = cs := by
  rw [List.takeWhile_append_of_pos h]
  cases rest with
  | nil => simp
  | cons c rest => simp [hr c rfl]

/-- Characters of a class without spaces, `=` and `!` are neither of these. -/
theorem not_space_of_class {p : Char → Bool} {c : Char} (hc : p c = true)
    (hp : [' ', '\t', '\n', '\r', '=', '!'].any p = false) :
    isSpace c = false ∧ c ≠ '=' ∧ c ≠ '!' := by
  have ne : ∀ d ∈ [' ', '\t', '\n', '\r', '=', '!'], c ≠ d := by
    rintro d hd rfl
    exact List.any_eq_false.1 hp c hd hc
  simp only [List.forall_mem_cons, List.not_mem_nil, false_implies, implies_true, and_true] at ne
  obtain ⟨blank, tab, newline, carriage, equals, bang⟩ := ne
  exact ⟨by simp [isSpace, blank, tab, newline, carriage], equals, bang⟩

theorem munch_word {c : Char} {cs rest : List Char} (hc : isWordStart c = true)
    (hcs : ∀ d ∈ cs, isWordPart d = true) (hr : ∀ d ∈ rest.head?, isWordPart d = false) :
    isSpace c = false ∧
      munch c (cs ++ rest) = ((Kind.ofWord? (String.ofList (c :: cs))).getD .ident, cs.length) := by
  obtain ⟨space, equals, bang⟩ := not_space_of_class hc (by decide)
  exact ⟨space, by simp [munch, equals, bang, hc, takeWhile_append hcs hr]⟩

theorem words_word {c : Char} {cs rest : List Char} (hc : isWordStart c = true)
    (hcs : ∀ d ∈ cs, isWordPart d = true) (hr : ∀ d ∈ rest.head?, isWordPart d = false) :
    words (c :: (cs ++ rest)) =
      ((Kind.ofWord? (String.ofList (c :: cs))).getD .ident, String.ofList (c :: cs)) ::
        words rest := by
  obtain ⟨space, munch_eq⟩ := munch_word hc hcs hr
  rw [words_cons space, munch_eq]
  simp

theorem isWordPart_of_isSpace {c : Char} (h : isSpace c = true) : isWordPart c = false := by
  simp only [isSpace, Bool.or_eq_true, decide_eq_true_eq] at h
  rcases h with ((rfl | rfl) | rfl) | rfl <;> decide

theorem not_isWordStart_of_isDigit {c : Char} (h : c.isDigit = true) : isWordStart c = false := by
  have le : c.toNat ≤ 57 := (Char.isDigit_iff_toNat.1 h).2
  have upper : c.isUpper = false := by
    apply decide_eq_false
    rintro ⟨h, -⟩
    have ge : 65 ≤ c.toNat := UInt32.le_iff_toNat_le.1 h
    omega
  have lower : c.isLower = false := by
    apply Bool.and_eq_false_iff.2
    left
    apply decide_eq_false
    intro h
    have ge : 97 ≤ c.toNat := UInt32.le_iff_toNat_le.1 h
    omega
  have alpha : c.isAlpha = false := Bool.or_eq_false_iff.2 ⟨upper, lower⟩
  have underscore : c ≠ '_' := ne_of_apply_ne Char.isDigit (by simp [h])
  simp [isWordStart, alpha, underscore]

theorem munch_digits {c : Char} {cs rest : List Char} (hc : c.isDigit = true)
    (hcs : ∀ d ∈ cs, d.isDigit = true) (hr : ∀ d ∈ rest.head?, d.isDigit = false) :
    isSpace c = false ∧ munch c (cs ++ rest) = (.int, cs.length) := by
  obtain ⟨space, equals, bang⟩ := not_space_of_class hc (by decide)
  have start := not_isWordStart_of_isDigit hc
  exact ⟨space, by simp [munch, equals, bang, start, hc, takeWhile_append hcs hr]⟩

theorem words_digits {c : Char} {cs rest : List Char} (hc : c.isDigit = true)
    (hcs : ∀ d ∈ cs, d.isDigit = true) (hr : ∀ d ∈ rest.head?, d.isDigit = false) :
    words (c :: (cs ++ rest)) = (.int, String.ofList (c :: cs)) :: words rest := by
  obtain ⟨space, munch_eq⟩ := munch_digits hc hcs hr
  rw [words_cons space, munch_eq]
  simp

end LetFn
