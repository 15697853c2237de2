import LetFn.Proofs.Token.Append
import LetFn.Proofs.Token.Scanner

/-! A space keeps tokens apart. Texts with a space between them are cut one by one, and tokens
written with spaces between them are cut out again, whatever texts they are from. -/

namespace LetFn

open Text (byteLength)

theorem isDigit_of_isSpace {c : Char} (h : isSpace c = true) : c.isDigit = false := by
  simp only [isSpace, Bool.or_eq_true, decide_eq_true_eq] at h
  rcases h with ((rfl | rfl) | rfl) | rfl <;> decide

theorem utf8Size_of_isSpace {c : Char} (h : isSpace c = true) : c.utf8Size = 1 := by
  simp only [isSpace, Bool.or_eq_true, decide_eq_true_eq] at h
  rcases h with ((rfl | rfl) | rfl) | rfl <;> decide

namespace Munched

variable {kind : Kind} {literal : String}

/-- What may end at the end of a text may end in front of a space. -/
theorem of_isSpace {c : Char} (m : Munched kind literal none) (space : isSpace c = true) :
    Munched kind literal (some c) where
  notEnd := m.notEnd
  spelled := m.spelled
  stray := m.stray
  word _ d hd := Option.some.inj hd ▸ isWordPart_of_isSpace space
  number _ d hd := Option.some.inj hd ▸ isDigit_of_isSpace space
  single _ hc := by
    obtain rfl := Option.some.inj hc
    simp [isSpace] at space

theorem words_append {text rest : List Char} (m : Munched kind (String.ofList text) rest.head?) :
    words (text ++ rest) = (kind, String.ofList text) :: words rest := by
  obtain ⟨c, more, rfl, space, munch⟩ := m.munch_eq
  rw [List.cons_append, words_cons space, munch]
  simp

end Munched

/-- Every token can stand at the end of a text. -/
theorem Tiling.munched_of_mem {start : Nat} {cs : List Char} {ts : List Token} {t : Token}
    (tiling : Tiling start cs ts) (ht : t ∈ ts) : Munched t.kind t.literal none := by
  induction tiling with
  | nil => cases ht
  | space _ _ ih => exact ih ht
  | token m _ ih =>
    rcases List.mem_cons.1 ht with rfl | ht
    · exact m.mono (by simp)
    · exact ih ht

/-! ### Texts with a space between them -/

namespace Token

/-- The token that marks the end is the last one, and there is no other. -/
theorem exists_ofText (s : String) :
    ∃ ts, ofText s = ts ++ [.eof (byteLength s.toList)] ∧ ∀ t ∈ ts, t.kind ≠ .eof := by
  obtain ⟨ts, tokens, tiling⟩ := exists_tiling_ofText s
  exact ⟨ts, tokens, fun t ht => (tiling.of_mem ht).1⟩

theorem ofText_space {c : Char} (space : isSpace c = true) (s : String) :
    ofText (String.singleton c ++ s) = (ofText s).map (Token.move (· + 1)) := by
  obtain ⟨ts, tokens, tiling⟩ := exists_tiling_ofText s
  have moved := tiling.move 1
  rw [← utf8Size_of_isSpace space] at moved
  have joined := (Tiling.space space moved).startingAt_eq
  have chars : (String.singleton c ++ s).toList = c :: s.toList := by simp
  rw [ofText, chars, ofChars_eq_startingAt, joined, tokens, List.map_append, byteLength,
    utf8Size_of_isSpace space, Nat.zero_add, Nat.add_comm]
  rfl

theorem ofText_append_space {c : Char} (space : isSpace c = true) (s₁ s₂ : String) :
    ofText (s₁ ++ String.singleton c ++ s₂) = (ofText s₁).dropLast ++
      (ofText s₂).map (Token.move (· + (byteLength s₁.toList + 1))) := by
  have seam : (String.singleton c ++ s₂).toList.head? = some c := by simp
  have twice : Token.move (· + byteLength s₁.toList) ∘ Token.move (· + 1) =
      Token.move (· + (byteLength s₁.toList + 1)) := by
    funext t
    simp [Token.move, Span.move, Nat.add_assoc, Nat.add_comm 1]
  rw [String.append_assoc, ofText_append_of_seam, ofText_space space, List.map_map, twice]
  intro t _ m
  exact seam ▸ m.of_isSpace space

end Token

namespace Scanner

theorem calls_append_space {c : Char} (space : isSpace c = true) {s₁ : String} (s₂ : String)
    {ts : List Token} (first : Token.ofText s₁ = ts ++ [.eof (byteLength s₁.toList)]) (n : Nat) :
    (ofText (s₁ ++ String.singleton c ++ s₂)).calls (ts.length + n) =
      ts ++ ((ofText s₂).calls n).map (Token.move (· + (byteLength s₁.toList + 1))) := by
  obtain ⟨us, second, -⟩ := Token.exists_ofText s₂
  have stop : (Token.eof (byteLength s₂.toList)).move (· + (byteLength s₁.toList + 1)) =
      .eof (byteLength (s₁ ++ String.singleton c ++ s₂).toList) := by
    simp [Token.eof, Token.move, Span.move, Span.point, Text.byteLength_append, byteLength,
      utf8Size_of_isSpace space]
    omega
  have joined := Token.ofText_append_space space s₁ s₂
  rw [first, List.dropLast_concat, second, List.map_append, List.map_singleton, stop,
    ← List.append_assoc] at joined
  have enough : ts.length + n ≤
      (ts ++ us.map (Token.move (· + (byteLength s₁.toList + 1)))).length + n := by
    simp
  rw [calls_ofText joined enough, calls_ofText second (Nat.le_add_left n _), List.append_assoc,
    List.take_length_add_append, List.map_take, List.map_append, List.map_replicate, stop]

end Scanner

/-! ### Tokens with spaces between them -/

/-- Some text has a token with this kind and this literal, and it does not mark the end. -/
def Lexable (p : Kind × String) : Prop :=
  ∃ text, ∃ t ∈ Token.ofText text, t.kind ≠ .eof ∧ t.word = p

theorem Lexable.munched {p : Kind × String} (lexable : Lexable p) : Munched p.1 p.2 none := by
  obtain ⟨text, t, ht, notEnd, rfl⟩ := lexable
  obtain ⟨ts, tokens, tiling⟩ := Token.exists_tiling_ofText text
  rw [tokens, List.mem_append, List.mem_singleton] at ht
  rcases ht with ht | rfl
  · exact tiling.munched_of_mem ht
  · exact absurd rfl notEnd

/-- Gaps to put between `n` things, and around them: of spaces, and none in the middle empty. -/
structure Spacing (n : Nat) (gaps : List (List Char)) : Prop where
  length : gaps.length = n + 1
  spaces : ∀ gap ∈ gaps, ∀ c ∈ gap, isSpace c = true
  apart : ∀ gap ∈ gaps.tail.dropLast, gap ≠ []

theorem words_woven {ps : List (Kind × String)} (lexable : ∀ p ∈ ps, Lexable p)
    {gaps : List (List Char)} (spacing : Spacing ps.length gaps) :
    words (woven gaps (ps.map fun p => p.2.toList)) = ps := by
  induction ps generalizing gaps with
  | nil =>
    obtain ⟨gap, rfl⟩ := List.length_eq_one_iff.1 spacing.length
    have blank : words (gap ++ []) = words [] :=
      words_gap (spacing.spaces gap (List.mem_singleton_self _))
    simpa [woven] using blank
  | cons p ps ih =>
    obtain ⟨gap, gaps, rfl⟩ := List.exists_cons_of_length_eq_add_one spacing.length
    obtain ⟨next, gaps, rfl⟩ :=
      List.exists_cons_of_length_eq_add_one (Nat.succ.inj spacing.length)
    rw [List.forall_mem_cons] at lexable
    obtain ⟨blank, blanks⟩ := List.forall_mem_cons.1 spacing.spaces
    have rest : Spacing ps.length (next :: gaps) := by
      refine ⟨Nat.succ.inj spacing.length, blanks, fun gap hg => spacing.apart gap ?_⟩
      cases gaps with
      | nil => cases hg
      | cons other gaps => exact List.mem_cons_of_mem _ hg
    -- what follows the first literal is the end of the text or a space
    have seam : Munched p.1 p.2
        (woven (next :: gaps) (ps.map fun p => p.2.toList)).head? := by
      cases next with
      | cons c next =>
        have space := blanks (c :: next) List.mem_cons_self c List.mem_cons_self
        have head : (woven ((c :: next) :: gaps) (ps.map fun p => p.2.toList)).head? = some c := by
          cases ps <;> simp [woven]
        exact head ▸ lexable.1.munched.of_isSpace space
      | nil =>
        cases gaps with
        | nil =>
          obtain rfl : ps = [] := List.length_eq_zero_iff.1 (Nat.succ.inj rest.length).symm
          simpa [woven] using lexable.1.munched
        | cons other gaps => exact absurd rfl (spacing.apart [] List.mem_cons_self)
    rw [← String.ofList_toList (s := p.2)] at seam
    rw [List.map_cons, woven, List.append_assoc, words_gap blank, seam.words_append,
      String.ofList_toList, ih lexable.2 rest]

/-- Texts joined by a space have the tokens of the first one and then, behind these and the space,
those of the second, whether all are asked for or one by one. So tokens of any texts, written with
spaces between them, are the tokens of what is written. -/
theorem tokens_apart :
    (∀ (s₁ s₂ : String) (c : Char), isSpace c = true →
      (∃ ts, Token.ofText s₁ = ts ++ [.eof (byteLength s₁.toList)] ∧ (∀ t ∈ ts, t.kind ≠ .eof) ∧
        Token.ofText (s₁ ++ String.singleton c ++ s₂) =
          ts ++ (Token.ofText s₂).map (Token.move (· + (byteLength s₁.toList + 1))) ∧
        ∀ n, (Scanner.ofText (s₁ ++ String.singleton c ++ s₂)).calls (ts.length + n) =
          ts ++ ((Scanner.ofText s₂).calls n).map
            (Token.move (· + (byteLength s₁.toList + 1))))) ∧
    ∀ (ps : List (Kind × String)) (gaps : List (List Char)), (∀ p ∈ ps, Lexable p) →
      Spacing ps.length gaps →
      (Token.ofText (String.ofList (woven gaps (ps.map fun p => p.2.toList)))).map Token.word =
        ps ++ [(.eof, "")] := by
  refine ⟨fun s₁ s₂ c space => ?_, fun ps gaps lexable spacing => ?_⟩
  · obtain ⟨ts, first, notEnd⟩ := Token.exists_ofText s₁
    have joined := Token.ofText_append_space space s₁ s₂
    rw [first, List.dropLast_concat] at joined
    exact ⟨ts, first, notEnd, joined, Scanner.calls_append_space space s₂ first⟩
  · rw [Token.ofText, String.toList_ofList, Token.map_word_ofChars, words_woven lexable spacing]

/-- Two halves of an operator and of a keyword, a stray character of two bytes, and digits. -/
def fragments : List (Kind × String) :=
  [(.bang, "!"), (.assign, "="), (.ident, "le"), (.letWord, "let"), (.illegal, "§"), (.int, "007")]

def fragmentGaps : List (List Char) :=
  [[], [' '], ['\t'], ['\r', '\n'], [' ', ' '], ['\n'], []]

theorem tokens_apart_fragments :
    (isSpace '\t' = true ∧ Token.ofText "le§!=t7" ≠ Token.ofText ("le§!" ++ "\t" ++ "=t7") ∧
      ∃ ts, Token.ofText "le§!" = ts ++ [.eof 5] ∧
        (Token.ofText ("le§!" ++ "\t" ++ "=t7")) =
          ts ++ (Token.ofText "=t7").map (Token.move (· + 6))) ∧
    (∀ p ∈ fragments, Lexable p) ∧ Spacing fragments.length fragmentGaps ∧
      (Token.ofText (String.ofList (woven fragmentGaps (fragments.map fun p => p.2.toList)))).map
        Token.word = fragments ++ [(.eof, "")] := by
  have lexable : ∀ p ∈ fragments, Lexable p := by
    intro p hp
    have alone : ∀ p ∈ fragments, ∃ t ∈ Token.ofText p.2, t.kind ≠ .eof ∧ t.word = p := by
      decide +kernel
    exact ⟨p.2, alone p hp⟩
  have spaces : ∀ gap ∈ fragmentGaps, gap.all isSpace = true := by decide +kernel
  have spacing : Spacing fragments.length fragmentGaps :=
    ⟨rfl, fun gap hg => List.all_eq_true.1 (spaces gap hg), by decide +kernel⟩
  obtain ⟨ts, first, -, joined, -⟩ := tokens_apart.1 "le§!" "=t7" '\t' (by decide)
  exact ⟨⟨by decide, by decide +kernel, ts, first, joined⟩, lexable, spacing,
    tokens_apart.2 fragments fragmentGaps lexable spacing⟩

end LetFn
