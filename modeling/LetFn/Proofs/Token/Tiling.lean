import LetFn.Proofs.Token.Places

/-! Tokens that leave nothing but spaces between them, and are each as long as they can be. Every
text can be cut into such tokens in one way only, and that is how it is cut. -/

namespace LetFn

open Text (byteLength)
open Lexeme (munch symbol)

/-- A token begins with `c` that is more than a stray character. -/
def StartsToken (c : Char) : Prop :=
  ∃ kind literal, kind ≠ .illegal ∧ kind ≠ .eof ∧ Spelled kind literal ∧
    literal.toList.head? = some c

/-- A token of this kind may be cut off with this literal in front of `next`, or at the end of the
text if that is `none`. -/
structure Munched (kind : Kind) (literal : String) (next : Option Char) : Prop where
  notEnd : kind ≠ .eof
  spelled : Spelled kind literal
  stray : kind = .illegal → ∃ c, literal.toList = [c] ∧ isSpace c = false ∧ ¬ StartsToken c
  word : kind = .ident ∨ kind.isReserved = true → ∀ c ∈ next, isWordPart c = false
  number : kind = .int → ∀ c ∈ next, c.isDigit = false
  single : kind = .assign ∨ kind = .bang → next ≠ some '='

/-- The text, which begins at an offset, is spaces and these tokens, each with the place of its
literal. -/
inductive Tiling : Nat → List Char → List Token → Prop
  | nil {start : Nat} : Tiling start [] []
  | space {start : Nat} {c : Char} {cs : List Char} {ts : List Token} : isSpace c = true →
      Tiling (start + c.utf8Size) cs ts → Tiling start (c :: cs) ts
  | token {start : Nat} {kind : Kind} {text rest : List Char} {ts : List Token} :
      Munched kind (String.ofList text) rest.head? → Tiling (start + byteLength text) rest ts →
      Tiling start (text ++ rest)
        (⟨kind, String.ofList text, ⟨start, start + byteLength text⟩⟩ :: ts)

/-! ### Where a token can begin -/

/-- Fixed texts are the reserved words, the single symbols, and two symbols of two characters. -/
theorem Kind.text?_cases {kind : Kind} {s : String} (h : kind.text? = some s) :
    kind.isReserved = true ∨ (∃ c, s.toList = [c] ∧ symbol c = kind) ∨
      ∃ c, s.toList = [c, '='] ∧ isSpace c = false ∧
        ∀ rest, munch c ('=' :: rest) = (kind, 1) := by
  cases kind <;> simp only [text?, Option.some.injEq, reduceCtorEq] at h <;> subst h
  case equal => exact .inr (.inr ⟨'=', rfl, by decide, fun rest => by simp [munch]⟩)
  case notEqual => exact .inr (.inr ⟨'!', rfl, by decide, fun rest => by simp [munch]⟩)
  case fnWord | letWord | trueWord | falseWord | ifWord | elseWord | returnWord =>
    exact .inl rfl
  all_goals exact .inr (.inl ⟨_, rfl, rfl⟩)

theorem munch_stray {c : Char} (hw : isWordStart c = false) (hd : c.isDigit = false)
    (hs : symbol c = .illegal) (rest : List Char) : munch c rest = (.illegal, 0) := by
  have equals : c ≠ '=' := by
    rintro rfl
    cases hs
  have bang : c ≠ '!' := by
    rintro rfl
    cases hs
  simp [munch, equals, bang, hw, hd, hs]

/-- A word is an identifier or reserved. -/
theorem word_kind (w : String) : (Kind.ofWord? w).getD .ident = .ident ∨
    ((Kind.ofWord? w).getD .ident).isReserved = true := by
  cases h : Kind.ofWord? w with
  | none => exact .inl rfl
  | some kind => exact .inr (Kind.ofWord?_eq_some_iff.1 h).1

theorem symbol_ne_eof (c : Char) : symbol c ≠ .eof := by
  unfold symbol
  split <;> simp

theorem munch_ne_eof (c : Char) (rest : List Char) : (munch c rest).1 ≠ .eof := by
  unfold munch
  split
  · simp
  split
  · simp
  split
  · intro h
    have kind := word_kind (String.ofList (c :: rest.takeWhile isWordPart))
    rw [show (Kind.ofWord? _).getD .ident = .eof from h] at kind
    simp [Kind.isReserved] at kind
  split
  · simp
  · exact symbol_ne_eof c

/-- What no token begins with is cut off by itself, whatever follows. -/
theorem munch_of_not_startsToken {c : Char} (h : ¬ StartsToken c) (rest : List Char) :
    munch c rest = (.illegal, 0) := by
  have spelled := Lexeme.munch_spelled c []
  have stray : (munch c []).1 = .illegal := Decidable.byContradiction fun other =>
    h ⟨_, _, other, munch_ne_eof c [], spelled, by simp⟩
  simp only [munch, List.head?_nil] at stray
  split at stray
  · cases stray
  split at stray
  · cases stray
  split at stray
  · have kind := word_kind (String.ofList (c :: [].takeWhile isWordPart))
    rw [show (Kind.ofWord? _).getD .ident = .illegal from stray] at kind
    simp [Kind.isReserved] at kind
  split at stray
  · cases stray
  · next hw hd => exact munch_stray (by simpa using hw) (by simpa using hd) stray rest

theorem not_startsToken {c : Char} (hw : isWordStart c = false) (hd : c.isDigit = false)
    (hs : symbol c = .illegal) : ¬ StartsToken c := by
  rintro ⟨kind, literal, notStray, notEnd, spelled, head⟩
  cases text : kind.text? with
  | some s =>
    obtain rfl := spelled.text s text
    rcases Kind.text?_cases text with reserved | ⟨d, hl, rfl⟩ | ⟨d, hl, -, munch⟩
    · obtain ⟨d, ds, hl, word, -⟩ :=
        isWord_of_reserved (Kind.ofWord?_eq_some_iff.2 ⟨reserved, text⟩)
      obtain rfl : d = c := by simpa [hl] using head
      simp [hw] at word
    · obtain rfl : d = c := by simpa [hl] using head
      exact notStray hs
    · obtain rfl : d = c := by simpa [hl] using head
      simp [munch_stray hw hd hs] at munch
  | none =>
    cases kind with
    | ident =>
      obtain ⟨⟨d, ds, hl, word, -⟩, -⟩ := spelled.name rfl
      obtain rfl : d = c := by simpa [hl] using head
      simp [hw] at word
    | int =>
      have digit := (spelled.digits rfl).2 c (List.mem_of_mem_head? head)
      simp [hd] at digit
    | illegal => exact notStray rfl
    | eof => exact notEnd rfl
    | _ => cases text

/-! ### The longest token is the only one -/

namespace Munched

theorem of_word {kind : Kind} {literal : String} {next : Option Char}
    (spelled : Spelled kind literal) (hk : kind = .ident ∨ kind.isReserved = true)
    (hn : ∀ c ∈ next, isWordPart c = false) : Munched kind literal next := by
  rcases hk with rfl | hk
  · exact ⟨nofun, spelled, nofun, fun _ => hn, nofun, nofun⟩
  · have ne : ∀ other, other.isReserved = false → kind ≠ other := by
      rintro other ho rfl
      simp [ho] at hk
    refine ⟨ne _ rfl, spelled, fun h => (ne _ rfl h).elim, fun _ => hn,
      fun h => (ne _ rfl h).elim, ?_⟩
    rintro (h | h) <;> exact (ne _ rfl h).elim

/-- Most kinds of token end wherever their text does. -/
theorem of_fixed {kind : Kind} {literal : String} (next : Option Char)
    (spelled : Spelled kind literal)
    (hk : kind ∉ [.eof, .illegal, .ident, .int, .assign, .bang] ∧ kind.isReserved = false) :
    Munched kind literal next := by
  obtain ⟨others, notReserved⟩ := hk
  simp only [List.mem_cons, List.not_mem_nil, or_false, not_or] at others
  obtain ⟨notEnd, notStray, notName, notNumber, notAssign, notBang⟩ := others
  refine ⟨notEnd, spelled, fun h => (notStray h).elim, ?_, fun h => (notNumber h).elim, ?_⟩
  · rintro (h | h)
    · exact (notName h).elim
    · simp [notReserved] at h
  · rintro (h | h)
    · exact (notAssign h).elim
    · exact (notBang h).elim

/-- A single character is cut off if nothing longer begins with it. -/
theorem of_symbol {c : Char} {next : Option Char} (space : isSpace c = false)
    (hw : isWordStart c = false) (hd : c.isDigit = false)
    (hn : c = '=' ∨ c = '!' → next ≠ some '=') :
    Munched (symbol c) (String.ofList [c]) next where
  notEnd := symbol_ne_eof c
  spelled := Lexeme.symbol_spelled c
  stray hs := ⟨c, by simp, space, not_startsToken hw hd hs⟩
  word hk := by
    unfold symbol at hk
    split at hk <;> simp [Kind.isReserved] at hk
  number hk := by
    unfold symbol at hk
    split at hk <;> cases hk
  single hk := by
    apply hn
    unfold symbol at hk
    split at hk <;> simp at hk ⊢

end Munched

/-- What is cut off may be cut off there. -/
theorem munched_munch {c : Char} (space : isSpace c = false) (rest : List Char) :
    Munched (munch c rest).1 (String.ofList (c :: rest.take (munch c rest).2))
      (rest.drop (munch c rest).2).head? := by
  have spelled := Lexeme.munch_spelled c rest
  have stops (p : Char → Bool) :
      ∀ d ∈ (rest.drop (rest.takeWhile p).length).head?, p d = false := by
    intro d hd
    have stopped := List.head?_dropWhile_not p rest
    rw [Lexeme.drop_length_takeWhile] at hd
    rwa [Option.mem_def.1 hd] at stopped
  unfold munch at spelled ⊢
  split at spelled
  · next h =>
    rw [if_pos h]
    exact .of_fixed _ spelled (by decide)
  split at spelled
  · next h₁ h₂ =>
    rw [if_neg h₁, if_pos h₂]
    exact .of_fixed _ spelled (by decide)
  split at spelled
  · next h₁ h₂ h₃ =>
    rw [if_neg h₁, if_neg h₂, if_pos h₃]
    exact .of_word spelled (word_kind _) (stops isWordPart)
  split at spelled
  · next h₁ h₂ h₃ h₄ =>
    rw [if_neg h₁, if_neg h₂, if_neg h₃, if_pos h₄]
    exact ⟨nofun, spelled, nofun, nofun, fun _ => stops Char.isDigit, nofun⟩
  · next h₁ h₂ h₃ h₄ =>
    rw [if_neg h₁, if_neg h₂, if_neg h₃, if_neg h₄]
    refine .of_symbol space (by simpa using h₃) (by simpa using h₄) ?_
    rintro (rfl | rfl)
    · simpa using h₁
    · simpa using h₂

/-- What may be cut off is what is cut off. -/
theorem Munched.munch_eq {kind : Kind} {text rest : List Char}
    (m : Munched kind (String.ofList text) rest.head?) :
    ∃ c more, text = c :: more ∧ isSpace c = false ∧
      munch c (more ++ rest) = (kind, more.length) := by
  cases fixed : kind.text? with
  | some s =>
    have hs : s.toList = text := by
      rw [← m.spelled.text s fixed, String.toList_ofList]
    rcases Kind.text?_cases fixed with reserved | ⟨c, hl, rfl⟩ | ⟨c, hl, space, munch⟩
    · have word := Kind.ofWord?_eq_some_iff.2 ⟨reserved, fixed⟩
      obtain ⟨c, more, hl, hc, hmore⟩ := isWord_of_reserved word
      obtain ⟨space, munch⟩ := munch_word hc hmore (m.word (.inr reserved))
      rw [← hl, String.ofList_toList, word] at munch
      exact ⟨c, more, hs ▸ hl, space, munch⟩
    · have known : symbol c ≠ .illegal := by
        intro h
        simp [h, Kind.text?] at fixed
      have single : c = '=' ∨ c = '!' → rest.head? ≠ some '=' := by
        rintro (rfl | rfl)
        · exact m.single (.inl rfl)
        · exact m.single (.inr rfl)
      obtain ⟨space, munch⟩ := munch_symbol known single
      exact ⟨c, [], hs ▸ hl, space, munch⟩
    · exact ⟨c, ['='], hs ▸ hl, space, munch rest⟩
  | none =>
    cases kind with
    | ident =>
      obtain ⟨⟨c, more, hl, hc, hmore⟩, name⟩ := m.spelled.name rfl
      rw [String.toList_ofList] at hl
      obtain ⟨space, munch⟩ := munch_word hc hmore (m.word (.inl rfl))
      rw [← hl, name] at munch
      exact ⟨c, more, hl, space, munch⟩
    | int =>
      obtain ⟨ne, digits⟩ := m.spelled.digits rfl
      rw [String.toList_ofList] at ne digits
      obtain ⟨c, more, rfl⟩ := List.exists_cons_of_ne_nil ne
      rw [List.forall_mem_cons] at digits
      obtain ⟨space, munch⟩ := munch_digits digits.1 digits.2 (m.number rfl)
      exact ⟨c, more, rfl, space, munch⟩
    | illegal =>
      obtain ⟨c, hl, space, stray⟩ := m.stray rfl
      rw [String.toList_ofList] at hl
      exact ⟨c, [], hl, space, munch_of_not_startsToken stray rest⟩
    | eof => exact (m.notEnd rfl).elim
    | _ => cases fixed

/-! ### Every text is tiled in one way -/

open Token (startingAt)

theorem Tiling.startingAt_eq {start : Nat} {cs : List Char} {ts : List Token}
    (tiling : Tiling start cs ts) :
    startingAt start cs = ts ++ [.eof (start + byteLength cs)] := by
  induction tiling with
  | nil => rw [Token.startingAt_nil, byteLength, Nat.add_zero, List.nil_append]
  | space h _ ih => rw [Token.startingAt_space h, ih, byteLength, Nat.add_assoc]
  | @token start kind text rest ts m _ ih =>
    obtain ⟨c, more, rfl, space, munch⟩ := m.munch_eq
    have whole : start + byteLength (c :: (more ++ rest)) =
        start + byteLength (c :: more) + byteLength rest := by
      rw [← List.cons_append, Text.byteLength_append, Nat.add_assoc]
    rw [List.cons_append, Token.startingAt_cons space, whole]
    simp only [munch, List.take_left, List.drop_left, ih, List.cons_append]

theorem exists_tiling (start : Nat) (cs : List Char) : ∃ ts, Tiling start cs ts := by
  induction h : cs.length using Nat.strongRecOn generalizing start cs with
  | ind n ih =>
    subst h
    cases cs with
    | nil => exact ⟨[], .nil⟩
    | cons c rest =>
      cases space : isSpace c with
      | true =>
        obtain ⟨ts, tiling⟩ := ih rest.length (by simp) (start + c.utf8Size) rest rfl
        exact ⟨ts, .space space tiling⟩
      | false =>
        have munched := munched_munch space rest
        have shorter : (rest.drop (munch c rest).2).length < (c :: rest).length := by
          rw [List.length_drop, List.length_cons]
          omega
        obtain ⟨ts, tiling⟩ := ih _ shorter
          (start + byteLength (c :: rest.take (munch c rest).2)) _ rfl
        have split :
            c :: rest = (c :: rest.take (munch c rest).2) ++ rest.drop (munch c rest).2 := by
          simp
        rw [split]
        exact ⟨_, .token munched tiling⟩

/-- The tokens of a text are the only ones that tile it. -/
theorem tiling_iff_startingAt {start : Nat} {cs : List Char} {ts : List Token} :
    Tiling start cs ts ↔ startingAt start cs = ts ++ [.eof (start + byteLength cs)] := by
  refine ⟨Tiling.startingAt_eq, fun h => ?_⟩
  obtain ⟨us, tiling⟩ := exists_tiling start cs
  rw [tiling.startingAt_eq, List.append_cancel_right_eq] at h
  exact h ▸ tiling

/-! ### Where the tokens of a tiling are -/

/-- What the text `cs`, which begins at the offset `start`, has at the bytes of `span` is `part`. -/
def Span.Covers (start : Nat) (cs : List Char) (span : Span) (part : List Char) : Prop :=
  ∃ front back, cs = front ++ part ++ back ∧ span.start = start + byteLength front ∧
    span.stop = span.start + byteLength part

/-- Gaps with one of the parts behind each but the last. -/
def woven : (gaps parts : List (List Char)) → List Char
  | gap :: gaps, part :: parts => gap ++ part ++ woven gaps parts
  | gaps, _ => gaps.flatten

theorem Span.Covers.behind {start : Nat} {cs part : List Char} {span : Span} (front : List Char)
    (covers : span.Covers (start + byteLength front) cs part) :
    span.Covers start (front ++ cs) part := by
  obtain ⟨before, back, rfl, begins, ends⟩ := covers
  refine ⟨front ++ before, back, by simp, ?_, ends⟩
  rw [begins, Text.byteLength_append, Nat.add_assoc]

theorem Text.byteLength_pos {cs : List Char} (h : cs ≠ []) : 0 < byteLength cs := by
  obtain ⟨c, cs, rfl⟩ := List.exists_cons_of_ne_nil h
  exact Nat.lt_of_lt_of_le c.utf8Size_pos (Nat.le_add_right _ _)

namespace Munched

theorem ne_nil {kind : Kind} {text rest : List Char}
    (m : Munched kind (String.ofList text) rest.head?) : text ≠ [] := by
  obtain ⟨c, more, rfl, -⟩ := m.munch_eq
  exact List.cons_ne_nil c more

end Munched

namespace Tiling

variable {start : Nat} {cs : List Char} {ts : List Token}

theorem length_le (tiling : Tiling start cs ts) : ts.length ≤ cs.length := by
  induction tiling with
  | nil => exact Nat.le_refl _
  | space _ _ ih => exact Nat.le_succ_of_le ih
  | token m _ ih =>
    have some := List.length_pos_iff.2 m.ne_nil
    rw [List.length_cons, List.length_append]
    omega

theorem of_mem (tiling : Tiling start cs ts) {t : Token} (ht : t ∈ ts) :
    t.kind ≠ .eof ∧ t.literal ≠ "" ∧ t.span.Covers start cs t.literal.toList := by
  induction tiling with
  | nil => cases ht
  | @space start c cs ts _ _ ih =>
    obtain ⟨kind, literal, covers⟩ := ih ht
    have step : start + c.utf8Size = start + byteLength [c] := by simp [byteLength]
    rw [step] at covers
    exact ⟨kind, literal, covers.behind [c]⟩
  | @token start kind text rest ts m _ ih =>
    rcases List.mem_cons.1 ht with rfl | ht
    · refine ⟨m.notEnd, ?_, [], rest, by simp, by simp [byteLength], by simp⟩
      intro empty
      exact m.ne_nil (by simpa using congrArg String.toList empty)
    · obtain ⟨kind, literal, covers⟩ := ih ht
      exact ⟨kind, literal, covers.behind text⟩

theorem start_le (tiling : Tiling start cs ts) {t : Token} (ht : t ∈ ts) :
    start ≤ t.span.start := by
  obtain ⟨-, -, front, back, -, begins, -⟩ := tiling.of_mem ht
  rw [begins]
  exact Nat.le_add_right _ _

theorem start_lt_stop (tiling : Tiling start cs ts) {t : Token} (ht : t ∈ ts) :
    t.span.start < t.span.stop := by
  obtain ⟨-, literal, front, back, -, -, ends⟩ := tiling.of_mem ht
  have ne : t.literal.toList ≠ [] := by simpa using literal
  rw [ends]
  exact Nat.lt_add_of_pos_right (Text.byteLength_pos ne)

theorem pairwise (tiling : Tiling start cs ts) :
    ts.Pairwise fun t u => t.span.stop ≤ u.span.start := by
  induction tiling with
  | nil => exact .nil
  | space _ _ ih => exact ih
  | token m tiling ih => exact .cons (fun u hu => tiling.start_le hu) ih

/-- Outside of the tokens there are only spaces. -/
theorem isSpace_or_mem (tiling : Tiling start cs ts) {front back : List Char} {c : Char}
    (hcs : cs = front ++ c :: back) :
    isSpace c = true ∨ ∃ t ∈ ts, t.span.start ≤ start + byteLength front ∧
      start + byteLength front < t.span.stop := by
  induction tiling generalizing front with
  | nil => simp at hcs
  | @space start d cs ts space _ ih =>
    cases front with
    | nil =>
      obtain rfl : d = c := (List.cons.inj hcs).1
      exact .inl space
    | cons e front =>
      obtain ⟨rfl, rest⟩ := List.cons.inj hcs
      simpa [byteLength, Nat.add_assoc] using ih rest
  | @token start kind text rest ts m _ ih =>
    rcases List.append_eq_append_iff.1 hcs with ⟨more, rfl, hrest⟩ | ⟨more, htext, hback⟩
    · rcases ih hrest with space | ⟨t, ht, begins, ends⟩
      · exact .inl space
      · rw [Nat.add_assoc, ← Text.byteLength_append] at begins ends
        exact .inr ⟨t, List.mem_cons_of_mem _ ht, begins, ends⟩
    · cases more with
      | nil =>
        -- The character stands right behind the token.
        obtain rfl : text = front := by simpa using htext
        have behind : rest = [] ++ c :: back := hback.symm
        rcases ih behind with space | ⟨t, ht, within⟩
        · exact .inl space
        · exact .inr ⟨t, List.mem_cons_of_mem _ ht, by simpa [byteLength] using within⟩
      | cons d more =>
        have inside : byteLength front < byteLength text := by
          have some := Text.byteLength_pos (List.cons_ne_nil d more)
          rw [htext, Text.byteLength_append]
          omega
        exact .inr ⟨_, List.mem_cons_self, Nat.le_add_right _ _, Nat.add_lt_add_left inside _⟩

theorem exists_woven (tiling : Tiling start cs ts) :
    ∃ gaps : List (List Char), gaps.length = ts.length + 1 ∧
      (∀ gap ∈ gaps, ∀ c ∈ gap, isSpace c = true) ∧
      cs = woven gaps (ts.map fun t => t.literal.toList) := by
  induction tiling with
  | nil => exact ⟨[[]], rfl, by simp, rfl⟩
  | @space start c cs ts space _ ih =>
    obtain ⟨gaps, length, spaces, rfl⟩ := ih
    obtain ⟨gap, gaps, rfl⟩ := List.exists_cons_of_length_eq_add_one length
    rw [List.forall_mem_cons] at spaces
    refine ⟨(c :: gap) :: gaps, length, ?_, ?_⟩
    · exact List.forall_mem_cons.2 ⟨List.forall_mem_cons.2 ⟨space, spaces.1⟩, spaces.2⟩
    · cases ts <;> rfl
  | @token start kind text rest ts m _ ih =>
    obtain ⟨gaps, length, spaces, rfl⟩ := ih
    exact ⟨[] :: gaps, by simp [length], by simpa using spaces, by simp [woven]⟩

end Tiling

theorem Token.exists_tiling_ofText (text : String) :
    ∃ ts, ofText text = ts ++ [.eof (byteLength text.toList)] ∧ Tiling 0 text.toList ts := by
  obtain ⟨ts, tiling⟩ := exists_tiling 0 text.toList
  refine ⟨ts, ?_, tiling⟩
  rw [ofText, ofChars_eq_startingAt, tiling.startingAt_eq, Nat.zero_add]

/-- Every text is tiled by its tokens, in front of the one that marks its end, and by no others. -/
theorem ofText_tiling (text : String) :
    ∃ ts, Token.ofText text = ts ++ [.eof (byteLength text.toList)] ∧
      ∀ us, Tiling 0 text.toList us ↔ us = ts := by
  obtain ⟨ts, tokens, tiling⟩ := Token.exists_tiling_ofText text
  refine ⟨ts, tokens, fun us => ?_⟩
  rw [tiling_iff_startingAt, tiling.startingAt_eq, List.append_cancel_right_eq, eq_comm]

end LetFn
