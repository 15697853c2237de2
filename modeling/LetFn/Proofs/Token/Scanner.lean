import LetFn.Proofs.Token.Tiling
import LetFn.Token.Scanner

/-! A scanner gives the tokens of its text, then end tokens for ever. The tokens and the spaces
between them make up the text. Each move of a scanner off a character asks its input for one more,
so when it is at the end all characters have been asked for, and once more behind the last. -/

namespace LetFn

open Text (byteLength)
open Lexeme (munch)

/-- Behind the last of these characters, if there is one, is the offset `stop`. -/
def EndsAt (stop : Nat) (cs : List (Nat × Char)) : Prop :=
  ∀ last ∈ cs.getLast?, last.1 + last.2.utf8Size = stop

theorem EndsAt.endOffset (cs : List (Nat × Char)) : EndsAt (Token.endOffset cs) cs := by
  intro last h
  rw [Token.endOffset, Option.mem_def.1 h]

namespace CharSource

variable {σ : Type} [CharSource σ]

/-- Asked again and again, the source gives the characters `cs` and then none; asked once more after
that, it is `last`. -/
inductive Holds : σ → List (Nat × Char) → σ → Prop
  | nil {s s' last : σ} : pull s = (none, s') → (pull s').2 = last → Holds s [] last
  | cons {s s' last : σ} {x : Nat × Char} {cs : List (Nat × Char)} :
      pull s = (some x, s') → Holds s' cs last → Holds s (x :: cs) last

theorem holds_list (cs : List (Nat × Char)) : Holds cs cs [] := by
  induction cs with
  | nil => exact .nil rfl rfl
  | cons x cs ih => exact .cons rfl ih

end CharSource

namespace Scanner

open CharSource (pull Holds)

/-- The tokens that `cs` gives, the text ending at `stop`. -/
def tokens (stop : Nat) (cs : List (Nat × Char)) : List Token :=
  Lexeme.place stop (Lexeme.ofChars (cs.map Prod.snd)) (cs.map Prod.fst)

variable {stop : Nat}

theorem tokens_nil : tokens stop [] = [] := by
  simp [tokens, Lexeme.ofChars, Lexeme.after, Lexeme.place]

theorem tokens_space {c : Char} (space : isSpace c = true) (offset : Nat)
    (cs : List (Nat × Char)) : tokens stop ((offset, c) :: cs) = tokens stop cs := by
  simp only [tokens, Lexeme.ofChars, List.map_cons]
  rw [Lexeme.after, if_pos space, Lexeme.place_after_succ, List.tail_cons]

theorem tokens_drop_spaces (cs : List (Nat × Char)) :
    tokens stop (cs.drop ((cs.map Prod.snd).takeWhile isSpace).length) = tokens stop cs := by
  induction cs with
  | nil => rfl
  | cons x cs ih =>
    cases space : isSpace x.2 with
    | false => simp [space]
    | true =>
      rw [tokens_space space]
      simpa [space] using ih

theorem tokens_cons {offset : Nat} {c : Char} {cs : List (Nat × Char)} {kind : Kind} {n : Nat}
    (space : isSpace c = false) (cut : munch c (cs.map Prod.snd) = (kind, n)) :
    tokens stop ((offset, c) :: cs) =
      ⟨kind, String.ofList (c :: (cs.map Prod.snd).take n),
        ⟨offset, ((cs.drop n).map Prod.fst).headD stop⟩⟩ :: tokens stop (cs.drop n) := by
  have behind : (offset :: cs.map Prod.fst).drop (c :: (cs.map Prod.snd).take n).length =
      (cs.drop n).map Prod.fst := by
    rw [List.length_cons, List.drop_succ_cons, List.length_take, List.length_map, List.map_drop]
    by_cases h : n ≤ cs.length
    · rw [Nat.min_eq_left h]
    · rw [Nat.min_eq_right (Nat.le_of_not_le h), List.drop_of_length_le (by simp),
        List.drop_of_length_le (by rw [List.length_map]; omega)]
  simp only [tokens, Lexeme.ofChars, List.map_cons]
  rw [Lexeme.after, if_neg (by simp [space]), cut]
  simp only [Lexeme.place, List.drop_zero, List.headD_cons, behind, List.map_drop]

/-! ### What a scanner shows -/

variable {σ : Type} [CharSource σ] {s : Scanner σ} {source last : σ} {c : Char}
  {cs : List (Nat × Char)}

theorem takeWhile_of_some (p : Char → Bool) (h : s.current = some c) :
    s.takeWhile p =
      if p c then (c :: (s.shift.takeWhile p).1, (s.shift.takeWhile p).2) else ([], s) := by
  rw [takeWhile]
  split
  · next hc => simp [h] at hc
  · next d hc =>
    obtain rfl : c = d := Option.some.inj (h.symm.trans hc)
    rfl

/-- The scanner is in front of the characters `cs` of a text that ends at `stop`. Moved to the end,
it has asked its input until that was `last`. -/
inductive Shows : Scanner σ → Nat → List (Nat × Char) → σ → Prop
  | nil {stop aheadPosition : Nat} {ahead : Option Char} {last : σ} :
      Shows ⟨none, ahead, stop, aheadPosition, last⟩ stop [] last
  | singleton {offset : Nat} {c : Char} {input last : σ} : (pull input).2 = last →
      Shows ⟨some c, none, offset, offset + c.utf8Size, input⟩ (offset + c.utf8Size)
        [(offset, c)] last
  | cons {stop offset offset' : Nat} {c d : Char} {cs : List (Nat × Char)} {input last : σ} :
      EndsAt stop ((offset', d) :: cs) → Holds input cs last →
      Shows ⟨some c, some d, offset, offset', input⟩ stop ((offset, c) :: (offset', d) :: cs) last

/-- Behind the last character nothing is shown, whatever the input may still have. -/
theorem shows_shift_nil (h : s.ahead = none) (asked : (pull s.input).2 = last) :
    s.shift.Shows s.aheadPosition [] last := by
  unfold shift
  split <;> rename_i pull <;> rw [pull] at asked <;> subst asked <;> rw [h] <;> exact .nil

theorem shows_shift_cons {x : Nat × Char} (ahead : s.ahead = some x.2)
    (position : s.aheadPosition = x.1) (ends : EndsAt stop (x :: cs)) (h : Holds s.input cs last) :
    s.shift.Shows stop (x :: cs) last := by
  cases h with
  | nil pulled asked =>
    obtain rfl := ends x rfl
    rw [shift, pulled, ahead, position]
    exact .singleton asked
  | cons pulled holds =>
    rw [shift, pulled, ahead, position]
    exact .cons (fun last h => ends last (by simpa using h)) holds

theorem shows_start (h : Holds source cs last) :
    (start source).Shows (Token.endOffset cs) cs last := by
  cases h with
  | @nil _ source' _ pulled asked =>
    have first : shift ⟨none, none, 0, 0, source⟩ = ⟨none, none, 0, 0, source'⟩ := by
      rw [shift, pulled]
      rfl
    rw [start, first]
    exact shows_shift_nil rfl asked
  | @cons _ source' _ x cs pulled holds =>
    have first : shift ⟨none, none, 0, 0, source⟩ = ⟨none, some x.2, 0, x.1, source'⟩ := by
      rw [shift, pulled]
    rw [start, first]
    exact shows_shift_cons rfl rfl (.endOffset _) holds

namespace Shows

theorem current (h : s.Shows stop cs last) : s.current = (cs.map Prod.snd).head? := by
  cases h <;> rfl

theorem position (h : s.Shows stop cs last) : s.position = (cs.map Prod.fst).headD stop := by
  cases h <;> rfl

theorem ahead {x : Nat × Char} (h : s.Shows stop (x :: cs) last) :
    s.ahead = (cs.map Prod.snd).head? := by
  cases h <;> rfl

theorem input (h : s.Shows stop [] last) : s.input = last := by
  cases h
  rfl

theorem shift {x : Nat × Char} (h : s.Shows stop (x :: cs) last) : s.shift.Shows stop cs last := by
  cases h with
  | singleton asked => exact shows_shift_nil rfl asked
  | cons ends holds => exact shows_shift_cons rfl rfl ends holds

theorem takeWhile (p : Char → Bool) (h : s.Shows stop cs last) :
    (s.takeWhile p).1 = (cs.map Prod.snd).takeWhile p ∧
      (s.takeWhile p).2.Shows stop (cs.drop ((cs.map Prod.snd).takeWhile p).length) last := by
  induction cs generalizing s with
  | nil => simpa [takeWhile_of_none p h.current] using h
  | cons x cs ih =>
    rw [takeWhile_of_some p h.current]
    cases hp : p x.2 with
    | false => simpa [hp] using h
    | true => simpa [hp] using ih h.shift

/-- A lexeme of two characters. -/
theorem pair {x : Nat × Char} {kind : Kind} (h : s.Shows stop (x :: cs) last)
    (two : ((cs.map Prod.snd).head? == some '=') = true) :
    ∃ s', (kind, [c, '='], s.shift.shift) = (kind, c :: (cs.map Prod.snd).take 1, s') ∧
      s'.Shows stop (cs.drop 1) last := by
  cases cs with
  | nil => cases two
  | cons y cs =>
    obtain ⟨offset, d⟩ := y
    obtain rfl : d = '=' := by simpa using two
    exact ⟨_, by simp, h.shift.shift⟩

/-- The scanner takes the lexeme that the text alone decides. -/
theorem lexeme {offset : Nat} {kind : Kind} {n : Nat} (h : s.Shows stop ((offset, c) :: cs) last)
    (cut : munch c (cs.map Prod.snd) = (kind, n)) :
    ∃ s', s.lexeme c = (kind, c :: (cs.map Prod.snd).take n, s') ∧
      s'.Shows stop (cs.drop n) last := by
  unfold munch at cut
  simp only [Scanner.lexeme, h.ahead]
  split at cut
  · next two =>
    cases cut
    rw [if_pos two]
    exact h.pair (Bool.and_eq_true_iff.1 two).2
  rw [if_neg ‹_›]
  split at cut
  · next two =>
    cases cut
    rw [if_pos two]
    exact h.pair (Bool.and_eq_true_iff.1 two).2
  rw [if_neg ‹_›]
  split at cut
  · cases cut
    obtain ⟨more, shows⟩ := h.shift.takeWhile isWordPart
    rw [if_pos ‹_›, more]
    simp only [Lexeme.take_length_takeWhile]
    exact ⟨_, rfl, shows⟩
  rw [if_neg ‹_›]
  split at cut
  · cases cut
    obtain ⟨more, shows⟩ := h.shift.takeWhile Char.isDigit
    rw [if_pos ‹_›, more]
    simp only [Lexeme.take_length_takeWhile]
    exact ⟨_, rfl, shows⟩
  · cases cut
    rw [if_neg ‹_›]
    exact ⟨_, rfl, h.shift⟩

/-! ### One step, and every step -/

theorem next_nil (h : s.Shows stop [] last) : s.next = (.eof stop, s) := by
  have none : s.current = none := h.current
  simp [Scanner.next, takeWhile_of_none isSpace none, none, h.position]

/-- A call answers with the next token. When there is none it answers with the end, and then the
scanner is there. -/
theorem next (h : s.Shows stop cs last) :
    ∃ cs', s.next.2.Shows stop cs' last ∧
      (tokens stop cs = s.next.1 :: tokens stop cs' ∧ s.next.1.kind ≠ .eof ∨
        tokens stop cs = [] ∧ s.next.1 = .eof stop ∧ cs' = []) := by
  have skipped := (h.takeWhile isSpace).2
  have stopped := List.head?_dropWhile_not isSpace (cs.map Prod.snd)
  rw [← Lexeme.drop_length_takeWhile, ← List.map_drop] at stopped
  rw [← tokens_drop_spaces cs]
  generalize cs.drop ((cs.map Prod.snd).takeWhile isSpace).length = rest at skipped stopped
  cases rest with
  | nil =>
    have none : (s.takeWhile isSpace).2.current = none := skipped.current
    have step : s.next = (.eof stop, (s.takeWhile isSpace).2) := by
      simp [Scanner.next, none, skipped.position]
    rw [step]
    exact ⟨[], skipped, .inr ⟨tokens_nil, rfl, rfl⟩⟩
  | cons x rest =>
    obtain ⟨offset, c⟩ := x
    have space : isSpace c = false := stopped
    obtain ⟨⟨kind, n⟩, cut⟩ : ∃ p, munch c (rest.map Prod.snd) = p := ⟨_, rfl⟩
    have some : (s.takeWhile isSpace).2.current = some c := skipped.current
    obtain ⟨s', taken, shows⟩ := skipped.lexeme cut
    have step : s.next = (⟨kind, String.ofList (c :: (rest.map Prod.snd).take n),
        ⟨offset, ((rest.drop n).map Prod.fst).headD stop⟩⟩, s') := by
      simp [Scanner.next, some, taken, skipped.position, shows.position]
    rw [step, tokens_cons space cut]
    refine ⟨rest.drop n, shows, .inl ⟨rfl, ?_⟩⟩
    have notEnd := munch_ne_eof c (rest.map Prod.snd)
    rwa [cut] at notEnd

theorem calls_nil (h : s.Shows stop [] last) (n : Nat) :
    s.calls n = List.replicate n (.eof stop) := by
  induction n with
  | zero => rfl
  | succ n ih => rw [Scanner.calls, h.next_nil, ih, List.replicate_succ]

/-- The tokens come first, and behind them the end as often as it is asked for. -/
theorem calls (h : s.Shows stop cs last) (n : Nat) :
    s.calls ((tokens stop cs).length + n) = tokens stop cs ++ List.replicate n (.eof stop) := by
  generalize hts : tokens stop cs = ts
  induction ts generalizing s cs with
  | nil =>
    cases n with
    | zero => rfl
    | succ n =>
      obtain ⟨cs', shows, ⟨some, -⟩ | ⟨-, eof, rfl⟩⟩ := h.next
      · rw [hts] at some
        cases some
      · rw [List.length_nil, Nat.zero_add, Scanner.calls, eof, shows.calls_nil, List.nil_append,
          List.replicate_succ]
  | cons t ts ih =>
    obtain ⟨cs', shows, ⟨some, -⟩ | ⟨none, -⟩⟩ := h.next
    · obtain ⟨rfl, rfl⟩ := List.cons.inj (hts.symm.trans some)
      rw [List.length_cons, Nat.add_right_comm, Scanner.calls, ih shows rfl, List.cons_append]
    · rw [hts] at none
      cases none

end Shows

theorem calls_ofStream {cs : List (Nat × Char)} {ts : List Token}
    (h : Token.ofStream cs = ts ++ [.eof (Token.endOffset cs)]) (n : Nat) :
    (ofStream cs).calls (ts.length + n) =
      ts ++ List.replicate n (.eof (Token.endOffset cs)) := by
  obtain rfl : tokens (Token.endOffset cs) cs = ts := List.append_cancel_right h
  exact (shows_start (CharSource.holds_list cs)).calls n

/-- Further calls change none of the earlier answers. -/
theorem take_calls {n m : Nat} (le : n ≤ m) (s : Scanner σ) : (s.calls m).take n = s.calls n := by
  induction n generalizing m s with
  | zero => simp [calls]
  | succ n ih =>
    obtain ⟨m, rfl⟩ := Nat.exists_eq_add_of_le' (Nat.le_trans (Nat.le_add_left 1 n) le)
    rw [calls, calls, List.take_succ_cons, ih (Nat.le_of_succ_le_succ le)]

/-- However often it is asked, a scanner answers from the tokens and, behind them, with the one that
marks the end. -/
theorem calls_ofStream_eq_take {cs : List (Nat × Char)} {ts : List Token}
    (h : Token.ofStream cs = ts ++ [.eof (Token.endOffset cs)]) {n m : Nat}
    (le : n ≤ ts.length + m) :
    (ofStream cs).calls n = (ts ++ List.replicate m (Token.eof (Token.endOffset cs))).take n := by
  rw [← take_calls le, calls_ofStream h]

theorem calls_ofText {s : String} {ts : List Token}
    (h : Token.ofText s = ts ++ [.eof (byteLength s.toList)]) {n m : Nat}
    (le : n ≤ ts.length + m) :
    (ofText s).calls n = (ts ++ List.replicate m (Token.eof (byteLength s.toList))).take n := by
  have stop := Token.endOffset_offsets s.toList
  rw [ofText, calls_ofStream_eq_take (stop ▸ h) le, stop]

end Scanner

/-- The tokens of a text are the literals at their places, in their order and at most one for each
character, with only spaces between them. Behind them there is no end to the end tokens. -/
theorem scanner_tokens_make_up_text (text : String) :
    ∃ ts, ts.length ≤ text.toList.length ∧
      Token.ofText text = ts ++ [.eof (byteLength text.toList)] ∧
      (∀ n, (Scanner.ofText text).calls (ts.length + n) =
        ts ++ List.replicate n (.eof (byteLength text.toList))) ∧
      (∀ t ∈ ts, t.kind ≠ .eof ∧ t.literal ≠ "" ∧
        t.span.Covers 0 text.toList t.literal.toList) ∧
      (ts.Pairwise fun t u => t.span.start < u.span.start ∧ t.span.stop ≤ u.span.start) ∧
      (∀ front c back, text.toList = front ++ c :: back → isSpace c = true ∨
        ∃ t ∈ ts, t.span.start ≤ byteLength front ∧ byteLength front < t.span.stop) ∧
      ∃ gaps : List (List Char), gaps.length = ts.length + 1 ∧
        (∀ gap ∈ gaps, ∀ c ∈ gap, isSpace c = true) ∧
        text.toList = woven gaps (ts.map fun t => t.literal.toList) := by
  obtain ⟨ts, tokens, tiling⟩ := Token.exists_tiling_ofText text
  have stop := Token.endOffset_offsets text.toList
  refine ⟨ts, tiling.length_le, tokens, fun n => ?_, fun t ht => tiling.of_mem ht, ?_, ?_,
    tiling.exists_woven⟩
  · rw [Scanner.ofText, Scanner.calls_ofStream (stop ▸ tokens), stop]
  · refine tiling.pairwise.imp_of_mem fun ht _ h => ⟨?_, h⟩
    exact Nat.lt_of_lt_of_le (tiling.start_lt_stop ht) h
  · intro front c back split
    simpa using tiling.isSpace_or_mem split

end LetFn
