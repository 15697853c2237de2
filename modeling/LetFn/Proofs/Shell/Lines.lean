import Mathlib.Data.List.DropRight
import LetFn.Proofs.Text.Utf8
import LetFn.Shell

/-! Input line by line: where it is cut, and what a line says once the newlines and carriage returns
at its end are gone. -/

namespace LetFn.Shell

/-! ### Cutting -/

/-- Input and its lines. The only newline of a line is its last byte; the last line may do
without. -/
inductive Cut : List UInt8 → List (List UInt8) → Prop where
  | nil : Cut [] []
  | last {line : List UInt8} : line ≠ [] → 0x0a ∉ line → Cut line [line]
  | cons {line rest : List UInt8} {ls : List (List UInt8)} : 0x0a ∉ line → Cut rest ls →
      Cut (line ++ 0x0a :: rest) ((line ++ [0x0a]) :: ls)

theorem lines_of_not_mem {line : List UInt8} (ne : line ≠ []) (hl : 0x0a ∉ line) :
    lines line = [line] := by
  induction line with
  | nil => exact (ne rfl).elim
  | cons b line ih =>
    rw [List.mem_cons, not_or] at hl
    obtain ⟨hb, hl⟩ := hl
    rw [lines, if_neg (Ne.symm hb)]
    cases line with
    | nil => rfl
    | cons c line => rw [ih (List.cons_ne_nil c line) hl]

theorem lines_append_newline {line : List UInt8} (hl : 0x0a ∉ line) (rest : List UInt8) :
    lines (line ++ 0x0a :: rest) = (line ++ [0x0a]) :: lines rest := by
  induction line with
  | nil => rw [List.nil_append, lines, if_pos rfl, List.nil_append]
  | cons b line ih =>
    rw [List.mem_cons, not_or] at hl
    obtain ⟨hb, hl⟩ := hl
    rw [List.cons_append, lines, if_neg (Ne.symm hb), ih hl, List.cons_append]

theorem cut_lines (input : List UInt8) : Cut input (lines input) := by
  induction input with
  | nil => exact .nil
  | cons b bytes ih =>
    rw [lines]
    by_cases hb : b = 0x0a
    · rw [if_pos hb, hb]
      exact @Cut.cons [] bytes _ List.not_mem_nil ih
    rw [if_neg hb]
    -- a byte that ends no line belongs to the first line of what follows, if there is one
    generalize lines bytes = ls at ih ⊢
    cases ih with
    | nil => exact .last (List.cons_ne_nil b []) (by simpa using Ne.symm hb)
    | last _ hl => exact .last (List.cons_ne_nil b _) (by simp [Ne.symm hb, hl])
    | @cons line _ _ hl rest => exact @Cut.cons (b :: line) _ _ (by simp [Ne.symm hb, hl]) rest

theorem cut_iff {input : List UInt8} {ls : List (List UInt8)} :
    Cut input ls ↔ lines input = ls := by
  constructor
  · intro cut
    induction cut with
    | nil => rfl
    | last ne hl => exact lines_of_not_mem ne hl
    | cons hl _ ih => rw [lines_append_newline hl, ih]
  · rintro rfl
    exact cut_lines input

theorem Cut.flatten {input : List UInt8} {ls : List (List UInt8)} (cut : Cut input ls) :
    ls.flatten = input := by
  induction cut with
  | nil => rfl
  | last => simp
  | cons _ _ ih => simp [ih]

/-- What is left without one of the lines consists of the other ones. -/
theorem Cut.erase {input line : List UInt8} {ls rest : List (List UInt8)}
    (cut : Cut input (ls ++ line :: rest)) : Cut (ls ++ rest).flatten (ls ++ rest) := by
  induction ls generalizing input with
  | nil =>
    cases cut with
    | last => exact .nil
    | cons _ rest =>
      rw [List.nil_append, rest.flatten]
      exact rest
  | cons l ls ih =>
    generalize behind : ls ++ line :: rest = more at cut ih
    rw [List.cons_append, behind] at cut
    cases cut with
    | last => simp at behind
    | cons hl more => simpa using Cut.cons hl (ih more)

/-! ### Texts -/

/-- The line is the text and, behind it, newlines and carriage returns; the text ends in neither. -/
def Reads (line : List UInt8) (text : String) : Prop :=
  ∃ tail : String, line = (text ++ tail).toUTF8.data.toList ∧
    (∀ c ∈ tail.toList, c = '\n' ∨ c = '\r') ∧
    ∀ c ∈ text.toList.getLast?, ¬(c = '\n' ∨ c = '\r')

/-- The line is no text. -/
def Broken (line : List UInt8) : Prop := ∀ s : String, line ≠ s.toUTF8.data.toList

/-- The line asks to leave or is no text. -/
def Ends (line : List UInt8) : Prop := Reads line ".exit" ∨ Broken line

theorem trimmed_eq_rdropWhile (cs : List Char) :
    trimmed cs = cs.rdropWhile fun c => c = '\n' || c = '\r' := rfl

theorem trimmed_append {cs tail : List Char} (ht : ∀ c ∈ tail, c = '\n' ∨ c = '\r')
    (hcs : ∀ c ∈ cs.getLast?, ¬(c = '\n' ∨ c = '\r')) : trimmed (cs ++ tail) = cs := by
  have kept : trimmed cs = cs := by
    rw [trimmed_eq_rdropWhile, List.rdropWhile_eq_self_iff]
    intro ne
    simpa using hcs _ (List.getLast?_eq_some_getLast ne)
  rw [trimmed, List.reverse_append, List.dropWhile_append_of_pos (by simpa using ht)]
  exact kept

theorem exists_trimmed_append (cs : List Char) :
    ∃ tail, cs = trimmed cs ++ tail ∧ (∀ c ∈ tail, c = '\n' ∨ c = '\r') ∧
      ∀ c ∈ (trimmed cs).getLast?, ¬(c = '\n' ∨ c = '\r') := by
  rw [trimmed_eq_rdropWhile]
  refine ⟨cs.rtakeWhile fun c => c = '\n' || c = '\r', ?_, ?_, ?_⟩
  · exact List.rdropWhile_append_rtakeWhile.symm
  · intro c hc
    simpa using List.mem_rtakeWhile_imp hc
  · intro c hc
    obtain ⟨ne, rfl⟩ := List.mem_getLast?_eq_getLast hc
    simpa using List.rdropWhile_last_not _ cs ne

theorem reads_iff {line : List UInt8} {text : String} :
    Reads line text ↔ ∃ cs, Text.Utf8.decode? line = some cs ∧ trimmed cs = text.toList := by
  constructor
  · rintro ⟨tail, rfl, ht, htext⟩
    rw [Text.Utf8.toUTF8_eq_encode, String.toList_append]
    exact ⟨_, Text.Utf8.decode?_encode _, trimmed_append ht htext⟩
  · rintro ⟨cs, decoded, same⟩
    obtain ⟨tail, parts, ht, htext⟩ := exists_trimmed_append cs
    refine ⟨.ofList tail, ?_, by rwa [String.toList_ofList], same ▸ htext⟩
    rw [Text.Utf8.toUTF8_eq_encode, String.toList_append, String.toList_ofList, ← same, ← parts]
    exact Text.Utf8.eq_encode_of_decode? decoded

theorem broken_iff {line : List UInt8} : Broken line ↔ Text.Utf8.decode? line = none := by
  constructor
  · intro broken
    cases decoded : Text.Utf8.decode? line with
    | none => rfl
    | some cs =>
      refine (broken (.ofList cs) ?_).elim
      rw [Text.Utf8.toUTF8_eq_encode, String.toList_ofList]
      exact Text.Utf8.eq_encode_of_decode? decoded
  · rintro undecoded s rfl
    rw [Text.Utf8.toUTF8_eq_encode, Text.Utf8.decode?_encode] at undecoded
    cases undecoded

theorem reads_or_broken (line : List UInt8) : (∃ text, Reads line text) ∨ Broken line := by
  cases decoded : Text.Utf8.decode? line with
  | none => exact .inr (broken_iff.2 decoded)
  | some cs =>
    exact .inl ⟨.ofList (trimmed cs), reads_iff.2 ⟨cs, decoded, String.toList_ofList.symm⟩⟩

theorem Reads.unique {line : List UInt8} {s t : String} (hs : Reads line s) (ht : Reads line t) :
    s = t := by
  obtain ⟨cs, decoded, same⟩ := reads_iff.1 hs
  obtain ⟨cs', decoded', same'⟩ := reads_iff.1 ht
  rw [decoded, Option.some.injEq] at decoded'
  exact String.toList_inj.1 (by rw [← same, ← same', decoded'])

theorem request_of_reads {line : List UInt8} {text : String} (reads : Reads line text) :
    request line =
      if text = "" then .nothing else if text = ".exit" then .leave else .text text.toList := by
  obtain ⟨cs, decoded, same⟩ := reads_iff.1 reads
  have empty : text.toList = [] ↔ text = "" := String.toList_eq_nil_iff
  have exit : text.toList = exitCommand ↔ text = ".exit" := String.toList_inj
  simp only [request, decoded, same, empty, exit]

theorem request_of_broken {line : List UInt8} (broken : Broken line) : request line = .broken := by
  rw [request, broken_iff.1 broken]

theorem Reads.not_ends {line : List UInt8} {text : String} (reads : Reads line text)
    (ne : text ≠ ".exit") : ¬Ends line := by
  rintro (exit | broken)
  · exact ne (reads.unique exit)
  · obtain ⟨tail, same, -⟩ := reads
    exact broken _ same

end LetFn.Shell
