import Mathlib.Data.List.Forall2
import LetFn.Proofs.Parser.Blame
import LetFn.Proofs.Run.Load

/-! What is shown of a program that is refused. Wherever its errors are, the places that are shown
for them can be drawn, so the report of a user's mistake does not fail itself. -/

namespace LetFn

open Text (byteLength isBlank trimEnd)
open Lexeme (munch symbol)

/-! ### Places between characters -/

namespace Text

theorem utf8ByteSize_ofList (cs : List Char) : (String.ofList cs).utf8ByteSize = byteLength cs := by
  induction cs with
  | nil => rfl
  | cons c cs ih =>
    rw [String.ofList_cons, String.utf8ByteSize_append, String.utf8ByteSize_singleton, ih,
      byteLength]

theorem exists_trimEnd_append (cs : List Char) :
    ∃ blanks, cs = trimEnd cs ++ blanks ∧ ∀ c ∈ blanks, isBlank c = true := by
  refine ⟨(cs.reverse.takeWhile isBlank).reverse, ?_, fun c hc => ?_⟩
  · rw [trimEnd, ← List.reverse_append, List.takeWhile_append_dropWhile, List.reverse_reverse]
  · exact Lexeme.of_mem_takeWhile (List.mem_reverse.1 hc)

end Text

/-- What is drawn is in order, within the text, and begins and ends between two characters. -/
structure Location.Sound (l : Location) : Prop where
  ordered : l.span.start ≤ l.span.stop
  within : l.span.stop ≤ l.src.utf8ByteSize
  begins : String.Pos.Raw.IsValid l.src ⟨l.span.start⟩
  ends : String.Pos.Raw.IsValid l.src ⟨l.span.stop⟩

theorem isValid_byteLength {src : String} {front back : List Char}
    (parts : src.toList = front ++ back) : String.Pos.Raw.IsValid src ⟨byteLength front⟩ := by
  refine String.Pos.Raw.isValid_iff_exists_append.2 ⟨.ofList front, .ofList back, ?_, ?_⟩
  · rw [← String.ofList_append, ← parts, String.ofList_toList]
  · rw [← Text.utf8ByteSize_ofList]
    rfl

theorem Location.Sound.of_covers {l : Location} {part : List Char}
    (covers : l.span.Covers 0 l.src.toList part) : l.Sound := by
  obtain ⟨front, back, parts, begins, ends⟩ := covers
  rw [Nat.zero_add] at begins
  have stop : l.span.stop = byteLength (front ++ part) := by
    rw [ends, begins, Text.byteLength_append]
  refine ⟨ends ▸ Nat.le_add_right _ _, ?_, ?_, ?_⟩
  · rw [stop, ← String.ofList_toList (s := l.src), Text.utf8ByteSize_ofList, parts,
      Text.byteLength_append _ back]
    exact Nat.le_add_right _ _
  · rw [begins]
    exact isValid_byteLength (parts.trans (List.append_assoc ..))
  · rw [stop]
    exact isValid_byteLength parts

/-! ### Places of tokens -/

theorem IsWord.isSpace_of_mem {s : String} (word : IsWord s) :
    ∀ c ∈ s.toList, isSpace c = false := by
  obtain ⟨c, cs, letters, hc, hcs⟩ := word
  rw [letters, List.forall_mem_cons]
  exact ⟨(not_space_of_class hc (by decide)).1,
    fun d hd => (not_space_of_class (hcs d hd) (by decide)).1⟩

theorem Kind.isSpace_of_mem_text {kind : Kind} {s : String} (h : kind.text? = some s) :
    ∀ c ∈ s.toList, isSpace c = false := by
  rcases text?_cases h with reserved | ⟨c, letters, rfl⟩ | ⟨c, letters, space, -⟩
  · exact (isWord_of_reserved (ofWord?_eq_some_iff.2 ⟨reserved, h⟩)).isSpace_of_mem
  · have known : symbol c ≠ .illegal := by
      intro stray
      simp [stray, text?] at h
    have munched : isSpace c = false ∧ munch c [] = _ := munch_symbol known (by simp)
    simpa [letters] using munched.1
  · have equals : isSpace '=' = false := rfl
    simp [letters, space, equals]

/-- No token has a space in it, and so none has a newline. -/
theorem Munched.isSpace_of_mem {kind : Kind} {literal : String} {next : Option Char}
    (m : Munched kind literal next) : ∀ c ∈ literal.toList, isSpace c = false := by
  cases fixed : kind.text? with
  | some s => exact m.spelled.text s fixed ▸ Kind.isSpace_of_mem_text fixed
  | none =>
    cases kind with
    | ident => exact (m.spelled.name rfl).1.isSpace_of_mem
    | int =>
      intro c hc
      exact (not_space_of_class ((m.spelled.digits rfl).2 c hc) (by decide)).1
    | illegal =>
      obtain ⟨c, literal, space, -⟩ := m.stray rfl
      simpa [literal] using space
    | eof => exact (m.notEnd rfl).elim
    | _ => cases fixed

theorem Tiling.isSpace_of_mem {start : Nat} {cs : List Char} {ts : List Token}
    (tiling : Tiling start cs ts) {t : Token} (ht : t ∈ ts) :
    ∀ c ∈ t.literal.toList, isSpace c = false := by
  induction tiling with
  | nil => cases ht
  | space _ _ ih => exact ih ht
  | token m _ ih =>
    rcases List.mem_cons.1 ht with rfl | ht
    · exact m.isSpace_of_mem
    · exact ih ht

/-- The token is one of the text with characters in it, and stands where its span says. -/
structure Token.Stands (t : Token) (text : String) : Prop where
  mem : t ∈ ofText text
  notEnd : t.kind ≠ .eof
  notEmpty : t.span.start < t.span.stop
  covers : t.span.Covers 0 text.toList t.literal.toList
  oneLine : '\n' ∉ t.literal.toList

theorem Token.stands_of_mem {text : String} {t : Token} (ht : t ∈ ofText text)
    (notEnd : t.kind ≠ .eof) : t.Stands text := by
  obtain ⟨ts, tokens, tiling⟩ := exists_tiling_ofText text
  have inside : t ∈ ts := by
    rw [tokens] at ht
    rcases List.mem_append.1 ht with inside | last
    · exact inside
    · exact (notEnd (List.mem_singleton.1 last ▸ rfl)).elim
  refine ⟨ht, notEnd, tiling.start_lt_stop inside, (tiling.of_mem inside).2.2, fun newline => ?_⟩
  have space := tiling.isSpace_of_mem inside '\n' newline
  cases space

/-! ### What is shown -/

theorem exists_about_of_mem_errors {text : String} {e : ParseError}
    (he : e ∈ (parse text).errors) : ∃ t ∈ Token.ofText text, e.About t := by
  obtain ⟨ts, tokens, -⟩ := Token.exists_tiling_ofText text
  obtain ⟨c, trail⟩ := parseTokens_trail (Token.ofText text)
  obtain ⟨t, ht, about⟩ := trail.exists_about e he
  rw [ahead_ofText tokens, tokens] at ht
  exact ⟨t, by simpa [tokens] using ht, about⟩

/-- The location shows the error in the text: a whole token, or the end of what is not blank if the
error is about the end. -/
structure Location.Shows (l : Location) (text : String) (e : ParseError) : Prop where
  src : l.src = text
  sound : l.Sound
  oneLine : ∃ part, l.span.Covers 0 text.toList part ∧ '\n' ∉ part
  token : e.isUnexpectedEnd = false → ∃ t : Token, t.Stands text ∧ l.span = t.span
  stop : e.isUnexpectedEnd = true → ∃ front blanks, text.toList = front ++ blanks ∧
    l.span = .point (byteLength front) ∧ ∀ c ∈ blanks, isBlank c = true

theorem shows_shownSpan {path text : String} {label : Option String} {e : ParseError}
    (he : e ∈ (parse text).errors) :
    (⟨path, text, Failure.shownSpan text e, label⟩ : Location).Shows text e := by
  cases atEnd : e.isUnexpectedEnd with
  | true =>
    obtain ⟨blanks, parts, blank⟩ := Text.exists_trimEnd_append text.toList
    have shown : Failure.shownSpan text e = .point (byteLength (trimEnd text.toList)) := by
      rw [Failure.shownSpan, if_pos atEnd]
    have covers : (Failure.shownSpan text e).Covers 0 text.toList [] := by
      rw [shown]
      exact ⟨_, blanks, by simpa using parts, (Nat.zero_add _).symm, rfl⟩
    refine ⟨rfl, .of_covers covers, ⟨[], covers, nofun⟩, fun other => ?_, fun _ => ?_⟩
    · cases atEnd.symm.trans other
    · exact ⟨_, blanks, parts, shown, blank⟩
  | false =>
    obtain ⟨t, ht, about⟩ := exists_about_of_mem_errors he
    have stands : t.Stands text := Token.stands_of_mem ht fun isEnd => by
      rw [about.isUnexpectedEnd_iff.2 isEnd] at atEnd
      cases atEnd
    have shown : Failure.shownSpan text e = t.span := by
      rw [Failure.shownSpan, atEnd, about.span]
      rfl
    have covers : (Failure.shownSpan text e).Covers 0 text.toList t.literal.toList :=
      shown ▸ stands.covers
    refine ⟨rfl, .of_covers covers, ⟨_, covers, stands.oneLine⟩, fun _ => ?_, fun other => ?_⟩
    · exact ⟨t, stands, shown⟩
    · cases atEnd.symm.trans other

/-! ### Writing a report -/

/-- What draws a title and the place that it is about, which may fail. -/
abbrev Drawing := String → Location → Option Styled

namespace Diagnostic

/-- Writing fails if drawing does. -/
def write (draw : Drawing) (d : Diagnostic) : Option Styled :=
  let head : Option Styled :=
    match d.location with
    | none => some (heading .red d.title ++ [.text "\n\n", .style .normal])
    | some l => draw d.title l
  head.map (· ++ if d.text = "" then [] else [.text (d.text ++ "\n")])

/-- Each report and an empty line, up to the first that fails. -/
def writeAll (draw : Drawing) : List Diagnostic → Option Styled
  | [] => some []
  | d :: ds =>
    (d.write draw).bind fun first =>
      (writeAll draw ds).map fun rest => first ++ [.text "\n"] ++ rest

/-- A heading and the line of the text with carets under the place. -/
def snippet : Drawing := fun title l =>
  some (heading .brightRed title ++ [.style .normal, .text "\n"] ++
    Snippet.render l.path l.src.toList l.span (l.label.getD ""))

theorem write_snippet (d : Diagnostic) : d.write snippet = some d.render := by
  obtain ⟨title, text, location⟩ := d
  cases location with
  | none => simp only [write, render, Option.map_some]
  | some l => simp only [write, render, snippet, Option.map_some]

theorem writeAll_snippet (ds : List Diagnostic) :
    writeAll snippet ds = some (ds.flatMap fun d => d.render ++ [.text "\n"]) := by
  induction ds with
  | nil => rfl
  | cons d ds ih =>
    rw [writeAll, write_snippet, ih, Option.bind_some, Option.map_some, List.flatMap_cons]

variable {draw : Drawing}

theorem isSome_write (draws : ∀ title l, l.Sound → (draw title l).isSome = true) {d : Diagnostic}
    (sound : ∀ l, d.location = some l → l.Sound) : (d.write draw).isSome = true := by
  rw [write, Option.isSome_map]
  cases h : d.location with
  | none => rfl
  | some l => exact draws d.title l (sound l h)

theorem isSome_writeAll (draws : ∀ title l, l.Sound → (draw title l).isSome = true)
    {ds : List Diagnostic} (sound : ∀ d ∈ ds, ∀ l, d.location = some l → l.Sound) :
    (writeAll draw ds).isSome = true := by
  induction ds with
  | nil => rfl
  | cons d ds ih =>
    obtain ⟨first, others⟩ := List.forall_mem_cons.1 sound
    obtain ⟨head, hd⟩ := Option.isSome_iff_exists.1 (isSome_write draws first)
    obtain ⟨rest, hds⟩ := Option.isSome_iff_exists.1 (ih others)
    rw [writeAll, hd, hds]
    rfl

end Diagnostic

/-! ### Programs that are refused -/

/-- There is a diagnostic for each of the errors and in their order, with its message and a place
that shows it. Whatever draws all sound places, the report of all of them is written. -/
structure Reported (text : String) (errors : List ParseError) (ds : List Diagnostic) : Prop where
  each : List.Forall₂ (fun e d => d.text = e.message ∧
    ∃ l, d.location = some l ∧ l.Shows text e) errors ds
  written : ∀ draw : Drawing, (∀ title l, l.Sound → (draw title l).isSome = true) →
    (Diagnostic.writeAll draw ds).isSome = true

theorem reported_parse (path text : String) :
    Reported text (parse text).errors
      (Failure.parse path text (parse text).errors).diagnostics := by
  have shows : ∀ e ∈ (parse text).errors,
      (⟨path, text, Failure.shownSpan text e, some e.label⟩ : Location).Shows text e :=
    fun e he => shows_shownSpan he
  refine ⟨?_, fun draw draws => Diagnostic.isSome_writeAll draws fun d hd l hl => ?_⟩
  · exact List.forall₂_map_right_iff.2 (List.forall₂_same.2 fun e he => ⟨rfl, _, rfl, shows e he⟩)
  · obtain ⟨e, he, rfl⟩ := List.mem_map.1 hd
    cases hl
    exact (shows e he).sound

variable {path path' src : String} {errors : List ParseError}

theorem eq_of_check {cs : List Char} (checked : check path cs (parseChars cs) =
    .error (.parse path' src errors)) : cs = src.toList ∧ errors = (parse src).errors := by
  unfold check at checked
  split at checked
  · cases checked
  · cases checked
    rw [String.toList_ofList, parse, String.toList_ofList]
    exact ⟨rfl, rfl⟩

theorem load_encode (path : String) (cs : List Char) :
    load path (.ok (Text.Utf8.encode cs)) = check path cs (parseChars cs) := by
  obtain ⟨last, holds, text, clean⟩ := Feed.holds_encode cs
  rw [load, loadContent_of_holds holds, clean, text, List.reverse_reverse]

theorem eq_of_load {content : Except IoFault (List UInt8)}
    (loaded : load path content = .error (.parse path' src errors)) :
    content = .ok src.toUTF8.data.toList ∧ errors = (parse src).errors := by
  cases content with
  | error fault => cases loaded
  | ok bytes =>
    obtain ⟨cs, rfl⟩ | ⟨cs, b, bytes, fault, rest, rfl, hn⟩ := Text.Utf8.eq_encode_or bytes
    · rw [load_encode] at loaded
      obtain ⟨rfl, same⟩ := eq_of_check loaded
      exact ⟨by rw [Text.Utf8.toUTF8_eq_encode], same⟩
    · obtain ⟨last, holds, faulty⟩ := Feed.holds_of_fault cs hn
      rw [load, loadContent_of_holds holds, faulty] at loaded
      cases loaded

theorem eq_of_runSource {n : Nat} {text : String} {scope : ScopeId} {h h' : Heap}
    (run : runSource n path text scope h = some (.error (.parse path' src errors), h')) :
    text = src ∧ errors = (parse src).errors := by
  obtain ⟨failure, checked, same, -⟩ | ⟨p, v, -, -, ends⟩ := evaluateLoaded_cases run
  · cases same
    obtain ⟨letters, same⟩ := eq_of_check checked
    exact ⟨String.toList_inj.1 letters, same⟩
  · obtain ⟨message, -, other⟩ | ⟨-, other⟩ := ends <;> cases other

/-- A program that is refused, be it given as a text or in a file, is reported error by error. Every
place that is shown is in order, within the text and on its characters, and on one line: it is that
of a token, or of the end of the text in front of nothing but blanks. So no report fails, whatever
draws such places; drawn as lines with carets it is the report that is shown. -/
theorem refused_reported :
    (∀ n path text scope h path' src errors h',
      runSource n path text scope h = some (.error (.parse path' src errors), h') →
      text = src ∧ Reported src errors (Failure.parse path' src errors).diagnostics) ∧
    (∀ path content path' src errors,
      load path content = .error (.parse path' src errors) →
      content = .ok src.toUTF8.data.toList ∧
        Reported src errors (Failure.parse path' src errors).diagnostics) ∧
    ∀ f : Failure, Diagnostic.writeAll Diagnostic.snippet f.diagnostics = some f.report := by
  refine ⟨?_, ?_, fun f => Diagnostic.writeAll_snippet f.diagnostics⟩
  · intro n path text scope h path' src errors h' run
    obtain ⟨same, rfl⟩ := eq_of_runSource run
    exact ⟨same, reported_parse path' src⟩
  · intro path content path' src errors loaded
    obtain ⟨same, rfl⟩ := eq_of_load loaded
    exact ⟨same, reported_parse path' src⟩

/-- A block that is not closed. Behind the number stands an em space, which is blank, but not
between tokens. -/
def unclosed : String := "fn() \x7b 1 \u2003"

def unclosedErrors : List ParseError :=
  [⟨.notAnExpression .illegal, ⟨9, 12⟩⟩, ⟨.unexpected .rbrace .eof, ⟨12, 12⟩⟩]

/-- What is missing is shown behind the number, and not behind the em space. -/
theorem refused_reported_unclosed :
    (runSource 0 "main" unclosed 0 .root =
        some (.error (.parse "main" unclosed unclosedErrors), .root) ∧
      Reported unclosed unclosedErrors
        (Failure.parse "main" unclosed unclosedErrors).diagnostics) ∧
    (load "file" (.ok unclosed.toUTF8.data.toList) =
        .error (.parse "file" unclosed unclosedErrors) ∧
      Reported unclosed unclosedErrors
        (Failure.parse "file" unclosed unclosedErrors).diagnostics) ∧
    unclosedErrors.map (Failure.shownSpan unclosed) = [⟨9, 12⟩, ⟨8, 8⟩] := by
  have errors : (parse unclosed).errors = unclosedErrors := by decide +kernel
  have run : runSource 0 "main" unclosed 0 .root =
      some (.error (.parse "main" unclosed unclosedErrors), .root) := by
    rw [runSource, check, errors, String.ofList_toList]
    rfl
  have loaded : load "file" (.ok unclosed.toUTF8.data.toList) =
      .error (.parse "file" unclosed unclosedErrors) := by
    rw [Text.Utf8.toUTF8_eq_encode, load_encode, ← parse, check, errors, String.ofList_toList]
    rfl
  refine ⟨⟨run, ?_⟩, ⟨loaded, ?_⟩, by decide⟩
  · exact (refused_reported.1 _ _ _ _ _ _ _ _ _ run).2
  · exact (refused_reported.2.1 _ _ _ _ _ loaded).2

end LetFn
