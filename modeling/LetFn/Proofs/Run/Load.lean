import LetFn.Proofs.Parser.Places
import LetFn.Proofs.Token.Feed
import LetFn.Run

/-! Loading a file, which is decoded and cut into tokens as far as tokens are asked for, agrees with
parsing its text where it has one, and tells why not where it has none. Whatever is wrong with the
program, reading goes on to the end token, so every fault in the file is met. -/

namespace LetFn

open CharSource (Holds)

namespace Scanner

variable {σ : Type} [CharSource σ] {stop : Nat} {source last : σ} {cs : List (Nat × Char)}

/-- A cursor in a scanner shows the tokens that are left, and then the end. -/
theorem Shows.token {s : Scanner σ} (h : s.Shows stop cs last) (i : Nat) :
    (⟨s⟩ : Cursor (Scanner σ)).token i = (tokens stop cs).getD i (.eof stop) := by
  induction i generalizing s cs with
  | zero =>
    obtain ⟨cs', -, ⟨some, -⟩ | ⟨none, eof, -⟩⟩ := h.next
    · rw [some]
      rfl
    · rw [none]
      exact eof
  | succ i ih =>
    obtain ⟨cs', shows, ⟨some, -⟩ | ⟨none, -, rfl⟩⟩ := h.next
    · rw [some]
      exact ih shows
    · have behind := ih shows
      rw [tokens_nil] at behind
      rw [none]
      exact behind

/-- `c'` shows what `c` does, and its scanner has the end of a text in front of it. -/
def Pulls (stop : Nat) (last : σ) (c : Cursor) (c' : Cursor (Scanner σ)) : Prop :=
  c.Moves id c' ∧ ∃ cs, c'.source.Shows stop cs last

theorem pulls_follows : Cursor.Follows id (Pulls stop last) where
  current h := Cursor.moves_follows.current h.1
  advance := by
    rintro c c' ⟨moves, cs, shows⟩
    obtain ⟨cs', behind, -⟩ := shows.next
    exact ⟨Cursor.moves_follows.advance moves, cs', behind⟩

theorem pulls_start (h : Holds source cs last) :
    Pulls (Token.endOffset cs) last (.ofTokens (Token.ofStream cs)) ⟨start source⟩ := by
  refine ⟨fun i => ?_, cs, shows_start h⟩
  rw [(shows_start h).token, Token.ofStream, Cursor.ofTokens_concat_eof, Cursor.token_concat_eof,
    Cursor.token_eq_getD]
  rfl

/-- At the end token the input has been asked for all there is. -/
theorem Shows.input_rest {c : Cursor (Scanner σ)} (h : c.source.Shows stop cs last)
    (eof : c.current.kind = .eof) : c.current = .eof stop ∧ c.rest.input = last := by
  obtain ⟨cs', shows, ⟨-, other⟩ | ⟨-, here, rfl⟩⟩ := h.next
  · exact absurd eof other
  · refine ⟨here, ?_⟩
    have stays : c.source.next.2.next.2 = c.source.next.2 := by rw [shows.next_nil]
    exact (congrArg Scanner.input stays).trans shows.input

/-- Reading from a scanner, which cuts off tokens as they are asked for, gives what reading all its
tokens gives. It stops on the token that marks the end, and by then the input has been asked for all
its characters, and once more behind them. -/
theorem read_start (h : Holds source cs last) :
    (Parser.read (⟨start source⟩ : Cursor (Scanner σ))).1 = parseTokens (Token.ofStream cs) ∧
      (Parser.read (⟨start source⟩ : Cursor (Scanner σ))).2.current =
        .eof (Token.endOffset cs) ∧
      (Parser.read (⟨start source⟩ : Cursor (Scanner σ))).2.rest.input = last := by
  obtain ⟨program, errors, -, cs', shows⟩ := Parser.read_moves pulls_follows (pulls_start h)
  refine ⟨?_, shows.input_rest (Parser.read_current_kind _)⟩
  have same : ∀ p : Parsed, (⟨p.program.move id, p.errors.map (ParseError.move id)⟩ : Parsed) = p :=
    fun p => congrArg₂ Parsed.mk (congrArg Program.mk (map_move_id _)) (List.map_id _)
  exact (congrArg₂ Parsed.mk program errors).trans (same _)

end Scanner

theorem loadContent_of_holds {content : List UInt8} {cs : List Char} {last : Feed}
    (h : Holds (Feed.ofBytes content) ((Token.offsets 0 cs).zip cs) last) (path : String) :
    loadContent path content =
      match last.fault with
      | none => check path last.text.reverse (parseChars cs)
      | some fault => .error (.io fault.ioFault) := by
  obtain ⟨parsed, -, pulled⟩ := Scanner.read_start h
  simp only [loadContent, Scanner.ofBytes, parsed, pulled]
  rfl

/-- A file that holds a text is loaded as the text is parsed, and running it is running the text. In
any other file there is a first place where no character stands; what loading it fails with is the
fault there, or the one behind that if there is one right behind it. -/
theorem load_text_or_fault (path : String) (content : List UInt8) :
    (∀ s : String, content = s.toUTF8.data.toList →
      load path (.ok content) =
          (if (parse s).errors = [] then .ok (parse s).program
          else .error (.parse path s (parse s).errors)) ∧
        ∀ fuel scope h,
          runFile fuel path (.ok content) scope h = runSource fuel path s scope h) ∧
    ((∀ s : String, content ≠ s.toUTF8.data.toList) →
      ∃ (s : String) (b : UInt8) (bytes rest : List UInt8) (fault : Text.Utf8.Fault),
        content = s.toUTF8.data.toList ++ b :: bytes ∧
        Text.Utf8.next b bytes = (.error fault, rest) ∧
        load path (.ok content) = .error (.io (fault.before rest).ioFault)) := by
  constructor
  · rintro s rfl
    obtain ⟨last, holds, text, fault⟩ := Feed.holds_encode s.toList
    rw [Text.Utf8.toUTF8_eq_encode]
    have loaded : load path (.ok (Text.Utf8.encode s.toList)) = check path s.toList (parse s) := by
      rw [load, loadContent_of_holds holds, fault, text, List.reverse_reverse]
      rfl
    refine ⟨?_, ?_⟩
    · rw [loaded, check, String.ofList_toList]
    · intro fuel scope h
      rw [runFile, loaded, runSource]
  · intro ill
    obtain ⟨cs, rfl⟩ | ⟨cs, b, bytes, fault, rest, rfl, hn⟩ := Text.Utf8.eq_encode_or content
    · refine (ill (String.ofList cs) ?_).elim
      rw [Text.Utf8.toUTF8_eq_encode, String.toList_ofList]
    · obtain ⟨last, holds, lastFault⟩ := Feed.holds_of_fault cs hn
      refine ⟨String.ofList cs, b, bytes, rest, fault, ?_, hn, ?_⟩
      · rw [Text.Utf8.toUTF8_eq_encode, String.toList_ofList]
      · rw [load, loadContent_of_holds holds, lastFault]

/-- `é;`, which is no program. -/
def accented : List UInt8 := [0xc3, 0xa9, 0x3b]

/-- `a`, then a byte that no character begins with, and then half a character. -/
def twiceAtFault : List UInt8 := [0x61, 0xff, 0xc3]

theorem load_text_or_fault_twice :
    (accented = "é;".toUTF8.data.toList ∧
      load "main" (.ok accented) = .error (.parse "main" "é;" (parse "é;").errors)) ∧
    (∀ s : String, twiceAtFault ≠ s.toUTF8.data.toList) ∧
      load "main" (.ok twiceAtFault) = .error (.io .unexpectedEnd) := by
  have decoded : Text.Utf8.decode twiceAtFault = (['a'], some (.invalid, [0xc3])) := by
    with_unfolding_all rfl
  have ill : ∀ s : String, twiceAtFault ≠ s.toUTF8.data.toList := by
    intro s h
    have whole := Text.Utf8.decode_encode s.toList
    rw [← Text.Utf8.toUTF8_eq_encode, ← h, decoded] at whole
    simp at whole
  refine ⟨⟨by decide, ?_⟩, ill, ?_⟩
  · have refused : (parse "é;").errors = [⟨.notAnExpression .illegal, ⟨0, 2⟩⟩] := by
      decide +kernel
    obtain ⟨loaded, -⟩ := (load_text_or_fault "main" accented).1 "é;" (by decide)
    rw [loaded, refused]
    rfl
  · obtain ⟨s, b, bytes, rest, fault, content, hn, loaded⟩ :=
      (load_text_or_fault "main" twiceAtFault).2 ill
    have parts := Text.Utf8.decode_encode_append s.toList (b :: bytes)
    rw [← Text.Utf8.toUTF8_eq_encode, ← content, decoded, Text.Utf8.decode_of_error hn] at parts
    simp only [Prod.mk.injEq, Option.some.injEq] at parts
    obtain ⟨-, rfl, rfl⟩ := parts
    exact loaded

end LetFn
