import LetFn.Proofs.Parser.Extent
import LetFn.Proofs.Parser.Places
import LetFn.Proofs.Token.Slice

/-! The place of a statement is the text it was read from: read alone, that text is this statement
and nothing else, as far in front as it has been cut off. -/

namespace LetFn

open Text (byteLength)

variable {all w : List Token} {es : List ParseError} {s : Stmt}

/-- With nothing behind it a statement is read as it was in front of other tokens. -/
theorem ReadFrom.alone (read : ReadFrom all es w s) (noEnd : ∀ t ∈ w, t.kind ≠ .eof) :
    ∃ dropped, dropped ⊆ es ∧ parseTokens w = ⟨⟨[s]⟩, dropped⟩ := by
  obtain ⟨n, c, c', dropped, -, run, takes, sub, -⟩ := read
  refine ⟨dropped, sub, ?_⟩
  have whole : (Cursor.ofTokens w).append ⟨c'.advance.tokens, c.stop⟩ = c := by
    rw [Cursor.append, Cursor.ofTokens, ← takes.tokens]
  have inside : (Outcome.ok s c' dropped).Inside ⟨c'.advance.tokens, c.stop⟩ := by
    rw [Outcome.Inside, Cursor.tokens_eq_cons takes.more]
    exact Nat.lt_succ_self _
  have same := (Parser.statement_local n).inside (.ofTokens w) ⟨c'.advance.tokens, c.stop⟩
  rw [whole, run] at same
  obtain ⟨c₁, alone, cut⟩ := Outcome.append_eq_ok.1 (same inside)
  -- What it has come to is the last token, with nothing behind.
  have last : c₁.tokens = [c'.current] := by
    have tokens := congrArg Cursor.tokens cut
    rw [Cursor.tokens_eq_cons takes.more, ← List.singleton_append] at tokens
    exact (List.append_inj_left' tokens rfl).symm
  have first : (Cursor.ofTokens w).current.kind ≠ .eof := by
    obtain ⟨t, w, rfl⟩ := List.exists_cons_of_ne_nil takes.ne_nil
    exact noEnd t List.mem_cons_self
  have ended : c₁.advance.current.kind = .eof := by
    simp [Cursor.current_eq_headD, last, Token.eof]
  have rest : Parser.statements n (· = .eof) c₁.advance = .ok [] c₁.advance [] := by
    cases n with
    | zero => cases run
    | succ n => rw [Parser.statements_succ, if_pos (by simpa using ended)]
  refine Parser.parseTokens_eq_of_statements (n := n + 1) (c := c₁.advance) ?_
  rw [Parser.statements_succ, if_neg (by simpa using first), alone]
  simp [Outcome.thenRest, rest, Outcome.map, Outcome.after]

/-- A piece of a text up to the end of a token is read as these tokens are, only further in
front. -/
theorem parse_ofList {start : Nat} {part : List Char} {last : Token} (tiling : Tiling start part w)
    (hlast : w.getLast? = some last) (ends : last.span.stop = start + byteLength part) :
    (parse (String.ofList part)).program = (parseTokens w).program.move (· - start) ∧
      (parse (String.ofList part)).errors =
        (parseTokens w).errors.map (ParseError.move (· - start)) := by
  have stop : (Cursor.ofTokens (w.map (Token.move (· - start)))).stop = byteLength part := by
    simp [Cursor.ofTokens, hlast, Span.move, ends]
  have moves : (Cursor.ofTokens w).Moves (· - start) (.ofTokens (Token.ofText (.ofList part))) := by
    rw [Token.ofText_slice tiling, ← stop]
    exact (Cursor.ofTokens_moves fun _ => Nat.zero_sub start).concat_eof
  exact parseTokens_moves moves

/-- Wherever a statement is in a program, its place is from the first to the last of the tokens it
is read from, up to its semicolon if there is one. What the text has in that place is, alone, a
program of this statement, with the errors that were dropped in it. -/
theorem parse_excerpt (text : String) (s : Stmt) (has : (parse text).program.Has (.stmt s)) :
    ∃ w first last, ReadFrom (Token.ofText text) (parse text).errors w s ∧
      w.head? = some first ∧ w.getLast? = some last ∧
      s.span = ⟨first.span.start, last.span.stop⟩ ∧
      ∃ slice, (∀ part, s.span.Covers 0 text.toList part ↔ part = slice) ∧
        (parse (String.ofList slice)).program = ⟨[s.move (· - s.span.start)]⟩ ∧
        (∃ dropped, dropped ⊆ (parse text).errors ∧ (parse (String.ofList slice)).errors =
          dropped.map (ParseError.move (· - s.span.start))) ∧
        ((parse text).errors = [] → (parse (String.ofList slice)).errors = []) := by
  obtain ⟨ts, tokens, tiling⟩ := Token.exists_tiling_ofText text
  have parsed : parse text = parseTokens (ts ++ [.eof (byteLength text.toList)]) :=
    congrArg parseTokens tokens
  rw [parsed] at has
  obtain ⟨w, ⟨a, b, parts⟩, lies⟩ := exists_lies has
  rw [← parsed, ← tokens] at lies
  obtain ⟨first, -, hfirst, -⟩ := lies.exists_start
  obtain ⟨last, -, hlast, -⟩ := lies.exists_stop
  have noEnd : ∀ t ∈ w, t.kind ≠ .eof := fun t ht =>
    (tiling.of_mem (parts ▸ List.mem_append_left b (List.mem_append_right a ht))).1
  obtain ⟨dropped, sub, alone⟩ := ReadFrom.alone lies.info noEnd
  rw [← parts, List.append_assoc] at tiling
  obtain ⟨slice, covers, tiling'⟩ := tiling.exists_slice lies.ne_nil
  have span : s.span = Grammar.extent w := lies.span_eq
  have start : s.span.start = first.span.start := by simp [span, Grammar.extent, hfirst]
  have stop : s.span.stop = last.span.stop := by simp [span, Grammar.extent, hlast]
  rw [← span] at covers tiling'
  have ends : last.span.stop = s.span.start + byteLength slice := by
    obtain ⟨-, -, -, -, ends⟩ := covers
    rw [← stop, ends]
  obtain ⟨program, errors⟩ := parse_ofList tiling' hlast ends
  rw [alone] at program errors
  refine ⟨w, first, last, lies.info, hfirst, hlast, by rw [← start, ← stop], slice, ?_, program,
    ⟨dropped, sub, errors⟩, ?_⟩
  · intro part
    refine ⟨fun covers' => covers'.unique covers, ?_⟩
    rintro rfl
    exact covers
  · intro none
    rw [none] at sub
    rw [errors, List.subset_nil.1 sub, List.map_nil]

/-- A statement behind one that is wrong, in a block. -/
def faultyBody : String := "fn() \x7b ); return (1) + 2; \x7d"

theorem parse_excerpt_faultyBody :
    (parse faultyBody).errors ≠ [] ∧
      ∃ s, (parse faultyBody).program.Has (.stmt s) ∧ s.span = ⟨10, 25⟩ ∧
        (parse "return (1) + 2;").program = ⟨[s.move (· - 10)]⟩ := by
  have found : ((parse faultyBody).program.statements.head?.bind fun top =>
      (Node.stmt top).follow [0, 1, 1]).bind (fun m => match m with
        | .stmt s => some s.span
        | _ => none) = some ⟨10, 25⟩ := by
    decide +kernel
  obtain ⟨m, path, span⟩ := Option.bind_eq_some_iff.1 found
  obtain ⟨top, hfirst, path⟩ := Option.bind_eq_some_iff.1 path
  cases m with
  | stmt s =>
    have has : (parse faultyBody).program.Has (.stmt s) :=
      ⟨top, List.mem_of_mem_head? hfirst, Node.under_of_follow path⟩
    have span : s.span = ⟨10, 25⟩ := Option.some.inj span
    obtain ⟨w, first, last, -, -, -, -, slice, only, program, -⟩ := parse_excerpt faultyBody s has
    have covers : s.span.Covers 0 faultyBody.toList "return (1) + 2;".toList := by
      rw [span]
      exact ⟨"fn() \x7b ); ".toList, " \x7d".toList, by decide, by decide, by decide⟩
    rw [← (only _).1 covers, String.ofList_toList, span] at program
    exact ⟨by decide +kernel, s, has, span, program⟩
  | _ => cases span

end LetFn
