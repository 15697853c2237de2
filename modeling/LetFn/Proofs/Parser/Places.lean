import LetFn.Proofs.Parser.Prefix
import LetFn.Proofs.Program.Places

/-! Reading does not depend on where the tokens are, nor on what they are taken from: moved tokens
make the same program and the same errors, moved alike. -/

namespace LetFn

variable {φ : Nat → Nat} {σ τ : Type} {R : Cursor σ → Cursor τ → Prop}

namespace Cursor

variable [TokenSource σ] [TokenSource τ]

/-- Of two related places the second shows what the first does, moved, and the places behind them
are related again. The two may read from different sources. -/
structure Follows (φ : Nat → Nat) (R : Cursor σ → Cursor τ → Prop) : Prop where
  current {c : Cursor σ} {c' : Cursor τ} : R c c' → c'.current = c.current.move φ
  advance {c : Cursor σ} {c' : Cursor τ} : R c c' → R c.advance c'.advance

namespace Follows

variable {c : Cursor σ} {c' : Cursor τ}

theorem peek (follows : Follows φ R) (h : R c c') : c'.peek = c.peek.move φ :=
  follows.current (follows.advance h)

theorem peekIs (follows : Follows φ R) (h : R c c') (kind : Kind) :
    c'.peekIs kind = c.peekIs kind := by
  rw [Cursor.peekIs, Cursor.peekIs, follows.peek h, Token.kind_move]

theorem peekPrecedence (follows : Follows φ R) (h : R c c') :
    c'.peekPrecedence = c.peekPrecedence := by
  rw [Cursor.peekPrecedence, Cursor.peekPrecedence, follows.peek h, Token.kind_move]

theorem skipSemicolon (follows : Follows φ R) (h : R c c') :
    R c.skipSemicolon c'.skipSemicolon := by
  rw [Cursor.skipSemicolon, Cursor.skipSemicolon, follows.peekIs h]
  split
  · exact follows.advance h
  · exact h

end Follows

/-- The token that `i` others stand in front of. -/
def token : Cursor σ → Nat → Token
  | c, 0 => c.current
  | c, i + 1 => token c.advance i

theorem token_eq_getD (c : Cursor) (i : Nat) : c.token i = c.tokens.getD i (.eof c.stop) := by
  induction i generalizing c with
  | zero => cases h : c.tokens <;> simp [token, current_eq_headD, h]
  | succ i ih => cases h : c.tokens <;> simp [token, ih, h]

/-- `c'` shows what `c` does, moved. Where the end tokens behind a list begin does not matter. -/
def Moves (φ : Nat → Nat) (c : Cursor σ) (c' : Cursor τ) : Prop :=
  ∀ i, c'.token i = (c.token i).move φ

theorem moves_follows : Follows φ (Moves φ : Cursor σ → Cursor τ → Prop) where
  current h := h 0
  advance h i := h (i + 1)

end Cursor

namespace Outcome

variable {α β : Type} {g : α → α} {k : β → β} {o : Outcome α σ} {o' : Outcome α τ}

/-- `o'` ends as `o` does, with all that it holds moved; `g` moves results. -/
inductive Moves (φ : Nat → Nat) (R : Cursor σ → Cursor τ → Prop) (g : α → α) :
    Outcome α σ → Outcome α τ → Prop
  | ok (value : α) {c : Cursor σ} {c' : Cursor τ} (es : List ParseError) : R c c' →
      Moves φ R g (ok value c es) (ok (g value) c' (es.map (ParseError.move φ)))
  | error (cause : ParseError) {c : Cursor σ} {c' : Cursor τ} (es : List ParseError) : R c c' →
      Moves φ R g (error cause c es) (error (cause.move φ) c' (es.map (ParseError.move φ)))
  | outOfFuel : Moves φ R g outOfFuel outOfFuel

namespace Moves

theorem result {v v' : α} {c : Cursor σ} {c' : Cursor τ} (hv : v' = g v) (h : R c c') :
    (Outcome.ok v c []).Moves φ R g (Outcome.ok v' c' []) :=
  hv ▸ .ok v [] h

theorem failure {cause cause' : ParseError} {c : Cursor σ} {c' : Cursor τ}
    (hc : cause' = cause.move φ) (h : R c c') :
    (Outcome.error cause c []).Moves φ R g (Outcome.error cause' c' []) :=
  hc ▸ .error cause [] h

theorem after (h : o.Moves φ R g o') (es : List ParseError) :
    (o.after es).Moves φ R g (o'.after (es.map (ParseError.move φ))) := by
  cases h with
  | ok v fs h =>
    simp only [Outcome.after, ← List.map_append]
    exact .ok v (es ++ fs) h
  | error cause fs h =>
    simp only [Outcome.after, ← List.map_append]
    exact .error cause (es ++ fs) h
  | outOfFuel => exact .outOfFuel

theorem bind {f : α → Cursor σ → Outcome β σ} {f' : α → Cursor τ → Outcome β τ}
    (h : o.Moves φ R g o') (hf : ∀ v c c', R c c' → (f v c).Moves φ R k (f' (g v) c')) :
    (o.bind f).Moves φ R k (o'.bind f') := by
  cases h with
  | ok v es h => exact (hf v _ _ h).after es
  | error cause es h => exact .error cause es h
  | outOfFuel => exact .outOfFuel

theorem map {f f' : α → β} (h : o.Moves φ R g o') (hf : ∀ v, f' (g v) = k (f v)) :
    (o.map f).Moves φ R k (o'.map f') := by
  cases h with
  | ok v es h =>
    simp only [Outcome.map, hf]
    exact .ok (f v) es h
  | error cause es h => exact .error cause es h
  | outOfFuel => exact .outOfFuel

theorem thenRest [TokenSource σ] [TokenSource τ] (follows : Cursor.Follows φ R)
    {rest : Cursor σ → Outcome (List Stmt) σ} {rest' : Cursor τ → Outcome (List Stmt) τ}
    {o : Outcome Stmt σ} {o' : Outcome Stmt τ}
    (h : o.Moves φ R (Stmt.move φ) o')
    (hrest : ∀ c c', R c c' → (rest c).Moves φ R (List.map (Stmt.move φ)) (rest' c')) :
    (o.thenRest rest).Moves φ R (List.map (Stmt.move φ)) (o'.thenRest rest') := by
  cases h with
  | ok s es h =>
    refine Moves.after ?_ es
    exact (hrest _ _ (follows.advance h)).map fun _ => rfl
  | error cause es h =>
    have rest := (hrest _ _ (follows.advance (follows.skipSemicolon h))).after (es ++ [cause])
    rwa [List.map_append] at rest
  | outOfFuel => exact .outOfFuel

end Moves

end Outcome

namespace Cursor

theorem Follows.expect [TokenSource σ] [TokenSource τ] (follows : Follows φ R) {c : Cursor σ}
    {c' : Cursor τ} (h : R c c') (kind : Kind) :
    (c.expect kind).Moves φ R (Token.move φ) (c'.expect kind) := by
  unfold Cursor.expect
  rw [follows.peekIs h, follows.peek h]
  split
  · exact .result rfl (follows.advance h)
  · exact .failure rfl h

end Cursor

namespace Parser

open Outcome Cursor

variable [TokenSource σ] [TokenSource τ] (follows : Follows φ R) {c : Cursor σ} {c' : Cursor τ}

include follows

theorem integer_moves (h : R c c') : (integer c).Moves φ R (Expr.move φ) (integer c') := by
  unfold integer
  rw [follows.current h, Token.literal_move]
  split
  · exact .result rfl h
  · exact .failure rfl h

theorem parameters_moves (n : Nat) (h : R c c') :
    (parameters n c).Moves φ R (List.map (Ident.move φ)) (parameters n c') := by
  induction n generalizing c c' with
  | zero => exact .outOfFuel
  | succ n ih =>
    simp only [parameters]
    rw [follows.peekIs h]
    split
    · exact .result rfl (follows.advance h)
    refine (follows.expect h .ident).bind fun name c c' h => ?_
    rw [follows.peekIs h]
    split
    · exact (ih (follows.advance h)).map fun _ => rfl
    · exact (follows.expect h .rparen).map fun _ => rfl

set_option linter.unusedSectionVars false in
mutual

theorem expression_moves (n : Nat) (floor : Precedence) {c : Cursor σ} {c' : Cursor τ}
    (h : R c c') :
    (expression n floor c).Moves φ R (Expr.move φ) (expression n floor c') := by
  match n with
  | 0 => exact .outOfFuel
  | n + 1 =>
    simp only [expression]
    exact (operand_moves n h).bind fun left c c' h => climb_moves n floor left h
termination_by structural n

theorem operand_moves (n : Nat) {c : Cursor σ} {c' : Cursor τ} (h : R c c') :
    (operand n c).Moves φ R (Expr.move φ) (operand n c') := by
  match n with
  | 0 => exact .outOfFuel
  | n + 1 =>
    simp only [operand]
    rw [follows.current h, Token.kind_move]
    split
    case h_1 | h_3 | h_4 => exact .result rfl h
    case h_2 => exact integer_moves follows h
    case h_5 | h_6 =>
      refine (expression_moves n .unary (follows.advance h)).bind fun right c c' h => .result ?_ h
      rw [Expr.span_move]
      rfl
    case h_7 =>
      exact (expression_moves n .lowest (follows.advance h)).bind fun inner c c' h =>
        (follows.expect h .rparen).map fun _ => rfl
    case h_8 => exact conditional_moves n h
    case h_9 => exact function_moves n h
    case h_10 => exact .failure rfl h
termination_by structural n

theorem climb_moves (n : Nat) (floor : Precedence) (left : Expr) {c : Cursor σ} {c' : Cursor τ}
    (h : R c c') :
    (climb n floor left c).Moves φ R (Expr.move φ) (climb n floor (left.move φ) c') := by
  match n with
  | 0 => exact .outOfFuel
  | n + 1 =>
    simp only [climb]
    rw [follows.peekPrecedence h, follows.peek h, Token.kind_move]
    split
    · split
      · refine (arguments_moves n (follows.advance h)).bind fun args c₁ c₁' h => ?_
        have rest := climb_moves n floor
          (.call c.peek left args ⟨left.span.start, c₁.current.span.stop⟩) h
        simp only [Expr.relabel, relabelArguments_eq_map] at rest
        rwa [follows.current h, Expr.span_move]
      · have behind := follows.advance (follows.advance h)
        refine (expression_moves n _ behind).bind fun right c₁ c₁' h => ?_
        have rest := climb_moves n floor
          (.binary c.peek left c.peek.literal right ⟨left.span.start, right.span.stop⟩) h
        rwa [Expr.span_move, Expr.span_move]
    · exact .result rfl h
termination_by structural n

theorem arguments_moves (n : Nat) {c : Cursor σ} {c' : Cursor τ} (h : R c c') :
    (arguments n c).Moves φ R (List.map (Expr.move φ)) (arguments n c') := by
  match n with
  | 0 => exact .outOfFuel
  | n + 1 =>
    simp only [arguments]
    rw [follows.peekIs h]
    split
    · exact .result rfl (follows.advance h)
    refine (expression_moves n .lowest (follows.advance h)).bind fun first c c' h => ?_
    rw [follows.peekIs h]
    split
    · exact (arguments_moves n (follows.advance h)).map fun _ => rfl
    · exact (follows.expect h .rparen).map fun _ => rfl
termination_by structural n

theorem conditional_moves (n : Nat) {c : Cursor σ} {c' : Cursor τ} (h : R c c') :
    (conditional n c).Moves φ R (Expr.move φ) (conditional n c') := by
  match n with
  | 0 => exact .outOfFuel
  | n + 1 =>
    have token := follows.current h
    simp only [conditional]
    refine (follows.expect h .lparen).bind fun _ c c' h => ?_
    refine (expression_moves n .lowest (follows.advance h)).bind fun test c c' h => ?_
    refine (follows.expect h .rparen).bind fun _ c c' h => ?_
    refine (follows.expect h .lbrace).bind fun _ c c' h => ?_
    refine (block_moves n h).bind fun consequence c c' h => ?_
    rw [follows.peekIs h, token]
    split
    · refine (follows.expect (follows.advance h) .lbrace).bind fun _ c c' h => ?_
      refine (block_moves n h).map fun alternative => ?_
      rw [Block.span_move]
      rfl
    · refine .result ?_ h
      rw [Block.span_move]
      rfl
termination_by structural n

theorem function_moves (n : Nat) {c : Cursor σ} {c' : Cursor τ} (h : R c c') :
    (function n c).Moves φ R (Expr.move φ) (function n c') := by
  match n with
  | 0 => exact .outOfFuel
  | n + 1 =>
    have token := follows.current h
    simp only [function]
    refine (follows.expect h .lparen).bind fun _ c c' h => ?_
    refine (parameters_moves follows n h).bind fun params c c' h => ?_
    refine (follows.expect h .lbrace).bind fun _ c c' h => (block_moves n h).map fun body => ?_
    rw [Block.span_move, token]
    rfl
termination_by structural n

theorem block_moves (n : Nat) {c : Cursor σ} {c' : Cursor τ} (h : R c c') :
    (block n c).Moves φ R (Block.move φ) (block n c') := by
  match n with
  | 0 => exact .outOfFuel
  | n + 1 =>
    have token := follows.current h
    simp only [block]
    refine (statements_moves n _ (follows.advance h)).bind fun body c c' h => ?_
    rw [follows.current h, Token.kind_move, token]
    split
    · exact .failure rfl h
    · refine .result ?_ h
      simp only [Block.relabel, relabelBody_eq_map]
      rfl
termination_by structural n

theorem statements_moves (n : Nat) (closes : Kind → Bool) {c : Cursor σ} {c' : Cursor τ}
    (h : R c c') :
    (statements n closes c).Moves φ R (List.map (Stmt.move φ)) (statements n closes c') := by
  match n with
  | 0 => exact .outOfFuel
  | n + 1 =>
    rw [statements_succ, statements_succ, follows.current h, Token.kind_move]
    split
    · exact .result rfl h
    · exact (statement_moves n h).thenRest follows fun c c' h => statements_moves n closes h
termination_by structural n

theorem statement_moves (n : Nat) {c : Cursor σ} {c' : Cursor τ} (h : R c c') :
    (statement n c).Moves φ R (Stmt.move φ) (statement n c') := by
  match n with
  | 0 => exact .outOfFuel
  | n + 1 =>
    simp only [statement]
    rw [follows.current h, Token.kind_move]
    split
    · exact binding_moves n h
    · exact ret_moves n h
    · exact expressionStatement_moves n h
termination_by structural n

theorem binding_moves (n : Nat) {c : Cursor σ} {c' : Cursor τ} (h : R c c') :
    (binding n c).Moves φ R (Stmt.move φ) (binding n c') := by
  match n with
  | 0 => exact .outOfFuel
  | n + 1 =>
    have token := follows.current h
    simp only [binding]
    refine (follows.expect h .ident).bind fun name c c' h => ?_
    refine (follows.expect h .assign).bind fun _ c c' h => ?_
    refine (expression_moves n .lowest (follows.advance h)).bind fun value c c' h => ?_
    refine .result ?_ (follows.skipSemicolon h)
    rw [follows.current (follows.skipSemicolon h), token]
    rfl
termination_by structural n

theorem ret_moves (n : Nat) {c : Cursor σ} {c' : Cursor τ} (h : R c c') :
    (ret n c).Moves φ R (Stmt.move φ) (ret n c') := by
  match n with
  | 0 => exact .outOfFuel
  | n + 1 =>
    have token := follows.current h
    simp only [ret]
    refine (expression_moves n .lowest (follows.advance h)).bind fun value c c' h => ?_
    refine .result ?_ (follows.skipSemicolon h)
    rw [follows.current (follows.skipSemicolon h), token]
    rfl
termination_by structural n

theorem expressionStatement_moves (n : Nat) {c : Cursor σ} {c' : Cursor τ} (h : R c c') :
    (expressionStatement n c).Moves φ R (Stmt.move φ) (expressionStatement n c') := by
  match n with
  | 0 => exact .outOfFuel
  | n + 1 =>
    have token := follows.current h
    simp only [expressionStatement]
    refine (expression_moves n .lowest h).bind fun value c c' h => ?_
    refine .result ?_ (follows.skipSemicolon h)
    rw [follows.current (follows.skipSemicolon h), token]
    rfl
termination_by structural n

end

end Parser

/-! ### Programs -/

namespace Cursor

/-- A list ends where its last token does, unless it is empty. -/
theorem ofTokens_moves {s : List Token} (h : s = [] → φ 0 = 0) :
    (ofTokens s).Moves φ (ofTokens (s.map (Token.move φ))) := by
  have stop : (ofTokens (s.map (Token.move φ))).stop = φ (ofTokens s).stop := by
    simp only [ofTokens, List.getLast?_map]
    cases hs : s.getLast? with
    | none => exact (h (List.getLast?_eq_none_iff.1 hs)).symm
    | some last => rfl
  intro i
  rw [token_eq_getD, token_eq_getD, stop]
  simp only [ofTokens, tokens_mk, List.getD_eq_getElem?_getD, List.getElem?_map]
  cases s[i]? <;> rfl

theorem getD_concat {α : Type} (l : List α) (a : α) (i : Nat) :
    (l ++ [a]).getD i a = l.getD i a := by
  induction l generalizing i with
  | nil => cases i <;> rfl
  | cons b l ih =>
    cases i with
    | zero => rfl
    | succ i => exact ih i

/-- End tokens follow the list anyway. -/
theorem token_concat_eof (w : List Token) (stop i : Nat) :
    (⟨w ++ [.eof stop], stop⟩ : Cursor).token i = (⟨w, stop⟩ : Cursor).token i := by
  rw [token_eq_getD, token_eq_getD]
  exact getD_concat w (.eof stop) i

/-- A list whose end is marked ends there. -/
theorem ofTokens_concat_eof (w : List Token) (stop : Nat) :
    ofTokens (w ++ [.eof stop]) = ⟨w ++ [.eof stop], stop⟩ := by
  simp [ofTokens, Token.eof, Span.point]

theorem Moves.concat_eof {s s' : List Token} (h : (ofTokens s).Moves φ (ofTokens s')) :
    (ofTokens s).Moves φ (ofTokens (s' ++ [.eof (ofTokens s').stop])) := by
  intro i
  rw [ofTokens_concat_eof, token_concat_eof]
  exact h i

theorem word_token (c : Cursor) (i : Nat) :
    (c.token i).word = (c.tokens.map Token.word).getD i (.eof, "") := by
  simp only [token_eq_getD, List.getD_eq_getElem?_getD, List.getElem?_map]
  cases c.tokens[i]? <;> rfl

end Cursor

/-- Reading from related places gives the same program and the same errors, moved, and ends in
related places. -/
theorem Parser.read_moves [TokenSource σ] [TokenSource τ] (follows : Cursor.Follows φ R)
    {c : Cursor σ} {c' : Cursor τ} (h : R c c') :
    (read c').1.program = (read c).1.program.move φ ∧
      (read c').1.errors = (read c).1.errors.map (ParseError.move φ) ∧
      R (read c).2 (read c').2 := by
  obtain ⟨ss, d, es, hp⟩ := exists_program_eq_ok c
  obtain ⟨ss', d', es', hp'⟩ := exists_program_eq_ok c'
  have moves := statements_moves follows (fuel c) (· = .eof) h
  rw [← program, hp] at moves
  generalize ho : statements (fuel c) (· = .eof) c' = o at moves
  cases moves with
  | ok _ _ h =>
    -- The sources may be of different sizes, and so are not given the same fuel.
    have ends : program c' ≠ .outOfFuel := by simp [hp']
    have same : program c' = statements (fuel c) (· = .eof) c' :=
      statements_eq_of_ne ends (by simp [ho])
    rw [read_eq hp, read_eq (same.trans ho)]
    exact ⟨rfl, rfl, h⟩

/-- If `s'` shows what `s` does, moved, then so do its program and its errors. -/
theorem parseTokens_moves {s s' : List Token} (h : (Cursor.ofTokens s).Moves φ (.ofTokens s')) :
    (parseTokens s').program = (parseTokens s).program.move φ ∧
      (parseTokens s').errors = (parseTokens s).errors.map (ParseError.move φ) := by
  obtain ⟨program, errors, -⟩ := Parser.read_moves Cursor.moves_follows h
  exact ⟨program, errors⟩

/-- Tokens of the same kinds with the same literals make the same program and the same errors,
wherever they are. -/
theorem parseTokens_placeless {s s' : List Token}
    (h : ∀ i, ((Cursor.ofTokens s).token i).word = ((Cursor.ofTokens s').token i).word) :
    (parseTokens s).program.placeless = (parseTokens s').program.placeless ∧
      (parseTokens s).errors.map ParseError.placeless =
        (parseTokens s').errors.map ParseError.placeless := by
  have moved : (Cursor.ofTokens s).Moves (fun _ => 0) (.ofTokens (s.map Token.placeless)) :=
    Cursor.ofTokens_moves fun _ => rfl
  have moved' : (Cursor.ofTokens s').Moves (fun _ => 0) (.ofTokens (s.map Token.placeless)) := by
    intro i
    rw [moved i]
    exact Token.placeless_eq_iff.2 (h i)
  obtain ⟨program, errors⟩ := parseTokens_moves moved
  obtain ⟨program', errors'⟩ := parseTokens_moves moved'
  exact ⟨program.symm.trans program', errors.symm.trans errors'⟩

end LetFn
