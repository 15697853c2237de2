import LetFn.Proofs.Parser.Prefix

/-! What reading a list of tokens can give at most. Each attempt to read a statement takes a token
of its own to begin with, and ends in a statement or in an error. So there are no more statements
and errors together, at all depths of blocks, than tokens. -/

namespace LetFn

/-! ### Statements at all depths -/

mutual

/-- The number of statements in the blocks of an expression, those within them included. -/
def Expr.inside : Expr → Nat
  | .ident _ | .int _ _ | .bool _ _ => 0
  | .unary _ _ operand _ => operand.inside
  | .binary _ left _ right _ => left.inside + right.inside
  | .cond _ test consequence alternative _ =>
    test.inside + consequence.inside + insideElse alternative
  | .fn _ _ body _ => body.inside
  | .call _ callee arguments _ => callee.inside + insideArguments arguments

def insideElse : Option Block → Nat
  | none => 0
  | some alternative => alternative.inside

def insideArguments : List Expr → Nat
  | [] => 0
  | e :: es => e.inside + insideArguments es

/-- The statement itself does not count. -/
def Stmt.inside : Stmt → Nat
  | .bind _ _ value _ | .ret _ value _ | .expr _ value _ => value.inside

def Block.inside : Block → Nat
  | .mk _ statements _ => insideBody statements

def insideBody : List Stmt → Nat
  | [] => 0
  | s :: ss => s.inside + 1 + insideBody ss

end

/-- All statements of a program, however deep in blocks they stand. -/
def Program.statementCount (p : Program) : Nat := insideBody p.statements

/-! ### Tokens left -/

namespace Cursor

variable {c : Cursor}

/-- How many tokens are left to read that are no end of input. -/
def live (c : Cursor) : Nat := c.tokens.countP fun t => t.kind ≠ .eof

theorem live_advance_le (c : Cursor) : c.advance.live ≤ c.live :=
  (List.tail_sublist c.tokens).countP_le

theorem live_advance_skipSemicolon_le (c : Cursor) :
    c.skipSemicolon.advance.live ≤ c.advance.live := by
  unfold skipSemicolon
  split
  · exact c.advance.live_advance_le
  · exact Nat.le_refl _

theorem live_eq_of_current (h : c.current.kind ≠ .eof) : c.live = c.advance.live + 1 := by
  obtain ⟨tokens, stop⟩ := c
  cases tokens with
  | nil => exact (h rfl).elim
  | cons t tokens => exact List.countP_cons_of_pos (by simpa [current_eq_headD] using h)

end Cursor

namespace Outcome

variable {α β : Type} {m : Nat} {k : α → Cursor → Nat} {o : Outcome α}

/-- What the result costs and the errors are not more than `m` together. A failing step has left the
tokens behind the one where it stopped. -/
def Costs (k : α → Cursor → Nat) (m : Nat) : Outcome α → Prop
  | ok value next dropped => k value next + dropped.length ≤ m
  | error _ next dropped => next.advance.live + dropped.length ≤ m
  | outOfFuel => True

namespace Costs

theorem mono {m' : Nat} (costs : o.Costs k m) (le : m ≤ m') : o.Costs k m' := by
  cases o with
  | ok | error => exact Nat.le_trans costs le
  | outOfFuel => trivial

theorem after (costs : o.Costs k m) (es : List ParseError) :
    (o.after es).Costs k (m + es.length) := by
  cases o with
  | ok value next dropped =>
    simp only [Costs] at costs
    simp only [Outcome.after, Costs, List.length_append]
    omega
  | error cause next dropped =>
    simp only [Costs] at costs
    simp only [Outcome.after, Costs, List.length_append]
    omega
  | outOfFuel => trivial

theorem bind {k' : β → Cursor → Nat} {f : α → Cursor → Outcome β} (first : o.Costs k m)
    (second : ∀ v c, (f v c).Costs k' (k v c)) : (o.bind f).Costs k' m := by
  cases o with
  | ok value next dropped => exact ((second value next).after dropped).mono first
  | error | outOfFuel => exact first

theorem map {k' : β → Cursor → Nat} {f : α → β} (costs : o.Costs k m)
    (le : ∀ v c, k' (f v) c ≤ k v c) : (o.map f).Costs k' m := by
  cases o with
  | ok value next dropped => exact Nat.le_trans (Nat.add_le_add_right (le value next) _) costs
  | error | outOfFuel => exact costs

/-- What has been read before is paid for in addition. -/
theorem add (n : Nat) (costs : o.Costs k m) : o.Costs (fun v c => n + k v c) (n + m) := by
  cases o with
  | ok value next dropped =>
    simp only [Costs] at costs ⊢
    omega
  | error cause next dropped =>
    simp only [Costs] at costs ⊢
    omega
  | outOfFuel => trivial

end Costs

end Outcome

theorem Cursor.expect_costs (c : Cursor) (kind : Kind) :
    (c.expect kind).Costs (fun _ c₁ => c₁.advance.live) c.advance.live := by
  unfold expect
  split
  · exact c.advance.live_advance_le
  · exact Nat.le_refl _

namespace Parser

open Outcome

/-- What an expression costs: the statements in it, and the tokens behind it. -/
def cost (e : Expr) (c : Cursor) : Nat := e.inside + c.advance.live

theorem integer_costs (c : Cursor) : (integer c).Costs cost c.advance.live := by
  unfold integer
  split
  · exact Nat.le_of_eq (Nat.zero_add _)
  · exact Nat.le_refl _

theorem parameters_costs (n : Nat) (c : Cursor) :
    (parameters n c).Costs (fun _ c₁ => c₁.advance.live) c.advance.live := by
  induction n generalizing c with
  | zero => trivial
  | succ n ih =>
    simp only [parameters]
    split
    · exact c.advance.live_advance_le
    refine (c.expect_costs .ident).bind fun name c₁ => ?_
    split
    · exact ((ih c₁.advance).map fun _ _ => Nat.le_refl _).mono c₁.advance.live_advance_le
    · exact (c₁.expect_costs .rparen).map fun _ _ => Nat.le_refl _

mutual

theorem expression_costs (n : Nat) (floor : Precedence) (c : Cursor) :
    (expression n floor c).Costs cost c.advance.live := by
  match n with
  | 0 => trivial
  | n + 1 =>
    simp only [expression]
    exact (operand_costs n c).bind fun left c₁ => climb_costs n floor left c₁
termination_by structural n

theorem operand_costs (n : Nat) (c : Cursor) : (operand n c).Costs cost c.advance.live := by
  match n with
  | 0 => trivial
  | n + 1 =>
    have advance := c.advance.live_advance_le
    simp only [operand]
    split
    case h_1 | h_3 | h_4 => exact Nat.le_of_eq (Nat.zero_add _)
    case h_2 => exact integer_costs c
    case h_5 | h_6 =>
      exact ((expression_costs n .unary c.advance).mono advance).bind fun right c₁ =>
        Nat.le_refl _
    case h_7 =>
      refine ((expression_costs n .lowest c.advance).mono advance).bind fun inner c₁ => ?_
      exact ((c₁.expect_costs .rparen).add inner.inside).map fun _ _ => Nat.le_refl _
    case h_8 => exact conditional_costs n c
    case h_9 => exact function_costs n c
    case h_10 => exact Nat.le_refl _
termination_by structural n

theorem climb_costs (n : Nat) (floor : Precedence) (left : Expr) (c : Cursor) :
    (climb n floor left c).Costs cost (cost left c) := by
  match n with
  | 0 => trivial
  | n + 1 =>
    have advance := c.advance.live_advance_le
    have advance₂ := c.advance.advance.live_advance_le
    simp only [climb]
    split
    · split
      · have args := ((arguments_costs n c.advance).add left.inside).mono
          (Nat.add_le_add_left advance _)
        refine args.bind fun args c₁ => ?_
        exact (climb_costs n floor _ c₁).mono (by simp [cost, Expr.inside, Nat.add_assoc])
      · have right := ((expression_costs n c.peekPrecedence c.advance.advance).add
          left.inside).mono (Nat.add_le_add_left (Nat.le_trans advance₂ advance) _)
        refine right.bind fun right c₁ => ?_
        exact (climb_costs n floor _ c₁).mono (by simp [cost, Expr.inside, Nat.add_assoc])
    · exact Nat.le_refl _
termination_by structural n

theorem arguments_costs (n : Nat) (c : Cursor) :
    (arguments n c).Costs (fun args c₁ => insideArguments args + c₁.advance.live)
      c.advance.live := by
  match n with
  | 0 => trivial
  | n + 1 =>
    have advance := c.advance.live_advance_le
    simp only [arguments]
    split
    · simpa [Costs, insideArguments] using advance
    refine ((expression_costs n .lowest c.advance).mono advance).bind fun first c₁ => ?_
    split
    · refine Costs.mono (((arguments_costs n c₁.advance).add first.inside).map fun args c₂ => ?_)
        (Nat.add_le_add_left c₁.advance.live_advance_le _)
      simp [insideArguments, Nat.add_assoc]
    · refine ((c₁.expect_costs .rparen).add first.inside).map fun _ c₂ => ?_
      simp [insideArguments]
termination_by structural n

theorem conditional_costs (n : Nat) (c : Cursor) :
    (conditional n c).Costs cost c.advance.live := by
  match n with
  | 0 => trivial
  | n + 1 =>
    simp only [conditional]
    refine (c.expect_costs .lparen).bind fun _ c₁ => ?_
    refine ((expression_costs n .lowest c₁.advance).mono c₁.advance.live_advance_le).bind
      fun test c₂ => ?_
    refine ((c₂.expect_costs .rparen).add test.inside).bind fun _ c₃ => ?_
    refine ((c₃.expect_costs .lbrace).add test.inside).bind fun _ c₄ => ?_
    refine ((block_costs n c₄).add test.inside).bind fun consequence c₅ => ?_
    rw [← Nat.add_assoc]
    split
    · have other := ((c₅.advance.expect_costs .lbrace).add
        (test.inside + consequence.inside)).mono
          (Nat.add_le_add_left c₅.advance.live_advance_le _)
      refine other.bind fun _ c₆ => ?_
      refine ((block_costs n c₆).add (test.inside + consequence.inside)).map
        fun alternative c₇ => ?_
      simp [cost, Expr.inside, insideElse, Nat.add_assoc]
    · simp [Costs, cost, Expr.inside, insideElse]
termination_by structural n

theorem function_costs (n : Nat) (c : Cursor) : (function n c).Costs cost c.advance.live := by
  match n with
  | 0 => trivial
  | n + 1 =>
    simp only [function]
    refine (c.expect_costs .lparen).bind fun _ c₁ => ?_
    refine (parameters_costs n c₁).bind fun params c₂ => ?_
    refine (c₂.expect_costs .lbrace).bind fun _ c₃ => ?_
    exact (block_costs n c₃).map fun body c₄ => by simp [cost, Expr.inside]
termination_by structural n

theorem block_costs (n : Nat) (c : Cursor) :
    (block n c).Costs (fun b c₁ => b.inside + c₁.advance.live) c.advance.live := by
  match n with
  | 0 => trivial
  | n + 1 =>
    simp only [block]
    refine (statements_costs n (fun kind => kind = .rbrace || kind = .eof) rfl
      c.advance).bind fun body c₁ => ?_
    have advance := c₁.live_advance_le
    split
    · simp only [Costs, List.length_nil]
      omega
    · simpa [Costs, Block.inside] using advance
termination_by structural n

theorem statements_costs (n : Nat) (closes : Kind → Bool) (he : closes .eof = true) (c : Cursor) :
    (statements n closes c).Costs (fun ss c₁ => insideBody ss + c₁.live) c.live := by
  match n with
  | 0 => trivial
  | n + 1 =>
    rw [statements_succ]
    split
    · simp [Costs, insideBody]
    next opens =>
    -- The token that a statement begins with pays for it, or for its error.
    have begins : c.live = c.advance.live + 1 :=
      Cursor.live_eq_of_current fun h => opens (h ▸ he)
    have first := statement_costs n c
    cases h : statement n c with
    | ok s c₁ dropped =>
      rw [h] at first
      have first : s.inside + c₁.advance.live + dropped.length ≤ c.advance.live := first
      have rest : ((statements n closes c₁.advance).map (s :: ·)).Costs
          (fun ss c₁ => insideBody ss + c₁.live) (s.inside + 1 + c₁.advance.live) :=
        ((statements_costs n closes he c₁.advance).add (s.inside + 1)).map fun ss c₂ => by
          simp [insideBody, Nat.add_assoc]
      exact (rest.after dropped).mono (by omega)
    | error cause c₁ dropped =>
      rw [h] at first
      have first : c₁.advance.live + dropped.length ≤ c.advance.live := first
      have skip := c₁.live_advance_skipSemicolon_le
      refine ((statements_costs n closes he c₁.skipSemicolon.advance).after
        (dropped ++ [cause])).mono ?_
      rw [List.length_append, List.length_singleton]
      omega
    | outOfFuel => trivial
termination_by structural n

theorem statement_costs (n : Nat) (c : Cursor) :
    (statement n c).Costs (fun s c₁ => s.inside + c₁.advance.live) c.advance.live := by
  match n with
  | 0 => trivial
  | n + 1 =>
    simp only [statement]
    split
    · exact binding_costs n c
    · exact ret_costs n c
    · exact expressionStatement_costs n c
termination_by structural n

theorem binding_costs (n : Nat) (c : Cursor) :
    (binding n c).Costs (fun s c₁ => s.inside + c₁.advance.live) c.advance.live := by
  match n with
  | 0 => trivial
  | n + 1 =>
    simp only [binding]
    refine (c.expect_costs .ident).bind fun name c₁ => ?_
    refine (c₁.expect_costs .assign).bind fun _ c₂ => ?_
    refine ((expression_costs n .lowest c₂.advance).mono c₂.advance.live_advance_le).bind
      fun value c₃ => ?_
    exact Nat.add_le_add_left c₃.live_advance_skipSemicolon_le _
termination_by structural n

theorem ret_costs (n : Nat) (c : Cursor) :
    (ret n c).Costs (fun s c₁ => s.inside + c₁.advance.live) c.advance.live := by
  match n with
  | 0 => trivial
  | n + 1 =>
    simp only [ret]
    refine ((expression_costs n .lowest c.advance).mono c.advance.live_advance_le).bind
      fun value c₁ => ?_
    exact Nat.add_le_add_left c₁.live_advance_skipSemicolon_le _
termination_by structural n

theorem expressionStatement_costs (n : Nat) (c : Cursor) :
    (expressionStatement n c).Costs (fun s c₁ => s.inside + c₁.advance.live) c.advance.live := by
  match n with
  | 0 => trivial
  | n + 1 =>
    simp only [expressionStatement]
    refine (expression_costs n .lowest c).bind fun value c₁ => ?_
    exact Nat.add_le_add_left c₁.live_advance_skipSemicolon_le _
termination_by structural n

end

end Parser

/-- Reading any list of tokens comes to an end, and more depth of calls than eight for each token
and eight more changes nothing. The statements it gives, at all depths, and the errors are no more
than the tokens that are no end of input. -/
theorem parseTokens_statementCount_le (tokens : List Token) :
    (∃ ss c es, parseTokens tokens = ⟨⟨ss⟩, es⟩ ∧ ∀ n, 8 * (tokens.length + 1) ≤ n →
      Parser.statements n (· = .eof) (.ofTokens tokens) = .ok ss c es) ∧
    (parseTokens tokens).program.statementCount + (parseTokens tokens).errors.length ≤
      tokens.countP fun t => t.kind ≠ .eof := by
  obtain ⟨ss, c, es, run⟩ := Parser.exists_program_eq_ok (.ofTokens tokens)
  have parsed := Parser.parseTokens_eq_of_statements run
  have costs := Parser.statements_costs (Parser.fuel (.ofTokens tokens))
    (fun kind => kind = .eof) rfl (.ofTokens tokens)
  rw [← Parser.program, run] at costs
  have costs : insideBody ss + c.live + es.length ≤ (Cursor.ofTokens tokens).live := costs
  refine ⟨⟨ss, c, es, parsed, fun n enough => ?_⟩, ?_⟩
  · have same := Parser.statements_below (n := Parser.fuel (.ofTokens tokens)) enough
      (fun kind => kind = .eof) (.ofTokens tokens)
    rw [← Parser.program, run] at same
    exact (same.eq (by simp)).symm
  · rw [parsed]
    exact Nat.le_trans (by simp only [Program.statementCount]; omega) costs

-- Each of these tokens is a statement of its own or an error.
example : ((parse "a ) b").program.statementCount, (parse "a ) b").errors.length) = (2, 1) := by
  decide +kernel

end LetFn
