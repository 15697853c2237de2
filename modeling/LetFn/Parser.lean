import LetFn.Decimal
import LetFn.Parser.Outcome

/-! Reading programs.

Expressions are read by precedence climbing. A statement that cannot be read is dropped, and
reading goes on behind the place where it failed. Every function takes fuel for the depth of its
calls; `fuel` gives enough of it. -/

namespace LetFn.Parser

variable {σ : Type} [TokenSource σ]

/-- The value of an integer token. -/
def integer (c : Cursor σ) : Outcome Expr σ :=
  match Decimal.toInt64? c.current.literal.toList with
  | some value => .ok (.int c.current value) c []
  | none => .error ⟨.integerRange c.current.literal, c.current.span⟩ c []

/-- Parameter names up to the closing parenthesis, from the opening one or a comma. -/
def parameters : Nat → Cursor σ → Outcome (List Ident) σ
  | 0, _ => .outOfFuel
  | n + 1, c =>
    if c.peekIs .rparen then .ok [] c.advance []
    else
      (c.expect .ident).bind fun name c =>
      if c.peekIs .comma then (parameters n c.advance).map (⟨name, name.literal⟩ :: ·)
      else (c.expect .rparen).map fun _ => [⟨name, name.literal⟩]

mutual

/-- An expression, up to the first operator that binds no tighter than `floor`. -/
def expression : Nat → Precedence → Cursor σ → Outcome Expr σ
  | 0, _, _ => .outOfFuel
  | n + 1, floor, c => (operand n c).bind fun left c => climb n floor left c

/-- The longest expression that no infix operator is needed for. -/
def operand : Nat → Cursor σ → Outcome Expr σ
  | 0, _ => .outOfFuel
  | n + 1, c =>
    match c.current.kind with
    | .ident => .ok (.ident ⟨c.current, c.current.literal⟩) c []
    | .int => integer c
    | .trueWord => .ok (.bool c.current true) c []
    | .falseWord => .ok (.bool c.current false) c []
    | .bang | .minus =>
      (expression n .unary c.advance).bind fun right c' =>
      .ok (.unary c.current c.current.literal right ⟨c.current.span.start, right.span.stop⟩) c' []
    | .lparen =>
      (expression n .lowest c.advance).bind fun inner c =>
      (c.expect .rparen).map fun _ => inner
    | .ifWord => conditional n c
    | .fnWord => function n c
    | kind => .error ⟨.notAnExpression kind, c.current.span⟩ c []

/-- Extends `left` by the operators and calls that bind tighter than `floor`. -/
def climb : Nat → Precedence → Expr → Cursor σ → Outcome Expr σ
  | 0, _, _, _ => .outOfFuel
  | n + 1, floor, left, c =>
    if floor < c.peekPrecedence then
      let token := c.peek
      if token.kind = .lparen then
        (arguments n c.advance).bind fun args c =>
        climb n floor (.call token left args ⟨left.span.start, c.current.span.stop⟩) c
      else
        (expression n c.peekPrecedence c.advance.advance).bind fun right c =>
        climb n floor
          (.binary token left token.literal right ⟨left.span.start, right.span.stop⟩) c
    else .ok left c []

/-- Arguments up to the closing parenthesis, from the opening one or a comma. -/
def arguments : Nat → Cursor σ → Outcome (List Expr) σ
  | 0, _ => .outOfFuel
  | n + 1, c =>
    if c.peekIs .rparen then .ok [] c.advance []
    else
      (expression n .lowest c.advance).bind fun first c =>
      if c.peekIs .comma then (arguments n c.advance).map (first :: ·)
      else (c.expect .rparen).map fun _ => [first]

/-- From the word `if` to the end of its last block. -/
def conditional : Nat → Cursor σ → Outcome Expr σ
  | 0, _ => .outOfFuel
  | n + 1, c =>
    let token := c.current
    (c.expect .lparen).bind fun _ c =>
    (expression n .lowest c.advance).bind fun test c =>
    (c.expect .rparen).bind fun _ c =>
    (c.expect .lbrace).bind fun _ c =>
    (block n c).bind fun consequence c =>
    if c.peekIs .elseWord then
      (c.advance.expect .lbrace).bind fun _ c =>
      (block n c).map fun alternative =>
        .cond token test consequence (some alternative) ⟨token.span.start, alternative.span.stop⟩
    else
      .ok (.cond token test consequence none ⟨token.span.start, consequence.span.stop⟩) c []

/-- From the word `fn` to the end of the body. -/
def function : Nat → Cursor σ → Outcome Expr σ
  | 0, _ => .outOfFuel
  | n + 1, c =>
    let token := c.current
    (c.expect .lparen).bind fun _ c =>
    (parameters n c).bind fun params c =>
    (c.expect .lbrace).bind fun _ c =>
    (block n c).map fun body => .fn token params body ⟨token.span.start, body.span.stop⟩

/-- The statements behind the current token, and the brace that closes them. -/
def block : Nat → Cursor σ → Outcome Block σ
  | 0, _ => .outOfFuel
  | n + 1, c =>
    let token := c.current
    (statements n (fun kind => kind = .rbrace || kind = .eof) c.advance).bind fun body c =>
    if c.current.kind = .eof then .error (Cursor.unexpected .rbrace c.current) c []
    else .ok (.mk token body ⟨token.span.start, c.current.span.stop⟩) c []

/-- Statements up to a token that closes the list; those that fail are dropped. -/
def statements : Nat → (closes : Kind → Bool) → Cursor σ → Outcome (List Stmt) σ
  | 0, _, _ => .outOfFuel
  | n + 1, closes, c =>
    if closes c.current.kind then .ok [] c []
    else
      match statement n c with
      | .ok first c dropped => ((statements n closes c.advance).map (first :: ·)).after dropped
      | .error cause c dropped =>
        (statements n closes c.skipSemicolon.advance).after (dropped ++ [cause])
      | .outOfFuel => .outOfFuel

def statement : Nat → Cursor σ → Outcome Stmt σ
  | 0, _ => .outOfFuel
  | n + 1, c =>
    match c.current.kind with
    | .letWord => binding n c
    | .returnWord => ret n c
    | _ => expressionStatement n c

/-- A name, an equals sign and a value behind the current token. -/
def binding : Nat → Cursor σ → Outcome Stmt σ
  | 0, _ => .outOfFuel
  | n + 1, c =>
    let token := c.current
    (c.expect .ident).bind fun name c =>
    (c.expect .assign).bind fun _ c =>
    (expression n .lowest c.advance).bind fun value c =>
    let c := c.skipSemicolon
    .ok (.bind token ⟨name, name.literal⟩ value ⟨token.span.start, c.current.span.stop⟩) c []

/-- A value behind the current token. -/
def ret : Nat → Cursor σ → Outcome Stmt σ
  | 0, _ => .outOfFuel
  | n + 1, c =>
    let token := c.current
    (expression n .lowest c.advance).bind fun value c =>
    let c := c.skipSemicolon
    .ok (.ret token value ⟨token.span.start, c.current.span.stop⟩) c []

def expressionStatement : Nat → Cursor σ → Outcome Stmt σ
  | 0, _ => .outOfFuel
  | n + 1, c =>
    let token := c.current
    (expression n .lowest c).bind fun value c =>
    let c := c.skipSemicolon
    .ok (.expr token value ⟨token.span.start, c.current.span.stop⟩) c []

end

/-- Enough for every function here: a token is consumed at least at every eighth call. -/
def fuel (c : Cursor σ) : Nat := 8 * (c.size + 1)

theorem fuel_ofTokens (tokens : List Token) : fuel (.ofTokens tokens) = 8 * (tokens.length + 1) :=
  rfl

end LetFn.Parser
