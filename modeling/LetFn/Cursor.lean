import LetFn.ParseError
import LetFn.Precedence
import LetFn.Program
import LetFn.Token.Source

/-! Reading positions: in front of what is left of a source of tokens. -/

namespace LetFn

/-- In front of what is left of a list, if no other source is named. -/
structure Cursor (σ : Type := TokenList) where
  source : σ

namespace Cursor

/-- At the first token; the list ends where its last token does. -/
def ofTokens (tokens : List Token) : Cursor :=
  ⟨tokens, match tokens.getLast? with | none => 0 | some last => last.span.stop⟩

/-- The tokens of a list from the current one on. -/
abbrev tokens (c : Cursor) : List Token := c.source.tokens

abbrev stop (c : Cursor) : Nat := c.source.stop

section

variable {σ : Type} [TokenSource σ]

def size (c : Cursor σ) : Nat := TokenSource.size c.source

def current (c : Cursor σ) : Token := (TokenSource.next c.source).1

def advance (c : Cursor σ) : Cursor σ := ⟨(TokenSource.next c.source).2⟩

/-- The token behind the current one. -/
def peek (c : Cursor σ) : Token := c.advance.current

/-- The source behind these two, which have been taken from it. -/
def rest (c : Cursor σ) : σ := c.advance.advance.source

def peekIs (c : Cursor σ) (kind : Kind) : Bool := c.peek.kind = kind

/-- How tightly the token behind the current one binds. -/
def peekPrecedence (c : Cursor σ) : Precedence := .ofKind c.peek.kind

def skipSemicolon (c : Cursor σ) : Cursor σ := if c.peekIs .semicolon then c.advance else c

theorem current_advance (c : Cursor σ) : c.advance.current = c.peek := rfl

end

/-- The error of a token that stands where `expected` should. -/
def unexpected (expected : Kind) (got : Token) : ParseError :=
  ⟨.unexpected expected got.kind, got.span⟩

@[simp] theorem tokens_mk (tokens : List Token) (stop : Nat) :
    (⟨tokens, stop⟩ : Cursor).tokens = tokens := rfl

@[simp] theorem stop_advance (c : Cursor) : c.advance.stop = c.stop := rfl

@[simp] theorem tokens_advance (c : Cursor) : c.advance.tokens = c.tokens.tail := rfl

@[simp] theorem size_eq (c : Cursor) : c.size = c.tokens.length := rfl

@[simp] theorem current_cons (t : Token) (tokens : List Token) (stop : Nat) :
    (⟨t :: tokens, stop⟩ : Cursor).current = t := rfl

@[simp] theorem advance_mk (tokens : List Token) (stop : Nat) :
    (⟨tokens, stop⟩ : Cursor).advance = ⟨tokens.tail, stop⟩ := rfl

theorem current_eq_headD (c : Cursor) : c.current = c.tokens.headD (.eof c.stop) := rfl

theorem peek_eq_headD (c : Cursor) : c.peek = c.tokens.tail.headD (.eof c.stop) := rfl

end Cursor

end LetFn
