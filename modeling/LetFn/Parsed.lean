import LetFn.Parser
import LetFn.Token.Lexer

/-! Whole texts to programs, and reading piece by piece. -/

namespace LetFn

/-- The statements that could be read, and what was wrong with the others. -/
structure Parsed where
  program : Program
  errors : List ParseError

namespace Parser

variable {σ : Type} [TokenSource σ]

/-- Reads a program from a cursor; a closing brace outside of any block closes nothing. -/
def program (c : Cursor σ) : Outcome (List Stmt) σ := statements (fuel c) (· = .eof) c

/-- What was read from a cursor, and where reading ended. -/
def read (c : Cursor σ) : Parsed × Cursor σ :=
  match program c with
  | .ok statements last errors => (⟨⟨statements⟩, errors⟩, last)
  | _ => (⟨⟨[]⟩, []⟩, c)

end Parser

def parseTokens (tokens : List Token) : Parsed := (Parser.read (.ofTokens tokens)).1

def parseChars (cs : List Char) : Parsed := parseTokens (Token.ofChars cs)

def parse (text : String) : Parsed := parseChars text.toList

/-- A place in a list of tokens and the errors recorded on the way there. -/
structure Reader where
  cursor : Cursor
  errors : List ParseError

namespace Reader

def ofTokens (tokens : List Token) : Reader := ⟨.ofTokens tokens, []⟩

def advance (r : Reader) : Reader := { r with cursor := r.cursor.advance }

def record (r : Reader) (e : ParseError) : Reader := { r with errors := r.errors ++ [e] }

/-- Records the error of a dropped statement and skips the semicolon behind it. -/
def recover (r : Reader) (e : ParseError) : Reader :=
  { (r.record e) with cursor := r.cursor.skipSemicolon }

/-- Takes one parsing step. Its own error is returned, those of dropped statements are recorded. -/
def step {α : Type} (r : Reader) (run : Cursor → Outcome α) :
    Option (Except ParseError α × Reader) :=
  match run r.cursor with
  | .ok value next dropped => some (.ok value, ⟨next, r.errors ++ dropped⟩)
  | .error cause next dropped => some (.error cause, ⟨next, r.errors ++ dropped⟩)
  | .outOfFuel => none

end Reader

end LetFn
