import LetFn.Token

/-! Cutting text into tokens.

The text alone decides the lexemes; offsets are attached to them afterwards, so no offset can
influence how the text is cut. -/

namespace LetFn

/-- Tokens may be separated by these. -/
def isSpace (c : Char) : Bool := c = ' ' || c = '\t' || c = '\n' || c = '\r'

def isWordStart (c : Char) : Bool := c.isAlpha || c = '_'

def isWordPart (c : Char) : Bool := c.isAlphanum || c = '_'

/-- A token before it has a place: its characters, and how many spaces stand before it. -/
structure Lexeme where
  gap : Nat
  kind : Kind
  text : List Char
  deriving DecidableEq, Repr

namespace Lexeme

/-- The kind of a character that is a token by itself. -/
def symbol : Char → Kind
  | '=' => .assign
  | '!' => .bang
  | '+' => .plus
  | '-' => .minus
  | '*' => .asterisk
  | '/' => .slash
  | '<' => .less
  | '>' => .greater
  | ',' => .comma
  | ';' => .semicolon
  | '(' => .lparen
  | ')' => .rparen
  | '{' => .lbrace
  | '}' => .rbrace
  | _ => .illegal

/-- The longest token that starts with `c`: its kind, and how many characters of `rest` it takes. -/
def munch (c : Char) (rest : List Char) : Kind × Nat :=
  if c = '=' && rest.head? == some '=' then (.equal, 1)
  else if c = '!' && rest.head? == some '=' then (.notEqual, 1)
  else if isWordStart c then
    let more := rest.takeWhile isWordPart
    ((Kind.ofWord? (String.ofList (c :: more))).getD .ident, more.length)
  else if c.isDigit then (.int, (rest.takeWhile Char.isDigit).length)
  else (symbol c, 0)

/-- The lexemes of a text that follows `gap` spaces. -/
def after (gap : Nat) : List Char → List Lexeme
  | [] => []
  | c :: rest =>
    if isSpace c then after (gap + 1) rest
    else
      let (kind, n) := munch c rest
      ⟨gap, kind, c :: rest.take n⟩ :: after 0 (rest.drop n)
termination_by cs => cs.length
decreasing_by all_goals simp; try omega

def ofChars (cs : List Char) : List Lexeme := after 0 cs

/-- Tokens at the given offsets of the characters, `stop` being the offset of the text's end. -/
def place (stop : Nat) : List Lexeme → List Nat → List Token
  | [], _ => []
  | x :: xs, offsets =>
    let here := offsets.drop x.gap
    let next := here.drop x.text.length
    ⟨x.kind, String.ofList x.text, ⟨here.headD stop, next.headD stop⟩⟩ :: place stop xs next

end Lexeme

namespace Token

/-- Offset of each character, the first one at `start`. -/
def offsets (start : Nat) : List Char → List Nat
  | [] => []
  | c :: cs => start :: offsets (start + c.utf8Size) cs

/-- Where a stream of placed characters ends: behind its last character. -/
def endOffset (cs : List (Nat × Char)) : Nat :=
  match cs.getLast? with
  | none => 0
  | some (offset, c) => offset + c.utf8Size

/-- The tokens of characters that carry their offsets; the last one marks the end. -/
def ofStream (cs : List (Nat × Char)) : List Token :=
  let stop := endOffset cs
  Lexeme.place stop (Lexeme.ofChars (cs.map Prod.snd)) (cs.map Prod.fst) ++ [eof stop]

/-- The tokens of a text; the last one marks the end. -/
def ofChars (cs : List Char) : List Token := ofStream ((offsets 0 cs).zip cs)

def ofText (text : String) : List Token := ofChars text.toList

end Token

end LetFn
