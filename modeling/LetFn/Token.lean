import LetFn.Span

/-! Tokens: their kinds, the fixed text of those that have one, and the reserved words. -/

namespace LetFn

inductive Kind where
  | illegal | eof
  | ident | int
  | assign | plus | minus | bang | asterisk | slash | less | greater | equal | notEqual
  | comma | semicolon | lparen | rparen | lbrace | rbrace
  | fnWord | letWord | trueWord | falseWord | ifWord | elseWord | returnWord
  deriving DecidableEq, Repr

namespace Kind

def all : List Kind :=
  [illegal, eof, ident, int, assign, plus, minus, bang, asterisk, slash, less, greater, equal,
    notEqual, comma, semicolon, lparen, rparen, lbrace, rbrace, fnWord, letWord, trueWord,
    falseWord, ifWord, elseWord, returnWord]

def isReserved : Kind → Bool
  | fnWord | letWord | trueWord | falseWord | ifWord | elseWord | returnWord => true
  | _ => false

def isOperator : Kind → Bool
  | assign | plus | minus | bang | asterisk | slash | less | greater | equal | notEqual => true
  | _ => false

/-- The only text a token of this kind has in a source, if there is only one. -/
def text? : Kind → Option String
  | assign => some "="
  | plus => some "+"
  | minus => some "-"
  | bang => some "!"
  | asterisk => some "*"
  | slash => some "/"
  | less => some "<"
  | greater => some ">"
  | equal => some "=="
  | notEqual => some "!="
  | comma => some ","
  | semicolon => some ";"
  | lparen => some "("
  | rparen => some ")"
  | lbrace => some "\x7b"
  | rbrace => some "\x7d"
  | fnWord => some "fn"
  | letWord => some "let"
  | trueWord => some "true"
  | falseWord => some "false"
  | ifWord => some "if"
  | elseWord => some "else"
  | returnWord => some "return"
  | illegal | eof | ident | int => none

/-- The name that messages give to a kind: operators and delimiters by their text. -/
def name : Kind → String
  | illegal => "ILLEGAL"
  | eof => "EOF"
  | ident => "IDENT"
  | int => "INT"
  | fnWord => "FUNCTION"
  | letWord => "LET"
  | trueWord => "TRUE"
  | falseWord => "FALSE"
  | ifWord => "IF"
  | elseWord => "ELSE"
  | returnWord => "RETURN"
  | k => k.text?.getD ""

/-- The kind of a reserved word. -/
def ofWord? (word : String) : Option Kind :=
  all.find? fun k => k.isReserved && k.text? == some word

theorem mem_all (k : Kind) : k ∈ all := by cases k <;> decide

/-- A word is reserved exactly if it is the text of a reserved kind. -/
theorem ofWord?_eq_some_iff {word : String} {k : Kind} :
    ofWord? word = some k ↔ k.isReserved = true ∧ k.text? = some word := by
  constructor
  · intro h
    simpa using List.find?_some h
  · rintro ⟨hr, ht⟩
    cases k <;> simp [isReserved] at hr <;> simp only [text?, Option.some.injEq] at ht <;>
      subst ht <;> decide

end Kind

/-- A piece of source text and where it stands. -/
structure Token where
  kind : Kind
  literal : String
  span : Span
  deriving DecidableEq, Repr

/-- The end of the input, met at `offset`. -/
def Token.eof (offset : Nat) : Token := ⟨.eof, "", .point offset⟩

end LetFn
