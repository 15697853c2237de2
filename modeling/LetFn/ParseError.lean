import LetFn.Token
import LetFn.Text.Quoted

/-! What can be wrong with a program text, and how it is reported. -/

namespace LetFn

inductive ParseError.Cause where
  | unexpected (expected got : Kind)
  | notAnExpression (got : Kind)
  | integerRange (literal : String)
  deriving DecidableEq, Repr

/-- A cause and the token it was found at. -/
structure ParseError where
  cause : ParseError.Cause
  span : Span
  deriving DecidableEq, Repr

namespace ParseError

def Cause.message : Cause → String
  | unexpected expected got =>
    "expected next token to be " ++ expected.name ++ ", got " ++ got.name ++ " instead"
  | notAnExpression got => "no prefix parse function for " ++ got.name ++ " found"
  | integerRange literal => "could not parse " ++ Text.quoted literal ++ " as integer"

def message (e : ParseError) : String := e.cause.message

/-- The note under the offending token. -/
def label (e : ParseError) : String :=
  match e.cause with
  | .unexpected expected _ => "expected `" ++ expected.name ++ "` here"
  | .notAnExpression got =>
    if got.isOperator then "`" ++ got.name ++ "` cannot start an expression"
    else if got.isReserved then "the keyword `" ++ got.name ++ "` cannot start an expression"
    else "not an expression"
  | .integerRange _ => "does not fit in a 64-bit integer"

/-- More text could still have made the program right. -/
def isUnexpectedEnd (e : ParseError) : Bool :=
  match e.cause with
  | .unexpected _ got => got = .eof
  | .notAnExpression got => got = .eof
  | .integerRange _ => false

end ParseError

end LetFn
