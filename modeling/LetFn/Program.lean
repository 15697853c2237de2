import LetFn.Token

/-! Syntax trees.

Every node keeps the token it started with and, unless it is a single token, the span it was
read from. Parentheses leave no node behind. -/

namespace LetFn

structure Ident where
  token : Token
  name : String
  deriving DecidableEq, Repr

mutual

inductive Expr where
  | ident (name : Ident)
  | int (token : Token) (value : Int64)
  | bool (token : Token) (value : Bool)
  | unary (token : Token) (operator : String) (operand : Expr) (span : Span)
  | binary (token : Token) (left : Expr) (operator : String) (right : Expr) (span : Span)
  | cond (token : Token) (test : Expr) (consequence : Block) (alternative : Option Block)
      (span : Span)
  | fn (token : Token) (parameters : List Ident) (body : Block) (span : Span)
  | call (token : Token) (callee : Expr) (arguments : List Expr) (span : Span)

inductive Stmt where
  | bind (token : Token) (name : Ident) (value : Expr) (span : Span)
  | ret (token : Token) (value : Expr) (span : Span)
  | expr (token : Token) (value : Expr) (span : Span)

inductive Block where
  | mk (token : Token) (statements : List Stmt) (span : Span)

end

structure Program where
  statements : List Stmt

def Expr.span : Expr → Span
  | ident name => name.token.span
  | int token _ | bool token _ => token.span
  | unary _ _ _ span | binary _ _ _ _ span | cond _ _ _ _ span | fn _ _ _ span
  | call _ _ _ span => span

def Stmt.span : Stmt → Span
  | bind _ _ _ span | ret _ _ span | expr _ _ span => span

namespace Block

def token : Block → Token
  | mk token _ _ => token

def statements : Block → List Stmt
  | mk _ statements _ => statements

def span : Block → Span
  | mk _ _ span => span

end Block

/-- From the first statement's start to the last one's end. -/
def Program.span? (p : Program) : Option Span :=
  match p.statements.head?, p.statements.getLast? with
  | some first, some last => some (first.span.merge last.span)
  | _, _ => none

end LetFn
