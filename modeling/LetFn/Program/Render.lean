import LetFn.Decimal
import LetFn.Program

/-! Programs written back as text.

Every operator is parenthesised, and every statement of a block ends in a semicolon, so the text
of a statement reads back as that statement. -/

namespace LetFn

def commaSeparated (items : List String) : String := ", ".intercalate items

mutual

def Expr.render : Expr → String
  | .ident name => name.name
  | .int _ value => Decimal.ofInt value.toInt
  | .bool _ value => if value then "true" else "false"
  | .unary _ operator operand _ => "(" ++ operator ++ operand.render ++ ")"
  | .binary _ left operator right _ =>
    "(" ++ left.render ++ " " ++ operator ++ " " ++ right.render ++ ")"
  | .cond _ test consequence alternative _ =>
    "if (" ++ test.render ++ ") " ++ consequence.render ++ renderElse alternative
  | .fn token parameters body _ =>
    token.literal ++ "(" ++ commaSeparated (parameters.map Ident.name) ++ ") " ++ body.render
  | .call _ callee arguments _ =>
    callee.render ++ "(" ++ commaSeparated (renderArguments arguments) ++ ")"

def renderElse : Option Block → String
  | none => ""
  | some alternative => " else " ++ alternative.render

def renderArguments : List Expr → List String
  | [] => []
  | e :: es => e.render :: renderArguments es

def Stmt.render : Stmt → String
  | .bind token name value _ => token.literal ++ " " ++ name.name ++ " = " ++ value.render ++ ";"
  | .ret token value _ => token.literal ++ " " ++ value.render ++ ";"
  | .expr _ value _ => value.render

def Block.render : Block → String
  | .mk _ statements _ => "\x7b " ++ renderBody statements ++ "\x7d"

/-- The statements of a block, each closed by a semicolon and followed by a space. -/
def renderBody : List Stmt → String
  | [] => ""
  | .expr _ value _ :: rest => value.render ++ "; " ++ renderBody rest
  | s :: rest => s.render ++ " " ++ renderBody rest

end

/-- Statements follow each other with nothing in between. -/
def Program.render (p : Program) : String := String.join (p.statements.map Stmt.render)

end LetFn
