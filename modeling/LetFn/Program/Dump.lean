import LetFn.Dump
import LetFn.Value

/-! Tokens, syntax trees and values with all their parts. -/

namespace LetFn

def Kind.variant : Kind → String
  | illegal => "Illegal"
  | eof => "Eof"
  | ident => "Ident"
  | int => "Int"
  | assign => "Assign"
  | plus => "Plus"
  | minus => "Minus"
  | bang => "Bang"
  | asterisk => "Asterisk"
  | slash => "Slash"
  | less => "LessThan"
  | greater => "GreaterThan"
  | equal => "Equal"
  | notEqual => "NotEqual"
  | comma => "Comma"
  | semicolon => "Semicolon"
  | lparen => "LParen"
  | rparen => "RParen"
  | lbrace => "LBrace"
  | rbrace => "RBrace"
  | fnWord => "Function"
  | letWord => "Let"
  | trueWord => "True"
  | falseWord => "False"
  | ifWord => "If"
  | elseWord => "Else"
  | returnWord => "Return"

def Span.dump (s : Span) : Dump :=
  .closed "SrcSpan" [("start", .number s.start), ("end", .number s.stop)]

def Token.dump (t : Token) : Dump :=
  .closed "Token"
    [("kind", .atom t.kind.variant), ("literal", .quoted t.literal), ("location", t.span.dump)]

def Ident.dump (i : Ident) : Dump :=
  .closed "Identifier" [("token", i.token.dump), ("value", .quoted i.name)]

def boolAtom (b : Bool) : Dump := .atom (if b then "true" else "false")

def intAtom (i : Int64) : Dump := .atom (Decimal.ofInt i.toInt)

mutual

def Expr.dump : Expr → Dump
  | .ident name => .tuple "Identifier" name.dump
  | .int token value =>
    .tuple "Integer" (.closed "IntegerLiteral" [("token", token.dump), ("value", intAtom value)])
  | .bool token value =>
    .tuple "Boolean" (.closed "BooleanLiteral" [("token", token.dump), ("value", boolAtom value)])
  | .unary token operator operand span =>
    .tuple "Prefix" (.closed "PrefixExpression"
      [("token", token.dump), ("operator", .quoted operator), ("right", operand.dump),
        ("location", span.dump)])
  | .binary token left operator right span =>
    .tuple "Infix" (.closed "InfixExpression"
      [("token", token.dump), ("left", left.dump), ("operator", .quoted operator),
        ("right", right.dump), ("location", span.dump)])
  | .cond token test consequence alternative span =>
    .tuple "If" (.closed "IfExpression"
      [("token", token.dump), ("condition", test.dump), ("consequence", consequence.dump),
        ("alternative", dumpElse alternative), ("location", span.dump)])
  | .fn token parameters body span =>
    .tuple "Function" (.closed "FunctionLiteral"
      [("token", token.dump), ("parameters", .list (parameters.map Ident.dump)),
        ("body", body.dump), ("location", span.dump)])
  | .call token callee arguments span =>
    .tuple "Call" (.closed "CallExpression"
      [("token", token.dump), ("function", callee.dump),
        ("arguments", .list (dumpArguments arguments)), ("location", span.dump)])

def dumpElse : Option Block → Dump
  | none => .atom "None"
  | some alternative => .tuple "Some" alternative.dump

def dumpArguments : List Expr → List Dump
  | [] => []
  | e :: es => e.dump :: dumpArguments es

def Stmt.dump : Stmt → Dump
  | .bind token name value span =>
    .tuple "Let" (.closed "LetStatement"
      [("token", token.dump), ("name", name.dump), ("value", value.dump), ("location", span.dump)])
  | .ret token value span =>
    .tuple "Return" (.closed "ReturnStatement"
      [("token", token.dump), ("value", value.dump), ("location", span.dump)])
  | .expr token value span =>
    .tuple "Expression" (.closed "ExpressionStatement"
      [("token", token.dump), ("expression", value.dump), ("location", span.dump)])

def Block.dump : Block → Dump
  | .mk token statements span =>
    .closed "BlockStatement"
      [("token", token.dump), ("statements", .list (dumpStatements statements)),
        ("location", span.dump)]

def dumpStatements : List Stmt → List Dump
  | [] => []
  | s :: ss => s.dump :: dumpStatements ss

end

def Program.dump (p : Program) : Dump :=
  .closed "Program" [("statements", .list (dumpStatements p.statements))]

/-- The scope of a closure is left out: it may hold the closure itself. -/
def Closure.dump (f : Closure) : Dump :=
  .record "Function" [("parameters", .list (f.parameters.map Ident.dump)), ("body", f.body.dump)]
    true

def Value.dump : Value → Dump
  | .int value => .closed "Integer" [("value", intAtom value)]
  | .bool value => .closed "Boolean" [("value", boolAtom value)]
  | .fn closure => .tuple "Function" closure.dump
  | .returned value => .tuple "ReturnValue" value.dump
  | .error message => .closed "Error" [("message", .quoted message)]
  | .null => .atom "Null"

end LetFn
