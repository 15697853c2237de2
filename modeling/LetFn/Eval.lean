import LetFn.Heap

/-! Evaluation.

Statements and expressions are evaluated from left to right in one scope. An unwinding value ends
everything around it. Functions take fuel for the depth of their calls and answer `none` when it
runs out. -/

namespace LetFn

/-- Why a program fails. -/
inductive RuntimeError where
  | notFound (name : String)
  | divisionByZero (left right : Int64)
  | unknownUnary (operator : String) (operand : ValueType)
  | unknownBinary (left : ValueType) (operator : String) (right : ValueType)
  | typeMismatch (left : ValueType) (operator : String) (right : ValueType)
  | notAFunction (callee : ValueType)
  | argumentCount (want got : Nat)
  deriving DecidableEq, Repr

def RuntimeError.message : RuntimeError → String
  | notFound name => "identifier not found: " ++ name
  | divisionByZero left right =>
    "division by zero: " ++ Decimal.ofInt left.toInt ++ " / " ++ Decimal.ofInt right.toInt
  | unknownUnary operator operand => "unknown operator: " ++ operator ++ operand.name
  | unknownBinary left operator right =>
    "unknown operator: " ++ left.name ++ " " ++ operator ++ " " ++ right.name
  | typeMismatch left operator right =>
    "type mismatch: " ++ left.name ++ " " ++ operator ++ " " ++ right.name
  | notAFunction callee => "not a function: " ++ callee.name
  | argumentCount want got =>
    "wrong number of arguments: want=" ++ Nat.repr want ++ ", got=" ++ Nat.repr got

namespace Value

def raise (e : RuntimeError) : Value := error e.message

/-- Integer operators; arithmetic wraps around at 64 bits and division truncates. -/
def integerOperator (operator : String) (left right : Int64) : Value :=
  match operator with
  | "+" => int (left + right)
  | "-" => int (left - right)
  | "*" => int (left * right)
  | "/" => if right = 0 then raise (.divisionByZero left right) else int (left / right)
  | "<" => bool (left < right)
  | ">" => bool (right < left)
  | "==" => bool (left = right)
  | "!=" => bool (left ≠ right)
  | _ => raise (.unknownBinary .int operator .int)

def booleanOperator (operator : String) (left right : Bool) : Value :=
  match operator with
  | "==" => bool (left = right)
  | "!=" => bool (left ≠ right)
  | _ => raise (.unknownBinary .bool operator .bool)

def binaryOperator (operator : String) (left right : Value) : Value :=
  match left, right with
  | int a, int b => integerOperator operator a b
  | bool a, bool b => booleanOperator operator a b
  | _, _ =>
    if left.type = right.type then raise (.unknownBinary left.type operator right.type)
    else raise (.typeMismatch left.type operator right.type)

def unaryOperator (operator : String) (operand : Value) : Value :=
  match operator with
  | "!" => bool (!operand.isTruthy)
  | "-" =>
    match operand with
    | int value => int (-value)
    | _ => raise (.unknownUnary "-" operand.type)
  | _ => raise (.unknownUnary operator operand.type)

end Value

namespace Eval

/-- A value and the heap it was computed on, unless fuel ran out. -/
abbrev Result := Option (Value × Heap)

/-- Goes on with a value; an unwinding one is the result. -/
def andThen (r : Result) (f : Value → Heap → Result) : Result :=
  match r with
  | none => none
  | some (v, h) => if v.isUnwinding then some (v, h) else f v h

/-- Binds parameters to arguments one by one. -/
def bindAll {α : Type} (scope : ScopeId) : List Ident → List α → Heap α → Heap α
  | p :: ps, v :: vs, h => bindAll scope ps vs (h.set scope p.name v)
  | _, _, h => h

mutual

def expr : Nat → Expr → ScopeId → Heap → Result
  | 0, _, _, _ => none
  | n + 1, e, scope, h =>
    match e with
    | .int _ value => some (.int value, h)
    | .bool _ value => some (.bool value, h)
    | .ident name =>
      match h.get? scope name.name with
      | some value => some (value, h)
      | none => some (.raise (.notFound name.name), h)
    | .unary _ operator operand _ =>
      andThen (expr n operand scope h) fun v h => some (.unaryOperator operator v, h)
    | .binary _ left operator right _ =>
      andThen (expr n left scope h) fun a h =>
      andThen (expr n right scope h) fun b h => some (.binaryOperator operator a b, h)
    | .cond _ test consequence alternative _ =>
      andThen (expr n test scope h) fun v h =>
        if v.isTruthy then stmts n .null consequence.statements scope h
        else
          match alternative with
          | some block => stmts n .null block.statements scope h
          | none => some (.null, h)
    | .fn _ parameters body _ =>
      some (.fn ⟨h.closures, parameters, body, scope⟩, { h with closures := h.closures + 1 })
    | .call _ callee arguments _ =>
      andThen (expr n callee scope h) fun f h =>
        match args n arguments scope h with
        | none => none
        | some (.error v, h) => some (v, h)
        | some (.ok values, h) => apply n f values h

/-- The values of arguments, or the first value that unwinds. -/
def args : Nat → List Expr → ScopeId → Heap → Option (Except Value (List Value) × Heap)
  | 0, _, _, _ => none
  | n + 1, es, scope, h =>
    match es with
    | [] => some (.ok [], h)
    | e :: es =>
      match expr n e scope h with
      | none => none
      | some (v, h) =>
        if v.isUnwinding then some (.error v, h)
        else
          match args n es scope h with
          | some (.ok values, h) => some (.ok (v :: values), h)
          | r => r

/-- Calls a function in a fresh scope within the one it was made in. -/
def apply : Nat → Value → List Value → Heap → Result
  | 0, _, _, _ => none
  | n + 1, f, values, h =>
    match f with
    | .fn closure =>
      if closure.parameters.length = values.length then
        let inner := bindAll h.next closure.parameters values (h.add closure.scope)
        (stmts n .null closure.body.statements h.next inner).map fun (v, h) => (v.unwrap, h)
      else some (.raise (.argumentCount closure.parameters.length values.length), h)
    | _ => some (.raise (.notAFunction f.type), h)

/-- The value of the last statement, or `last` if there is none. -/
def stmts : Nat → (last : Value) → List Stmt → ScopeId → Heap → Result
  | 0, _, _, _, _ => none
  | n + 1, last, ss, scope, h =>
    match ss with
    | [] => some (last, h)
    | s :: ss => andThen (stmt n s scope h) fun v h => stmts n v ss scope h

def stmt : Nat → Stmt → ScopeId → Heap → Result
  | 0, _, _, _ => none
  | n + 1, s, scope, h =>
    match s with
    | .expr _ value _ => expr n value scope h
    | .ret _ value _ => andThen (expr n value scope h) fun v h => some (.returned v, h)
    | .bind _ name value _ =>
      andThen (expr n value scope h) fun v h => some (.null, h.set scope name.name v)

end

/-- A whole program; a `return` outside of every function ends it. -/
def program (fuel : Nat) (p : Program) (scope : ScopeId) (h : Heap) : Result :=
  (stmts fuel .null p.statements scope h).map fun (v, h) => (v.unwrap, h)

end Eval

end LetFn
