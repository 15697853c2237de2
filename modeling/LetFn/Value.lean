import LetFn.Program.Render

/-! What programs compute. -/

namespace LetFn

/-- Scopes are numbered in the order of their creation. -/
abbrev ScopeId := Nat

/-- A function together with the scope it was made in. `id` tells apart the functions made by
different evaluations of one literal. -/
structure Closure where
  id : Nat
  parameters : List Ident
  body : Block
  scope : ScopeId

/-- Results of evaluation. A returned value and an error unwind: they end everything around them
up to the call or the program that stops them. -/
inductive Value where
  | int (value : Int64)
  | bool (value : Bool)
  | fn (closure : Closure)
  | returned (value : Value)
  | error (message : String)
  | null

inductive ValueType where
  | int | bool | fn | returned | error | null
  deriving DecidableEq, Repr

def ValueType.name : ValueType → String
  | int => "INTEGER"
  | bool => "BOOLEAN"
  | fn => "FUNCTION"
  | returned => "RETURN_VALUE"
  | error => "ERROR"
  | null => "NULL"

def Closure.render (f : Closure) : String :=
  "fn(" ++ commaSeparated (f.parameters.map Ident.name) ++ ") " ++ f.body.render

namespace Value

def type : Value → ValueType
  | int _ => .int
  | bool _ => .bool
  | fn _ => .fn
  | returned _ => .returned
  | error _ => .error
  | null => .null

/-- The text shown to a user. -/
def inspect : Value → String
  | int value => Decimal.ofInt value.toInt
  | bool value => if value then "true" else "false"
  | fn closure => closure.render
  | returned value => value.inspect
  | error message => "ERROR: " ++ message
  | null => "null"

def isUnwinding : Value → Bool
  | returned _ | error _ => true
  | _ => false

/-- Only `false` and `null` do not count as true. -/
def isTruthy : Value → Bool
  | bool false | null => false
  | _ => true

/-- The value without one `returned` around it. -/
def unwrap : Value → Value
  | returned value => value
  | value => value

/-- Equality; functions are equal only to themselves. -/
def equal : Value → Value → Bool
  | int a, int b => a = b
  | bool a, bool b => a = b
  | fn f, fn g => f.id = g.id
  | returned a, returned b => a.equal b
  | error a, error b => a = b
  | null, null => true
  | _, _ => false

end Value

end LetFn
