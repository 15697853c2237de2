import LetFn.Text.Quoted

/-! Nested data written out with the names of its parts, on one line or on many. -/

namespace LetFn

inductive Dump where
  | atom (text : String)
  /-- Named fields; `hasMore` says that some are left out. -/
  | record (name : String) (fields : List (String × Dump)) (hasMore : Bool)
  | tuple (name : String) (item : Dump)
  | list (items : List Dump)

namespace Dump

def number (n : Nat) : Dump := atom (Nat.repr n)

def quoted (text : String) : Dump := atom (Text.quoted text)

def closed (name : String) (fields : List (String × Dump)) : Dump := record name fields false

mutual

/-- Everything on one line. -/
def inline : Dump → String
  | atom text => text
  | record name fields more =>
    name ++ " \x7b " ++ inlineFields fields ++ (if more then ", .." else "") ++ " \x7d"
  | tuple name item => name ++ "(" ++ item.inline ++ ")"
  | list items => "[" ++ inlineItems items ++ "]"

def inlineFields : List (String × Dump) → String
  | [] => ""
  | [(name, value)] => name ++ ": " ++ value.inline
  | (name, value) :: rest => name ++ ": " ++ value.inline ++ ", " ++ inlineFields rest

def inlineItems : List Dump → String
  | [] => ""
  | [item] => item.inline
  | item :: rest => item.inline ++ ", " ++ inlineItems rest

end

/-- The start of a line that is `depth` levels deep. -/
def margin (depth : Nat) : String := "".pushn ' ' (4 * depth)

mutual

/-- Every part on a line of its own, with a comma behind it. -/
def indented (depth : Nat) : Dump → String
  | atom text => text
  | record name fields more =>
    name ++ " \x7b\n" ++ indentedFields (depth + 1) fields ++
      (if more then margin (depth + 1) ++ "..\n" else "") ++ margin depth ++ "\x7d"
  | tuple name item =>
    name ++ "(\n" ++ margin (depth + 1) ++ item.indented (depth + 1) ++ ",\n" ++ margin depth ++ ")"
  | list [] => "[]"
  | list (item :: rest) =>
    "[\n" ++ indentedItems (depth + 1) (item :: rest) ++ margin depth ++ "]"

def indentedFields (depth : Nat) : List (String × Dump) → String
  | [] => ""
  | (name, value) :: rest =>
    margin depth ++ name ++ ": " ++ value.indented depth ++ ",\n" ++ indentedFields depth rest

def indentedItems (depth : Nat) : List Dump → String
  | [] => ""
  | item :: rest => margin depth ++ item.indented depth ++ ",\n" ++ indentedItems depth rest

end

end Dump

end LetFn
