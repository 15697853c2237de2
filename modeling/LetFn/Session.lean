import LetFn.Program.Dump
import LetFn.Run

/-! Sessions: scopes made, bound, compared and evaluated in, step by step. -/

namespace LetFn

inductive Session.Step where
  | root
  | enclose (scope : ScopeId)
  | get (scope : ScopeId) (name : String)
  | set (scope : ScopeId) (name : String) (value : Value)
  /-- Binds a name to what it means in another scope. -/
  | copy (scope : ScopeId) (source : ScopeId) (sourceName name : String)
  | equal (left : ScopeId) (leftName : String) (right : ScopeId) (rightName : String)
  | debug (scope : ScopeId) (name : String)
  /-- Evaluates what can be read of the text, whatever is wrong with the rest. -/
  | eval (scope : ScopeId) (src : String)
  | run (scope : ScopeId) (path src : String)
  | runFile (scope : ScopeId) (path : String) (content : Except IoFault (List UInt8))

inductive Session.Answer where
  | scope (id : ScopeId)
  | value (value : Option Value)
  | flag (flag : Bool)
  | text (text : Option String)
  | evaluated (errors : List ParseError) (value : Value)
  | ran (result : Except Failure Value)

namespace Session

/-- Names without a value are equal to each other. -/
def equalValues : Option Value → Option Value → Bool
  | some a, some b => a.equal b
  | none, none => true
  | _, _ => false

/-- The answer to one step and the heap after it, unless fuel runs out. -/
def step (fuel : Nat) (h : Heap) : Step → Option (Answer × Heap)
  | .root => some (.scope h.next, h.add none)
  | .enclose scope => some (.scope h.next, h.add (some scope))
  | .get scope name => some (.value (h.get? scope name), h)
  | .set scope name value => some (.value (some value), h.set scope name value)
  | .copy scope source sourceName name =>
    match h.get? source sourceName with
    | some value => some (.value (some value), h.set scope name value)
    | none => some (.value none, h)
  | .equal left leftName right rightName =>
    some (.flag (equalValues (h.get? left leftName) (h.get? right rightName)), h)
  | .debug scope name => some (.text ((h.get? scope name).map fun v => v.dump.inline), h)
  | .eval scope src =>
    let parsed := parse src
    (Eval.program fuel parsed.program scope h).map fun (v, h) => (.evaluated parsed.errors v, h)
  | .run scope path src => (runSource fuel path src scope h).map fun (r, h) => (.ran r, h)
  | .runFile scope path content =>
    (runFile fuel path content scope h).map fun (r, h) => (.ran r, h)

end Session

end LetFn
