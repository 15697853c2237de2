import LetFn.Eval
import LetFn.Failure
import LetFn.Parsed
import LetFn.Token.Feed

/-! From source texts and files to results.

A program with errors in it is not evaluated. -/

namespace LetFn

/-- A program free of errors, or a failure that keeps the text. -/
def check (path : String) (src : List Char) (parsed : Parsed) : Except Failure Program :=
  if parsed.errors = [] then .ok parsed.program
  else .error (.parse path (String.ofList src) parsed.errors)

def Text.Utf8.Fault.ioFault : Text.Utf8.Fault → IoFault
  | invalid => .invalidData
  | truncated => .unexpectedEnd

/-- The program in a file's content, which is decoded and cut into tokens as far as reading the
program asks for tokens. Bytes that are no text outweigh errors in the program. -/
def loadContent (path : String) (content : List UInt8) : Except Failure Program :=
  let (parsed, last) := Parser.read ⟨Scanner.ofBytes content⟩
  let feed := last.rest.input
  match feed.fault with
  | none => check path feed.text.reverse parsed
  | some fault => .error (.io fault.ioFault)

/-- The program in a file, given what reading the file gave. -/
def load (path : String) (content : Except IoFault (List UInt8)) : Except Failure Program :=
  match content with
  | .ok bytes => loadContent path bytes
  | .error fault => .error (.io fault)

/-- What running a program ends with, unless fuel runs out. -/
abbrev RunResult := Option (Except Failure Value × Heap)

/-- Evaluates a program; an error value is a failure. -/
def evaluate (fuel : Nat) (path : String) (p : Program) (scope : ScopeId) (h : Heap) : RunResult :=
  match Eval.program fuel p scope h with
  | none => none
  | some (.error message, h) => some (.error (.runtime path message), h)
  | some (v, h) => some (.ok v, h)

def evaluateLoaded (fuel : Nat) (path : String) (loaded : Except Failure Program) (scope : ScopeId)
    (h : Heap) : RunResult :=
  match loaded with
  | .ok p => evaluate fuel path p scope h
  | .error failure => some (.error failure, h)

/-- Either there is nothing to evaluate, or the value of the program decides. -/
theorem evaluateLoaded_cases {fuel : Nat} {path : String} {loaded : Except Failure Program}
    {scope : ScopeId} {h h' : Heap} {r : Except Failure Value}
    (run : evaluateLoaded fuel path loaded scope h = some (r, h')) :
    (∃ failure, loaded = .error failure ∧ r = .error failure ∧ h' = h) ∨
      ∃ p v, loaded = .ok p ∧ Eval.program fuel p scope h = some (v, h') ∧
        ((∃ message, v = .error message ∧ r = .error (.runtime path message)) ∨
          (∀ message, v ≠ .error message) ∧ r = .ok v) := by
  cases loaded with
  | error failure =>
    cases run
    exact .inl ⟨failure, rfl, rfl, rfl⟩
  | ok p =>
    rw [evaluateLoaded, evaluate] at run
    split at run
    · cases run
    · next message _ hp =>
      cases run
      exact .inr ⟨p, .error message, rfl, hp, .inl ⟨message, rfl, rfl⟩⟩
    · next v _ noError hp =>
      cases run
      exact .inr ⟨p, v, rfl, hp, .inr ⟨noError, rfl⟩⟩

/-- Parses and evaluates a source text. -/
def runSource (fuel : Nat) (path src : String) (scope : ScopeId) (h : Heap) : RunResult :=
  evaluateLoaded fuel path (check path src.toList (parse src)) scope h

/-- Loads and evaluates a file. -/
def runFile (fuel : Nat) (path : String) (content : Except IoFault (List UInt8))
    (scope : ScopeId) (h : Heap) : RunResult :=
  evaluateLoaded fuel path (load path content) scope h

end LetFn
