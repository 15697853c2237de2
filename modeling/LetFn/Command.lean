import LetFn.Shell

/-! The command line. -/

namespace LetFn

inductive Command where
  | shell (mode : Shell.Mode)
  | run (path : String) (printTree quiet : Bool)

namespace Command

/-- A path, which is never empty. -/
def path? (word : String) : Option String := if word = "" then none else some word

/-- Options may stand before or behind the path, each of them once; `--` ends them, and what
follows it is a path whatever it starts with. -/
def parseRun? (path : Option String) (printTree quiet : Bool) : List String → Option Command
  | [] => path.map fun path => run path printTree quiet
  | "--print-ast" :: rest => if printTree then none else parseRun? path true quiet rest
  | "--no-output" :: rest | "-n" :: rest =>
    if quiet then none else parseRun? path printTree true rest
  | "--" :: rest =>
    match path, rest with
    | none, [word] => (path? word).map fun path => run path printTree quiet
    | some path, [] => some (run path printTree quiet)
    | _, _ => none
  | word :: rest =>
    if word.startsWith "-" && word ≠ "-" then none
    else
      match path, path? word with
      | none, some word => parseRun? (some word) printTree quiet rest
      | _, _ => none

/-- The name of a command and its arguments. Shells have none, but `--` may end even these. -/
def parse? : List String → Option Command
  | ["repl"] | ["repl", "--"] => some (shell .values)
  | ["rppl"] | ["rppl", "--"] => some (shell .programs)
  | ["rlpl"] | ["rlpl", "--"] => some (shell .tokens)
  | "run" :: rest => parseRun? none false false rest
  | _ => none

/-- A word in a style of its own, set to the right of eleven columns, and a text. -/
def status (colour : Colour) (word text : String) : Styled :=
  Styled.within ⟨true, some colour⟩ ("".pushn ' ' (11 - word.length) ++ word) ++
    [.text (" " ++ text ++ "\n")]

def running (path : String) : Styled := status .brightMagenta "Running" path

def finished (elapsed : String) : Styled := status .brightGreen "Finished" ("in " ++ elapsed)

/-- The settings that decide whether messages are coloured. -/
structure Terminal where
  forced : Option String
  declined : Bool
  name : Option String
  isTerminal : Bool

/-- Colour is shown if it is forced by any text but the empty one, and on terminals that can show
it unless it is declined. -/
def Terminal.coloured (t : Terminal) : Bool :=
  t.forced.any (· != "") ||
    (t.isTerminal && !t.declined && t.name.any (· != "dumb"))

/-- Seconds to two decimal places. -/
def seconds (milliseconds : Nat) : String :=
  let hundredths := (milliseconds + 5) / 10
  let rest := hundredths % 100
  Nat.repr (hundredths / 100) ++ "." ++ (if rest < 10 then "0" else "") ++ Nat.repr rest ++ "s"

/-- What a command prints, and whether it succeeded. -/
structure Report where
  out : String
  err : Styled
  success : Bool

def Report.exitCode (r : Report) : UInt32 := if r.success then 0 else 1

def failed (out : String) (failure : Failure) : Report := ⟨out, failure.report, false⟩

/-- A command that has come to its end, unless there was a failure. -/
def ended (out : String) : Option Failure → Report
  | none => ⟨out, [], true⟩
  | some failure => failed out failure

/-- The value is printed unless it is null or nothing is to be printed. -/
def shownValue (quiet : Bool) (v : Value) : String :=
  match v with
  | .null => ""
  | _ => if quiet then "" else v.inspect ++ "\n"

/-- Loads a program from a file's content, shows its tree if asked to, and evaluates it. -/
def runContent (fuel : Nat) (path : String) (printTree quiet : Bool)
    (content : Except IoFault (List UInt8)) : Option Report :=
  match load path content with
  | .error failure => some (failed "" failure)
  | .ok program =>
    let tree := if printTree then program.dump.indented 0 ++ "\n" else ""
    match evaluate fuel path program 0 .root with
    | none => none
    | some (.error failure, _) => some (failed tree failure)
    | some (.ok v, _) => some ⟨tree ++ shownValue quiet v, [], true⟩

/-- Everything a command prints. `read` gives the contents of files, and `elapsed` is the time
that running one is said to take. -/
def perform (fuel : Nat) (read : String → Except IoFault (List UInt8)) (input : List UInt8)
    (elapsed : String) : Command → Option Report
  | shell mode =>
    (Shell.transcript fuel mode input).map fun t => ended t.out t.failure
  | run path printTree quiet =>
    (runContent fuel path printTree quiet (read path)).map fun r =>
      { r with err := running path ++ r.err ++ finished elapsed }

end Command

end LetFn
