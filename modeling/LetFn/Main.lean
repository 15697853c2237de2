import LetFn.Command

/-! The program: arguments, streams and files of the system. -/

namespace LetFn.Main

/-- More than the stack can hold. -/
def fuel : Nat := 4611686018427387904

def faultOf : IO.Error → IoFault
  | .noFileOrDirectory .. => .notFound
  | .permissionDenied .. => .permissionDenied
  | .inappropriateType _ code _ => if code = 21 then .isADirectory else .notADirectory
  | .invalidArgument _ code _ => if code = 22 then .invalidInput else .invalidName
  | .alreadyExists .. => .alreadyExists
  | .interrupted .. => .interrupted
  | .unexpectedEof => .unexpectedEnd
  | _ => .invalidInput

def readFile (path : String) : IO (Except IoFault (List UInt8)) :=
  try
    return .ok (← IO.FS.readBinFile path).toList
  catch e =>
    return .error (faultOf e)

/-- A line with its newline; empty at the end of the input. -/
partial def readLine (input : IO.FS.Stream) (line : Array UInt8) : IO (List UInt8) := do
  let bytes ← input.read 1
  match bytes.toList with
  | b :: _ => if b = 0x0a then return (line.push b).toList else readLine input (line.push b)
  | [] => return line.toList

def terminal : IO Command.Terminal := do
  return ⟨← IO.getEnv "FORCE_COLOR", (← IO.getEnv "NO_COLOR").isSome, ← IO.getEnv "TERM",
    ← (← IO.getStderr).isTty⟩

def complain (message : Styled) : IO Unit := do
  IO.eprint (message.render (← terminal).coloured)

def print (text : String) : IO Unit := do
  let output ← IO.getStdout
  output.putStr text
  output.flush

partial def converse (mode : Shell.Mode) (h : Heap) : IO UInt32 := do
  print Shell.prompt
  match ← readLine (← IO.getStdin) #[] with
  | [] => return 0
  | line =>
    match Shell.turn fuel mode h line with
    | none => return 1
    | some (.stop failure) =>
      let report := Command.ended "" failure
      complain report.err
      return report.exitCode
    | some (.goOn text h) =>
      print text
      converse mode h

def run (path : String) (printTree quiet : Bool) : IO UInt32 := do
  complain (Command.running path)
  let start ← IO.monoMsNow
  match Command.runContent fuel path printTree quiet (← readFile path) with
  | none => return 1
  | some report =>
    print report.out
    complain report.err
    complain (Command.finished (Command.seconds ((← IO.monoMsNow) - start)))
    return report.exitCode

end LetFn.Main

def main (args : List String) : IO UInt32 := do
  match LetFn.Command.parse? args with
  | some (.shell mode) => LetFn.Main.converse mode .root
  | some (.run path printTree quiet) => LetFn.Main.run path printTree quiet
  | none =>
    IO.eprintln "usage: repl | rlpl | rppl | run [--print-ast] [--no-output] PATH"
    return 2
