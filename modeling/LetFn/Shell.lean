import LetFn.Program.Dump
import LetFn.Run
import LetFn.Text.Utf8

/-! Shells that answer their input line by line. -/

namespace LetFn.Shell

/-- What is shown of a line: its value, its program or its tokens. -/
inductive Mode where
  | values | programs | tokens
  deriving DecidableEq, Repr

def prompt : String := ">> "

def exitCommand : List Char := ".exit".toList

/-- Cuts input behind each newline; nothing is left behind the last one. -/
def lines : List UInt8 → List (List UInt8)
  | [] => []
  | b :: bytes =>
    if b = 0x0a then [b] :: lines bytes
    else
      match lines bytes with
      | [] => [[b]]
      | line :: rest => (b :: line) :: rest

/-- What a line asks for. -/
inductive Request where
  /-- The line is no text. -/
  | broken
  | nothing
  | leave
  | text (line : List Char)
  deriving DecidableEq, Repr

/-- The line without the newlines and carriage returns at its end. -/
def trimmed (line : List Char) : List Char :=
  (line.reverse.dropWhile fun c => c = '\n' || c = '\r').reverse

def request (line : List UInt8) : Request :=
  match Text.Utf8.decode? line with
  | none => .broken
  | some cs =>
    let cs := trimmed cs
    if cs = [] then .nothing else if cs = exitCommand then .leave else .text cs

def complaint (errors : List ParseError) : String :=
  "parser errors:\n" ++ String.join (errors.map fun e => "\t" ++ e.message ++ "\n")

/-- What is printed for a line, and the heap behind it. A line with errors in it is not evaluated.
Values are computed in scope 0. -/
def answer (fuel : Nat) (mode : Mode) (h : Heap) (line : List Char) : Option (String × Heap) :=
  match mode with
  | .tokens =>
    some (String.join ((Token.ofChars line).map fun t => t.dump.inline ++ "\n"), h)
  | .programs =>
    let parsed := parseChars line
    if parsed.errors = [] then some (parsed.program.render ++ "\n", h)
    else some (complaint parsed.errors, h)
  | .values =>
    let parsed := parseChars line
    if parsed.errors = [] then
      match Eval.program fuel parsed.program 0 h with
      | some (v, h) => some (v.inspect ++ "\n", h)
      | none => none
    else some (complaint parsed.errors, h)

/-- All that a shell printed, and whether it ended as it should. -/
structure Transcript where
  out : String
  failure : Option Failure

def Transcript.after (text : String) (t : Transcript) : Transcript :=
  { t with out := text ++ t.out }

/-- What a line leads to: on to the next one with what is printed and the heap behind it, or to the
end of the conversation. -/
inductive Turn where
  | goOn (text : String) (h : Heap)
  | stop (failure : Option Failure)

def turn (fuel : Nat) (mode : Mode) (h : Heap) (line : List UInt8) : Option Turn :=
  match request line with
  | .broken => some (.stop (some (.io .invalidData)))
  | .leave => some (.stop none)
  | .nothing => some (.goOn "" h)
  | .text cs => (answer fuel mode h cs).map fun (text, h) => .goOn text h

/-- Prompts for each line and answers it, until one asks to leave, one is no text, or none is
left. -/
def converse (fuel : Nat) (mode : Mode) (h : Heap) : List (List UInt8) → Option Transcript
  | [] => some ⟨prompt, none⟩
  | line :: rest =>
    match turn fuel mode h line with
    | none => none
    | some (.stop failure) => some ⟨prompt, failure⟩
    | some (.goOn text h) => (converse fuel mode h rest).map (.after (prompt ++ text))

/-- A whole conversation, starting with nothing bound. -/
def transcript (fuel : Nat) (mode : Mode) (input : List UInt8) : Option Transcript :=
  converse fuel mode .root (lines input)

end LetFn.Shell
