import LetFn.Diagnostic
import LetFn.ParseError

/-! Why running a program can fail, and how that is reported. -/

namespace LetFn

/-- Failures of reading a file or a stream. -/
inductive IoFault where
  | notFound | permissionDenied | alreadyExists | invalidData | invalidInput | unexpectedEnd
  | isADirectory | notADirectory | invalidName | interrupted
  deriving DecidableEq, Repr

def IoFault.message : IoFault → String
  | notFound => "entity not found"
  | permissionDenied => "permission denied"
  | alreadyExists => "entity already exists"
  | invalidData => "invalid data"
  | invalidInput => "invalid input parameter"
  | unexpectedEnd => "unexpected end of file"
  | isADirectory => "is a directory"
  | notADirectory => "not a directory"
  | invalidName => "invalid filename"
  | interrupted => "operation interrupted"

inductive Failure where
  | parse (path src : String) (errors : List ParseError)
  | runtime (path message : String)
  | io (fault : IoFault)

namespace Failure

/-- One line that says what failed. -/
def summary : Failure → String
  | parse .. => "failed to parse source code"
  | runtime _ message => "evaluation failed: " ++ message
  | io _ => "IO operation failed"

/-- The span a parse error is shown at: one about the end of the input points to the end of the
text, not to the blanks behind it. -/
def shownSpan (src : String) (e : ParseError) : Span :=
  if e.isUnexpectedEnd then .point (Text.byteLength (Text.trimEnd src.toList)) else e.span

def diagnostics : Failure → List Diagnostic
  | parse path src errors =>
    errors.map fun e =>
      ⟨"Syntax error", e.message, some ⟨path, src, shownSpan src e, some e.label⟩⟩
  | runtime path message => [⟨"Runtime error in " ++ path, message, none⟩]
  | io fault => [⟨"Standard IO error", fault.message, none⟩]

/-- The whole report: each diagnostic and an empty line. -/
def report (f : Failure) : Styled := f.diagnostics.flatMap fun d => d.render ++ [.text "\n"]

end Failure

end LetFn
