import LetFn.Session
import LetFn.FileTree
import LetFn.Main
import LetFn.Proofs.Eval.Frame
import LetFn.Proofs.Eval.Unwinding
import LetFn.Proofs.Parser.Completeness
import LetFn.Proofs.Parser.RoundTrip
import LetFn.Proofs.Parser.Recovery
import LetFn.Proofs.Session.Settled
import LetFn.Proofs.Session.Lookup
import LetFn.Proofs.Session.Repeat
import LetFn.Proofs.Run.Load
import LetFn.Proofs.Token.Scanner
import LetFn.Proofs.Layout
import LetFn.Proofs.Pieces
import LetFn.Proofs.Nesting
import LetFn.Proofs.Excerpt
import LetFn.Proofs.Parser.Blame
import LetFn.Proofs.Parser.Budget
import LetFn.Proofs.Parser.Climbing
import LetFn.Proofs.Session.Absent
import LetFn.Proofs.Token.Spacing
import LetFn.Proofs.Token.Supplied
import LetFn.Proofs.Eval.Nested
import LetFn.Proofs.Session.Printed
import LetFn.Proofs.Number
import LetFn.Proofs.Session.Errors
import LetFn.Proofs.Report
import LetFn.Proofs.Shell.Conversation
