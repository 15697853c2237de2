import LetFn.Styled
import LetFn.Diagnostic.Snippet

/-! Reports shown to a user. -/

namespace LetFn

/-- Where a report points to. -/
structure Location where
  path : String
  src : String
  span : Span
  label : Option String

structure Diagnostic where
  title : String
  text : String
  location : Option Location

namespace Diagnostic

def heading (colour : Colour) (title : String) : Styled :=
  [.style ⟨true, some colour⟩, .text "error", .style ⟨true, none⟩, .text (": " ++ title)]

/-- A heading, the source line it points to if there is one, and the text. -/
def render (d : Diagnostic) : Styled :=
  let head :=
    match d.location with
    | none => heading .red d.title ++ [.text "\n\n", .style .normal]
    | some l =>
      heading .brightRed d.title ++ [.style .normal, .text "\n"] ++
        Snippet.render l.path l.src.toList l.span (l.label.getD "")
  head ++ if d.text = "" then [] else [.text (d.text ++ "\n")]

end Diagnostic

end LetFn
