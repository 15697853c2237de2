/-! Text for terminals, with changes of style in it. -/

namespace LetFn

inductive Colour where
  | red | blue | brightRed | brightGreen | brightMagenta
  deriving DecidableEq, Repr

structure Style where
  bold : Bool
  colour : Option Colour
  deriving DecidableEq, Repr

/-- Neither bold nor coloured. -/
def Style.normal : Style := ⟨false, none⟩

inductive Piece where
  | text (text : String)
  /-- What follows is shown in this style only. -/
  | style (style : Style)
  deriving DecidableEq, Repr

abbrev Styled := List Piece

namespace Styled

def escapeCode (code : String) : String := "\x1b[" ++ code ++ "m"

def colourCode : Colour → String
  | .red => "31"
  | .blue => "34"
  | .brightRed => "38;5;9"
  | .brightGreen => "38;5;10"
  | .brightMagenta => "38;5;13"

/-- Every style starts from the normal one. -/
def styleCode (s : Style) : String :=
  escapeCode "0" ++ (if s.bold then escapeCode "1" else "") ++
    match s.colour with
    | some colour => escapeCode (colourCode colour)
    | none => ""

/-- For a terminal that understands escape codes. -/
def ansi (s : Styled) : String :=
  String.join (s.map fun | .text text => text | .style style => styleCode style)

/-- Only the text. -/
def plain (s : Styled) : String :=
  String.join (s.map fun | .text text => text | .style _ => "")

def render (s : Styled) (coloured : Bool) : String := if coloured then s.ansi else s.plain

/-- A text in a style of its own, and the normal one behind it. -/
def within (style : Style) (text : String) : Styled :=
  [.style style, .text text, .style .normal]

end Styled

end LetFn
