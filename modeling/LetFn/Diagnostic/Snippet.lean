import LetFn.Span
import LetFn.Styled
import LetFn.Text.Appearance
import LetFn.Text.Blank

/-! A source line with carets under the part of it that a report is about. -/

namespace LetFn.Snippet

/-- One line of a source, its number counted from 1, and its offset. -/
structure Line where
  number : Nat
  start : Nat
  text : List Char

/-- Cuts a text behind each newline. What follows the last one is a line, too. -/
def lines : List Char → List (List Char)
  | [] => [[]]
  | c :: cs =>
    if c = '\n' then [c] :: lines cs
    else
      match lines cs with
      | [] => [[c]]
      | line :: rest => (c :: line) :: rest

/-- The last of the lines that starts at or before `offset`. -/
def locate (offset number start : Nat) : List (List Char) → Line
  | [] => ⟨number, start, []⟩
  | [line] => ⟨number, start, line⟩
  | line :: rest =>
    let next := start + Text.byteLength line
    if next ≤ offset then locate offset (number + 1) next rest else ⟨number, start, line⟩

def lineAt (src : List Char) (offset : Nat) : Line := locate offset 1 0 (lines src)

/-- How many of the characters end within the first `size` bytes. -/
def charsWithin (size : Nat) : List Char → Nat
  | [] => 0
  | c :: cs => if c.utf8Size ≤ size then charsWithin (size - c.utf8Size) cs + 1 else 0

/-- A character of a shown line, its offset in the line and the columns it takes. -/
structure Cell where
  char : Char
  offset : Nat
  width : Nat

/-- Tabs reach up to the next multiple of four columns. -/
def cells (offset column : Nat) : List Char → List Cell
  | [] => []
  | c :: cs =>
    let width := if c = '\t' then 4 - column % 4 else Text.width c
    ⟨c, offset, width⟩ :: cells (offset + c.utf8Size) (column + width) cs

/-- The cell shares a byte with the range. -/
def Cell.touches (cell : Cell) (range : Span) : Bool :=
  max cell.offset range.start < min (cell.offset + cell.char.utf8Size) range.stop

def marked : Style := ⟨false, some .red⟩

/-- Draws cells one by one, those that touch the range in red; `red` tells whether the cell
before was one of them. -/
def paint (range : Span) (draw : Cell → String) (red : Bool) : List Cell → Styled
  | [] => if red then [.style .normal] else []
  | cell :: rest =>
    let now := cell.touches range
    let change :=
      if now && !red then [.style marked] else if !now && red then [.style .normal] else []
    change ++ .text (draw cell) :: paint range draw now rest

def drawSource (cell : Cell) : String :=
  if cell.char = '\t' then "".pushn ' ' cell.width else String.singleton cell.char

/-- Carets under the range, and blanks before it. -/
def drawCarets (range : Span) (cell : Cell) : String :=
  if cell.touches range then "".pushn '^' cell.width
  else if cell.offset < range.stop then "".pushn ' ' cell.width
  else ""

/-- The line without the newlines, carriage returns and NULs at its end. -/
def shown (text : List Char) : List Char :=
  (text.reverse.dropWhile fun c => c = '\n' || c = '\r' || c = '\x00').reverse

def blue : Style := ⟨false, some .blue⟩

/-- The place, the source line, and the carets with the label behind them. At least one byte is
marked, which may be the one behind the line. -/
def render (path : String) (src : List Char) (span : Span) (label : String) : Styled :=
  let line := lineAt src span.start
  let column := charsWithin (span.start - line.start) line.text + 1
  let first := span.start - line.start
  let range : Span := ⟨first, max (span.stop - line.start) (first + 1)⟩
  let text := shown line.text
  let source := cells 0 0 text
  let number := Nat.repr line.number
  let pad := "".pushn ' ' number.length ++ " "
  let place := path ++ ":" ++ number ++ ":" ++ Nat.repr column
  .text pad :: Styled.within blue "┌─" ++ [.text (" " ++ place ++ "\n")] ++
    .text pad :: Styled.within blue "│" ++ [.text "\n"] ++
    Styled.within blue number ++ .text " " :: Styled.within blue "│" ++
    .text " " :: paint range drawSource false source ++ [.text "\n"] ++
    .text pad :: Styled.within blue "│" ++
    .text " " :: paint range (drawCarets range) false
      (source ++ [⟨'\x00', Text.byteLength text, 1⟩]) ++
    (if label = "" then [] else .text " " :: Styled.within marked label) ++
    [.text "\n\n"]

end LetFn.Snippet
