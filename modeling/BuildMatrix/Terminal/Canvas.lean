import BuildMatrix.Terminal.Width

/-!
# Styled text on a grid of cells

A picture is a list of items, each a styled run of characters that starts at a cell. A row of the
picture is a blank row over which its items are laid in order, later ones over earlier ones. It is
written with the control sequences that switch styles on and off.
-/

namespace BuildMatrix.Terminal

/-- How a character is shown. -/
inductive Style where
  | plain
  | bold
  | dim
  | cyan
  | yellow
deriving DecidableEq, Repr, Inhabited

namespace Style

/-- The sequence that switches a style on. -/
def on : Style → String
  | .plain => ""
  | .bold => "\x1b[1m"
  | .dim => "\x1b[2m"
  | .cyan => "\x1b[36m"
  | .yellow => "\x1b[33m"

/-- The sequence that switches a style off. Styles of one kind have it in common. -/
def off : Style → String
  | .plain => ""
  | .bold | .dim => "\x1b[22m"
  | .cyan | .yellow => "\x1b[39m"

/-- What is written between characters of two styles. A style that takes the place of another one
of its kind switches it off. -/
def transition (before after : Style) : String :=
  if before = after then ""
  else if before.off = after.off then after.on
  else before.off ++ after.on

end Style

/-- A place on the grid. The second cell of a wide character is empty. -/
structure Cell where
  text : List Char := [' ']
  style : Style := .plain
deriving DecidableEq, Repr

/-- The cells that a character fills. -/
def cellsOf (style : Style) (c : Char) : List Cell :=
  if isDouble c then [⟨[c], style⟩, ⟨[], style⟩] else [⟨[c], style⟩]

/-- A styled run of characters at a place. -/
structure Item where
  x : Nat
  y : Nat
  style : Style := .plain
  text : List Char
deriving DecidableEq, Repr

/-- The cells of an item. -/
def Item.cells (item : Item) : List Cell := item.text.flatMap (cellsOf item.style)

/-- Lays cells over a row, from a column on. -/
def overlay (x : Nat) (cells row : List Cell) : List Cell :=
  row.take x ++ cells ++ row.drop (x + cells.length)

/-- The cells of a row of a picture. -/
def rowCells (columns : Nat) (items : List Item) (y : Nat) : List Cell :=
  (items.filter (·.y == y)).foldl (fun row item => overlay item.x item.cells row)
    (List.replicate columns {})

/-- The text of cells that follow a cell of some style. -/
def cellsChars : Style → List Cell → List Char
  | before, [] => (before.transition .plain).toList
  | before, cell :: rest =>
    (before.transition cell.style).toList ++ cell.text ++ cellsChars cell.style rest

/-- The text of a row. -/
def rowChars (columns : Nat) (items : List Item) (y : Nat) : List Char :=
  cellsChars .plain (rowCells columns items y)

end BuildMatrix.Terminal
