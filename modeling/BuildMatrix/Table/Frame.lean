import BuildMatrix.Table
import BuildMatrix.Terminal.Canvas
import BuildMatrix.Terminal.Wrap
import BuildMatrix.Text.Blank

/-!
# The matrix as a framed table

The frame is as wide as the terminal: a round border, two blank columns and one blank row inside
it, then the title, the heads and the rows. A column of the table is two wider than its longest
cell. If the columns do not fit next to each other, all of them shrink in proportion, to fractions
of a column, and their texts are wrapped; each starts at the nearest whole column.
-/

namespace BuildMatrix

open Terminal

/-- Where a text goes: the exact start and extent, both in parts of which `den` make a column. -/
structure Slot where
  start : Nat
  extent : Nat
  den : Nat := 1
deriving DecidableEq, Repr

/-- The sum of widths or heights. -/
def totalExtent : List Nat → Nat
  | [] => 0
  | n :: rest => n + totalExtent rest

namespace Slot

/-- The whole column that is nearest to the start. -/
def column (slot : Slot) : Nat := (2 * slot.start + slot.den) / (2 * slot.den)

/-- The whole columns that a slot touches. -/
def touched (slot : Slot) : Nat :=
  (slot.start + slot.extent + slot.den - 1) / slot.den - slot.start / slot.den

/-- The extent in columns. -/
def columns (slot : Slot) : Extent := ⟨slot.extent, slot.den⟩

/-- Whether the slot is a whole number of columns wide. -/
def isWhole (slot : Slot) : Bool := slot.extent % slot.den = 0

/-- The whole columns in which a text that fills the slot is shown. -/
def shown (slot : Slot) : Nat :=
  if slot.isWhole then slot.extent / slot.den else slot.touched

/-- Slots side by side, as wide as asked for if there is room for all, and in proportion if not. -/
def sideBySide (room : Nat) (widths : List Nat) : List Slot :=
  let (part, den) := if totalExtent widths ≤ room then (1, 1) else (room, totalExtent widths)
  let starts := widths.mapIdx fun i _ => totalExtent (widths.take i)
  List.zipWith (fun start width => ⟨part * start, part * width, den⟩) starts widths

end Slot

/-- Lines that have been laid out, and the rows that have been kept free for them. -/
structure Block where
  height : Nat
  lines : List (List Char)
deriving DecidableEq, Repr

namespace Block

/-- Lines within a number of columns: as they are if they fit, wrapped if not. -/
def within (columns : Nat) (text : List Char) : List (List Char) :=
  let lines := Text.splitAt '\n' text
  if widest lines ≤ columns then lines else wrap ⟨columns, 1⟩ text

/-- Lays a text out in a slot. A text that fits stays as it is. One that does not is wrapped, and
the slot narrows to the widest line. In less than one column nothing can be wrapped: rows are kept
for the text as it is. -/
def ofText (slot : Slot) (text : List Char) : Block :=
  let lines := Text.splitAt '\n' text
  if text.isEmpty then ⟨0, []⟩
  else if slot.columns.holds (widest lines) then ⟨lines.length, lines⟩
  else if 0 < slot.extent ∧ slot.extent < slot.den then ⟨lines.length, within slot.shown text⟩
  else
    let wrapped := wrap slot.columns text
    let columns := widest wrapped
    if slot.columns.holds columns then
      let lines := within columns text
      ⟨lines.length, lines⟩
    else ⟨wrapped.length, within slot.shown text⟩

end Block

namespace Table

/-- A styled text. -/
abbrev StyledText := Style × String

/-- A band of the frame: texts side by side, each in its slot. -/
structure Band where
  slots : List Slot
  cells : List StyledText
deriving DecidableEq, Repr

namespace Band

/-- A band with a single text. -/
def single (room : Nat) (style : Style) (text : String) : Band :=
  ⟨[⟨0, room, 1⟩], [(style, text)]⟩

/-- The texts, laid out. -/
def blocks (band : Band) : List (Slot × Style × Block) :=
  List.zipWith (fun slot cell => (slot, cell.1, Block.ofText slot cell.2.toList))
    band.slots band.cells

/-- The rows that a band takes. -/
def height (band : Band) : Nat := (band.blocks.map fun b => b.2.2.height).foldl max 0

/-- The items of a band whose first row and column are given. -/
def items (band : Band) (x y : Nat) : List Item :=
  band.blocks.flatMap fun b =>
    b.2.2.lines.mapIdx fun i line => ⟨x + b.1.column, y + i, b.2.1, line⟩

end Band

/-- The items of bands that follow one another from a row on. -/
def stack (x : Nat) : Nat → List Band → List Item
  | _, [] => []
  | y, band :: rest => band.items x y ++ stack x (y + band.height) rest

/-- The cells of a row with their styles. Cells that hold only a hyphen do not stand out. -/
def styledCells (row : JobRow) : List StyledText :=
  [(.plain, row.name), (.cyan, row.image),
    (if row.flags = "-" then .plain else .yellow, row.flags),
    (if row.env = "-" then .dim else .plain, row.env)]

/-- The bands of the table, for some room between the sides of the frame. -/
def bands (room : Nat) (context : RunContext) (rows : List JobRow) (commands : Bool) : List Band :=
  let slots := Slot.sideBySide room ((widths rows).map (· + 2))
  .single room .bold (title context rows.length) ::
    ⟨slots, heads.map fun head => (.dim, head)⟩ ::
    rows.flatMap fun row =>
      ⟨slots, styledCells row⟩ ::
        if commands then [.single room .dim ("  " ++ row.command)] else []

/-- The border of a frame. -/
def border (width height : Nat) : List Item :=
  let edge (left right : Char) : List Char := left :: List.replicate (width - 2) '─' ++ [right]
  let sides := (List.range (height - 2)).map (· + 1)
  ⟨0, 0, .plain, edge '╭' '╮'⟩ ::
    sides.map (⟨0, ·, .plain, ['│']⟩) ++
    sides.map (⟨width - 1, ·, .plain, ['│']⟩) ++
    [⟨0, height - 1, .plain, edge '╰' '╯'⟩]

/-- The framed table on a terminal with some number of columns. A frame is never narrower than its
border and the blanks inside it. -/
def frame (columns : Nat) (context : RunContext) (rows : List JobRow) (commands : Bool) :
    List String :=
  let width := max columns 6
  let bands := bands (width - 6) context rows commands
  let height := totalExtent (bands.map Band.height) + 4
  let items := border width height ++ stack 3 2 bands
  (List.range height).map fun y =>
    .ofList (Text.dropBlanksEnd (rowChars columns items y))

end Table

end BuildMatrix
