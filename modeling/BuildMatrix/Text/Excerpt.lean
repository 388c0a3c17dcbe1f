import BuildMatrix.Text.Units

/-!
# Places in a text, and the lines that show them

Places are offsets in 16-bit units. A message about a place shows its line, at most eighty units of
it, with marks under the stretch that is meant.
-/

namespace BuildMatrix.Text

/-- A text without the characters that fill a number of units at its start. -/
def dropUnits : Nat → List Char → List Char
  | 0, cs => cs
  | _, [] => []
  | n + 1, c :: rest => dropUnits (n + 1 - width c) rest

/-- The characters at the start of a text that fill a number of units. -/
def takeUnits : Nat → List Char → List Char
  | 0, _ | _, [] => []
  | n + 1, c :: rest => c :: takeUnits (n + 1 - width c) rest

/-- The part of a text between two offsets, or to its end. -/
def slice (start : Nat) (stop : Option Nat) (cs : List Char) : List Char :=
  let rest := dropUnits start cs
  match stop with
  | some stop => takeUnits (stop - start) rest
  | none => rest

/-- A line and a column, both counted from one. -/
structure Position where
  line : Nat
  column : Nat
deriving DecidableEq, Repr

/-- The position of an offset, given the offsets at which lines start. -/
def Position.ofOffset (lineStarts : List Nat) (offset : Nat) : Position :=
  let before := lineStarts.takeWhile (· < offset)
  if lineStarts[before.length]? = some offset then ⟨before.length + 1, 1⟩
  else ⟨before.length, offset - (before.getLast?.getD 0) + 1⟩

/-- The text up to `limit` units; what is cut off is replaced by an ellipsis. -/
def shorten (limit : Nat) (tail : List Char) (cs : List Char) : List Char :=
  if limit < widthOf cs then takeUnits (limit - 1) cs ++ '…' :: tail else cs

/-- The line that holds a stretch of text, with marks under the stretch. A long line is cut, and
the line before it is shown as well if the stretch is at its start. -/
def excerpt (cs : List Char) (lineStarts : List Nat) (start stop : Nat) : List Char :=
  let first := Position.ofOffset lineStarts start
  let last := Position.ofOffset lineStarts stop
  let lineStart (n : Nat) : Nat := (lineStarts[n]?).getD 0
  let whole := slice (lineStart (first.line - 1)) lineStarts[first.line]? cs
  let line := (whole.reverse.dropWhile fun c => c == '\n' || c == '\r').reverse
  let column := first.column - 1
  let (line, column) :=
    if 60 ≤ column && 80 < widthOf line then
      let trim := min (column - 39) (widthOf line - 79)
      ('…' :: dropUnits trim line, column - (trim - 1))
    else (line, column)
  let line := shorten 80 [] line
  let before :=
    if 1 < first.line && (takeUnits column line).all (· == ' ') then
      shorten 80 ['\n'] (slice (lineStart (first.line - 2)) (some (lineStart (first.line - 1))) cs)
    else []
  let shown := before ++ line
  if shown.all (· == ' ') then []
  else
    let count :=
      if last.line = first.line && first.column < last.column then
        max 1 (min (last.column - first.column) (80 - column))
      else 1
    ":\n\n".toList ++ shown ++ '\n' :: List.replicate column ' ' ++
      List.replicate count '^' ++ ['\n']

/-- A message with the place that it speaks of. -/
def locate (message : String) (cs : List Char) (lineStarts : List Nat) (start stop : Nat) :
    String :=
  let first := Position.ofOffset lineStarts start
  message ++ " at line " ++ toString first.line ++ ", column " ++ toString first.column ++
    .ofList (excerpt cs lineStarts start stop)

end BuildMatrix.Text
