import BuildMatrix.Terminal.Width
import BuildMatrix.Text.Split

/-!
# Wrapping text to a width

A line is broken before the word that does not fit on it any more; the space before that word
stays behind. A word that is wider than a whole line is broken wherever a line is full. Layout
can hand out fractions of a column, so the limit is a ratio.
-/

namespace BuildMatrix.Terminal

/-- A number of columns, as a ratio. -/
structure Extent where
  num : Nat
  den : Nat := 1
deriving DecidableEq, Repr

namespace Extent

/-- Whether a number of columns fits. -/
def holds (e : Extent) (columns : Nat) : Bool := columns * e.den ≤ e.num

/-- Whether a number of columns takes up all of the extent. -/
def isFilledBy (e : Extent) (columns : Nat) : Bool := e.num ≤ columns * e.den

/-- Whether a number of columns is the extent. -/
def isExactly (e : Extent) (columns : Nat) : Bool := columns * e.den = e.num

end Extent

/-- Lines in the making: those that are full, and the one that is being filled. -/
structure Lines where
  done : List (List Char) := []
  current : List Char := []
deriving DecidableEq, Repr

namespace Lines

/-- Ends the current line. -/
def endLine (ls : Lines) : Lines := ⟨ls.done ++ [ls.current], []⟩

/-- Adds characters to the current line. -/
def put (ls : Lines) (cs : List Char) : Lines := { ls with current := ls.current ++ cs }

/-- All lines. -/
def all (ls : Lines) : List (List Char) := ls.done ++ [ls.current]

/-- The columns that the current line takes. -/
def room (ls : Lines) : Nat := widthOf ls.current

/-- Adds a word character by character and ends every line that is full. `filled` counts the
columns of the current line; the count that is left at the end comes with the lines. -/
def breakWord (limit : Extent) (ls : Lines) (filled : Nat) : List Char → Lines × Nat
  | [] => (ls, filled)
  | c :: rest =>
    let fits := limit.holds (filled + width c)
    let ls := if fits then ls.put [c] else ls.endLine.put [c]
    let filled := if fits then filled + width c else width c
    if limit.isExactly filled && !rest.isEmpty then breakWord limit ls.endLine 0 rest
    else breakWord limit ls filled rest

/-- Takes back a line end after which nothing visible has followed. -/
def rejoin (ls : Lines) : Lines :=
  match ls.done.reverse with
  | [] => ls
  | last :: earlier =>
    if ls.current.isEmpty then ls else ⟨earlier.reverse, last ++ ls.current⟩

/-- Adds a word that is wider than a line. It starts on a line of its own if that saves a break. -/
def putLong (limit : Extent) (ls : Lines) (word : List Char) : Lines :=
  let breaksHere := (widthOf word + ls.room - 1) * limit.den / limit.num
  let breaksBelow := (widthOf word - 1) * limit.den / limit.num
  let ls := if breaksBelow < breaksHere then ls.endLine else ls
  match breakWord limit ls ls.room word with
  | (ls, 0) => ls.rejoin
  | (ls, _) => ls

/-- Adds a word. -/
def putWord (limit : Extent) (ls : Lines) (word : List Char) : Lines :=
  if !limit.holds (widthOf word) then ls.putLong limit word
  else if !limit.holds (ls.room + widthOf word) && 0 < ls.room && 0 < widthOf word then
    ls.endLine.put word
  else ls.put word

/-- Adds the space before a word; a line that is full ends first. -/
def putSpace (limit : Extent) (ls : Lines) : Lines :=
  if limit.isFilledBy ls.room then ls.endLine.put [' '] else ls.put [' ']

end Lines

/-- The lines of a text without line ends. -/
def wrapLine (limit : Extent) (line : List Char) : List (List Char) :=
  match Text.splitAt ' ' line with
  | [] => []
  | first :: words =>
    let start := Lines.putWord limit {} first
    (words.foldl (fun ls word => (ls.putSpace limit).putWord limit word) start).all

/-- A carriage return before a line feed belongs to the line end. -/
def joinLineEnds : List Char → List Char
  | [] => []
  | '\r' :: '\n' :: rest => '\n' :: joinLineEnds rest
  | c :: rest => c :: joinLineEnds rest

/-- The lines of a text, none wider than the limit if its characters allow it. -/
def wrap (limit : Extent) (text : List Char) : List (List Char) :=
  (Text.splitAt '\n' (joinLineEnds text)).flatMap (wrapLine limit)

end BuildMatrix.Terminal
