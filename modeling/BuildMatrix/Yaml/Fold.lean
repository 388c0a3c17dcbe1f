import BuildMatrix.Text.Units

/-!
# Breaking long lines of scalars

A line is broken at a space with no white space beside it, which reads back as that space. In
double quotes a line without such a space is broken after any character, with a backslash before
the break.
-/

namespace BuildMatrix.Yaml

/-- The three ways of breaking lines. -/
inductive FoldMode where
  | flow
  | block
  | quoted
deriving DecidableEq, Repr

/-- A break in place of the space at an offset, or after the character there. -/
structure Break where
  offset : Nat
  escaped : Bool
deriving DecidableEq, Repr

/-- The width that lines are kept within. -/
def lineWidth : Nat := 80

/-- The least width of the text of a line, however deep it is indented. -/
def minContentWidth : Nat := 20

/-- The search for breaks. -/
structure FoldScan where
  offset : Nat := 0
  /-- The offset from which on the line is too long. -/
  limit : Nat
  /-- The last space at which the line can be broken. -/
  split : Option Nat := none
  previous : Option Char := none
  /-- The number of characters that are passed over. -/
  skip : Nat := 0
  /-- Whether the last character that is passed over counts as the previous one. -/
  noteSkipped : Bool := false
  /-- The line is too long, and is broken before the next character that is not white. -/
  seeking : Bool := false
  /-- The last escape: the offsets of its first and last character. -/
  escape : Option (Nat × Nat) := none
  /-- A line could not be broken. -/
  overflow : Bool := false
  breaks : List Break := []

namespace FoldScan

/-- White space, line feeds included. -/
def isGap (c : Char) : Bool := c == ' ' || c == '\n' || c == '\t'

/-- Spaces and tabs. -/
def isBlank (c : Char) : Bool := c == ' ' || c == '\t'

/-- How many characters follow a backslash as part of the escape. -/
def escapeLength : List Char → Nat
  | 'x' :: _ => 3
  | 'u' :: _ => 5
  | 'U' :: _ => 9
  | _ => 1

/-- The number of characters, and of units, in the lines that follow and are indented by more than
`indent`. They are not broken. -/
def moreIndented (indent : Nat) (cs : List Char) : Nat × Nat :=
  let rec go : Nat → List Char → Nat × Nat
    | 0, _ => (0, 0)
    | n + 1, cs =>
      if ((cs.take (indent + 1)).takeWhile isBlank).length = indent + 1 then
        let line := cs.takeWhile (· != '\n')
        let more := go n (cs.drop (line.length + 1))
        (line.length + 1 + more.1, Text.widthOf line + 1 + more.2)
      else (0, 0)
  go (cs.length + 1) cs

/-- Breaks before the character at the current offset, and passes over the one after it. -/
def breakBefore (step : Nat) (s : FoldScan) (c : Char) : FoldScan :=
  { s with
    seeking := false
    breaks := ⟨s.offset - 1, true⟩ :: s.breaks
    limit := s.offset - 1 + step
    overflow := true
    skip := s.skip + if Text.width c = 1 then 1 else 0
    noteSkipped := true }

/-- Breaks a line that is too long, at a character that ends at an offset. -/
def breakLine (mode : FoldMode) (step : Nat) (s : FoldScan) (last : Nat) (c : Char) : FoldScan :=
  match s.split with
  | some split =>
    { s with breaks := ⟨split, false⟩ :: s.breaks, limit := split + step, split := none }
  | none =>
    if mode != .quoted then { s with overflow := true }
    else if s.previous.any isBlank then
      if isBlank c then { s with seeking := true } else breakBefore step s c
    else
      let place := match s.escape with
        | some (first, stop) => if last ≤ stop + 1 then first - 1 else last - 2
        | none => last - 2
      { s with breaks := ⟨place, true⟩ :: s.breaks, limit := place + step }

/-- Looks at the next character. -/
def next (mode : FoldMode) (indent step : Nat) (s : FoldScan) (c : Char) (rest : List Char) :
    FoldScan :=
  let after := s.offset + Text.width c
  if s.skip != 0 then
    { s with
      skip := s.skip - 1
      offset := after
      previous := if s.noteSkipped && s.skip == 1 then some c else s.previous }
  else if s.seeking then
    let s := if isBlank c then s else breakBefore step s c
    { s with offset := after, previous := some c }
  else if c == '\n' then
    let (skip, units) := if mode == .block then moreIndented indent rest else (0, 0)
    { s with
      limit := s.offset + units + indent + step
      split := none
      skip
      noteSkipped := false
      offset := after
      previous := some c }
  else
    let escape := mode == .quoted && c == '\\'
    let length := if escape then escapeLength rest else 0
    let s :=
      if escape then
        { s with
          escape := some (s.offset, s.offset + length), skip := length, noteSkipped := false }
      else s
    let canSplit := c == ' ' && s.previous.any (!isGap ·) && rest.head?.any (!isGap ·)
    let s := if canSplit then { s with split := some s.offset } else s
    let last :=
      if s.limit ≤ s.offset then s.offset + length
      else s.offset + length + Text.width c - 1
    let s := if s.limit ≤ last then breakLine mode step s last c else s
    { s with offset := after, previous := some c }

/-- Looks at all characters. -/
def run (mode : FoldMode) (indent step : Nat) (s : FoldScan) : List Char → FoldScan
  | [] => s
  | c :: rest => run mode indent step (next mode indent step s c rest) rest

end FoldScan

/-- A line break with the indentation of the next line. -/
def breakTo (indent : Nat) : List Char := '\n' :: List.replicate indent ' '

/-- Makes the breaks in a text whose first character has a given offset. -/
def applyBreaks (indent offset : Nat) : List Break → List Char → List Char
  | [], cs => cs
  | _, [] => []
  | b :: breaks, c :: rest =>
    let after := offset + Text.width c
    if b.offset < after then
      (if b.escaped then [c, '\\'] else []) ++ breakTo indent ++
        applyBreaks indent after breaks rest
    else c :: applyBreaks indent after (b :: breaks) rest

/-- Breaks the lines of a text that is indented by `indent` and starts in a column. The second
value says whether a line is too long and could not be broken. -/
def fold (mode : FoldMode) (indent column : Nat) (cs : List Char) : List Char × Bool :=
  let step := max (1 + minContentWidth) (1 + lineWidth - indent)
  if Text.widthOf cs ≤ step then (cs, false)
  else
    let (skip, units) := if mode == .block then FoldScan.moreIndented indent cs else (0, 0)
    let limit := if skip = 0 then lineWidth - column else units - 1 + step
    let s := FoldScan.run mode indent step { limit, skip } cs
    (applyBreaks indent 0 s.breaks.reverse cs, s.overflow)

end BuildMatrix.Yaml
