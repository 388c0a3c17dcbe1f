import BuildMatrix.Yaml.Quoted

/-!
# The text of block scalars

The header of a block says whether line breaks are kept or folded, what becomes of those at the end,
and perhaps how deep the lines are indented. Without that, the first line that is not blank
decides.
-/

namespace BuildMatrix.Yaml

/-- What becomes of the line breaks at the end of a block scalar. -/
inductive Chomp where
  | clip
  | strip
  | keep
deriving DecidableEq, Repr

/-- What the header of a block scalar says. -/
structure BlockHeader where
  folded : Bool
  /-- The indentation beyond that of the parent; 0 if it is not given. -/
  indent : Nat := 0
  chomp : Chomp := .clip
  /-- The offset of the first character that does not belong into a header. -/
  extra : Option Nat := none
deriving DecidableEq, Repr

namespace BlockHeader

/-- Reads the characters after the block indicator, the first of which is at an offset. -/
def read (h : BlockHeader) (offset : Nat) : List Char → BlockHeader
  | [] => h
  | c :: rest =>
    let h :=
      if h.chomp == .clip && (c == '-' || c == '+') then
        { h with chomp := if c == '-' then .strip else .keep }
      else if h.indent == 0 && '1' ≤ c && c ≤ '9' then { h with indent := c.toNat - 48 }
      else { h with extra := some (h.extra.getD offset) }
    read h (offset + Text.width c) rest

end BlockHeader

/-- Reports what must not follow the header in its line. -/
def checkRemarks (spaced : Bool) : List Token → Reporting Unit
  | [] => pure ()
  | t :: rest => do
    match t.kind with
    | .space => checkRemarks true rest
    | .newline => checkRemarks spaced rest
    | .comment =>
      reportIf (!spaced) (.ofToken t .unspacedComment)
      checkRemarks spaced rest
    | .unknown =>
      report (.ofToken t (.tree (.notToken t.text)))
      checkRemarks spaced rest
    | kind =>
      report (.ofToken t (.blockHeaderToken kind))
      checkRemarks spaced rest

/-- A line of a block scalar: the number of spaces that it starts with, and the rest. -/
structure BlockLine where
  indent : Nat
  content : List Char
deriving DecidableEq, Repr

namespace BlockLine

/-- Reads a line. -/
def ofChars (cs : List Char) : BlockLine :=
  ⟨(cs.takeWhile (· == ' ')).length, cs.dropWhile (· == ' ')⟩

/-- Whether a line holds nothing but spaces and perhaps a carriage return. -/
def isEmpty (line : BlockLine) : Bool := line.content == [] || line.content == ['\r']

/-- The length of a line with its line feed. -/
def width (line : BlockLine) : Nat := line.indent + Text.widthOf line.content + 1

/-- The spaces of a line beyond an indentation. -/
def spacesBeyond (line : BlockLine) (indent : Nat) : List Char :=
  List.replicate (line.indent - indent) ' '

end BlockLine

/-- The lines before the content of a block scalar, the indentation that is cut off, and the
offset of the content. -/
structure BlockStart where
  before : List BlockLine
  indent : Nat
  offset : Nat

/-- Looks for the first line with content. -/
def findContent (explicit atRoot : Bool) (indent offset : Nat) (before : List BlockLine) :
    List BlockLine → Reporting BlockStart
  | [] => pure ⟨[], indent, offset⟩
  | line :: rest =>
    if line.isEmpty then
      let indent := if explicit then indent else max indent line.indent
      findContent explicit atRoot indent (offset + line.width) (before ++ [line]) rest
    else do
      reportIf (line.indent < indent) (.point (offset + line.indent) .leadingEmptyLines)
      let indent := if explicit then indent else line.indent
      reportIf (indent == 0 && !atRoot) (.point offset .unindentedBlock)
      return ⟨before, indent, offset⟩

/-- What stands between the text so far and the next line of a folded scalar. -/
inductive Joint where
  | nothing
  | space
  | break1
  | break2
deriving DecidableEq, Repr

/-- The characters of a joint. -/
def Joint.chars : Joint → List Char
  | .nothing => []
  | .space => [' ']
  | .break1 => ['\n']
  | .break2 => ['\n', '\n']

/-- Joins the lines of the content. The offset is that of the first line. -/
def joinBlock (h : BlockHeader) (indent : Nat) :
    Nat → Joint → Bool → List BlockLine → Reporting (List Char)
  | _, _, _, [] => pure []
  | offset, joint, wasIndented, line :: rest => do
    let next := offset + line.width
    let returned := line.content.getLast? == some '\r'
    let content := dropReturn line.content
    let short := !content.isEmpty && line.indent < indent
    reportIf short (.point (next - Text.widthOf content - if returned then 2 else 1)
      (.blockIndent (h.indent != 0)))
    let spaces := if short then [] else line.spacesBeyond indent
    if !h.folded then
      return joint.chars ++ spaces ++ content ++ (← joinBlock h indent next .break1 false rest)
    else if (!short && indent < line.indent) || content.head? == some '\t' then
      let joint := match joint with
        | .space => Joint.break1
        | .break1 => if wasIndented then .break1 else .break2
        | joint => joint
      return joint.chars ++ spaces ++ content ++ (← joinBlock h indent next .break1 true rest)
    else if content.isEmpty then
      match joint with
      | .break1 => return '\n' :: (← joinBlock h indent next .break1 wasIndented rest)
      | _ => joinBlock h indent next .break1 wasIndented rest
    else
      return joint.chars ++ content ++ (← joinBlock h indent next .space false rest)

/-- The number of lines up to the last one for which a test holds. -/
def lengthUpTo {α : Type} (p : α → Bool) (xs : List α) : Nat :=
  (xs.reverse.dropWhile (!p ·)).length

/-- The value of a block scalar in a collection of a given indentation. -/
def blockValue (header : Token) (remarks : List Token) (parentIndent : Nat) (text : List Char)
    (atRoot : Bool) : Reporting (List Char) := do
  let h := BlockHeader.read { folded := header.text.head? == some '>' } (header.start + 1)
    (header.text.drop 1)
  match h.extra with
  | some offset => report (.point offset (.blockHeader header.text))
  | none => pure ()
  checkRemarks false remarks
  let lines := if text.isEmpty then [] else (linesOf text).map BlockLine.ofChars
  let filled := lengthUpTo (!BlockLine.isEmpty ·) lines
  if filled = 0 then
    return if h.chomp == .keep && !lines.isEmpty then
      List.replicate (max 1 (lines.length - 1)) '\n' else []
  else
    let headerStop := header.stop + Text.widthOf (remarks.flatMap Token.text)
    let start ← findContent (h.indent != 0) atRoot (parentIndent + h.indent) headerStop []
      (lines.take filled)
    let kept := max filled (lengthUpTo (start.indent < ·.indent) lines)
    let content := (lines.take kept).drop start.before.length
    let leading := start.before.flatMap fun line => line.spacesBeyond start.indent ++ ['\n']
    let body ← joinBlock h start.indent start.offset .nothing false content
    let value := leading ++ body
    match h.chomp with
    | .strip => return value
    | .clip => return value ++ ['\n']
    | .keep =>
      let value := value ++
        (lines.drop kept).flatMap fun line => '\n' :: line.spacesBeyond start.indent
      return if value.getLast? == some '\n' then value else value ++ ['\n']

end BuildMatrix.Yaml
