import BuildMatrix.Json
import BuildMatrix.Text.Blank
import BuildMatrix.Yaml.Fold
import BuildMatrix.Yaml.Scalar

/-!
# Writing texts as scalars

A text is written plain if that reads back as the same text, in a block if it has more than one
line, and in quotes otherwise.
-/

namespace BuildMatrix.Yaml

/-- Where a scalar is written. -/
structure Slot where
  /-- The indentation of its further lines. -/
  indent : Nat
  /-- The column that its first line is taken to start in. -/
  column : Nat
  inFlow : Bool := false
  isKey : Bool := false

namespace ScalarText

/-- Control characters that can only be written as escapes. -/
def isControl (c : Char) : Bool :=
  let n := c.toNat
  n ≤ 0x08 || (0x0B ≤ n && n ≤ 0x1F) || (0x7F ≤ n && n ≤ 0x9F)

/-- Spaces and tabs. -/
def isBlank (c : Char) : Bool := c == ' ' || c == '\t'

/-- White space, line feeds included. -/
def isGap (c : Char) : Bool := c == ' ' || c == '\n' || c == '\t'

/-- The characters that a plain scalar cannot start with. -/
def isReserved (c : Char) : Bool :=
  isGap c || ",[]\x7b\x7d#&*!|>'\"%@\x60".toList.contains c

/-- Two characters that cannot follow each other in a plain scalar. -/
def clash (a b : Char) : Bool :=
  ((a == '\n' || a == ':') && isBlank b) || (isBlank a && b == '\n') || (isGap a && b == '#')

/-- Whether two neighbours in a text clash. -/
def hasClash : List Char → Bool
  | a :: b :: rest => clash a b || hasClash (b :: rest)
  | _ => false

/-- Whether a text would not read back as one plain scalar. -/
def needsQuotes (cs : List Char) : Bool :=
  cs.head?.any isReserved ||
  (match cs with
    | [c] => c == '?' || c == '-'
    | a :: b :: _ => (a == '?' || a == '-') && isBlank b
    | [] => false) ||
  hasClash cs || cs.getLast?.any fun c => isGap c || c == ':' || c == '-'

/-- Whether a text would read back as something else than a text. -/
def isValue (cs : List Char) : Bool :=
  match Scalar.ofPlain .v12 false cs with
  | .string _ => false
  | _ => true

/-- A run of spaces. -/
def spaces (n : Nat) : List Char := List.replicate n ' '

/-- The text with indentation after each run of line feeds. -/
def indentRuns (indent : Nat) : List Char → List Char
  | [] => []
  | ['\n'] => '\n' :: spaces indent
  | '\n' :: '\n' :: rest => '\n' :: indentRuns indent ('\n' :: rest)
  | '\n' :: rest => '\n' :: spaces indent ++ indentRuns indent rest
  | c :: rest => c :: indentRuns indent rest

/-! ## Quotes -/

/-- A character in double quotes. -/
def escape (c : Char) : List Char :=
  match c with
  | '\x00' => ['\\', '0']
  | '\x07' => ['\\', 'a']
  | '\x0b' => ['\\', 'v']
  | '\x1b' => ['\\', 'e']
  | c =>
    match Json.escape c with
    | ['\\', 'u', _, _, a, b] => ['\\', 'x', a, b]
    | cs => cs

/-- The characters of a text in double quotes. With `breaking`, a run of line feeds is written as
line breaks, one more than there are line feeds; one at the end stays an escape. -/
def doubleQuotedChars (breaking : Bool) (indent : Nat) (inBreak : Bool) : List Char → List Char
  | [] => []
  | '\n' :: rest =>
    if !breaking || rest.isEmpty then '\\' :: 'n' :: doubleQuotedChars breaking indent false rest
    else
      let first := if inBreak then ['\n'] else ['\n', '\n']
      match rest with
      | '\n' :: _ :: _ => first ++ doubleQuotedChars breaking indent true rest
      | _ =>
        first ++ spaces indent ++ (if rest.head? = some ' ' then ['\\'] else []) ++
          doubleQuotedChars breaking indent false rest
  | c :: rest =>
    (if c == ' ' && rest.head? == some '\n' then ['\\', ' '] else escape c) ++
      doubleQuotedChars breaking indent false rest

/-- Short texts in double quotes stay on one line. -/
def minBrokenLength : Nat := 40

/-- A text in double quotes. -/
def doubleQuoted (slot : Slot) (cs : List Char) : List Char :=
  let length := Text.widthOf (Json.quote (.ofList cs))
  let breaking := !slot.isKey && minBrokenLength ≤ length
  let text := '"' :: doubleQuotedChars breaking slot.indent false cs ++ ['"']
  if slot.isKey then text else (fold .quoted slot.indent slot.column text).1

/-- Whether white space stands beside a line feed. -/
def hasBlankAtBreak : List Char → Bool
  | a :: b :: rest =>
    (isBlank a && b == '\n') || (a == '\n' && isBlank b) || hasBlankAtBreak (b :: rest)
  | _ => false

/-- The text with one more line feed, and indentation, after each run of line feeds. -/
def breakRuns (indent : Nat) (inRun : Bool) : List Char → List Char
  | [] => if inRun then '\n' :: spaces indent else []
  | '\n' :: rest => '\n' :: breakRuns indent true rest
  | c :: rest =>
    (if inRun then '\n' :: spaces indent else []) ++ c :: breakRuns indent false rest

/-- A text in single quotes, if it can be written so. -/
def singleQuoted (slot : Slot) (cs : List Char) : List Char :=
  if (slot.isKey && cs.contains '\n') || hasBlankAtBreak cs then doubleQuoted slot cs
  else
    let doubled := cs.flatMap fun c => if c = '\'' then ['\'', '\''] else [c]
    let text := '\'' :: breakRuns slot.indent false doubled ++ ['\'']
    if slot.isKey then text else (fold .flow slot.indent slot.column text).1

/-- A text in quotes: single ones if it holds double quotes and no single ones. -/
def quoted (slot : Slot) (cs : List Char) : List Char :=
  if cs.contains '"' && !cs.contains '\'' then singleQuoted slot cs else doubleQuoted slot cs

/-! ## Blocks -/

/-- The lengths of the lines of a text. -/
def lineWidths (cs : List Char) : List Nat := (linesOf cs).map Text.widthOf

/-- Whether the last line of a text with several lines is blank but not empty. -/
def endsBlank (cs : List Char) : Bool :=
  let tail := cs.reverse.takeWhile isBlank
  !tail.isEmpty && (cs.reverse.drop tail.length).head? == some '\n'

/-- The text before the white space at the end, and that white space. -/
def splitTail (cs : List Char) : List Char × List Char :=
  let tail := (cs.reverse.takeWhile isGap).reverse
  (cs.take (cs.length - tail.length), tail)

/-- The sign for what becomes of the line feeds at the end. -/
def chompSign (body tail : List Char) : List Char :=
  if !tail.contains '\n' then ['-']
  else if body.isEmpty || tail.idxOf '\n' + 1 != tail.length then ['+']
  else []

/-- The white space at the end with indentation after its runs of line feeds, the last line feed
and a run at the end apart. -/
def tailText (indent : Nat) (tail : List Char) : List Char :=
  let tail := if tail.getLast? = some '\n' then tail.dropLast else tail
  let inner := (tail.reverse.dropWhile (· == '\n')).reverse
  indentRuns indent inner ++ tail.drop inner.length

/-- The spaces and line feeds at the start, up to the last line feed among them. -/
def headText (body : List Char) : List Char :=
  let run := body.takeWhile fun c => c == ' ' || c == '\n'
  (run.reverse.dropWhile (· != '\n')).reverse

/-- A text in which each run of line feeds has one more. -/
def doubleRuns (inRun : Bool) : List Char → List Char
  | [] => []
  | '\n' :: rest => (if inRun then ['\n'] else ['\n', '\n']) ++ doubleRuns true rest
  | c :: rest => c :: doubleRuns false rest

/-- Takes the added line feeds around lines that start with white space away again: such lines
are not folded. -/
def keepIndented : Nat → Bool → List Char → List Char
  | 0, _, cs => cs
  | _, _, [] => []
  | n + 1, atStart, c :: rest =>
    let line? :=
      if atStart && isBlank c then some (c :: rest)
      else if c == '\n' && rest.head?.any isBlank then some rest
      else none
    match line? with
    | none => c :: keepIndented n false rest
    | some cs =>
      let line := cs.takeWhile (!Text.isLineEnd ·)
      let after := cs.drop line.length
      let gap := after.takeWhile isGap
      let beyond := after.drop gap.length
      if gap.getLast? = some '\n' then line ++ gap.dropLast ++ keepIndented n false beyond
      else line ++ keepIndented n false after

/-- A text in a block. One with long lines is folded, unless a line has no space to break at. -/
def block (slot : Slot) (cs : List Char) : List Char :=
  if endsBlank cs then quoted slot cs
  else
    let literal := (lineWidths cs).all (· ≤ lineWidth - slot.indent)
    let (body, tail) := splitTail cs
    let head := headText body
    let body' := body.drop head.length
    let startsWithSpace := (body.takeWhile fun c => c == ' ' || c == '\n').contains ' '
    let header :=
      (if startsWithSpace then ['2'] else []) ++ chompSign body tail ++ breakTo slot.indent
    let start := indentRuns slot.indent head
    let stop := tailText slot.indent tail
    let folded := fold .block slot.indent slot.indent
      (start ++
        indentRuns slot.indent
          (keepIndented (2 * body'.length + 1) true (doubleRuns false body')) ++ stop)
    if !literal && !folded.2 then '>' :: header ++ folded.1
    else '|' :: header ++ start ++ indentRuns slot.indent body' ++ stop

/-! ## The choice -/

/-- A text as a plain scalar, if it can be one. -/
def plain (slot : Slot) (cs : List Char) : List Char :=
  if (slot.isKey && cs.contains '\n') || (slot.inFlow && cs.any fun c =>
      c == '[' || c == ']' || c == '\x7b' || c == '\x7d' || c == ',') then quoted slot cs
  else if cs.contains '\n' && !slot.isKey && !slot.inFlow then block slot cs
  else if needsQuotes cs || isValue cs then quoted slot cs
  else if slot.isKey then cs
  else (fold .flow slot.indent slot.column cs).1

end ScalarText

/-- The characters that write a text as a scalar. -/
def scalarChars (slot : Slot) (cs : List Char) : List Char :=
  if cs.any ScalarText.isControl then ScalarText.doubleQuoted slot cs else ScalarText.plain slot cs

end BuildMatrix.Yaml
