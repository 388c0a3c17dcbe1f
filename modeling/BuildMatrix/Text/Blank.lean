/-!
# Blank characters, line ends and trimming

Blanks are the characters that trimming removes. Line ends are the blanks that end a line of text;
a form feed or a no-break space is blank and ends no line.
-/

namespace BuildMatrix.Text

/-- The blank characters: the ASCII ones, the space separators, the line and paragraph
separators, and the byte order mark. -/
def isBlank (c : Char) : Bool :=
  let n := c.toNat
  (0x09 ≤ n && n ≤ 0x0D) || n == 0x20 || n == 0xA0 || n == 0x1680 ||
  (0x2000 ≤ n && n ≤ 0x200A) || n == 0x2028 || n == 0x2029 || n == 0x202F ||
  n == 0x205F || n == 0x3000 || n == 0xFEFF

/-- The characters that end a line of text. -/
def isLineEnd (c : Char) : Bool :=
  c == '\n' || c == '\r' || c == '\u2028' || c == '\u2029'

/-- A run of characters without the blanks at its start. -/
def dropBlanks (cs : List Char) : List Char := cs.dropWhile isBlank

/-- A run of characters without the blanks at its end. -/
def dropBlanksEnd (cs : List Char) : List Char := (cs.reverse.dropWhile isBlank).reverse

/-- A text without the blanks at its end. -/
def trimEnd (s : String) : String := .ofList (dropBlanksEnd s.toList)

/-- A text without the blanks at both ends. -/
def trim (s : String) : String := .ofList (dropBlanksEnd (dropBlanks s.toList))

end BuildMatrix.Text
