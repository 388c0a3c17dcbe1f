/-!
# The room that characters take on a terminal

There are two measures. The *width* of a character is what layout reckons with: controls and
combining marks take no room, East Asian wide characters and emoji take two columns. The *cells*
of a character are what drawing fills: every character fills one cell at least, and two if it is
full width or lies beyond the basic plane.
-/

namespace BuildMatrix.Terminal

/-- Whether a code point lies in one of the ranges, ends included. -/
def inRanges (ranges : List (Nat × Nat)) (n : Nat) : Bool :=
  ranges.any fun range => range.1 ≤ n && n ≤ range.2

/-- The East Asian characters that are wide or full width. -/
def eastAsianWide : List (Nat × Nat) :=
  [(0x1100, 0x115F), (0x11A3, 0x11A7), (0x11FA, 0x11FF), (0x2329, 0x232A), (0x2E80, 0x2E99),
    (0x2E9B, 0x2EF3), (0x2F00, 0x2FD5), (0x2FF0, 0x2FFB), (0x3000, 0x303E), (0x3041, 0x3096),
    (0x3099, 0x30FF), (0x3105, 0x312D), (0x3131, 0x318E), (0x3190, 0x31BA), (0x31C0, 0x31E3),
    (0x31F0, 0x321E), (0x3220, 0x3247), (0x3250, 0x32FE), (0x3300, 0x4DBF), (0x4E00, 0xA48C),
    (0xA490, 0xA4C6), (0xA960, 0xA97C), (0xAC00, 0xD7A3), (0xD7B0, 0xD7C6), (0xD7CB, 0xD7FB),
    (0xF900, 0xFAFF), (0xFE10, 0xFE19), (0xFE30, 0xFE52), (0xFE54, 0xFE66), (0xFE68, 0xFE6B),
    (0xFF01, 0xFF60), (0xFFE0, 0xFFE6), (0x1B000, 0x1B001), (0x1F200, 0x1F202),
    (0x1F210, 0x1F23A), (0x1F240, 0x1F248), (0x1F250, 0x1F251), (0x20000, 0x2FFFD),
    (0x30000, 0x3FFFD)]

/-- The characters that are shown as emoji by themselves. -/
def emoji : List (Nat × Nat) :=
  [(0x231A, 0x231B), (0x23E9, 0x23EC), (0x23F0, 0x23F0), (0x23F3, 0x23F3), (0x25FD, 0x25FE),
    (0x2614, 0x2615), (0x2648, 0x2653), (0x267F, 0x267F), (0x2693, 0x2693), (0x26A1, 0x26A1),
    (0x26AA, 0x26AB), (0x26BD, 0x26BE), (0x26C4, 0x26C5), (0x26CE, 0x26CE), (0x26D4, 0x26D4),
    (0x26EA, 0x26EA), (0x26F2, 0x26F3), (0x26F5, 0x26F5), (0x26FA, 0x26FA), (0x26FD, 0x26FD),
    (0x2705, 0x2705), (0x270A, 0x270B), (0x2728, 0x2728), (0x274C, 0x274C), (0x274E, 0x274E),
    (0x2753, 0x2755), (0x2757, 0x2757), (0x2795, 0x2797), (0x27B0, 0x27B0), (0x27BF, 0x27BF),
    (0x2B1B, 0x2B1C), (0x2B50, 0x2B50), (0x2B55, 0x2B55), (0x1F004, 0x1F004), (0x1F0CF, 0x1F0CF),
    (0x1F18E, 0x1F18E), (0x1F191, 0x1F19A), (0x1F300, 0x1F320), (0x1F32D, 0x1F335),
    (0x1F337, 0x1F37C), (0x1F37E, 0x1F393), (0x1F3A0, 0x1F3CA), (0x1F3CF, 0x1F3D3),
    (0x1F3E0, 0x1F3F0), (0x1F3F4, 0x1F3F4), (0x1F3F8, 0x1F43E), (0x1F440, 0x1F440),
    (0x1F442, 0x1F4FC), (0x1F4FF, 0x1F53D), (0x1F54B, 0x1F54E), (0x1F550, 0x1F567),
    (0x1F57A, 0x1F57A), (0x1F595, 0x1F596), (0x1F5A4, 0x1F5A4), (0x1F5FB, 0x1F64F),
    (0x1F680, 0x1F6C5), (0x1F6CC, 0x1F6CC), (0x1F6D0, 0x1F6D2), (0x1F6D5, 0x1F6D7),
    (0x1F6EB, 0x1F6EC), (0x1F6F4, 0x1F6FC), (0x1F7E0, 0x1F7EB), (0x1F90C, 0x1F93A),
    (0x1F93C, 0x1F945), (0x1F947, 0x1F978), (0x1F97A, 0x1F9CB), (0x1F9CD, 0x1F9FF),
    (0x1FA70, 0x1FA74), (0x1FA78, 0x1FA7A), (0x1FA80, 0x1FA86), (0x1FA90, 0x1FAA8),
    (0x1FAB0, 0x1FAB6), (0x1FAC0, 0x1FAC2), (0x1FAD0, 0x1FAD6)]

/-- The controls, and the combining marks of the basic block. -/
def weightless : List (Nat × Nat) := [(0x00, 0x1F), (0x7F, 0x9F), (0x300, 0x36F)]

/-- The characters of the basic plane that are drawn into two cells. -/
def fullWidth : List (Nat × Nat) :=
  [(0x1100, 0x115F), (0x2329, 0x232A), (0x2E80, 0x303E), (0x3040, 0x3247), (0x3250, 0x4DBF),
    (0x4E00, 0xA4C6), (0xA960, 0xA97C), (0xAC00, 0xD7A3), (0xF900, 0xFAFF), (0xFE10, 0xFE19),
    (0xFE30, 0xFE6B), (0xFF01, 0xFF60), (0xFFE0, 0xFFE6)]

/-- The columns that a character takes in layout. -/
def width (c : Char) : Nat :=
  let n := c.toNat
  if inRanges weightless n then 0
  else if inRanges eastAsianWide n || inRanges emoji n then 2
  else 1

/-- The columns that a run of characters takes. -/
def widthOf : List Char → Nat
  | [] => 0
  | c :: rest => width c + widthOf rest

/-- The columns that the widest of some lines takes. -/
def widest (lines : List (List Char)) : Nat := (lines.map widthOf).foldl max 0

/-- Whether a character is drawn into two cells. -/
def isDouble (c : Char) : Bool := 0xFFFF < c.toNat || inRanges fullWidth c.toNat

end BuildMatrix.Terminal
