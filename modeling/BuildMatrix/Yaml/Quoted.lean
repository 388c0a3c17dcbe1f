import BuildMatrix.Json.Read
import BuildMatrix.Text.Excerpt
import BuildMatrix.Yaml.Fault

/-!
# The text of scalars in the line

A line break inside a scalar is folded into a space, and blank lines into line breaks. Single quotes
have one escape, the doubled quote; double quotes have those that start with a backslash.
-/

namespace BuildMatrix.Yaml

/-- Spaces and tabs. -/
def isWhite (c : Char) : Bool := c == ' ' || c == '\t'

/-- A text cut at its line feeds. -/
def linesOf : List Char → List (List Char)
  | [] => [[]]
  | '\n' :: rest => [] :: linesOf rest
  | c :: rest =>
    match linesOf rest with
    | [] => [[c]]
    | line :: lines => (c :: line) :: lines

/-- A line without a carriage return at its end. -/
def dropReturn (line : List Char) : List Char :=
  if line.getLast? = some '\r' then line.dropLast else line

/-- A line without the white space at its end. -/
def trimLineEnd (line : List Char) : List Char := (line.reverse.dropWhile isWhite).reverse

/-- A line without the white space at its start. -/
def trimLineStart (line : List Char) : List Char := line.dropWhile isWhite

/-- Joins the lines after the first one. One line break becomes a space, and of more breaks in a
row the first is dropped; `breaks` counts the empty lines read before. -/
def foldRest (breaks : Nat) : List (List Char) → List Char
  | [] => []
  | [last] =>
    (if breaks = 0 then [' '] else List.replicate breaks '\n') ++ trimLineStart last
  | line :: rest =>
    let line := trimLineStart (trimLineEnd (dropReturn line))
    if line.isEmpty then foldRest (breaks + 1) rest
    else (if breaks = 0 then [' '] else List.replicate breaks '\n') ++ line ++ foldRest 0 rest

/-- Folds the line breaks of a scalar. -/
def foldLines (cs : List Char) : List Char :=
  match linesOf cs with
  | [] | [_] => cs
  | first :: rest => trimLineEnd (dropReturn first) ++ foldRest 0 rest

/-- What a plain scalar must not start with. -/
def badStart? : List Char → Option String
  | '\t' :: _ => some "a tab character"
  | ',' :: _ => some "flow indicator character ,"
  | '%' :: _ => some "directive indicator character %"
  | '|' :: _ => some "block scalar indicator |"
  | '>' :: _ => some "block scalar indicator >"
  | '@' :: _ => some "reserved character @"
  | '\x60' :: _ => some "reserved character \x60"
  | _ => none

/-- The value of a plain scalar. -/
def plainValue (t : Token) : Reporting (List Char) := do
  match badStart? t.text with
  | some what => report (.point t.start (.plainStart what))
  | none => pure ()
  return foldLines t.text

/-- A text in which doubled single quotes are single ones. -/
def undouble : List Char → List Char
  | '\'' :: '\'' :: rest => '\'' :: undouble rest
  | c :: rest => c :: undouble rest
  | [] => []

/-- The value of a single-quoted scalar. -/
def singleValue (t : Token) : Reporting (List Char) := do
  reportIf (t.text.getLast? != some '\'' || t.text.length == 1) (.point t.stop .openSingleQuote)
  return undouble (foldLines ((t.text.drop 1).dropLast))

/-- The character that a backslash and one more character stand for. -/
def escaped? : Char → Option Char
  | '0' => some '\x00'
  | 'a' => some '\x07'
  | 'b' => some '\x08'
  | 'e' => some '\x1b'
  | 'f' => some '\x0c'
  | 'n' => some '\n'
  | 'r' => some '\r'
  | 't' => some '\t'
  | 'v' => some '\x0b'
  | 'N' => some '\u0085'
  | '_' => some '\u00a0'
  | 'L' => some '\u2028'
  | 'P' => some '\u2029'
  | ' ' => some ' '
  | '"' => some '"'
  | '/' => some '/'
  | '\\' => some '\\'
  | '\t' => some '\t'
  | _ => none

/-- How many digits an escaped character code has. -/
def codeLength? : Char → Option Nat
  | 'x' => some 2
  | 'u' => some 4
  | 'U' => some 8
  | _ => none

/-- The value of hexadecimal digits, if there are as many as asked for. -/
def codeValue? (length : Nat) (cs : List Char) : Option Nat :=
  if cs.length = length then
    (cs.foldl (fun value? c => do
      let value ← value?
      let digit ← Json.hexValue? c
      return value * 16 + digit) (some 0)).filter (· ≤ 0x10FFFF)
  else none

/-- The line breaks and white space after a line feed, with the text that they fold to. -/
def foldBreak : List Char → List Char × List Char
  | '\n' :: rest => let (fold, tail) := foldBreak rest; ('\n' :: fold, tail)
  | '\r' :: '\n' :: rest => let (fold, tail) := foldBreak rest; ('\n' :: fold, tail)
  | c :: rest => if isWhite c then foldBreak rest else ([], c :: rest)
  | [] => ([], [])

/-- Character codes as text. Two surrogates in a row are one character. -/
def ofCodes : List Nat → List Char
  | high :: low :: rest =>
    match Json.surrogatePair? high low with
    | some c => c :: ofCodes rest
    | none => Char.ofNat high :: ofCodes (low :: rest)
  | [code] => [Char.ofNat code]
  | [] => []

/-- Reads a double-quoted text, closing quote included, as character codes. The first argument
bounds the number of steps, the second is the offset of the text. -/
def doubleCodes : Nat → Nat → List Char → Reporting (List Nat)
  | 0, _, _ => pure []
  | _, _, [] | _, _, [_] => pure []
  | n + 1, offset, c :: rest =>
    match c, rest with
    | '\r', '\n' :: _ => doubleCodes n (offset + 1) rest
    | '\n', _ => do
      let (fold, tail) := foldBreak rest
      let fold := if fold.isEmpty then [' '] else fold
      let codes ← doubleCodes n (offset + 1 + (rest.length - tail.length)) tail
      return fold.map Char.toNat ++ codes
    | '\\', '\n' :: tail => do
      let after := tail.dropWhile isWhite
      doubleCodes n (offset + 2 + (tail.length - after.length)) after
    | '\\', '\r' :: '\n' :: tail => do
      let after := tail.dropWhile isWhite
      doubleCodes n (offset + 3 + (tail.length - after.length)) after
    | '\\', e :: tail => do
      match escaped? e with
      | some ch => return ch.toNat :: (← doubleCodes n (offset + 2) tail)
      | none =>
        match codeLength? e with
        | some length =>
          let digits := Text.takeUnits length tail
          let after := offset + 2 + Text.widthOf digits
          match codeValue? length digits with
          | some code => return code :: (← doubleCodes n after (tail.drop digits.length))
          | none =>
            report (.point offset (.escape ('\\' :: e :: digits)))
            doubleCodes n after (tail.drop digits.length)
        | none =>
          report (.point offset (.escape ['\\', e]))
          return '\\'.toNat :: e.toNat :: (← doubleCodes n (offset + 1 + Text.width e) tail)
    | c, rest => do
      if isWhite c then
        let white := c :: rest.takeWhile isWhite
        let tail := rest.dropWhile isWhite
        let codes ← doubleCodes n (offset + white.length) tail
        match tail with
        | '\n' :: _ | '\r' :: '\n' :: _ => return codes
        | _ => return white.map Char.toNat ++ codes
      else return c.toNat :: (← doubleCodes n (offset + Text.width c) rest)

/-- The value of a double-quoted scalar. -/
def doubleValue (t : Token) : Reporting (List Char) := do
  let codes ← doubleCodes t.text.length (t.start + 1) (t.text.drop 1)
  reportIf (t.text.getLast? != some '"' || t.text.length == 1) (.point t.stop .openDoubleQuote)
  return ofCodes codes

/-- The value of a scalar in the line. -/
def leafValue (t : Token) : Reporting (List Char) :=
  match t.kind with
  | .singleQuoted => singleValue t
  | .doubleQuoted => doubleValue t
  | _ => plainValue t

end BuildMatrix.Yaml
