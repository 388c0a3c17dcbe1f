import BuildMatrix.Json
import BuildMatrix.Text.Excerpt

/-!
# Reading JSON text

Every reader takes the characters that are left and gives a value with the characters after it.
Where a text stops being JSON, the fault holds what is left from there on, so that a message can
show the place.
-/

namespace BuildMatrix.Json

/-- The value of a hexadecimal digit. -/
def hexValue? (c : Char) : Option Nat :=
  if '0' ≤ c ∧ c ≤ '9' then some (c.toNat - 48)
  else if 'a' ≤ c ∧ c ≤ 'f' then some (c.toNat - 87)
  else if 'A' ≤ c ∧ c ≤ 'F' then some (c.toNat - 55)
  else none

/-- The value of four hexadecimal digits. -/
def hexValue4? (a b c d : Char) : Option Nat := do
  let a ← hexValue? a
  let b ← hexValue? b
  let c ← hexValue? c
  let d ← hexValue? d
  return ((a * 16 + b) * 16 + c) * 16 + d

/-- The character that a backslash and one letter stand for. -/
def unescape? : Char → Option Char
  | '"' => some '"'
  | '\\' => some '\\'
  | '/' => some '/'
  | 'b' => some '\x08'
  | 'f' => some '\x0c'
  | 'n' => some '\n'
  | 'r' => some '\r'
  | 't' => some '\t'
  | _ => none

/-- The character of a pair of surrogates. -/
def surrogatePair? (high low : Nat) : Option Char :=
  if 0xD800 ≤ high ∧ high < 0xDC00 ∧ 0xDC00 ≤ low ∧ low < 0xE000 then
    some (Char.ofNat (0x10000 + (high - 0xD800) * 0x400 + (low - 0xDC00)))
  else none

/-- The character of one escaped unit, if it is not a surrogate. -/
def unitChar? (n : Nat) : Option Char :=
  if 0xD800 ≤ n ∧ n < 0xE000 then none else some (Char.ofNat n)

/-- Where and why reading has stopped. -/
inductive ReadFault where
  | unexpected (rest : List Char)
  | noNumberAfterMinus (rest : List Char)
deriving DecidableEq, Repr

/-- What a reader finds, and what is left after it. -/
abbrev Reading (α : Type) := Except ReadFault (α × List Char)

/-- Changes what a reader has found. -/
def Reading.map {α β : Type} (f : α → β) : Reading α → Reading β
  | .ok (a, rest) => .ok (f a, rest)
  | .error fault => .error fault

/-- Reads the rest of a quoted text, up to and with the closing quote. -/
def readQuoted : List Char → Reading (List Char)
  | [] => .error (.unexpected [])
  | '"' :: rest => .ok ([], rest)
  | '\\' :: 'u' :: a :: b :: c :: d :: rest =>
    match hexValue4? a b c d with
    | none => .error (.unexpected (a :: b :: c :: d :: rest))
    | some high =>
      match unitChar? high with
      | some ch => (readQuoted rest).map (ch :: ·)
      | none =>
        match rest with
        | '\\' :: 'u' :: a :: b :: c :: d :: tail =>
          match (hexValue4? a b c d).bind (surrogatePair? high) with
          | some ch => (readQuoted tail).map (ch :: ·)
          | none => .error (.unexpected rest)
        | _ => .error (.unexpected rest)
  | '\\' :: e :: rest =>
    match unescape? e with
    | some ch => (readQuoted rest).map (ch :: ·)
    | none => .error (.unexpected (e :: rest))
  | c :: rest =>
    if c.toNat < 32 ∨ c = '\\' then .error (.unexpected (c :: rest))
    else (readQuoted rest).map (c :: ·)

/-- Splits a run of digits off. -/
def spanDigits (cs : List Char) : List Char × List Char := cs.span Char.isDigit

/-- The number that a run of digits writes. -/
def digitsValue (cs : List Char) : Nat := cs.foldl (fun n c => 10 * n + (c.toNat - 48)) 0

/-- Reads an exponent, if one follows. -/
def readExponent (cs : List Char) : Reading Int :=
  match cs with
  | e :: rest =>
    if e = 'e' ∨ e = 'E' then
      let (negative, rest) := match rest with
        | '-' :: rest => (true, rest)
        | '+' :: rest => (false, rest)
        | _ => (false, rest)
      match spanDigits rest with
      | ([], rest) => .error (.unexpected rest)
      | (ds, rest) =>
        let n : Int := digitsValue ds
        .ok (if negative then -n else n, rest)
    else .ok (0, cs)
  | [] => .ok (0, [])

/-- Reads the digits after a point, if there is one. -/
def readFraction (cs : List Char) : Reading (List Char) :=
  match cs with
  | '.' :: rest =>
    match spanDigits rest with
    | ([], rest) => .error (.unexpected rest)
    | (ds, rest) => .ok (ds, rest)
  | _ => .ok ([], cs)

/-- Reads a number. -/
def readNumber (cs : List Char) : Reading Number :=
  let (negative, digits) := match cs with
    | '-' :: rest => (true, rest)
    | _ => (false, cs)
  match spanDigits digits with
  | ([], rest) =>
    .error (if negative then .noNumberAfterMinus rest else .unexpected rest)
  | ('0' :: next :: more, rest) => .error (.unexpected (next :: more ++ rest))
  | (whole, rest) =>
    match readFraction rest with
    | .error fault => .error fault
    | .ok (fraction, rest) =>
      (readExponent rest).map fun exponent =>
        Number.ofDecimal negative (digitsValue (whole ++ fraction)) (exponent - fraction.length)

/-- Skips blanks between tokens. -/
def skipBlanks (cs : List Char) : List Char :=
  cs.dropWhile fun c => c == ' ' || c == '\n' || c == '\r' || c == '\t'

/-- Takes the letters of a word off the front. -/
def readWord (v : Json) : List Char → List Char → Reading Json
  | [], cs => .ok (v, cs)
  | _ :: _, [] => .error (.unexpected [])
  | letter :: letters, c :: rest =>
    if c = letter then readWord v letters rest else .error (.unexpected (c :: rest))

mutual

/-- Reads a value after blanks. The first argument bounds the depth of the recursion. -/
def readValue : Nat → List Char → Reading Json
  | 0, cs => .error (.unexpected cs)
  | n + 1, cs =>
    match skipBlanks cs with
    | '"' :: rest => (readQuoted rest).map fun s => .string (.ofList s)
    | '[' :: rest =>
      match skipBlanks rest with
      | ']' :: rest => .ok (.array [], rest)
      | rest => (readItems n rest).map .array
    | '{' :: rest =>
      match skipBlanks rest with
      | '}' :: rest => .ok (.object [], rest)
      | rest => (readFields n rest).map fun fields => .object (Record.ofList fields)
    | 't' :: rest => readWord (.bool true) "rue".toList rest
    | 'f' :: rest => readWord (.bool false) "alse".toList rest
    | 'n' :: rest => readWord .null "ull".toList rest
    | rest => (readNumber rest).map .number

/-- Reads items up to and with the closing bracket. -/
def readItems : Nat → List Char → Reading (List Json)
  | 0, cs => .error (.unexpected cs)
  | n + 1, cs =>
    match readValue n cs with
    | .error fault => .error fault
    | .ok (v, rest) =>
      match skipBlanks rest with
      | ',' :: rest => (readItems n rest).map (v :: ·)
      | ']' :: rest => .ok ([v], rest)
      | rest => .error (.unexpected rest)

/-- Reads fields up to and with the closing brace. -/
def readFields : Nat → List Char → Reading (List (String × Json))
  | 0, cs => .error (.unexpected cs)
  | n + 1, cs =>
    match skipBlanks cs with
    | '"' :: rest =>
      match readQuoted rest with
      | .error fault => .error fault
      | .ok (name, rest) =>
        match skipBlanks rest with
        | ':' :: rest =>
          match readValue n rest with
          | .error fault => .error fault
          | .ok (v, rest) =>
            let field := (String.ofList name, v)
            match skipBlanks rest with
            | ',' :: rest => (readFields n rest).map (field :: ·)
            | '}' :: rest => .ok ([field], rest)
            | rest => .error (.unexpected rest)
        | rest => .error (.unexpected rest)
    | rest => .error (.unexpected rest)

end

/-- Reads a whole text as one value. -/
def read (text : String) : Except ReadFault Json :=
  let cs := text.toList
  match readValue (2 * cs.length + 2) cs with
  | .error fault => .error fault
  | .ok (v, rest) =>
    match skipBlanks rest with
    | [] => .ok v
    | rest => .error (.unexpected rest)

/-- The value that a text holds, if it is JSON. -/
def read? (text : String) : Option Json := (read text).toOption

namespace ReadFault

/-- How many units a message shows on each side of the place. -/
def reach : Nat := 10

/-- The text around an offset, with dots where it has been cut. A short text is shown whole. -/
def around (cs : List Char) (offset : Nat) : List Char :=
  let quoted (part : List Char) : List Char := '"' :: part ++ ['"']
  let dots := "...".toList
  let length := Text.widthOf cs
  if length ≤ 2 * reach then quoted cs
  else if offset < reach then quoted (Text.slice 0 (some (offset + reach)) cs) ++ dots
  else if offset + reach < length then
    dots ++ quoted (Text.slice (offset - reach) (some (offset + reach)) cs) ++ dots
  else dots ++ quoted (Text.slice (offset - reach) none cs)

/-- The message for a fault in a text. -/
def message (fault : ReadFault) (text : String) : String :=
  let cs := text.toList
  let offset (rest : List Char) : Nat := Text.widthOf cs - Text.widthOf rest
  match fault with
  | .unexpected [] => "Unexpected end of JSON input"
  | .unexpected (c :: rest) =>
    "Unexpected token '" ++ String.singleton c ++ "', " ++
      .ofList (around cs (offset (c :: rest))) ++ " is not valid JSON"
  | .noNumberAfterMinus rest =>
    let before := Text.takeUnits (offset rest) cs
    let line := before.count '\n' + 1
    let column := Text.widthOf (before.reverse.takeWhile (· != '\n')) + 1
    "No number after minus sign in JSON at position " ++ toString (offset rest) ++
      " (line " ++ toString line ++ " column " ++ toString column ++ ")"

end ReadFault

end BuildMatrix.Json
