import BuildMatrix.Yaml.Directive

/-!
# The values of scalars

A plain scalar without a tag is tried as nothing, a truth value, a whole number and a number with a
point, in this order, and is a text if it is none of them. Both versions of the format have this
order; the older one has more notations, and knows dates.
-/

namespace BuildMatrix.Yaml

/-- The value of a scalar. Of a date only the kind is kept, of a merge key the fact that it is
one. -/
inductive Scalar where
  | null
  | bool (value : Bool)
  | number (value : Number)
  | string (value : String)
  | date
  | bytes (values : List Nat)
  | merge
deriving DecidableEq, Repr, Inhabited

namespace Scalar

/-- Whether two keys are the same. -/
def same : Scalar → Scalar → Bool
  | .null, .null => true
  | .bool a, .bool b => a == b
  | .number a, .number b => a.same b
  | .string a, .string b => a == b
  | _, _ => false

/-! ## Reading numbers -/

/-- A sign, and the rest of a text. -/
def cutSign : List Char → Bool × List Char
  | '-' :: rest => (true, rest)
  | '+' :: rest => (false, rest)
  | cs => (false, cs)

/-- The number that digits of a base write. -/
def digitsValue (base : Nat) (cs : List Char) : Nat :=
  cs.foldl (fun n c => n * base + (Json.hexValue? c).getD 0) 0

/-- A whole number; without digits it is not a number. -/
def whole (negative : Bool) (base : Nat) (digits : List Char) : Scalar :=
  if digits.isEmpty then .number .nan
  else
    let n := Number.ofNat (digitsValue base digits)
    .number (if negative then n.neg else n)

/-- A text without underscores. -/
def dropUnderscores (cs : List Char) : List Char := cs.filter (· != '_')

/-- Cuts an exponent off the end: the text before it, and its value. -/
def cutExponent? (cs : List Char) : Option (List Char × Int) :=
  let before := cs.takeWhile fun c => c != 'e' && c != 'E'
  match cs.drop before.length with
  | _ :: exponent =>
    let (negative, digits) := cutSign exponent
    if digits.isEmpty || !digits.all Char.isDigit then none
    else
      let n : Int := digitsValue 10 digits
      some (before, if negative then -n else n)
  | [] => none

/-- A decimal number with an optional point. Without digits it is not a number. -/
def decimal (negative : Bool) (cs : List Char) (exponent : Int) : Number :=
  let before := cs.takeWhile Char.isDigit
  let after := (cs.drop (before.length + 1)).takeWhile Char.isDigit
  if before.isEmpty && after.isEmpty then .nan
  else
    Number.ofDecimal negative (digitsValue 10 (before ++ after)) (exponent - after.length)

/-- Digits with one point among them. -/
def isPointed (digit : Char → Bool) (cs : List Char) : Bool :=
  match cs.dropWhile digit with
  | '.' :: after => after.all digit
  | _ => false

/-- Digits with at most one point among them. -/
def isDecimal (digit : Char → Bool) (cs : List Char) : Bool := cs.all digit || isPointed digit cs

/-- The words for infinities and for what is not a number. -/
def special? (cs : List Char) : Option Number :=
  let (negative, rest) := cutSign cs
  let word := String.ofList
  if [".inf", ".Inf", ".INF"].contains (word rest) then some (.infinite negative)
  else if [".nan", ".NaN", ".NAN"].contains (word cs) then some .nan
  else none

/-! ## The tags of plain scalars -/

/-- The tags that a plain scalar can have by its text. -/
inductive PlainTag where
  | null
  | bool
  | int
  | float
  | timestamp
  | merge
deriving DecidableEq, Repr

/-- The words for nothing. -/
def null? (cs : List Char) : Option Scalar :=
  if ["", "~", "null", "Null", "NULL"].contains (String.ofList cs) then some .null else none

/-- The words for truth values. -/
def bool? (version : Version) (cs : List Char) : Option Scalar :=
  let s := String.ofList cs
  let yes := ["true", "True", "TRUE"] ++
    if version = .v11 then ["Y", "y", "Yes", "yes", "YES", "On", "on", "ON"] else []
  let no := ["false", "False", "FALSE"] ++
    if version = .v11 then ["N", "n", "No", "no", "NO", "Off", "off", "OFF"] else []
  if yes.contains s then some (.bool true)
  else if no.contains s then some (.bool false)
  else none

/-- A text after a start. -/
def after? (start : String) (cs : List Char) : Option (List Char) :=
  if start.toList.isPrefixOf cs then some (cs.drop start.length) else none

/-- Digits of a base after a mark. -/
def based? (mark : String) (base : Nat) (cs : List Char) : Option Scalar :=
  match after? mark cs with
  | some digits =>
    if !digits.isEmpty && digits.all (fun c => (Json.hexValue? c).any (· < base)) then
      some (whole false base digits)
    else none
  | none => none

/-- Whole numbers: octal, decimal and hexadecimal. -/
def int12? (cs : List Char) : Option Scalar :=
  match based? "0o" 8 cs with
  | some s => some s
  | none =>
    let (negative, digits) := cutSign cs
    if !digits.isEmpty && digits.all Char.isDigit then some (whole negative 10 digits)
    else based? "0x" 16 cs

/-- Digits of a base with underscores among them, after a mark and an optional sign. -/
def spaced? (mark : String) (base : Nat) (cs : List Char) : Option Scalar :=
  let (negative, rest) := cutSign cs
  match after? mark rest with
  | some digits =>
    if !digits.isEmpty && digits.all (fun c => c == '_' || (Json.hexValue? c).any (· < base)) then
      some (whole negative base (dropUnderscores digits))
    else none
  | none => none

/-- The parts of a text between colons. -/
def colonParts (cs : List Char) : List (List Char) :=
  cs.foldr (fun c parts =>
    match parts with
    | [] => [[c]]
    | part :: rest => if c == ':' then [] :: part :: rest else (c :: part) :: rest) [[]]

/-- A part of at most sixty units. -/
def isSixtieth (cs : List Char) : Bool :=
  match cs with
  | [c] => c.isDigit
  | [a, b] => '0' ≤ a && a ≤ '5' && b.isDigit
  | _ => false

/-- A digit or an underscore. -/
def isSpacedDigit (c : Char) : Bool := c.isDigit || c == '_'

/-- A number in base sixty, such as `1:30`, with a fraction if asked for. -/
def sexagesimal? (withFraction : Bool) (cs : List Char) : Option Scalar :=
  let (negative, rest) := cutSign cs
  let body := rest.takeWhile (· != '.')
  let fraction := rest.drop body.length
  match colonParts body with
  | first :: second :: more =>
    if (first.head?.any Char.isDigit) && first.all isSpacedDigit &&
        (second :: more).all isSixtieth &&
        (if withFraction then fraction.head? == some '.' && (fraction.drop 1).all isSpacedDigit
          else fraction.isEmpty) then
      let units := (second :: more).foldl (fun n part => n * 60 + digitsValue 10 part)
        (digitsValue 10 (dropUnderscores first))
      let digits := dropUnderscores (fraction.drop 1)
      some (.number (Number.ofDecimal negative
        (units * Number.tenTo digits.length + digitsValue 10 digits) (-(digits.length : Int))))
    else none
  | _ => none

/-- Whole numbers of the older version: binary, octal, decimal, hexadecimal and in base sixty. -/
def int11? (cs : List Char) : Option Scalar :=
  let (_, digits) := cutSign cs
  (spaced? "0b" 2 cs).orElse fun _ =>
  (spaced? "0" 8 cs).orElse fun _ =>
  (if digits.head?.any Char.isDigit then spaced? "" 10 cs else none).orElse fun _ =>
  (spaced? "0x" 16 cs).orElse fun _ =>
  sexagesimal? false cs

/-- Numbers with a point or an exponent. -/
def float12? (cs : List Char) : Option Scalar :=
  match special? cs with
  | some n => some (.number n)
  | none =>
    let (negative, rest) := cutSign cs
    let hasDigit (cs : List Char) := cs.any Char.isDigit
    match cutExponent? rest with
    | some (before, exponent) =>
      if hasDigit before && isDecimal Char.isDigit before then
        some (.number (decimal negative before exponent))
      else none
    | none =>
      if hasDigit rest && isPointed Char.isDigit rest then some (.number (decimal negative rest 0))
      else none

/-- Such numbers of the older version, which may hold underscores. -/
def float11? (cs : List Char) : Option Scalar :=
  match special? cs with
  | some n => some (.number n)
  | none =>
    let (negative, rest) := cutSign cs
    let form (cs : List Char) : Bool := cs.head? != some '_' && isDecimal isSpacedDigit cs
    match cutExponent? rest with
    | some (before, exponent) =>
      if form before then some (.number (decimal negative (dropUnderscores before) exponent))
      else none
    | none =>
      if rest.head? != some '_' && isPointed isSpacedDigit rest then
        some (.number (decimal negative (dropUnderscores rest) 0))
      else sexagesimal? true cs

/-- Between one and `n` digits at the front. -/
def cutDigits? (least most : Nat) (cs : List Char) : Option (List Char) :=
  let n := min most (cs.takeWhile Char.isDigit).length
  if least ≤ n then some (cs.drop n) else none

/-- A character at the front. -/
def cutChar? (c : Char) : List Char → Option (List Char)
  | d :: rest => if c = d then some rest else none
  | [] => none

/-- A time zone at the end of a text, or nothing. -/
def isZone (cs : List Char) : Bool :=
  if cs.isEmpty then true
  else
    match cs.dropWhile isWhite with
    | ['Z'] => true
    | s :: rest =>
      if s == '-' || s == '+' then
        let hours (rest : List Char) : Bool :=
          match rest with
          | [h] => h.isDigit
          | [h, ':', a, b] => h.isDigit && a.isDigit && b.isDigit
          | _ => false
        hours rest || match rest with
          | h :: more => ('0' ≤ h && h ≤ '2') && hours more
          | [] => false
      else false
    | [] => false

/-- A time of day after a date. -/
def isTime (cs : List Char) : Bool :=
  (do
    let cs ← cutDigits? 1 2 cs
    let cs ← cutChar? ':' cs
    let cs ← cutDigits? 1 2 cs
    let cs ← cutChar? ':' cs
    let cs ← cutDigits? 1 2 cs
    let cs ← match cs with
      | '.' :: rest =>
        if rest.head?.any Char.isDigit then some (rest.dropWhile Char.isDigit) else none
      | _ => some cs
    if isZone cs then some () else none : Option Unit).isSome

/-- Whether a text is a date, perhaps with a time. -/
def isTimestamp (cs : List Char) : Bool :=
  (do
    let cs ← cutDigits? 4 4 cs
    let cs ← cutChar? '-' cs
    let cs ← cutDigits? 1 2 cs
    let cs ← cutChar? '-' cs
    let cs ← cutDigits? 1 2 cs
    match cs with
    | [] => some ()
    | c :: rest =>
      let time := if c == 't' || c == 'T' then rest
        else if isWhite c then rest.dropWhile isWhite
        else []
      if isTime time then some () else none : Option Unit).isSome

/-- The value of a text under a tag, if it has the form of the tag. -/
def ofTag? (version : Version) (cs : List Char) : PlainTag → Option Scalar
  | .null => null? cs
  | .bool => bool? version cs
  | .int => if version = .v11 then int11? cs else int12? cs
  | .float => if version = .v11 then float11? cs else float12? cs
  | .timestamp => if isTimestamp cs then some .date else none
  | .merge => if cs = ['<', '<'] then some .merge else none

/-- The tags that are tried on a plain scalar, in order. -/
def plainTags (version : Version) (atKey : Bool) : List PlainTag :=
  [.null, .bool, .int, .float] ++
    if version = .v11 then (if atKey then [.merge] else []) ++ [.timestamp] else []

/-- The value of a plain scalar without a tag. -/
def ofPlain (version : Version) (atKey : Bool) (cs : List Char) : Scalar :=
  ((plainTags version atKey).findSome? (ofTag? version cs)).getD (.string (.ofList cs))

/-- The value of a character of base 64. -/
def sextet? (c : Char) : Option Nat :=
  if 'A' ≤ c && c ≤ 'Z' then some (c.toNat - 65)
  else if 'a' ≤ c && c ≤ 'z' then some (c.toNat - 71)
  else if c.isDigit then some (c.toNat + 4)
  else if c == '+' then some 62
  else if c == '/' then some 63
  else none

/-- The bytes of sextets. -/
def bytesOf : List Nat → List Nat
  | a :: b :: c :: d :: rest =>
    let n := ((a * 64 + b) * 64 + c) * 64 + d
    n / 65536 :: n / 256 % 256 :: n % 256 :: bytesOf rest
  | [a, b, c] => let n := (a * 64 + b) * 64 + c; [n / 1024, n / 4 % 256]
  | [a, b] => [(a * 64 + b) / 16]
  | _ => []

/-- The bytes that a text writes in base 64. -/
def base64? (cs : List Char) : Option (List Nat) :=
  let cs := cs.filter fun c => !(isWhite c || c == '\n' || c == '\r' || c == '\x0c')
  let cs :=
    if cs.length % 4 = 0 then
      match cs.reverse with
      | '=' :: '=' :: rest | '=' :: rest => rest.reverse
      | _ => cs
    else cs
  if cs.length % 4 = 1 then none else (cs.mapM sextet?).map bytesOf

/-- The tag that a full name stands for. -/
def plainTag? : String → Option PlainTag
  | "tag:yaml.org,2002:null" => some .null
  | "tag:yaml.org,2002:bool" => some .bool
  | "tag:yaml.org,2002:int" => some .int
  | "tag:yaml.org,2002:float" => some .float
  | "tag:yaml.org,2002:timestamp" => some .timestamp
  | "tag:yaml.org,2002:merge" => some .merge
  | _ => none

/-- The value of a scalar under the full name of a tag. Under a tag that is not known, or whose
form the text does not have, it is a text. -/
def ofName (version : Version) (name : String) (cs : List Char) : Except Fault Scalar :=
  let text : Scalar := .string (.ofList cs)
  if name = "tag:yaml.org,2002:binary" then
    match base64? cs with
    | some octets => .ok (.bytes octets)
    | none => .error .base64
  else
    match plainTag? name with
    | none => .ok text
    | some tag =>
      match ofTag? version cs tag with
      | some value => .ok value
      | none =>
        if version = .v11 then .ok text
        else
          match tag with
          | .timestamp => .error .timestamp
          | .merge => .ok .merge
          | _ => .ok text

end Scalar

end BuildMatrix.Yaml
