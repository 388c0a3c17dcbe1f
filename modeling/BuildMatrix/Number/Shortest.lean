import BuildMatrix.Number

/-!
# The shortest decimal text of a number

The digits of a number are the fewest that read back as the number, and of those the nearest to
it. Where the point stands, and when an exponent is written, is a separate decision.
-/

namespace BuildMatrix.Number

/-- How many decimal digits a positive number has. -/
def digitCount (n : Nat) : Nat := (Nat.toDigits 10 n).length

/-- The exponent of the leading decimal digit of `num / den`. -/
def leadingPower (num den : Nat) : Int :=
  if den ≤ num then (digitCount (num / den) : Int) - 1
  else
    let n := digitCount (den / num)
    if den ≤ num * tenTo (n - 1) then -((n : Int) - 1) else -(n : Int)

/-- A positive double as the 53-bit mantissa and exponent that it is stored with. -/
def stored (m : Nat) (e : Int) : Nat × Int :=
  let shift := min (52 - m.log2) (e + 1074).toNat
  (m <<< shift, e - shift)

/-- The fractions whose nearest double is a given one: from `low / scale` to `high / scale`,
with the ends when `closed`. -/
structure Interval where
  low : Nat
  value : Nat
  high : Nat
  scale : Nat
  closed : Bool
deriving Repr

/-- The interval of a positive double. Below a power of two the neighbours are half as far. -/
def interval (m : Nat) (e : Int) : Interval :=
  let (s, q) := stored m e
  let below := if s = 1 <<< 52 ∧ -1074 < q then 1 else 2
  let up : Nat := 1 <<< (q - 2).toNat
  let scale : Nat := 1 <<< (2 - q).toNat
  { low := (4 * s - below) * up
    value := 4 * s * up
    high := (4 * s + 2) * up
    scale
    closed := s % 2 = 0 }

namespace Interval

/-- Whether `num / den` lies in the interval. -/
def contains (i : Interval) (num den : Nat) : Bool :=
  let x := num * i.scale
  if i.closed then i.low * den ≤ x && x ≤ i.high * den
  else i.low * den < x && x < i.high * den

/-- The multiple of `10 ^ p` in the interval that is nearest to its value, if there is one. -/
def onGrid? (i : Interval) (p : Int) : Option Nat :=
  let up := tenTo p.toNat
  let down := tenTo (-p).toNat
  let k := i.value * down / (i.scale * up)
  let lower := i.contains (k * up) down
  let upper := i.contains ((k + 1) * up) down
  let twice := 2 * i.value * down
  let middle := (2 * k + 1) * up * i.scale
  if lower && upper then
    some (if twice < middle || (twice == middle && k % 2 == 0) then k else k + 1)
  else if lower then some k
  else if upper then some (k + 1)
  else none

/-- Tries grids of one digit more each time, and ends with the digits found and their power. -/
def firstGrid (i : Interval) : Nat → Int → Nat × Int
  | 0, p => (((i.onGrid? p).getD 0), p)
  | n + 1, p =>
    match i.onGrid? p with
    | some k => (k, p)
    | none => firstGrid i n (p - 1)

end Interval

/-- The fewest digits that read back as `m · 2 ^ e`, with the power of ten of the last one. -/
def shortest (m : Nat) (e : Int) : Nat × Int :=
  let i := interval m e
  let (k, p) := i.firstGrid 17 (leadingPower i.value i.scale)
  if k % 10 = 0 then (k / 10, p + 1) else (k, p)

/-- How the digits of a number are laid out. -/
structure Layout where
  /-- The least exponent of the leading digit that is written without an exponent. -/
  least : Int
  /-- The first exponent of the leading digit that is written with an exponent again. -/
  bound : Int

/-- Plain notation from `0.000001` up to twenty-one digits before the point. -/
def plainLayout : Layout := ⟨-6, 21⟩

/-- Writes digits, the last of which stands for `10 ^ p`. -/
def Layout.render (layout : Layout) (digits : List Char) (p : Int) : List Char :=
  let lead := p + digits.length - 1
  if layout.least ≤ lead && lead < layout.bound then
    if 0 ≤ p then digits ++ List.replicate p.toNat '0'
    else if 0 ≤ lead then digits.take (lead + 1).toNat ++ '.' :: digits.drop (lead + 1).toNat
    else '0' :: '.' :: List.replicate (-lead - 1).toNat '0' ++ digits
  else
    let sign := if lead < 0 then '-' else '+'
    let mantissa := match digits with
      | first :: second :: rest => first :: '.' :: second :: rest
      | _ => digits
    mantissa ++ 'e' :: sign :: Nat.toDigits 10 lead.natAbs

/-- Notation with an exponent for every number. -/
def exponentLayout : Layout := ⟨1, 0⟩

/-- Writes `m · 2 ^ e` with its shortest digits. -/
def Layout.magnitude (layout : Layout) (m : Nat) (e : Int) : List Char :=
  if m = 0 then layout.render ['0'] 0
  else
    let (k, p) := shortest m e
    layout.render (Nat.toDigits 10 k) p

/-- The characters of a positive finite number. -/
def magnitudeChars (m : Nat) (e : Int) : List Char := plainLayout.magnitude m e

/-- The text of a number; both zeros are `0`. -/
def toText : Number → String
  | .nan => "NaN"
  | .infinite negative => if negative then "-Infinity" else "Infinity"
  | .finite negative m e =>
    let magnitude := magnitudeChars m e
    .ofList (if negative && m != 0 then '-' :: magnitude else magnitude)

end BuildMatrix.Number
