/-!
# Binary floating-point numbers of double precision

A number is stored exactly, as a sign, a whole mantissa and a power of two. The mantissa of a
nonzero number is odd, so equal numbers are equal values.
-/

namespace BuildMatrix

/-- A double: not a number, an infinity, or `± mantissa · 2 ^ exponent`. -/
inductive Number where
  | nan
  | infinite (negative : Bool)
  | finite (negative : Bool) (mantissa : Nat) (exponent : Int)
deriving DecidableEq, Repr, Inhabited

namespace Number

/-- Zero of a given sign. -/
def zero (negative : Bool) : Number := .finite negative 0 0

/-- Moves up to `n` factors of two from the mantissa to the exponent. -/
def stripTwos : Nat → Nat → Int → Nat × Int
  | 0, m, e => (m, e)
  | n + 1, m, e => if m % 2 = 0 then stripTwos n (m / 2) (e + 1) else (m, e)

/-- The number `± m · 2 ^ e` with an odd mantissa. -/
def normal (negative : Bool) (m : Nat) (e : Int) : Number :=
  if m = 0 then zero negative
  else
    let (m, e) := stripTwos (m.log2 + 1) m e
    .finite negative m e

/-- The whole number nearest to a quotient; of two equally near, the even one. -/
def divRound (num den : Nat) : Nat :=
  let down := num / den
  let rest := num % den
  if 2 * rest < den then down
  else if den < 2 * rest then down + 1
  else down + down % 2

/-- `num / (den · 2 ^ e)` as a pair of numerator and denominator. -/
def scaleDown (num den : Nat) (e : Int) : Nat × Nat :=
  if 0 ≤ e then (num, den <<< e.toNat) else (num <<< (-e).toNat, den)

/-- The double nearest to `± num / den`: 53 bits of mantissa, exponents from -1074, and an
infinity from 2 ^ 1024 on. -/
def nearest (negative : Bool) (num den : Nat) : Number :=
  if num = 0 then zero negative
  else
    let low : Int := (num.log2 : Int) - den.log2 - 53
    let (n, d) := scaleDown num den low
    let e := max (if n / d < 1 <<< 53 then low else low + 1) (-1074)
    let (n, d) := scaleDown num den e
    let m := divRound n d
    if 1024 ≤ (m.log2 : Int) + e then .infinite negative else normal negative m e

/-- Ten to the power of `n`. -/
def tenTo (n : Nat) : Nat := Nat.pow 10 n

/-- The double nearest to `± digits · 10 ^ exponent`. -/
def ofDecimal (negative : Bool) (digits : Nat) (exponent : Int) : Number :=
  if digits = 0 then zero negative
  else if 400 < exponent then .infinite negative
  else if (digits.log2 : Int) + exponent < -400 then zero negative
  else if 0 ≤ exponent then nearest negative (digits * tenTo exponent.toNat) 1
  else nearest negative digits (tenTo (-exponent).toNat)

/-- The double nearest to a natural number. -/
def ofNat (n : Nat) : Number := nearest false n 1

instance (n : Nat) : OfNat Number n := ⟨ofNat n⟩

/-- Whether a number is finite and whole. -/
def isWhole : Number → Bool
  | .finite _ m e => m == 0 || 0 ≤ e
  | _ => false

/-- Whether a number is above zero. -/
def isPositive : Number → Bool
  | .nan => false
  | .infinite negative => !negative
  | .finite negative m _ => !negative && m != 0

/-- Numerical equality: the two zeros are equal, and `nan` differs from itself. -/
def same : Number → Number → Bool
  | .nan, _ | _, .nan => false
  | .finite _ 0 _, .finite _ 0 _ => true
  | a, b => a == b

/-- The number with the other sign. -/
def neg : Number → Number
  | .nan => .nan
  | .infinite negative => .infinite !negative
  | .finite negative m e => .finite (!negative) m e

end Number

end BuildMatrix
