/-!
# Text from bytes

Bytes are read as UTF-8. A stretch that is no encoding of a character is read as U+FFFD: one for
each longest start of an encoding that breaks off, and one for each byte that starts none.
-/

namespace BuildMatrix.Text

/-- An encoding that has been read in part: how many bytes are missing, the value so far, and the
range of the next byte. -/
structure Unfinished where
  missing : Nat
  value : Nat
  low : Nat := 0x80
  high : Nat := 0xBF
deriving DecidableEq, Repr

/-- What a byte in first place stands for. -/
inductive Lead where
  | char (c : Char)
  | start (rest : Unfinished)
  | stray
deriving DecidableEq, Repr

/-- Reads a first byte. The ranges of the second byte keep out encodings that are too long,
surrogates, and values beyond the last character. -/
def Lead.ofByte (b : Nat) : Lead :=
  if b < 0x80 then .char (Char.ofNat b)
  else if b < 0xC2 then .stray
  else if b < 0xE0 then .start { missing := 1, value := b - 0xC0 }
  else if b = 0xE0 then .start { missing := 2, value := 0, low := 0xA0 }
  else if b = 0xED then .start { missing := 2, value := 0xD, high := 0x9F }
  else if b < 0xF0 then .start { missing := 2, value := b - 0xE0 }
  else if b = 0xF0 then .start { missing := 3, value := 0, low := 0x90 }
  else if b < 0xF4 then .start { missing := 3, value := b - 0xF0 }
  else if b = 0xF4 then .start { missing := 3, value := 4, high := 0x8F }
  else .stray

/-- Reads bytes, the first of which may continue an encoding. -/
def decodeFrom : Option Unfinished → List UInt8 → List Char
  | none, [] => []
  | some _, [] => ['\uFFFD']
  | none, b :: rest =>
    match Lead.ofByte b.toNat with
    | .char c => c :: decodeFrom none rest
    | .start p => decodeFrom (some p) rest
    | .stray => '\uFFFD' :: decodeFrom none rest
  | some p, b :: rest =>
    if p.low ≤ b.toNat ∧ b.toNat ≤ p.high then
      let value := 64 * p.value + b.toNat % 64
      if p.missing = 1 then Char.ofNat value :: decodeFrom none rest
      else decodeFrom (some { missing := p.missing - 1, value }) rest
    else
      '\uFFFD' ::
        match Lead.ofByte b.toNat with
        | .char c => c :: decodeFrom none rest
        | .start p => decodeFrom (some p) rest
        | .stray => '\uFFFD' :: decodeFrom none rest

/-- The text that bytes hold. -/
def decode (bytes : List UInt8) : String := .ofList (decodeFrom none bytes)

/-- The text that the first bytes of a text hold. -/
def start (bytes : Nat) (text : String) : String := decode (text.toUTF8.data.toList.take bytes)

end BuildMatrix.Text
