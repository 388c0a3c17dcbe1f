import BuildMatrix.Number.Shortest
import BuildMatrix.Record

/-!
# JSON values and their compact text

The compact text has no blanks outside quotes. The fields of an object are written in reading
order, and numbers with the fewest digits that read back.
-/

namespace BuildMatrix

/-- A JSON value. The fields of an object stand in reading order. -/
inductive Json where
  | null
  | bool (value : Bool)
  | number (value : Number)
  | string (value : String)
  | array (items : List Json)
  | object (fields : List (String × Json))
deriving Inhabited

namespace Json

/-- The object of a record of texts. -/
def ofRecord (r : Record String) : Json := .object (r.map fun entry => (entry.1, .string entry.2))

/-- The four hexadecimal digits of a control character. -/
def hexDigits (n : Nat) : List Char :=
  [0, 0, n / 16 % 16, n % 16].map Nat.digitChar

/-- A character as it stands between quotes. -/
def escape (c : Char) : List Char :=
  match c with
  | '"' => ['\\', '"']
  | '\\' => ['\\', '\\']
  | '\n' => ['\\', 'n']
  | '\r' => ['\\', 'r']
  | '\t' => ['\\', 't']
  | '\x08' => ['\\', 'b']
  | '\x0c' => ['\\', 'f']
  | c => if c.toNat < 32 then '\\' :: 'u' :: hexDigits c.toNat else [c]

/-- A quoted text. -/
def quote (s : String) : List Char := '"' :: s.toList.flatMap escape ++ ['"']

/-- A number; one that is not finite is written `null`. -/
def numberChars : Number → List Char
  | .finite negative m e => (Number.finite negative m e).toText.toList
  | _ => "null".toList

mutual

/-- The characters of a value, without blanks. -/
def chars : Json → List Char
  | .null => "null".toList
  | .bool true => "true".toList
  | .bool false => "false".toList
  | .number n => numberChars n
  | .string s => quote s
  | .array items => '[' :: itemsChars items ++ [']']
  | .object fields => '{' :: fieldsChars fields ++ ['}']

/-- Items between commas. -/
def itemsChars : List Json → List Char
  | [] => []
  | [v] => chars v
  | v :: rest => chars v ++ ',' :: itemsChars rest

/-- Fields between commas. -/
def fieldsChars : List (String × Json) → List Char
  | [] => []
  | [(name, v)] => quote name ++ ':' :: chars v
  | (name, v) :: rest => quote name ++ ':' :: chars v ++ ',' :: fieldsChars rest

end

/-- The compact text of a value. -/
def compact (v : Json) : String := .ofList v.chars

end Json

end BuildMatrix
