import BuildMatrix.Json

/-!
# Values of a configuration file

A value is what a text holds before it is checked. Messages speak of the kind of a value, so values
that no configuration accepts keep nothing else.
-/

namespace BuildMatrix

/-- A value that a configuration file can hold: those of JSON, and values of four more kinds,
of which only the kind matters. -/
inductive Value where
  | null
  | bool (value : Bool)
  | number (value : Number)
  | string (value : String)
  | array (items : List Value)
  | object (fields : List (String × Value))
  | date
  | map
  | set
  | symbol
deriving Inhabited

namespace Value

mutual

/-- A JSON value as a configuration value. -/
def ofJson : Json → Value
  | .null => .null
  | .bool b => .bool b
  | .number n => .number n
  | .string s => .string s
  | .array items => .array (ofItems items)
  | .object fields => .object (ofFields fields)

/-- The items of a JSON array as configuration values. -/
def ofItems : List Json → List Value
  | [] => []
  | v :: rest => ofJson v :: ofItems rest

/-- The fields of a JSON object as configuration values. -/
def ofFields : List (String × Json) → List (String × Value)
  | [] => []
  | (name, v) :: rest => (name, ofJson v) :: ofFields rest

end

/-- The kinds of values that a message can speak of. -/
inductive Kind where
  | null
  | boolean
  | number
  | nan
  | integer
  | float
  | string
  | array
  | object
  | date
  | map
  | set
  | symbol
deriving DecidableEq, Repr

/-- The name of a kind. -/
def Kind.name : Kind → String
  | .null => "null"
  | .boolean => "boolean"
  | .number => "number"
  | .nan => "nan"
  | .integer => "integer"
  | .float => "float"
  | .string => "string"
  | .array => "array"
  | .object => "object"
  | .date => "date"
  | .map => "map"
  | .set => "set"
  | .symbol => "symbol"

/-- The kind of a value. -/
def kind : Value → Kind
  | .null => .null
  | .bool _ => .boolean
  | .number .nan => .nan
  | .number _ => .number
  | .string _ => .string
  | .array _ => .array
  | .object _ => .object
  | .date => .date
  | .map => .map
  | .set => .set
  | .symbol => .symbol

end Value

end BuildMatrix
