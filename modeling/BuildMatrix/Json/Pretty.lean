import BuildMatrix.Json
import BuildMatrix.Text.Units

/-!
# Sorted keys and indented text

Keys are sorted by 16-bit units at every depth. The fields are then set one after the other in that
order, so names that are array indexes still come first, as in every record.
-/

namespace BuildMatrix.Json

/-- Sorts fields by name. -/
def sortFields (fields : List (String × Json)) : List (String × Json) :=
  fields.mergeSort fun a b => Text.notAfter a.1 b.1

mutual

/-- Sets the fields of every object anew in the order of their names. -/
def sortKeys : Json → Json
  | .array items => .array (sortItems items)
  | .object fields => .object (Record.ofList (sortFields (sortValues fields)))
  | v => v

/-- Sorts the keys in every item. -/
def sortItems : List Json → List Json
  | [] => []
  | v :: rest => sortKeys v :: sortItems rest

/-- Sorts the keys in the value of every field. -/
def sortValues : List (String × Json) → List (String × Json)
  | [] => []
  | (name, v) :: rest => (name, sortKeys v) :: sortValues rest

end

/-- A line break and the indentation of a nesting depth. -/
def newline (depth : Nat) : List Char := '\n' :: List.replicate (2 * depth) ' '

mutual

/-- The characters of a value whose items and fields stand on lines of their own. -/
def prettyChars (depth : Nat) : Json → List Char
  | .array [] => ['[', ']']
  | .array (v :: rest) =>
    '[' :: newline (depth + 1) ++ prettyItems (depth + 1) (v :: rest) ++ newline depth ++ [']']
  | .object [] => ['{', '}']
  | .object (field :: rest) =>
    '{' :: newline (depth + 1) ++ prettyFields (depth + 1) (field :: rest) ++ newline depth ++ ['}']
  | v => chars v

/-- Items, each after the first on a new line. -/
def prettyItems (depth : Nat) : List Json → List Char
  | [] => []
  | [v] => prettyChars depth v
  | v :: rest => prettyChars depth v ++ ',' :: newline depth ++ prettyItems depth rest

/-- Fields, each after the first on a new line. -/
def prettyFields (depth : Nat) : List (String × Json) → List Char
  | [] => []
  | [(name, v)] => quote name ++ ':' :: ' ' :: prettyChars depth v
  | (name, v) :: rest =>
    quote name ++ ':' :: ' ' :: prettyChars depth v ++ ',' :: newline depth ++
      prettyFields depth rest

end

/-- The text of a value with sorted keys, indented by two spaces a level. -/
def pretty (v : Json) : String := .ofList (prettyChars 0 v.sortKeys)

end BuildMatrix.Json
