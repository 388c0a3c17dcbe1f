/-!
# Records: entries under distinct names, in a fixed reading order

Names that are array indexes come first, in numerical order; the others follow in the order in
which they were first set.
-/

namespace BuildMatrix

/-- Named entries in reading order. -/
abbrev Record (α : Type) := List (String × α)

namespace Record

variable {α : Type}

/-- The value of a run of decimal digits, if it holds nothing else. -/
def decimal? (cs : List Char) : Option Nat :=
  if cs.all Char.isDigit then some (cs.foldl (fun n c => 10 * n + (c.toNat - 48)) 0) else none

/-- The array index that a name writes in its shortest form, if it is one. -/
def index? (name : String) : Option Nat :=
  match name.toList with
  | [] => none
  | ['0'] => some 0
  | '0' :: _ => none
  | cs => (decimal? cs).filter (· < 4294967295)

/-- Whether one name is read before another one that was set earlier. -/
def overtakes (later earlier : String) : Bool :=
  match index? later, index? earlier with
  | some m, some n => m < n
  | some _, none => true
  | none, _ => false

/-- Puts a new entry before the first one that it overtakes. -/
def place (name : String) (value : α) : Record α → Record α
  | [] => [(name, value)]
  | entry :: rest =>
    if overtakes name entry.1 then (name, value) :: entry :: rest
    else entry :: place name value rest

/-- Gives a present name a new value where it stands. -/
def replace (name : String) (value : α) : Record α → Record α
  | [] => []
  | entry :: rest =>
    if entry.1 = name then (name, value) :: rest else entry :: replace name value rest

/-- The names in reading order. -/
def names (r : Record α) : List String := r.map (·.1)

/-- Whether a name is present. -/
def has (r : Record α) (name : String) : Bool := r.any (·.1 == name)

/-- The value under a name. -/
def get? (r : Record α) (name : String) : Option α := r.lookup name

/-- Sets a name: a present one keeps its place. -/
def set (r : Record α) (name : String) (value : α) : Record α :=
  if r.has name then r.replace name value else r.place name value

/-- The record made by setting the entries one after the other. -/
def ofList (entries : List (String × α)) : Record α :=
  entries.foldl (fun r entry => r.set entry.1 entry.2) []

end Record

end BuildMatrix
