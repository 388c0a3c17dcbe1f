import BuildMatrix.Value

/-!
# What is wrong with a configuration, and where

A check gives a value or all the issues it found. Two checks are put together by `Checked.app`,
which loses no issue of either, and `Checked.under` says where in a larger value a check was
made.
-/

namespace BuildMatrix

/-- A step from a value to a part of it. -/
inductive PathStep where
  | key (name : String)
  | index (i : Nat)
deriving DecidableEq, Repr

/-- The text of a step. -/
def PathStep.text : PathStep → String
  | .key name => name
  | .index i => toString i

/-- The ways in which a value can miss what is expected of it. -/
inductive Fault where
  | missing
  | wrongKind (expected found : Value.Kind)
  | notPositive
  | unknownKeys (names : List String)
deriving DecidableEq, Repr

/-- The word for a class of faults. -/
def Fault.code : Fault → String
  | .missing | .wrongKind _ _ => "invalid_type"
  | .notPositive => "too_small"
  | .unknownKeys _ => "unrecognized_keys"

/-- The text of a fault. -/
def Fault.message : Fault → String
  | .missing => "Required"
  | .wrongKind expected found => "Expected " ++ expected.name ++ ", received " ++ found.name
  | .notPositive => "Number must be greater than 0"
  | .unknownKeys names =>
    "Unrecognized key(s) in object: " ++ ", ".intercalate (names.map fun name => "'" ++ name ++ "'")

/-- A fault and the path to the value that has it. -/
structure Issue where
  path : List PathStep
  fault : Fault
deriving DecidableEq, Repr

namespace Issue

/-- The same issue seen from a value that holds the faulty one. -/
def under (step : PathStep) (issue : Issue) : Issue := { issue with path := step :: issue.path }

/-- The place of an issue for people. -/
def place (issue : Issue) : String :=
  if issue.path.isEmpty then "<root>" else ".".intercalate (issue.path.map PathStep.text)

/-- Issues on one line. -/
def summary (issues : List Issue) : String :=
  "; ".intercalate (issues.map fun issue => issue.place ++ ": " ++ issue.fault.message)

end Issue

/-- A value that was checked, or all the issues that were found. -/
abbrev Checked (α : Type) := Except (List Issue) α

namespace Checked

variable {α β : Type}

/-- A single fault of the value itself. -/
def fault (f : Fault) : Checked α := .error [⟨[], f⟩]

/-- Says where the checked value stands. -/
def under (step : PathStep) : Checked α → Checked α
  | .ok a => .ok a
  | .error issues => .error (issues.map (.under step))

/-- Applies a checked function to a checked value; the issues of both are kept, in order. -/
def app : Checked (α → β) → Checked α → Checked β
  | .ok f, .ok a => .ok (f a)
  | .ok _, .error issues | .error issues, .ok _ => .error issues
  | .error first, .error second => .error (first ++ second)

/-- Keeps the first value if the second is fine as well. -/
def also (x : Checked α) (y : Checked Unit) : Checked α := app (x.map fun a _ => a) y

end Checked

end BuildMatrix
