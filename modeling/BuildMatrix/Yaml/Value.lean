import BuildMatrix.Value
import BuildMatrix.Yaml.Alias
import BuildMatrix.Yaml.Key

/-!
# The values of nodes

The value of a node is read off its contents, with every alias replaced by the value of its node. A
map becomes an object; a key that is not a text goes by its written form.
-/

namespace BuildMatrix.Yaml

/-- What an anchored node stands for: its value, and the fields that it gives to a map that it is
merged into. -/
structure Expansion where
  offset : Nat
  value : Value
  fields : List (String × Value)

/-- The value of a scalar. -/
def Scalar.toValue : Scalar → Value
  | .null => .null
  | .bool b => .bool b
  | .number n => .number n
  | .string s => .string s
  | .date => .date
  | .bytes octets =>
    .object (octets.mapIdx fun i octet => (toString i, .number (.ofNat octet)))
  | .merge => .symbol

/-- The text of a key that is a plain value; collections have none. -/
def keyText? : Value → Option String
  | .null => some ""
  | .bool b => some (if b then "true" else "false")
  | .number n => some n.toText
  | .string s => some s
  | _ => none

/-- Adds the fields of a merged map that are not there yet. -/
def mergeFields (fields more : List (String × Value)) : List (String × Value) :=
  more.foldl (fun fields f => if Record.has fields f.1 then fields else Record.set fields f.1 f.2)
    fields

namespace Node

/-- The expansion of an alias. -/
def expansion? (anchors : List Anchored) (known : List Expansion) (name : String) (offset : Nat) :
    Option Expansion :=
  (resolveAlias? anchors name offset).bind fun a => known.find? (·.offset == a.anchor.offset)

/-- The name of a key with a given value. -/
def keyName (key : Node) (value : Value) : String := (keyText? value).getD key.keyForm

mutual

/-- The value of a node, given what the anchored nodes stand for. -/
def value (anchors : List Anchored) (known : List Expansion) : Node → Value
  | .scalar _ v _ _ => v.toValue
  | .alias info name =>
    ((expansion? anchors known name info.span.start).map (·.value)).getD .null
  | .map _ .plain pairs => .object (fieldsOf anchors known [] pairs)
  | .map _ .ordered _ => .map
  | .map _ .set _ => .set
  | .seq _ items => .array (valuesOf anchors known items)

/-- The values of items. -/
def valuesOf (anchors : List Anchored) (known : List Expansion) : List Node → List Value
  | [] => []
  | n :: rest => n.value anchors known :: valuesOf anchors known rest

/-- The fields that pairs add to those that are there. -/
def fieldsOf (anchors : List Anchored) (known : List Expansion) (fields : List (String × Value)) :
    List (Node × Option Node) → List (String × Value)
  | [] => fields
  | (key, none) :: rest =>
    fieldsOf anchors known
      (Record.set fields (key.keyName (key.value anchors known)) .null) rest
  | (key, some v) :: rest =>
    if key.isMergeKey then
      fieldsOf anchors known (mergeFields fields (v.mergedFields anchors known)) rest
    else
      fieldsOf anchors known
        (Record.set fields (key.keyName (key.value anchors known)) (v.value anchors known)) rest

/-- The fields that a node gives to a map that it is merged into. -/
def mergedFields (anchors : List Anchored) (known : List Expansion) :
    Node → List (String × Value)
  | .scalar _ _ _ _ => []
  | .alias info name =>
    ((expansion? anchors known name info.span.start).map (·.fields)).getD []
  | .map _ _ pairs => fieldsOf anchors known [] pairs
  | .seq _ items => mergedFieldsOfItems anchors known [] items

/-- The fields that items give, the first of a name first. -/
def mergedFieldsOfItems (anchors : List Anchored) (known : List Expansion)
    (fields : List (String × Value)) : List Node → List (String × Value)
  | [] => fields
  | n :: rest =>
    mergedFieldsOfItems anchors known (mergeFields fields (n.mergedFields anchors known)) rest

end

/-- What the anchored nodes stand for when aliases are followed a number of times. An alias within
its own node has no end, so there is no last answer. -/
def expansions (anchors : List Anchored) : Nat → List Expansion
  | 0 => []
  | n + 1 =>
    let known := expansions anchors n
    anchors.map fun a =>
      ⟨a.anchor.offset, a.node.value anchors known, a.node.mergedFields anchors known⟩

/-- How often aliases within their own nodes are followed. What a configuration can say is not as
deep. -/
def maxDepth : Nat := 8

/-- The value of a document. -/
def toValue (n : Node) : Except AliasFault Value :=
  let anchors := n.anchored
  match n.countUses anchors [] with
  | .error fault => .error fault
  | .ok _ =>
    let depth := if anchors.isEmpty then 0 else anchors.length + maxDepth
    .ok (n.value anchors (expansions anchors depth))

end Node

end BuildMatrix.Yaml
