import BuildMatrix.Yaml.Node

/-!
# Aliases and what they stand for

An alias stands for the last node before it whose anchor has its name. Aliases can multiply what a
short text stands for, so their uses are counted: the uses of a node times the greatest number of
uses inside it may not pass a bound.
-/

namespace BuildMatrix.Yaml

/-- What can be wrong with the aliases of a document that is well formed. -/
inductive AliasFault where
  | unresolved (name : String)
  | excessive
  | mergeSource
deriving DecidableEq, Repr

/-- The text of a fault. -/
def AliasFault.message : AliasFault → String
  | .unresolved name =>
    "Unresolved alias (the anchor must be set before the alias): " ++ name
  | .excessive => "Excessive alias count indicates a resource exhaustion attack"
  | .mergeSource => "Merge sources must be maps or map aliases"

/-- A node with the anchor that names it. -/
structure Anchored where
  anchor : Anchor
  node : Node

namespace Node

mutual

/-- The anchored nodes, in the order of the text. -/
def anchored : Node → List Anchored
  | .scalar info value text style =>
    (info.anchor.map fun anchor => ⟨anchor, .scalar info value text style⟩).toList
  | .alias _ _ => []
  | .map info form pairs =>
    (info.anchor.map fun anchor => ⟨anchor, .map info form pairs⟩).toList ++ anchoredInPairs pairs
  | .seq info items =>
    (info.anchor.map fun anchor => ⟨anchor, .seq info items⟩).toList ++ anchoredInItems items

/-- The anchored nodes in the items of a sequence. -/
def anchoredInItems : List Node → List Anchored
  | [] => []
  | n :: rest => n.anchored ++ anchoredInItems rest

/-- The anchored nodes in the pairs of a map. -/
def anchoredInPairs : List (Node × Option Node) → List Anchored
  | [] => []
  | (key, some value) :: rest => key.anchored ++ value.anchored ++ anchoredInPairs rest
  | (key, none) :: rest => key.anchored ++ anchoredInPairs rest

end

end Node

/-- The anchored node that an alias at an offset stands for: the last one of its name before it. -/
def resolveAlias? (anchors : List Anchored) (name : String) (offset : Nat) : Option Anchored :=
  (anchors.filter fun a => a.anchor.name == name && a.anchor.offset < offset).getLast?

/-- How often an anchored node was used, and the greatest such number in it. -/
structure AliasCount where
  offset : Nat
  count : Nat := 1
  weight : Nat := 0

/-- The counts of the anchored nodes seen so far. -/
abbrev AliasCounts := List AliasCount

/-- The count of the node whose anchor is at an offset. -/
def AliasCounts.of (counts : AliasCounts) (offset : Nat) : AliasCount :=
  (counts.find? (·.offset == offset)).getD { offset }

/-- Sets the count of a node. -/
def AliasCounts.set (counts : AliasCounts) (count : AliasCount) : AliasCounts :=
  count :: counts.filter (·.offset != count.offset)

namespace Node

mutual

/-- The greatest number of uses in a node; one for a scalar. -/
def weight (anchors : List Anchored) (counts : AliasCounts) : Node → Nat
  | .scalar _ _ _ _ => 1
  | .alias info name =>
    match resolveAlias? anchors name info.span.start with
    | some a => let c := counts.of a.anchor.offset; c.count * c.weight
    | none => 0
  | .map _ _ pairs => weightOfPairs anchors counts pairs
  | .seq _ items => weightOfItems anchors counts items

/-- The greatest weight of items. -/
def weightOfItems (anchors : List Anchored) (counts : AliasCounts) : List Node → Nat
  | [] => 0
  | n :: rest => max (n.weight anchors counts) (weightOfItems anchors counts rest)

/-- The greatest weight of keys and values. -/
def weightOfPairs (anchors : List Anchored) (counts : AliasCounts) :
    List (Node × Option Node) → Nat
  | [] => 0
  | (key, some value) :: rest =>
    max (max (key.weight anchors counts) (value.weight anchors counts))
      (weightOfPairs anchors counts rest)
  | (key, none) :: rest =>
    max (max (key.weight anchors counts) 1) (weightOfPairs anchors counts rest)

end

/-- The greatest product of uses and weight that is accepted. -/
def maxUses : Nat := 100

/-- Counts a use of an anchored node. -/
def use (anchors : List Anchored) (a : Anchored) (counts : AliasCounts) :
    Except AliasFault AliasCounts :=
  let c := counts.of a.anchor.offset
  let weight := if c.weight = 0 then a.node.weight anchors counts else c.weight
  let c : AliasCount := { c with count := c.count + 1, weight }
  if maxUses < c.count * c.weight then .error .excessive else .ok (counts.set c)

/-- Whether a node is the key of a merge. -/
def isMergeKey : Node → Bool
  | .scalar _ .merge _ _ => true
  | _ => false

/-- Whether a node is an alias. -/
def isAlias : Node → Bool
  | .alias _ _ => true
  | _ => false

/-- Whether a node is a map, or an alias of one. -/
def isMap (anchors : List Anchored) : Node → Bool
  | .map _ _ _ => true
  | .alias info name =>
    match resolveAlias? anchors name info.span.start with
    | some ⟨_, .map _ _ _⟩ => true
    | _ => false
  | _ => false

/-- Whether a node can be merged into a map. -/
def isMergeSource (anchors : List Anchored) (n : Node) : Bool :=
  match n with
  | .seq _ items => items.all (isMap anchors)
  | .alias info name =>
    match resolveAlias? anchors name info.span.start with
    | some ⟨_, .seq _ items⟩ => items.all (isMap anchors)
    | _ => isMap anchors n
  | n => isMap anchors n

mutual

/-- Counts the uses of anchored nodes as the document is read from start to end. -/
def countUses (anchors : List Anchored) (counts : AliasCounts) :
    Node → Except AliasFault AliasCounts
  | .scalar info _ _ _ =>
    .ok (match info.anchor with
      | some anchor => counts.set { offset := anchor.offset }
      | none => counts)
  | .alias info name =>
    match resolveAlias? anchors name info.span.start with
    | some a => use anchors a counts
    | none => .error (.unresolved name)
  | .map info _ pairs =>
    countUsesInPairs anchors (match info.anchor with
      | some anchor => counts.set { offset := anchor.offset }
      | none => counts) pairs
  | .seq info items =>
    countUsesInItems anchors (match info.anchor with
      | some anchor => counts.set { offset := anchor.offset }
      | none => counts) items

/-- Counts uses in items. -/
def countUsesInItems (anchors : List Anchored) (counts : AliasCounts) :
    List Node → Except AliasFault AliasCounts
  | [] => .ok counts
  | n :: rest =>
    match n.countUses anchors counts with
    | .ok counts => countUsesInItems anchors counts rest
    | .error fault => .error fault

/-- Counts uses in pairs. What is merged has to be a map or maps. -/
def countUsesInPairs (anchors : List Anchored) (counts : AliasCounts) :
    List (Node × Option Node) → Except AliasFault AliasCounts
  | [] => .ok counts
  | (key, value) :: rest =>
    if key.isMergeKey then
      match value with
      | none => .error .mergeSource
      | some v =>
        if !v.isMergeSource anchors then .error .mergeSource
        else if v.isAlias then countUsesInPairs anchors counts rest
        else
          match v.countUses anchors counts with
          | .ok counts => countUsesInPairs anchors counts rest
          | .error fault => .error fault
    else
      match key.countUses anchors counts with
      | .error fault => .error fault
      | .ok counts =>
        match value with
        | none => countUsesInPairs anchors counts rest
        | some v =>
          match v.countUses anchors counts with
          | .ok counts => countUsesInPairs anchors counts rest
          | .error fault => .error fault

end

end Node

end BuildMatrix.Yaml
