import BuildMatrix.Yaml.Scalar

/-!
# Nodes of a document

A node has a value, the stretch of text that it was read from, and perhaps an anchor and a tag.
Aliases are nodes of their own and are resolved later.
-/

namespace BuildMatrix.Yaml

/-- The stretch of text of a node: its start, the end of its value, and the end of what belongs to
it. -/
structure Span where
  start : Nat
  valueStop : Nat
  stop : Nat
deriving DecidableEq, Repr, Inhabited

/-- A name for a node, and the offset at which it is given. -/
structure Anchor where
  name : String
  offset : Nat
deriving DecidableEq, Repr

/-- What is said of a node beside its value. -/
structure NodeInfo where
  span : Span
  anchor : Option Anchor := none
  tag : Option String := none
deriving DecidableEq, Repr, Inhabited

/-- The kinds of maps. -/
inductive MapForm where
  | plain
  | ordered
  | set
deriving DecidableEq, Repr

/-- A node. A scalar keeps the text that it was read from, and whether that was plain. -/
inductive Node where
  | scalar (info : NodeInfo) (value : Scalar) (text : List Char) (style : TokenKind)
  | alias (info : NodeInfo) (name : String)
  | map (info : NodeInfo) (form : MapForm) (pairs : List (Node × Option Node))
  | seq (info : NodeInfo) (items : List Node)
deriving Inhabited

namespace Node

/-- What is said of a node. -/
def info : Node → NodeInfo
  | .scalar info _ _ _ | .alias info _ | .map info _ _ | .seq info _ => info

/-- A node with other things said of it. -/
def withInfo (info : NodeInfo) : Node → Node
  | .scalar _ value text style => .scalar info value text style
  | .alias _ name => .alias info name
  | .map _ form pairs => .map info form pairs
  | .seq _ items => .seq info items

/-- The stretch of text of a node. -/
def span (n : Node) : Span := n.info.span

/-- Whether two keys are the same; only scalars can be. -/
def sameKey : Node → Node → Bool
  | .scalar _ a _ _, .scalar _ b _ _ => a.same b
  | _, _ => false

end Node

/-- A mistake that a node shows. -/
def Report.ofNode (n : Node) (fault : Fault) : Report := ⟨fault, n.span.start, n.span.valueStop⟩

/-- A mistake that a tree shows. -/
def Report.ofTree (t : Tree) (fault : Fault) : Report :=
  match t with
  | .leaf token _ | .bad _ token => .ofToken token fault
  | .block header _ _ text => ⟨fault, header.start, header.start + Text.widthOf text⟩
  | t => .point t.start fault

end BuildMatrix.Yaml
