import BuildMatrix.Yaml.Token

/-!
# The tree of a YAML source

A tree keeps every token, so that the offsets of nodes and of mistakes can be read off it.
-/

namespace BuildMatrix.Yaml

/-- What a tree can report as it is built. -/
inductive TreeFault where
  | notToken (text : List Char)
  | sequenceOnKeyLine
  | inStream (kind : TokenKind) (text : List Char)
  | inDocument (kind : TokenKind) (text : List Char)
deriving DecidableEq, Repr

/-- An item of a collection: what stands before its key, the key, what stands between key and
value, and the value. -/
structure Item (τ : Type) where
  lead : List Token := []
  key : Option τ := none
  gap : Option (List Token) := none
  value : Option τ := none
  /-- The item started with a question mark. -/
  explicit : Bool := false
deriving Inhabited

/-- A node of the source. -/
inductive Tree where
  /-- A scalar or an alias in the line, and what follows it there. -/
  | leaf (token : Token) (tail : Option (List Token))
  /-- A block scalar: its header with all that follows it in the line, its text, and the
  indentation of the collection that holds it. -/
  | block (header : Token) (remarks : List Token) (indent : Nat) (text : List Char)
  | map (start indent : Nat) (items : List (Item Tree))
  | seq (start indent : Nat) (items : List (Item Tree))
  | flow (opener : Token) (indent : Nat) (items : List (Item Tree)) (closing : List Token)
  | bad (fault : TreeFault) (token : Token)
deriving Inhabited

namespace Tree

/-- The offset of the first character. -/
def start : Tree → Nat
  | .leaf t _ | .block t _ _ _ | .flow t _ _ _ | .bad _ t => t.start
  | .map start _ _ | .seq start _ _ => start

/-- The indentation, for trees that have one. -/
def indent? : Tree → Option Nat
  | .leaf t _ => some t.indent
  | .block _ _ indent _ | .map _ indent _ | .seq _ indent _ | .flow _ indent _ _ => some indent
  | .bad _ _ => none

/-- What follows the tree in its line, where that is kept. -/
def tail? : Tree → Option (List Token)
  | .leaf _ tail => tail
  | .flow _ _ _ closing => some closing
  | _ => none

/-- The tree with more tokens after it. -/
def addTail (more : List Token) : Tree → Tree
  | .leaf t tail => .leaf t (some (tail.getD [] ++ more))
  | .flow opener indent items closing => .flow opener indent items (closing ++ more)
  | t => t

/-- Whether the tree can be followed by tokens in its line. -/
def isInline : Tree → Bool
  | .leaf _ _ | .flow _ _ _ _ => true
  | _ => false

/-- Whether the tree is a map or a sequence in block style. -/
def isBlockCollection : Tree → Bool
  | .map _ _ _ | .seq _ _ _ => true
  | _ => false

end Tree

/-- A document of the source: what stands before its node, the node, and what follows. -/
structure RawDocument where
  start : Nat
  lead : List Token := []
  value : Option Tree := none
  tail : Option (List Token) := none
deriving Inhabited

/-- What a source holds between its start and its end. -/
inductive Entry where
  | directive (token : Token)
  | trivia (token : Token)
  | document (document : RawDocument)
  | documentEnd (token : Token) (tail : List Token)
  | bad (fault : TreeFault) (token : Token)
deriving Inhabited

end BuildMatrix.Yaml
