import BuildMatrix.Yaml.Fault

/-!
# What stands around a node

Before a node there are properties, indicators, comments and line ends; after it, the rest of its
line. Both are read here, and what must not stand there is reported.
-/

namespace BuildMatrix.Yaml

/-- What comes after a run of tokens. -/
inductive Following where
  | nothing
  | token (t : Token)
  | tree (t : Tree)

namespace Following

/-- The first of a node and tokens. -/
def first (node : Option Tree) (tokens : Option (List Token)) : Following :=
  match node with
  | some t => .tree t
  | none =>
    match (tokens.getD []).head? with
    | some t => .token t
    | none => .nothing

/-- The offset of what follows, unless it keeps a distance from what stands before. -/
def touches? : Following → Option Nat
  | .nothing => none
  | .token t =>
    if t.kind == .space || t.kind == .newline || t.kind == .comma ||
        (t.kind == .scalar && t.text.isEmpty) then none
    else some t.start
  | .tree (.leaf t _) => if t.kind == .scalar && t.text.isEmpty then none else some t.start
  | .tree t => some t.start

/-- Whether a flow collection follows. -/
def isFlow : Following → Bool
  | .tree (.flow _ _ _ _) => true
  | _ => false

/-- Whether a block collection follows. -/
def isBlockCollection : Following → Bool
  | .tree t => t.isBlockCollection
  | _ => false

end Following

/-- The indicators that can stand before a node. -/
inductive Indicator where
  | documentStart
  | explicitKey
  | mapValue
  | seqItem
deriving DecidableEq, Repr

/-- The token of an indicator. -/
def Indicator.kind : Indicator → TokenKind
  | .documentStart => .documentStart
  | .explicitKey => .explicitKey
  | .mapValue => .mapValue
  | .seqItem => .seqItem

/-- Where a run of tokens stands. -/
structure Setting where
  flow : Option FlowKind := none
  indicator : Indicator
  next : Following
  offset : Nat
  parentIndent : Nat
  startOnNewline : Bool

/-- What a run of tokens before a node says. -/
structure Properties where
  comma : Option Token := none
  found : Option Token := none
  hasComment : Bool := false
  hasNewline : Bool := false
  anchor : Option Token := none
  tag : Option Token := none
  newlineAfter : Option Token := none
  start : Option Nat := none
  stop : Nat := 0
deriving Inhabited

/-- The offset of the first property, or the end of the tokens. -/
def Properties.begin (p : Properties) : Nat := p.start.getD p.stop

/-- Properties as they are read. -/
structure PropertyScan extends Properties where
  atNewline : Bool
  hasSpace : Bool
  needsSpace : Bool := false
  tab : Option Token := none

namespace PropertyScan

/-- Reads one token. -/
def next (setting : Setting) (s : PropertyScan) (t : Token) : Reporting PropertyScan := do
  reportIf (s.needsSpace && t.kind != .space && t.kind != .newline && t.kind != .comma)
    (.point t.start .unspacedProperty)
  match s.tab with
  | some tab =>
    reportIf (s.atNewline && t.kind != .comment && t.kind != .newline) (.ofToken tab .tab)
  | none => pure ()
  let s := { s with needsSpace := false, tab := none }
  let other : Reporting PropertyScan := do
    report (.ofToken t (.token t.kind))
    return { s with atNewline := false, hasSpace := false }
  let property (s : PropertyScan) : PropertyScan :=
    { s with
      start := some (s.start.getD t.start)
      atNewline := false
      hasSpace := false
      needsSpace := true }
  if t.kind == setting.indicator.kind then
    reportIf (s.anchor.isSome || s.tag.isSome) (.ofToken t (.lateIndicator t.text))
    reportIf s.found.isSome (.ofToken t (.repeatedIndicator t.text setting.flow))
    return { s with
      found := some t
      atNewline := setting.indicator == .seqItem || setting.indicator == .explicitKey
      hasSpace := false }
  else
    match t.kind with
    | .space =>
      let watched := setting.flow.isNone &&
        (setting.indicator != .documentStart || !setting.next.isFlow) && t.text.contains '\t'
      return { s with tab := if watched then some t else none, hasSpace := true }
    | .comment =>
      reportIf (!s.hasSpace) (.ofToken t .unspacedComment)
      return { s with hasComment := true, atNewline := false }
    | .newline =>
      return { s with
        atNewline := true
        hasNewline := true
        newlineAfter := if s.anchor.isSome || s.tag.isSome then some t else s.newlineAfter
        hasSpace := true }
    | .anchor =>
      reportIf s.anchor.isSome (.ofToken t .anchors)
      return property { s with anchor := some t }
    | .tag =>
      reportIf s.tag.isSome (.ofToken t .tags)
      return property { s with tag := some t }
    | .comma =>
      match setting.flow with
      | some flow =>
        reportIf s.comma.isSome (.ofToken t (.comma flow))
        return { s with comma := some t, atNewline := false, hasSpace := false }
      | none => other
    | _ => other

/-- Reads tokens one after the other. -/
def readAll (setting : Setting) (s : PropertyScan) : List Token → Reporting PropertyScan
  | [] => pure s
  | t :: rest => do readAll setting (← next setting s t) rest

end PropertyScan

/-- Reads the tokens before a node. -/
def readProperties (setting : Setting) (tokens : List Token) : Reporting Properties := do
  let s ← PropertyScan.readAll setting
    { atNewline := setting.startOnNewline, hasSpace := setting.startOnNewline } tokens
  if s.needsSpace then
    match setting.next.touches? with
    | some offset => report (.point offset .unspacedProperty)
    | none => pure ()
  match s.tab with
  | some tab =>
    reportIf ((s.atNewline && tab.indent ≤ setting.parentIndent) || setting.next.isBlockCollection)
      (.ofToken tab .tab)
  | none => pure ()
  return { s.toProperties with stop := (tokens.getLast?.map Token.stop).getD setting.offset }

/-- Checks the tokens after a node from an offset on, and gives the offset after them. -/
def readTail (needsSpace : Bool) (offset : Nat) (tokens : List Token) : Reporting Nat := do
  let rec go (hasSpace : Bool) (offset : Nat) : List Token → Reporting Nat
    | [] => pure offset
    | t :: rest => do
      match t.kind with
      | .space | .newline => go true (offset + t.width) rest
      | .comment =>
        reportIf (needsSpace && !hasSpace) (.ofToken t .unspacedComment)
        go hasSpace (offset + t.width) rest
      | kind =>
        report (.ofToken t (.afterNode kind))
        go hasSpace (offset + t.width) rest
  go false offset tokens

/-- Where an empty node stands: after the last token that is not a blank and the spaces that
follow it, or before all the blanks. -/
def emptyOffset (offset : Nat) (before : List Token) : Nat :=
  let isTrivia (t : Token) : Bool := t.kind == .space || t.kind == .comment || t.kind == .newline
  let trivia := (before.reverse.takeWhile isTrivia).reverse
  let back := offset - Text.widthOf (trivia.flatMap Token.text)
  if trivia.length = before.length then back
  else back + Text.widthOf ((trivia.takeWhile (·.kind == .space)).flatMap Token.text)

end BuildMatrix.Yaml
