import BuildMatrix.Yaml.Block
import BuildMatrix.Yaml.Node
import BuildMatrix.Yaml.Property

/-!
# The nodes of a tree

The tree says which tokens belong together; here they get their meaning, and what cannot have a
meaning is reported.
-/

namespace BuildMatrix.Yaml

/-- Whether tokens include a line end. -/
def hasNewline (ts : List Token) : Bool := ts.any (·.kind == .newline)

mutual

/-- Whether a key stands on more than one line. -/
def Tree.isMultiline : Tree → Bool
  | .leaf t tail => t.text.contains '\n' || hasNewline (tail.getD [])
  | .flow _ _ items _ => itemsMultiline items
  | _ => true

/-- Whether items of a flow collection stand on more than one line. -/
def itemsMultiline : List (Item Tree) → Bool
  | [] => false
  | ⟨lead, key, gap, value, _⟩ :: rest =>
    hasNewline lead || hasNewline (gap.getD []) ||
      (match key with | some t => t.isMultiline | none => false) ||
      (match value with | some t => t.isMultiline | none => false) || itemsMultiline rest

end

/-- Where a node stands: under which directives, whether it is the root, and whether it is a
key. -/
structure Place where
  directives : Directives
  atRoot : Bool := false
  atKey : Bool := false

/-- The anchor that properties give. An anchor needs a name. -/
def anchorOf (props : Properties) : Reporting (Option Anchor) := do
  match props.anchor with
  | none => return none
  | some t =>
    reportIf (t.text.length == 1) (.ofToken t .emptyAnchor)
    return some ⟨.ofList (t.text.drop 1), t.start⟩

/-- The value that a text has in its place, under a tag if one is given. -/
def scalarValue (place : Place) (props : Properties) (style : TokenKind) (value : List Char) :
    Reporting (Scalar × Option String) := do
  let text : Scalar := .string (.ofList value)
  let untagged :=
    if style == .scalar then Scalar.ofPlain place.directives.version place.atKey value else text
  match props.tag with
  | none => return (untagged, none)
  | some t =>
    match ← tagName? place.directives t with
    | none => return (untagged, none)
    | some "!" => return (text, some "!")
    | some name =>
      match Scalar.ofName place.directives.version name value with
      | .ok scalar => return (scalar, some name)
      | .error fault =>
        report (.ofToken t fault)
        return (text, some name)

/-- A scalar node. -/
def scalarNode (place : Place) (props : Properties) (style : TokenKind) (value : List Char)
    (span : Span) : Reporting Node := do
  let (scalar, tag) ← scalarValue place props style value
  let anchor ← anchorOf props
  return .scalar { span, anchor, tag } scalar value style

/-- The node where nothing stands. -/
def emptyNode (place : Place) (offset : Nat) (before : List Token) (props : Properties) :
    Reporting Node :=
  let start := emptyOffset offset before
  scalarNode place props .scalar []
    ⟨start, start, if props.hasComment then props.stop else start⟩

/-- The node of a scalar or an alias in the line. -/
def leafNode (place : Place) (t : Token) (tail : List Token) (props : Properties) :
    Reporting Node := do
  if t.kind == .alias then
    reportIf (t.text.length == 1) (.point t.start .emptyAlias)
    let stop ← readTail true t.stop tail
    reportIf (props.anchor.isSome || props.tag.isSome) (.ofToken t .aliasProperties)
    return .alias { span := ⟨t.start, t.stop, stop⟩ } (.ofList (t.text.drop 1))
  else
    let value ← leafValue t
    let stop ← readTail true t.stop tail
    scalarNode place props t.kind value ⟨t.start, t.stop, stop⟩

/-- The node of a block scalar. -/
def blockNode (place : Place) (header : Token) (remarks : List Token) (indent : Nat)
    (text : List Char) (props : Properties) : Reporting Node := do
  let value ← blockValue header remarks indent text place.atRoot
  let stop := header.stop + Text.widthOf (remarks.flatMap Token.text ++ text)
  scalarNode place props .blockHeader value ⟨header.start, stop, stop⟩

/-- Properties of a block sequence stand on a line before it. -/
def checkSequenceProperties (props : Properties) : Reporting Unit :=
  let last := match props.anchor, props.tag with
    | some a, some t => some (if t.start < a.start then a else t)
    | some a, none => some a
    | none, t => t
  match last with
  | none => pure ()
  | some last =>
    reportIf (props.newlineAfter.all (·.start < last.start)) (.ofToken last .sequenceProperties)

/-- The text of a scalar in a message. -/
def Scalar.messageText : Scalar → String
  | .null => "null"
  | .bool b => if b then "true" else "false"
  | .number n => n.toText
  | .string s => s
  | .date | .bytes _ | .merge => ""

/-- The pair that an item of a list of pairs stands for. -/
def pairOf (tag : Token) (item : Node) : Reporting (Node × Option Node) := do
  match item with
  | .map _ _ pairs =>
    reportIf (1 < pairs.length) (.ofToken tag .pairItem)
    match pairs with
    | pair :: _ => return pair
    | [] => return (.scalar { span := item.span } .null [] .scalar, none)
  | item => return (item, none)

/-- The pairs of a list of pairs. -/
def pairsOf (tag : Token) : List Node → Reporting (List (Node × Option Node))
  | [] => pure []
  | item :: rest => do
    let pair ← pairOf tag item
    return pair :: (← pairsOf tag rest)

/-- Reports keys that occur twice. -/
def checkOrderedKeys (tag : Token) (seen : List Scalar) :
    List (Node × Option Node) → Reporting Unit
  | [] => pure ()
  | (key, _) :: rest => do
    match key with
    | .scalar _ value _ _ =>
      if seen.any fun s => s.same value || (s == .number .nan && value == .number .nan) then
        report (.ofToken tag (.orderedKeys value.messageText))
        checkOrderedKeys tag seen rest
      else checkOrderedKeys tag (value :: seen) rest
    | _ => checkOrderedKeys tag seen rest

/-- Whether a value of a set is left out. -/
def isLeftOut : Option Node → Bool
  | none => true
  | some (.scalar info .null _ _) => info.tag.isNone
  | _ => false

/-- A collection under the name of a tag. -/
def taggedCollection (tag : Token) (name : String) (node : Node) : Reporting Node := do
  match name, node with
  | "tag:yaml.org,2002:set", .map info _ pairs =>
    reportIf (!pairs.all fun pair => isLeftOut pair.2) (.ofToken tag .setValues)
    return .map info .set pairs
  | "tag:yaml.org,2002:omap", .seq info items =>
    let pairs ← pairsOf tag items
    checkOrderedKeys tag [] pairs
    return .map info .ordered pairs
  | "tag:yaml.org,2002:pairs", .seq info items =>
    let pairs ← pairsOf tag items
    return .seq info (pairs.map fun pair => .map { span := pair.1.span } .plain [pair])
  | _, node => return node

/-- A collection with its properties. -/
def collectionNode (place : Place) (props : Properties) (compose : Reporting Node) :
    Reporting Node := do
  let name ← match props.tag with
    | some t => tagName? place.directives t
    | none => pure none
  let node ← compose
  let node ← match props.tag, name with
    | some t, some name => taggedCollection t name node
    | _, _ => pure node
  let anchor ← anchorOf props
  return node.withInfo { node.info with anchor, tag := name }

/-- A block collection as it is read: the offset reached, and the end of a comment after the last
item. -/
structure Progress (α : Type) where
  found : List α
  offset : Nat
  commentStop : Option Nat

/-- The offset after a collection, its last comment included. -/
def Progress.stop {α : Type} (p : Progress α) : Nat := p.commentStop.getD p.offset

/-- Checks the key of a block map that is not marked as one. -/
def checkImplicitKey (indent offset : Nat) (key : Option Tree) : Reporting Unit :=
  match key with
  | some (.seq _ _ _) => report (.point offset .sequenceAsKey)
  | some t => reportIf (t.indent?.any (· != indent)) (.point offset .mapColumn)
  | none => pure ()

/-- Checks the colon after a key of a block map. -/
def checkColon (implicit : Bool) (offset : Nat) (keyProps valueProps : Properties) (colon : Token)
    (keyNode : Node) (value : Option Tree) : Reporting Unit := do
  if implicit then
    match value with
    | some (.map _ _ _) =>
      reportIf (!valueProps.hasNewline) (.point offset .nestedCompactMap)
    | _ => pure ()
    reportIf (keyProps.begin + 1024 < colon.start) (.ofNode keyNode .longKey)

/-- Checks an item of a flow collection before its key. -/
def checkFlowItem (flow : FlowKind) (index : Nat) (props : Properties) : Reporting Unit :=
  if index = 0 then
    match props.comma with
    | some comma => report (.ofToken comma (.comma flow))
    | none => pure ()
  else reportIf props.comma.isNone (.point props.begin (.missingComma flow))

/-- Checks what stands between key and value in a flow collection. -/
def checkFlowGap (flow : FlowKind) (props valueProps : Properties) (gap : List Token)
    (value : Option Tree) : Reporting Unit := do
  match valueProps.found with
  | some colon =>
    if flow == .sequence && props.found.isNone then
      match (gap.takeWhile (· != colon)).find? (·.kind == .newline) with
      | some newline => report (.ofToken newline .flowPairLines)
      | none => pure ()
      reportIf (props.begin + 1024 < colon.start) (.ofToken colon .longFlowKey)
  | none =>
    match value with
    | none => pure ()
    | some t =>
      let startsWithColon := match t with
        | .leaf token _ => token.text.head? == some ':'
        | _ => false
      if startsWithColon then report (.ofTree t (.unspacedColon flow))
      else report (.point valueProps.begin (.missingSeparator flow))

/-- Reports a block collection within a flow collection. -/
def checkInline (tree : Option Tree) (node : Node) : Reporting Unit :=
  reportIf (tree.any Tree.isBlockCollection) (.ofNode node .blockInFlow)

/-- Checks the end of a flow collection, and gives the offsets after its bracket and after what
follows it. -/
def closeFlow (flow : FlowKind) (atRoot : Bool) (offset : Nat) (closing : List Token) :
    Reporting (Nat × Nat) := do
  let after := closing.drop 1
  let stop ← match closing.head? with
    | some t =>
      if t.text == flow.close.toList then pure t.stop
      else do
        report (.point offset (if atRoot then .unclosedFlow flow else .unindentedFlow flow))
        pure offset
    | none => do
      report (.point offset (if atRoot then .unclosedFlow flow else .unindentedFlow flow))
      pure offset
  return (stop, ← readTail true stop after)

mutual

/-- The node of a tree. -/
def nodeOf (place : Place) (props : Properties) : Tree → Reporting Node
  | .leaf t tail => leafNode place t (tail.getD []) props
  | .block header remarks indent text => blockNode place header remarks indent text props
  | .bad fault t => do
    report (.ofToken t (.tree fault))
    emptyNode place t.start [] props
  | .map start indent items =>
    collectionNode place props do
      let p ← mapItems place.directives indent ⟨[], start, none⟩ items
      reportIf (p.commentStop.any fun stop => stop != 0 && stop < p.offset)
        (.point p.stop .trailingMapComment)
      return .map { span := ⟨start, p.offset, p.stop⟩ } .plain p.found
  | .seq start indent items =>
    collectionNode place props do
      checkSequenceProperties props
      let p ← seqItems place.directives indent ⟨[], start, none⟩ items
      return .seq { span := ⟨start, p.offset, p.stop⟩ } p.found
  | .flow opener indent items closing =>
    collectionNode place props do
      if opener.kind == .flowMapStart then
        let (pairs, offset) ← flowPairs place.directives indent opener.stop 0 [] items
        let (valueStop, stop) ← closeFlow .map place.atRoot offset closing
        return .map { span := ⟨opener.start, valueStop, stop⟩ } .plain pairs
      else
        let (nodes, offset) ← flowItems place.directives indent opener.stop 0 items
        let (valueStop, stop) ← closeFlow .sequence place.atRoot offset closing
        return .seq { span := ⟨opener.start, valueStop, stop⟩ } nodes

/-- The pairs of a block map. -/
def mapItems (directives : Directives) (indent : Nat) (p : Progress (Node × Option Node)) :
    List (Item Tree) → Reporting (Progress (Node × Option Node))
  | [] => pure p
  | ⟨lead, key, gap, value, _⟩ :: rest => do
    let keyProps ← readProperties
      { indicator := .explicitKey
        next := .first key gap
        offset := p.offset
        parentIndent := indent
        startOnNewline := true } lead
    let implicit := keyProps.found.isNone
    if implicit then checkImplicitKey indent p.offset key
    else
      reportIf (keyProps.found.any (·.indent != indent)) (.point p.offset .mapColumn)
    if implicit && keyProps.anchor.isNone && keyProps.tag.isNone && gap.isNone then
      mapItems directives indent { p with commentStop := some keyProps.stop } rest
    else
      if implicit && (keyProps.newlineAfter.isSome || key.any Tree.isMultiline) then
        match key, lead.getLast? with
        | some t, _ => report (.ofTree t .keyLines)
        | none, some t => report (.ofToken t .keyLines)
        | none, none => pure ()
      let keyNode ← match key with
        | some t => nodeOf { directives, atKey := true } keyProps t
        | none => emptyNode { directives, atKey := true } keyProps.stop lead keyProps
      reportIf (p.found.any fun pair => pair.1.sameKey keyNode)
        (.point keyProps.stop .duplicateKey)
      let valueProps ← readProperties
        { indicator := .mapValue
          next := .first value none
          offset := keyNode.span.stop
          parentIndent := indent
          startOnNewline := match key with
            | none | some (.block _ _ _ _) => true
            | _ => false } (gap.getD [])
      match valueProps.found with
      | some colon =>
        checkColon implicit valueProps.stop keyProps valueProps colon keyNode value
        let valueNode ← match value with
          | some t => nodeOf { directives } valueProps t
          | none => emptyNode { directives } valueProps.stop (gap.getD []) valueProps
        mapItems directives indent
          { p with found := p.found ++ [(keyNode, some valueNode)], offset := valueNode.span.stop }
          rest
      | none =>
        reportIf implicit (.ofNode keyNode .keyWithoutValue)
        mapItems directives indent
          { p with found := p.found ++ [(keyNode, none)], offset := valueProps.stop } rest

/-- The items of a block sequence. -/
def seqItems (directives : Directives) (indent : Nat) (p : Progress Node) :
    List (Item Tree) → Reporting (Progress Node)
  | [] => pure p
  | ⟨lead, _, _, value, _⟩ :: rest => do
    let props ← readProperties
      { indicator := .seqItem
        next := .first value none
        offset := p.offset
        parentIndent := indent
        startOnNewline := true } lead
    if props.found.isNone && props.anchor.isNone && props.tag.isNone && value.isNone then
      seqItems directives indent { p with commentStop := some props.stop } rest
    else
      if props.found.isNone then
        match value with
        | some (.seq _ _ _) => report (.point props.stop .sequenceColumn)
        | _ => report (.point p.offset .itemWithoutDash)
      let node ← match value with
        | some t => nodeOf { directives } props t
        | none => emptyNode { directives } props.stop lead props
      seqItems directives indent
        { p with found := p.found ++ [node], offset := node.span.stop } rest

/-- The pairs of a flow map, and the offset after them. -/
def flowPairs (directives : Directives) (indent offset index : Nat)
    (found : List (Node × Option Node)) :
    List (Item Tree) → Reporting (List (Node × Option Node) × Nat)
  | [] => pure (found, offset)
  | ⟨lead, key, gap, value, _⟩ :: rest => do
    let props ← readProperties
      { flow := some .map
        indicator := .explicitKey
        next := .first key gap
        offset
        parentIndent := indent
        startOnNewline := false } lead
    if props.found.isNone && props.anchor.isNone && props.tag.isNone && gap.isNone &&
        value.isNone then
      match index, props.comma with
      | 0, some comma => report (.ofToken comma (.comma .map))
      | _, _ => reportIf (!rest.isEmpty) (.point props.begin (.emptyFlowItem .map))
      flowPairs directives indent props.stop (index + 1) found rest
    else
      checkFlowItem .map index props
      let keyNode ← match key with
        | some t => nodeOf { directives, atKey := true } props t
        | none => emptyNode { directives, atKey := true } props.stop lead props
      checkInline key keyNode
      let valueProps ← readProperties
        { flow := some .map
          indicator := .mapValue
          next := .first value none
          offset := keyNode.span.stop
          parentIndent := indent
          startOnNewline := false } (gap.getD [])
      checkFlowGap .map props valueProps (gap.getD []) value
      let valueNode ← match value, valueProps.found with
        | some t, _ => do
          let node ← nodeOf { directives } valueProps t
          checkInline value node
          pure (some node)
        | none, some _ =>
          some <$> emptyNode { directives } valueProps.stop (gap.getD []) valueProps
        | none, none => pure none
      reportIf (found.any fun pair => pair.1.sameKey keyNode) (.point props.stop .duplicateKey)
      flowPairs directives indent ((valueNode.map (·.span.stop)).getD valueProps.stop) (index + 1)
        (found ++ [(keyNode, valueNode)]) rest

/-- The items of a flow sequence, and the offset after them. An item with a colon is a map of one
pair. -/
def flowItems (directives : Directives) (indent offset index : Nat) :
    List (Item Tree) → Reporting (List Node × Nat)
  | [] => pure ([], offset)
  | ⟨lead, key, gap, value, _⟩ :: rest => do
    let props ← readProperties
      { flow := some .sequence
        indicator := .explicitKey
        next := .first key gap
        offset
        parentIndent := indent
        startOnNewline := false } lead
    if props.found.isNone && props.anchor.isNone && props.tag.isNone && gap.isNone &&
        value.isNone then
      match index, props.comma with
      | 0, some comma => report (.ofToken comma (.comma .sequence))
      | _, _ => reportIf (!rest.isEmpty) (.point props.begin (.emptyFlowItem .sequence))
      flowItems directives indent props.stop (index + 1) rest
    else
      if props.found.isNone then
        match key with
        | some t => reportIf t.isMultiline (.ofTree t .flowPairLines)
        | none => pure ()
      checkFlowItem .sequence index props
      if gap.isNone && props.found.isNone then
        let node ← match value with
          | some t => nodeOf { directives } props t
          | none => emptyNode { directives } props.stop [] props
        checkInline value node
        let (nodes, offset) ← flowItems directives indent node.span.stop (index + 1) rest
        return (node :: nodes, offset)
      else
        let keyNode ← match key with
          | some t => nodeOf { directives, atKey := true } props t
          | none => emptyNode { directives, atKey := true } props.stop lead props
        checkInline key keyNode
        let valueProps ← readProperties
          { flow := some .sequence
            indicator := .mapValue
            next := .first value none
            offset := keyNode.span.stop
            parentIndent := indent
            startOnNewline := false } (gap.getD [])
        checkFlowGap .sequence props valueProps (gap.getD []) value
        let valueNode ← match value, valueProps.found with
          | some t, _ => do
            let node ← nodeOf { directives } valueProps t
            checkInline value node
            pure (some node)
          | none, some _ =>
            some <$> emptyNode { directives } valueProps.stop (gap.getD []) valueProps
          | none, none => pure none
        let last := (valueNode.getD keyNode).span
        let node := Node.map { span := ⟨keyNode.span.start, last.valueStop, last.stop⟩ } .plain
          [(keyNode, valueNode)]
        let (nodes, offset) ← flowItems directives indent
          ((valueNode.map (·.span.stop)).getD valueProps.stop) (index + 1) rest
        return (node :: nodes, offset)

end

end BuildMatrix.Yaml
