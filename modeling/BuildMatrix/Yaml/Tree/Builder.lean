import BuildMatrix.Yaml.Token.Lexer
import BuildMatrix.Yaml.Tree

/-!
# Building the tree of a source from its tokens

The builder takes the tokens one by one. It keeps a stack of the nodes that are not finished, the
innermost on top; a token either goes into the top node or finishes it.
-/

namespace BuildMatrix.Yaml

/-- A node that is not finished. -/
inductive Frame where
  | document (document : RawDocument)
  | documentEnd (token : Token) (tail : List Token)
  | tree (tree : Tree)
deriving Inhabited

/-- The state of the builder. Entries and line starts come last first. -/
structure Builder where
  stack : List Frame := []
  entries : List Entry := []
  lineStarts : List Nat := [0]
  offset : Nat := 0
  /-- The indentation of the line so far. -/
  indent : Nat := 0
  atLineStart : Bool := true
  /-- Whether the line holds a key. -/
  onKeyLine : Bool := false
deriving Inhabited

namespace Builder

/-! ## Lists of tokens and items -/

/-- Whether tokens include one of a kind. -/
def hasKind (kind : TokenKind) (ts : List Token) : Bool := ts.any (·.kind == kind)

/-- Spaces, comments and line ends. -/
def isTrivia (t : Token) : Bool := t.kind == .space || t.kind == .comment || t.kind == .newline

/-- The list without its last element, and that element. -/
def splitLast {α : Type} (fallback : α) (xs : List α) : List α × α :=
  (xs.dropLast, xs.getLast?.getD fallback)

/-- Tokens that end the search for the properties of a key. -/
def stopsKeyProperties (t : Token) : Bool :=
  match t.kind with
  | .documentStart | .explicitKey | .mapValue | .seqItem | .newline => true
  | _ => false

/-- Splits off the tokens at the end that belong to the first key of a new map. -/
def splitKeyProperties (ts : List Token) : List Token × List Token :=
  let last := ts.reverse.takeWhile (!stopsKeyProperties ·)
  let rest := ts.take (ts.length - last.length)
  let spaces := last.reverse.takeWhile (·.kind == .space)
  (rest ++ spaces, last.reverse.drop spaces.length)

/-- Splits such tokens off an unfinished node. -/
def splitFrame : Frame → Frame × List Token
  | .document d =>
    let (kept, start) := splitKeyProperties d.lead
    (.document { d with lead := kept }, start)
  | .tree (.map start indent items) =>
    let (before, item) := splitLast {} items
    match item.gap with
    | some gap =>
      let (kept, props) := splitKeyProperties gap
      (.tree (.map start indent (before ++ [{ item with gap := some kept }])), props)
    | none =>
      let (kept, props) := splitKeyProperties item.lead
      (.tree (.map start indent (before ++ [{ item with lead := kept }])), props)
  | .tree (.seq start indent items) =>
    let (before, item) := splitLast {} items
    let (kept, props) := splitKeyProperties item.lead
    (.tree (.seq start indent (before ++ [{ item with lead := kept }])), props)
  | frame => (frame, [])

/-- An item of a flow sequence whose key turned out to be its value. -/
def settleItem (item : Item Tree) : Item Tree :=
  match item.gap with
  | none => item
  | some gap =>
    if !item.value.isSome && !hasKind .explicitKey item.lead && !hasKind .mapValue gap then
      match item.key with
      | some key =>
        if key.isInline then { item with key := none, gap := none, value := some (key.addTail gap) }
        else { item with key := none, gap := none, value := some key, lead := item.lead ++ gap }
      | none => { item with gap := none, lead := item.lead ++ gap }
    else item

/-- A flow collection that is finished. -/
def settleFlow : Tree → Tree
  | .flow opener indent items closing =>
    if opener.kind == .flowSeqStart then .flow opener indent (items.map settleItem) closing
    else .flow opener indent items closing
  | t => t

/-! ## Finishing nodes -/

/-- A finished node as its parent sees it: block scalars take the indentation of the parent, and
a flow collection of a document has none. -/
def settle (parent : Frame) (t : Tree) : Tree :=
  match t with
  | .block header remarks _ text =>
    match parent with
    | .tree p => .block header remarks (p.indent?.getD 0) text
    | _ => .block header remarks 0 text
  | .flow opener _ items closing =>
    match parent with
    | .document _ => settleFlow (.flow opener 0 items closing)
    | _ => settleFlow t
  | t => t

/-- Whether an item that only holds trivia follows the collection rather than belongs to it. -/
def isLoose (indent : Nat) (item : Item Tree) : Bool :=
  !item.gap.isSome && !item.value.isSome && !item.lead.isEmpty && item.lead.all isTrivia &&
    (indent == 0 || item.lead.all fun t => t.kind != .comment || t.indent < indent)

/-- Takes a loose item off the end of a block collection. -/
def splitLoose : Tree → Tree × Option (List Token)
  | .map start indent items =>
    let (before, item) := splitLast {} items
    if !items.isEmpty && isLoose indent item then (.map start indent before, some item.lead)
    else (.map start indent items, none)
  | .seq start indent items =>
    let (before, item) := splitLast {} items
    if !items.isEmpty && isLoose indent item then (.seq start indent before, some item.lead)
    else (.seq start indent items, none)
  | t => (t, none)

/-- Puts a finished node into the last item of a block map. The answer ends with whether the node
has become a key. -/
def putInMap (items : List (Item Tree)) (t : Tree) : List (Item Tree) × Option Bool :=
  let (before, item) := splitLast {} items
  if item.value.isSome then (items ++ [{ key := some t, gap := some [] }], some true)
  else if item.gap.isSome then
    let (t, loose) := splitLoose t
    let items := before ++ [{ item with value := some t }]
    (match loose with
      | some lead => items ++ [{ lead }]
      | none => items, none)
  else (before ++ [{ item with key := some t, gap := some [] }], some !item.explicit)

/-- Puts a finished node into a block sequence. -/
def putInSeq (items : List (Item Tree)) (t : Tree) : List (Item Tree) :=
  let (before, item) := splitLast {} items
  let (t, loose) := splitLoose t
  let items :=
    if item.value.isSome then items ++ [{ value := some t }]
    else before ++ [{ item with value := some t }]
  match loose with
  | some lead => items ++ [{ lead }]
  | none => items

/-- Puts a finished node into a flow collection. -/
def putInFlow (items : List (Item Tree)) (t : Tree) : List (Item Tree) :=
  match items.getLast? with
  | none => [{ key := some t, gap := some [] }]
  | some item =>
    if item.value.isSome then items ++ [{ key := some t, gap := some [] }]
    else if item.gap.isSome then items.dropLast ++ [{ item with value := some t }]
    else items.dropLast ++ [{ item with key := some t, gap := some [] }]

/-- The entry of a finished frame. -/
def entryOf : Frame → Entry
  | .document d => .document d
  | .documentEnd token tail => .documentEnd token tail
  | .tree (.bad fault token) => .bad fault token
  | .tree t => .document { start := t.start, value := some t }

/-- Hands a finished node to the node on top of the stack. -/
def attachTop (b : Builder) (t : Tree) : Builder :=
  match b.stack with
  | [] => { b with entries := entryOf (.tree t) :: b.entries }
  | top :: rest =>
    let t := settle top t
    match top with
    | .document d =>
      let (t, loose) := splitLoose t
      let d := { d with value := some t }
      let d := match loose with
        | some lead => { d with tail := some lead }
        | none => d
      { b with stack := .document d :: rest }
    | .tree (.map start indent items) =>
      let (items, key) := putInMap items t
      { b with
        stack := .tree (.map start indent items) :: rest
        onKeyLine := key.getD b.onKeyLine }
    | .tree (.seq start indent items) =>
      { b with stack := .tree (.seq start indent (putInSeq items t)) :: rest }
    | .tree (.flow opener indent items closing) =>
      { b with stack := .tree (.flow opener indent (putInFlow items t) closing) :: rest }
    | .tree (.block header remarks indent text) =>
      match t with
      | .bad _ token =>
        { b with stack := .tree (.block header (remarks ++ [token]) indent text) :: rest }
      | _ => b
    | _ => b

/-- Finishes the node on top of the stack. -/
def pop (b : Builder) : Builder :=
  match b.stack with
  | [] => b
  | [frame] => { b with stack := [], entries := entryOf frame :: b.entries }
  | .tree t :: rest => attachTop { b with stack := rest } t
  | _ :: rest => { b with stack := rest }

/-- Reports a fault in the place of a node; a leaf on top of the stack is finished first. -/
def report (b : Builder) (fault : TreeFault) (token : Token) : Builder :=
  let b := match b.stack with
    | .tree (.leaf _ _) :: _ | .documentEnd _ _ :: _ => b.pop
    | _ => b
  b.attachTop (.bad fault token)

/-- Finishes all nodes. -/
def popAll : Nat → Builder → Builder
  | 0, b => b
  | n + 1, b => if b.stack.isEmpty then b else popAll n b.pop

/-! ## Taking tokens -/

/-- Replaces the node on top of the stack. -/
def setTop (b : Builder) (frame : Frame) : Builder := { b with stack := frame :: b.stack.drop 1 }

/-- Puts a node on top of the stack. -/
def push (b : Builder) (t : Tree) : Builder := { b with stack := .tree t :: b.stack }

/-- The offsets after the line ends of a text that starts at an offset, last first. -/
def lineStartsIn (offset : Nat) (cs : List Char) : List Nat :=
  (cs.foldl (fun (starts, position) c =>
    let next := position + Text.width c
    (if c == '\n' then next :: starts else starts, next)) (([] : List Nat), offset)).1

/-- Notes the lines that start within a scalar. -/
def noteLines (b : Builder) (cs : List Char) : Builder :=
  { b with lineStarts := lineStartsIn b.offset cs ++ b.lineStarts }

/-- What comes of a token: it was taken, or the node on top was finished and the token is still
to be taken. -/
inductive Outcome where
  | taken (builder : Builder)
  | again (builder : Builder)

/-- Starts a node with a token, if the token can start one. -/
def startNode (b : Builder) (tok : Token) : Option Builder :=
  match tok.kind with
  | .alias | .scalar | .singleQuoted | .doubleQuoted =>
    some ((b.noteLines tok.text).push (.leaf tok none))
  | .blockHeader => some (b.push (.block tok [] tok.indent []))
  | .flowMapStart | .flowSeqStart => some (b.push (.flow tok tok.indent [] []))
  | .seqItem => some (b.push (.seq tok.start tok.indent [{ lead := [tok] }]))
  | .explicitKey =>
    match b.stack with
    | top :: rest =>
      let (top, props) := splitFrame top
      some ({ b with stack := top :: rest, onKeyLine := true }.push
        (.map tok.start tok.indent [{ lead := props ++ [tok], explicit := true }]))
    | [] => none
  | .mapValue =>
    match b.stack with
    | top :: rest =>
      let (top, props) := splitFrame top
      some ({ b with stack := top :: rest, onKeyLine := true }.push
        (.map tok.start tok.indent [{ lead := props, gap := some [tok] }]))
    | [] => none
  | _ => none

/-- Takes a token between documents. -/
def inStream (b : Builder) (tok : Token) : Builder :=
  match tok.kind with
  | .directive => { b with entries := .directive tok :: b.entries }
  | .byteOrderMark | .space | .comment | .newline => { b with entries := .trivia tok :: b.entries }
  | .documentMode => { b with stack := [.document { start := tok.start }] }
  | .documentStart => { b with stack := [.document { start := tok.start, lead := [tok] }] }
  | kind => { b with entries := .bad (.inStream kind tok.text) tok :: b.entries }

/-- Takes a token after a node in its line. -/
def afterNode (b : Builder) (tok : Token) (add : Token → Frame) : Outcome :=
  match tok.kind with
  | .comma | .documentStart | .documentEnd | .flowSeqEnd | .flowMapEnd | .mapValue => .again b.pop
  | .newline => .taken ({ b.setTop (add tok) with onKeyLine := false }).pop
  | _ => .taken (b.setTop (add tok))

/-- Takes a token in a document. -/
def inDocument (b : Builder) (d : RawDocument) (tok : Token) : Outcome :=
  if d.value.isSome then
    afterNode b tok fun t => .document { d with tail := some (d.tail.getD [] ++ [t]) }
  else
    let extended := b.setTop (.document { d with lead := d.lead ++ [tok] })
    match tok.kind with
    | .documentStart => if d.lead.all isTrivia then .taken extended else .again b.pop
    | .anchor | .tag | .space | .comment | .newline => .taken extended
    | kind =>
      match b.startNode tok with
      | some b => .taken b
      | none => .taken { b with entries := .bad (.inDocument kind tok.text) tok :: b.entries }

/-- Takes a token after a scalar or an alias. A colon makes it the first key of a map. -/
def inLeaf (b : Builder) (leaf : Token) (tail : Option (List Token)) (tok : Token) : Outcome :=
  if tok.kind == .mapValue then
    match b.stack with
    | _ :: parent :: rest =>
      let (parent, props) := splitFrame parent
      let item : Item Tree :=
        { lead := props, key := some (.leaf leaf none), gap := some (tail.getD [] ++ [tok]) }
      .taken
        { b with
          stack := .tree (.map leaf.start leaf.indent [item]) :: parent :: rest
          onKeyLine := true }
    | _ => .taken b
  else afterNode b tok fun t => .tree (.leaf leaf (some (tail.getD [] ++ [t])))

/-- Takes a token of a block scalar: the rest of its header line, then its text. -/
def inBlock (b : Builder) (header : Token) (remarks : List Token) (indent : Nat)
    (tok : Token) : Outcome :=
  match tok.kind with
  | .space | .comment | .newline =>
    .taken (b.setTop (.tree (.block header (remarks ++ [tok]) indent [])))
  | .scalar =>
    let b := (b.noteLines tok.text).setTop (.tree (.block header remarks indent tok.text))
    .taken ({ b with atLineStart := true, indent := 0 }).pop
  | _ => .again b.pop

/-- A comment of a line of its own that is indented more than the collection. -/
def isIndentedComment (b : Builder) (lead : List Token) (indent : Nat) (tok : Token) : Bool :=
  tok.kind == .comment && indent < b.indent &&
    lead.all fun t => t.kind == .newline || t.kind == .space

/-- Adds a line end to a block collection whose last item has a value. -/
def addNewline (items : List (Item Tree)) (tok : Token) : List (Item Tree) :=
  let (before, item) := splitLast {} items
  match item.value with
  | some value =>
    if ((value.tail?.getD []).getLast?.map (·.kind)) == some .comment then
      before ++ [{ item with value := some (value.addTail [tok]) }]
    else items ++ [{ lead := [tok] }]
  | none => items

/-- Moves the lead of the last item, and a comment after it, to the value of the item before. -/
def adoptComment? (items : List (Item Tree)) (tok : Token) : Option (List (Item Tree)) :=
  let (before, item) := splitLast {} items
  match before.getLast? with
  | none => none
  | some previous =>
    match previous.value with
    | none => none
    | some value =>
      if value.tail?.isSome then
        some (before.dropLast ++
          [{ previous with value := some (value.addTail (item.lead ++ [tok])) }])
      else none

/-- Takes a space, a comment or a line end in a block collection. -/
def addTrivia (b : Builder) (indent : Nat) (items : List (Item Tree)) (tok : Token) :
    List (Item Tree) :=
  let (before, item) := splitLast {} items
  if item.value.isSome then
    if tok.kind == .newline then addNewline items tok else items ++ [{ lead := [tok] }]
  else
    match item.gap with
    | some gap => before ++ [{ item with gap := some (gap ++ [tok]) }]
    | none =>
      let plain := before ++ [{ item with lead := item.lead ++ [tok] }]
      if isIndentedComment b item.lead indent tok then (adoptComment? items tok).getD plain
      else plain

/-- The index of the second of the line ends after which tokens belong to the next item. -/
def secondBreak? (indent : Nat) (gap : List Token) : Option Nat :=
  let breaks := (gap.zipIdx.foldl (fun (breaks : List Nat) (t, i) =>
    match t.kind with
    | .newline => breaks ++ [i]
    | .space => breaks
    | .comment => if indent < t.indent then [] else breaks
    | _ => []) [])
  breaks[1]?

/-- Takes a token that belongs into a block map by its indentation. -/
def intoMap (b : Builder) (start indent : Nat) (items : List (Item Tree)) (tok : Token) :
    Outcome :=
  let (before, item) := splitLast {} items
  let atMapIndent := !b.onKeyLine && b.indent == indent
  let atNextItem := atMapIndent && (item.gap.isSome || item.explicit) && tok.kind != .seqItem
  let split := match item.gap with
    | some gap =>
      if atNextItem && !item.value.isSome then
        (secondBreak? indent gap).map fun i => (gap.take i, gap.drop i)
      else none
    | none => none
  let next := (split.map (·.2)).getD []
  let item := match split with
    | some (gap, _) => { item with gap := some gap }
    | none => item
  let items := before ++ [item]
  let toMap (items : List (Item Tree)) : Builder := b.setTop (.tree (.map start indent items))
  let keyed (b : Builder) : Outcome := .taken { b with onKeyLine := true }
  let inner (item : Item Tree) : Tree := .map tok.start tok.indent [item]
  match tok.kind with
  | .anchor | .tag =>
    if atNextItem || item.value.isSome then keyed (toMap (items ++ [{ lead := next ++ [tok] }]))
    else
      match item.gap with
      | some gap => .taken (toMap (before ++ [{ item with gap := some (gap ++ [tok]) }]))
      | none => .taken (toMap (before ++ [{ item with lead := item.lead ++ [tok] }]))
  | .explicitKey =>
    if !item.gap.isSome && !item.explicit then
      keyed (toMap (before ++ [{ item with lead := item.lead ++ [tok], explicit := true }]))
    else if atNextItem || item.value.isSome then
      keyed (toMap (items ++ [{ lead := next ++ [tok], explicit := true }]))
    else keyed ((toMap items).push (inner { lead := [tok], explicit := true }))
  | .mapValue =>
    match item.gap with
    | none =>
      if item.explicit && !hasKind .newline item.lead then
        let (kept, props) := splitKeyProperties item.lead
        keyed ((toMap (before ++ [{ item with lead := kept }])).push
          (inner { lead := props, gap := some [tok] }))
      else keyed (toMap (before ++ [{ item with key := none, gap := some [tok] }]))
    | some gap =>
      if item.explicit then
        if item.value.isSome then keyed (toMap (items ++ [{ gap := some [tok] }]))
        else if hasKind .mapValue gap then
          keyed ((toMap items).push (inner { lead := next, gap := some [tok] }))
        else
          match item.key with
          | some key =>
            if key.isInline && !hasKind .newline gap then
              let (kept, props) := splitKeyProperties item.lead
              keyed ((toMap (before ++ [{ item with lead := kept, key := none, gap := none }])).push
                (inner { lead := props, key := some key, gap := some (gap ++ [tok]) }))
            else
              keyed (toMap (before ++ [{ item with gap := some (gap ++ next ++ [tok]) }]))
          | none => keyed (toMap (before ++ [{ item with gap := some (gap ++ next ++ [tok]) }]))
      else if item.value.isSome || atNextItem then
        keyed (toMap (items ++ [{ lead := next, gap := some [tok] }]))
      else if hasKind .mapValue gap then
        keyed ((toMap items).push (inner { gap := some [tok] }))
      else keyed (toMap (before ++ [{ item with gap := some (gap ++ [tok]) }]))
  | .alias | .scalar | .singleQuoted | .doubleQuoted =>
    let b' := (toMap items).noteLines tok.text
    let leaf := Tree.leaf tok none
    if atNextItem || item.value.isSome then
      keyed (b'.setTop (.tree (.map start indent
        (items ++ [{ lead := next, key := some leaf, gap := some [] }]))))
    else if item.gap.isSome then .taken (b'.push leaf)
    else
      keyed (b'.setTop (.tree (.map start indent
        (before ++ [{ item with key := some leaf, gap := some [] }]))))
  | _ =>
    if tok.kind == .seqItem && !item.explicit && item.gap.any (!hasKind .newline ·) then
      .taken ((toMap items).report .sequenceOnKeyLine tok)
    else
      let opened :=
        if atMapIndent && tok.kind != .seqItem then items ++ [{ lead := next }] else items
      match (toMap opened).startNode tok with
      | some b => .taken b
      | none => .again (toMap items).pop

/-- Takes a token in a block map. -/
def inMap (b : Builder) (start indent : Nat) (items : List (Item Tree)) (tok : Token) : Outcome :=
  match tok.kind with
  | .newline =>
    .taken { b.setTop (.tree (.map start indent (addTrivia b indent items tok))) with
      onKeyLine := false }
  | .space | .comment => .taken (b.setTop (.tree (.map start indent (addTrivia b indent items tok))))
  | _ => if indent ≤ b.indent then intoMap b start indent items tok else .again b.pop

/-- Takes a token in a block sequence. -/
def inSeq (b : Builder) (start indent : Nat) (items : List (Item Tree)) (tok : Token) : Outcome :=
  let (before, item) := splitLast {} items
  let toSeq (items : List (Item Tree)) : Outcome :=
    .taken (b.setTop (.tree (.seq start indent items)))
  let other : Outcome :=
    if indent < b.indent then
      match b.startNode tok with
      | some b => .taken b
      | none => .again b.pop
    else .again b.pop
  match tok.kind with
  | .newline | .space | .comment => toSeq (addTrivia b indent items tok)
  | .anchor | .tag =>
    if item.value.isSome || b.indent ≤ indent then other
    else toSeq (before ++ [{ item with lead := item.lead ++ [tok] }])
  | .seqItem =>
    if b.indent != indent then other
    else if item.value.isSome || hasKind .seqItem item.lead then
      toSeq (items ++ [{ lead := [tok] }])
    else toSeq (before ++ [{ item with lead := item.lead ++ [tok] }])
  | _ => other

/-- Finishes all flow collections on top of the stack. -/
def popFlow : Nat → Builder → Builder
  | 0, b => b
  | n + 1, b =>
    match b.stack with
    | .tree (.flow _ _ _ _) :: _ => popFlow n b.pop
    | _ => b

/-- Takes a token in a flow collection that is not closed. -/
def intoFlow (b : Builder) (opener : Token) (indent : Nat) (items : List (Item Tree))
    (tok : Token) : Outcome :=
  let last := items.getLast?
  let before := items.dropLast
  let toFlow (items : List (Item Tree)) : Builder :=
    b.setTop (.tree (.flow opener indent items []))
  let unfinished := match last with
    | some item => if item.value.isSome then none else some item
    | none => none
  match tok.kind with
  | .comma | .explicitKey =>
    match last with
    | some item =>
      if item.gap.isSome then .taken (toFlow (items ++ [{ lead := [tok] }]))
      else .taken (toFlow (before ++ [{ item with lead := item.lead ++ [tok] }]))
    | none => .taken (toFlow [{ lead := [tok] }])
  | .mapValue =>
    match unfinished with
    | none => .taken (toFlow (items ++ [{ gap := some [tok] }]))
    | some item =>
      match item.gap with
      | some gap => .taken (toFlow (before ++ [{ item with gap := some (gap ++ [tok]) }]))
      | none => .taken (toFlow (before ++ [{ item with key := none, gap := some [tok] }]))
  | .space | .comment | .newline | .anchor | .tag =>
    match unfinished with
    | none => .taken (toFlow (items ++ [{ lead := [tok] }]))
    | some item =>
      match item.gap with
      | some gap => .taken (toFlow (before ++ [{ item with gap := some (gap ++ [tok]) }]))
      | none => .taken (toFlow (before ++ [{ item with lead := item.lead ++ [tok] }]))
  | .alias | .scalar | .singleQuoted | .doubleQuoted =>
    let leaf := Tree.leaf tok none
    match unfinished with
    | none => .taken ((toFlow (items ++ [{ key := some leaf, gap := some [] }])).noteLines tok.text)
    | some item =>
      if item.gap.isSome then .taken ((b.noteLines tok.text).push leaf)
      else
        .taken ((toFlow (before ++ [{ item with key := some leaf, gap := some [] }])).noteLines
          tok.text)
  | .flowMapEnd | .flowSeqEnd => .taken (b.setTop (.tree (.flow opener indent items [tok])))
  | _ =>
    match b.startNode tok with
    | some b => .taken b
    | none => .again b.pop

/-- Takes a token after a flow collection that is closed. A colon makes it the first key of a
map. -/
def afterFlow (b : Builder) (opener : Token) (indent : Nat) (items : List (Item Tree))
    (closing : List Token) (tok : Token) : Outcome :=
  let isKey : Bool := match b.stack.drop 1 with
    | .tree (.map _ parentIndent parentItems) :: _ =>
      (tok.kind == .mapValue && parentIndent == indent) ||
        (tok.kind == .newline && (parentItems.getLast?.map (!·.gap.isSome)).getD true)
    | _ => false
  if isKey then .again b.pop
  else
    match tok.kind, b.stack.drop 1 with
    | .mapValue, .tree (.flow _ _ _ _) :: _ => .again b.pop
    | .mapValue, parent :: rest =>
      let (parent, props) := splitFrame parent
      let key := settleFlow (.flow opener indent items (closing.take 1))
      let item : Item Tree :=
        { lead := props, key := some key, gap := some (closing.drop 1 ++ [tok]) }
      .taken
        { b with
          stack := .tree (.map opener.start indent [item]) :: parent :: rest
          onKeyLine := true }
    | _, _ =>
      afterNode b tok fun t => .tree (.flow opener indent items (closing ++ [t]))

/-- Takes a token in a flow collection. -/
def inFlow (b : Builder) (opener : Token) (indent : Nat) (items : List (Item Tree))
    (closing : List Token) (tok : Token) : Outcome :=
  if tok.kind == .flowErrorEnd then .taken (popFlow b.stack.length b)
  else if closing.isEmpty then intoFlow b opener indent items tok
  else afterFlow b opener indent items closing tok

/-- Takes a token after the end of a document. -/
def inDocumentEnd (b : Builder) (mark : Token) (tail : List Token) (tok : Token) : Builder :=
  if tok.kind == .documentMode then b
  else
    let b := b.setTop (.documentEnd mark (tail ++ [tok]))
    if tok.kind == .newline then b.pop else b

/-- Offers a token to the node on top of the stack. -/
def offer (b : Builder) (tok : Token) : Outcome :=
  match b.stack with
  | [] => .taken (b.inStream tok)
  | .documentEnd mark tail :: _ => .taken (b.inDocumentEnd mark tail tok)
  | top :: _ =>
    if tok.kind == .documentEnd then
      .taken { popAll b.stack.length b with stack := [.documentEnd tok []] }
    else
      match top with
      | .document d => b.inDocument d tok
      | .tree (.leaf leaf tail) => b.inLeaf leaf tail tok
      | .tree (.block header remarks indent _) => b.inBlock header remarks indent tok
      | .tree (.map start indent items) => b.inMap start indent items tok
      | .tree (.seq start indent items) => b.inSeq start indent items tok
      | .tree (.flow opener indent items closing) => b.inFlow opener indent items closing tok
      | _ => .again b.pop

/-- Offers a token until it is taken; each refusal shortens the stack. -/
def take : Nat → Builder → Token → Builder
  | 0, b, _ => b
  | n + 1, b, tok =>
    match b.offer tok with
    | .taken b => b
    | .again b => take n b tok

/-- Takes the next token of the text. -/
def next (b : Builder) (l : Lexeme) : Builder :=
  let tok : Token := ⟨l.kind, l.text, b.offset, b.indent⟩
  let width := Text.widthOf l.text
  let offset := b.offset + width
  let b' :=
    match l.kind with
    | .unknown => b.report (.notToken l.text) tok
    | .scalar => take (b.stack.length + 1) { b with atLineStart := false } tok
    | _ => take (b.stack.length + 1) b tok
  match l.kind with
  | .unknown | .scalar => { b' with offset }
  | .newline =>
    { b' with offset, atLineStart := true, indent := 0, lineStarts := offset :: b'.lineStarts }
  | .space =>
    if b'.atLineStart && l.text.head? == some ' ' then
      { b' with offset, indent := b'.indent + width }
    else { b' with offset }
  | .explicitKey | .mapValue | .seqItem =>
    if b'.atLineStart then { b' with offset, indent := b'.indent + width } else { b' with offset }
  | .documentMode | .flowErrorEnd => b'
  | _ => { b' with offset, atLineStart := false }

end Builder

/-- The entries of a source, and the offsets at which its lines start. -/
structure Source where
  entries : List Entry
  lineStarts : List Nat

/-- Reads the tree of a text. -/
def Source.ofText (cs : List Char) : Source :=
  let b := (lex cs).foldl Builder.next {}
  let b := Builder.popAll b.stack.length b
  ⟨b.entries.reverse, b.lineStarts.reverse⟩

end BuildMatrix.Yaml
