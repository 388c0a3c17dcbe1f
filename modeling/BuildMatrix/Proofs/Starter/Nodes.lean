import BuildMatrix.Proofs.Record.Order
import BuildMatrix.Proofs.Starter.Tokens
import BuildMatrix.Config.Read

/-!
# The nodes of the starter file

The pairs of the file are composed one after the other (`mapItems_item`), so the document of the
file has the node of the image in the two places of its tree (`node_fileChars`).
-/

namespace BuildMatrix.Starter

open Yaml

/-- A tree is read as a node, without a report, where nothing is said of it. -/
def Reads (t : Tree) (n : Node) : Prop :=
  ∀ (props : Properties) (rs : List Report), props.anchor = none → props.tag = none →
    (nodeOf { directives := {} } props t).run rs = (n, rs)

theorem scalarNode_run {place : Place} {props : Properties} {kind : TokenKind} {cs : List Char}
    {value : Scalar} (span : Span) (hanchor : props.anchor = none) (htag : props.tag = none)
    (hvalue : value = if kind == .scalar then
      Scalar.ofPlain place.directives.version place.atKey cs else .string (.ofList cs))
    (rs : List Report) :
    (scalarNode place props kind cs span).run rs = (.scalar { span } value cs kind, rs) := by
  have hnone : (anchorOf props).run rs = (none, rs) := by
    rw [anchorOf, hanchor]
    rfl
  have hscalar : (scalarValue place props kind cs).run rs = ((value, none), rs) := by
    rw [scalarValue, htag, hvalue]
    rfl
  rw [scalarNode, run_bind_of hscalar]
  dsimp only
  rw [run_bind_of hnone]
  rfl

/-- Whether a text is plain and stands for itself. -/
def isWord (text : String) : Bool :=
  !text.toList.isEmpty && !ScalarText.needsQuotes text.toList && !ScalarText.isValue text.toList &&
    !text.toList.contains '\n' && !text.toList.contains '\r' &&
    Text.widthOf text.toList == text.length

theorem isWord_iff {text : String} : isWord text = true ↔
    IsPlain text.toList ∧ ScalarText.isValue text.toList = false ∧
      Text.widthOf text.toList = text.length := by
  simp only [isWord, Bool.and_eq_true, Bool.not_eq_true', List.isEmpty_eq_false_iff, beq_iff_eq,
    List.contains_eq_mem, decide_eq_false_iff_not]
  constructor
  · rintro ⟨⟨⟨⟨⟨hnonempty, hquotes⟩, hvalue⟩, hline⟩, hreturn⟩, hwidth⟩
    exact ⟨⟨hnonempty, hquotes, hline, hreturn⟩, hvalue, hwidth⟩
  · rintro ⟨⟨hnonempty, hquotes, hline, hreturn⟩, hvalue, hwidth⟩
    exact ⟨⟨⟨⟨⟨hnonempty, hquotes⟩, hvalue⟩, hline⟩, hreturn⟩, hwidth⟩

/-- The node of a fixed key. -/
def keyNode (key : String) (start : Nat) : Node :=
  .scalar { span := ⟨start, start + key.length, start + key.length⟩ } (.string key) key.toList
    .scalar

/-- A word that is a key. -/
structure IsKey (key : String) : Prop where
  short : key.length ≤ 1024
  line : key.toList.contains '\n' = false
  reads : ∀ start indent stop rs,
    (nodeOf { directives := {}, atKey := true } { stop }
      (.leaf (token .scalar key start indent) none)).run rs = (keyNode key start, rs)

/-- The tokens before a key, which end at an offset. -/
def IsLead (indent offset stop : Nat) (lead : List Token) : Prop :=
  ∀ (next : Following) (rs : List Report),
    (readProperties
      { indicator := .explicitKey, next, offset, parentIndent := indent, startOnNewline := true }
      lead).run rs = ({ stop }, rs)

/-- The tokens between a key and its value. -/
structure IsGap (indent : Nat) (gap : List Token) (colon : Token) (props : Properties) : Prop where
  found : props.found = some colon
  anchor : props.anchor = none
  tag : props.tag = none
  reads : ∀ (next : Following) (offset : Nat) (rs : List Report),
    (readProperties
      { indicator := .mapValue, next, offset, parentIndent := indent, startOnNewline := false }
      gap).run rs = (props, rs)

/-- A key with its value is added to the pairs of a map. -/
theorem mapItems_item {indent start : Nat} {p : Progress (Node × Option Node)} {lead gap : List Token}
    {key : String} {colon : Token} {props : Properties} {v : Tree} {n : Node}
    (hlead : IsLead indent p.offset start lead) (hkey : IsKey key)
    (hgap : IsGap indent gap colon props) (hcolon : colon.start = start + key.length)
    (hfresh : p.found.any (fun pair => pair.1.sameKey (keyNode key start)) = false)
    (hmap : props.hasNewline = false → v.isBlockCollection = false) (hv : Reads v n)
    (rest : List (Item Tree)) (rs : List Report) :
    (mapItems {} indent p
      (⟨lead, some (.leaf (token .scalar key start indent) none), some gap, some v, false⟩ ::
        rest)).run rs =
      (mapItems {} indent
        { p with found := p.found ++ [(keyNode key start, some n)], offset := n.span.stop }
        rest).run rs := by
  have hcheck : (checkImplicitKey indent p.offset
      (some (.leaf (token .scalar key start indent) none))).run rs = ((), rs) := by
    simp [checkImplicitKey, Tree.indent?, reportIf, token]
    rfl
  have hline : Tree.isMultiline (.leaf (token .scalar key start indent) none) = false := by
    rw [Tree.isMultiline, token, hkey.line]
    rfl
  have hdup : (reportIf (p.found.any fun pair => pair.1.sameKey (keyNode key start))
      (Report.point start Fault.duplicateKey)).run rs = ((), rs) := by
    rw [hfresh]
    rfl
  have hcheckColon : (checkColon true props.stop { stop := start } props colon (keyNode key start)
      (some v)).run rs = ((), rs) := by
    have hlong : decide (({ stop := start } : Properties).begin + 1024 < colon.start) = false := by
      have := hkey.short
      simp [Properties.begin, hcolon]
      omega
    rw [checkColon, hlong]
    cases v with
    | map _ _ _ =>
      have hnewline : props.hasNewline = true := by
        cases h : props.hasNewline with
        | true => rfl
        | false => simpa [Tree.isBlockCollection] using hmap h
      rw [hnewline]
      rfl
    | _ => rfl
  rw [mapItems]
  · rw [run_bind_of (hlead _ rs)]
    simp only [Option.isNone_none, ↓reduceIte, Option.isNone_some, Option.isSome_none,
      Option.any_some, hline, Bool.and_false, Bool.or_false, Bool.false_eq_true, Option.getD_some]
    rw [run_bind_of hcheck, run_bind_of (hkey.reads _ _ _ _), run_bind_of hdup,
      run_bind_of (hgap.reads _ _ _), hgap.found]
    dsimp only
    rw [run_bind_of hcheckColon, run_bind_of (hv _ rs hgap.anchor hgap.tag)]
  · simp
  · simp

/-- A word is a key if it is not too long. -/
theorem isKey_of_isWord {key : String} (hkey : isWord key = true) (hshort : key.length ≤ 1024) :
    IsKey key := by
  obtain ⟨hcs, hvalue, hwidth⟩ := isWord_iff.mp hkey
  refine ⟨hshort, by simpa using hcs.line, fun start indent stop rs => ?_⟩
  have hfolded : Folded 0 key.toList (token .scalar key start indent).text := .whole hcs.line
  have htext : (leafValue (token .scalar key start indent)).run rs = (key.toList, rs) := by
    rw [leafValue, token]
    exact plainValue_folded hcs hfolded rs
  have htail (offset : Nat) : (readTail true offset []).run rs = (offset, rs) := rfl
  have hscalar : Scalar.string key = Scalar.ofPlain .v12 true key.toList := by
    rw [Scalar.ofPlain_atKey, ofPlain_eq_string hvalue, String.ofList_toList]
  rw [nodeOf, Yaml.leafNode, if_neg (by simp [token]), run_bind_of htext, Option.getD_none,
    run_bind_of (htail _), scalarNode_run _ rfl rfl hscalar, keyNode]
  simp [token, Token.stop, Token.width, hwidth]

theorem isKey_checker : IsKey "checker" := isKey_of_isWord (by decide) (by decide)

theorem isKey_defaults : IsKey "defaults" := isKey_of_isWord (by decide) (by decide)

theorem isKey_image : IsKey "image" := isKey_of_isWord (by decide) (by decide)

theorem isKey_args : IsKey "args" := isKey_of_isWord (by decide) (by decide)

theorem isKey_jobs : IsKey "jobs" := isKey_of_isWord (by decide) (by decide)

theorem isKey_builds : IsKey "builds" := isKey_of_isWord (by decide) (by decide)

theorem isKey_name : IsKey "name" := isKey_of_isWord (by decide) (by decide)

theorem isKey_coverage : IsKey "coverage" := isKey_of_isWord (by decide) (by decide)

theorem isLead_nil (indent offset : Nat) : IsLead indent offset offset [] := by
  intro next rs
  rfl

theorem isLead_two (indent offset start i : Nat) :
    IsLead indent offset (start + 2) [token .space "  " start i] := by
  intro next rs
  rfl

theorem isLead_four (indent offset start i : Nat) :
    IsLead indent offset (start + 4) [token .space "    " start i] := by
  intro next rs
  rfl

/-- Between a key and a value in its line. -/
theorem isGap_space (indent start i : Nat) :
    IsGap indent [token .mapValue ":" start i, token .space " " (start + 1) i]
      (token .mapValue ":" start i)
      { found := some (token .mapValue ":" start i), stop := start + 2 } := by
  refine ⟨rfl, rfl, rfl, fun next offset rs => ?_⟩
  rfl

/-- Between a key and a value on the lines after it. -/
theorem isGap_newline (start : Nat) :
    IsGap 0 [token .mapValue ":" start 0, token .newline "\n" (start + 1) 0,
        token .space "  " (start + 2) 0]
      (token .mapValue ":" start 0)
      { found := some (token .mapValue ":" start 0), hasNewline := true, stop := start + 4 } := by
  refine ⟨rfl, rfl, rfl, fun next offset rs => ?_⟩
  rfl

/-- The tokens before the value of an item of a sequence. -/
structure IsDash (indent offset : Nat) (lead : List Token) (props : Properties) : Prop where
  found : props.found.isNone = false
  anchor : props.anchor = none
  tag : props.tag = none
  reads : ∀ (next : Following) (rs : List Report),
    (readProperties
      { indicator := .seqItem, next, offset, parentIndent := indent, startOnNewline := true }
      lead).run rs = (props, rs)

theorem isDash_first (indent offset start i j : Nat) :
    IsDash indent offset [token .seqItem "-" start i, token .space " " (start + 1) j]
      { found := some (token .seqItem "-" start i), stop := start + 2 } := by
  refine ⟨rfl, rfl, rfl, fun next rs => ?_⟩
  rfl

theorem isDash_next (indent offset start : Nat) :
    IsDash indent offset
      [token .space "  " start 0, token .seqItem "-" (start + 2) 2, token .space " " (start + 3) 3]
      { found := some (token .seqItem "-" (start + 2) 2), stop := start + 4 } := by
  refine ⟨rfl, rfl, rfl, fun next rs => ?_⟩
  rfl

/-- An item with its value is added to a sequence. -/
theorem seqItems_item {indent : Nat} {p : Progress Node} {lead : List Token} {props : Properties}
    {v : Tree} {n : Node} (hlead : IsDash indent p.offset lead props) (hv : Reads v n)
    (rest : List (Item Tree)) (rs : List Report) :
    (seqItems {} indent p (⟨lead, none, none, some v, false⟩ :: rest)).run rs =
      (seqItems {} indent { p with found := p.found ++ [n], offset := n.span.stop } rest).run rs := by
  rw [seqItems, run_bind_of (hlead.reads _ rs)]
  simp only [hlead.found, Bool.false_and, Bool.false_eq_true, ↓reduceIte]
  rw [run_bind_of (hv _ rs hlead.anchor hlead.tag)]

theorem collectionNode_run {place : Place} {props : Properties} {compose : Reporting Node} {n : Node}
    {rs : List Report} (hanchor : props.anchor = none) (htag : props.tag = none)
    (hn : n.withInfo { n.info with anchor := none, tag := none } = n)
    (h : compose.run rs = (n, rs)) : (collectionNode place props compose).run rs = (n, rs) := by
  have hname : (pure none : Reporting (Option String)).run rs = (none, rs) := rfl
  have hnode : (pure n : Reporting Node).run rs = (n, rs) := rfl
  have hnone : (anchorOf props).run rs = (none, rs) := by
    rw [anchorOf, hanchor]
    rfl
  rw [collectionNode, htag]
  dsimp only
  rw [run_bind_of hname, run_bind_of h, run_bind_of hnode, run_bind_of hnone, hn]
  rfl

theorem reads_map {start indent : Nat} {items : List (Item Tree)} {p : Progress (Node × Option Node)}
    (h : ∀ rs, (mapItems {} indent ⟨[], start, none⟩ items).run rs = (p, rs))
    (hp : p.commentStop = none) :
    Reads (.map start indent items) (.map { span := ⟨start, p.offset, p.offset⟩ } .plain p.found) := by
  intro props rs hanchor htag
  rw [nodeOf]
  refine collectionNode_run hanchor htag rfl ?_
  rw [run_bind_of (h rs), Progress.stop, hp]
  rfl

theorem reads_seq {start indent : Nat} {items : List (Item Tree)} {p : Progress Node}
    (h : ∀ rs, (seqItems {} indent ⟨[], start, none⟩ items).run rs = (p, rs))
    (hp : p.commentStop = none) :
    Reads (.seq start indent items) (.seq { span := ⟨start, p.offset, p.offset⟩ } p.found) := by
  intro props rs hanchor htag
  have hcheck : (checkSequenceProperties props).run rs = ((), rs) := by
    rw [checkSequenceProperties, hanchor, htag]
    rfl
  rw [nodeOf]
  refine collectionNode_run hanchor htag rfl ?_
  rw [run_bind_of hcheck, run_bind_of (h rs), Progress.stop, hp]
  rfl

/-- The node of a scalar in its line. -/
def leafNode (kind : TokenKind) (text cs : List Char) (value : Scalar) (start : Nat) : Node :=
  .scalar { span := ⟨start, start + Text.widthOf text, start + Text.widthOf text + 1⟩ } value cs kind

theorem reads_leaf {kind : TokenKind} {text cs : List Char} {value : Scalar} {start indent : Nat}
    (hkind : kind ≠ .alias)
    (htext : ∀ rs, (leafValue ⟨kind, text, start, indent⟩).run rs = (cs, rs))
    (hvalue : value = if kind == .scalar then Scalar.ofPlain .v12 false cs else .string (.ofList cs)) :
    Reads (Spelling.leaf kind text start indent) (leafNode kind text cs value start) := by
  intro props rs hanchor htag
  have htail : (readTail true (start + Text.widthOf text)
      [token .newline "\n" (start + Text.widthOf text) indent]).run rs =
        (start + Text.widthOf text + 1, rs) := by
    rfl
  rw [Spelling.leaf, nodeOf, Yaml.leafNode, if_neg (by simpa using hkind), run_bind_of (htext rs)]
  dsimp only [Token.stop, Token.width, Option.getD_some]
  rw [run_bind_of htail]
  exact scalarNode_run _ hanchor htag hvalue rs

/-! ## The tree of the file -/

/-- The node of a scalar that is written for a text. -/
def Spelling.node (cs : List Char) (start : Nat) : Spelling → Node
  | .plain text => leafNode .scalar text cs (.string (.ofList cs)) start
  | .single text => leafNode .singleQuoted text cs (.string (.ofList cs)) start
  | .double text => leafNode .doubleQuoted text cs (.string (.ofList cs)) start
  | .block header text =>
    let stop := start + (Text.widthOf header + 1 + Text.widthOf text)
    .scalar { span := ⟨start, stop, stop⟩ } (.string (.ofList cs)) cs .blockHeader

theorem Spelling.stop_node (s : Spelling) (cs : List Char) (start : Nat) :
    (s.node cs start).span.stop = start + s.width := by
  cases s <;> rfl

theorem Spelling.node_eq (s : Spelling) (cs : List Char) (start : Nat) :
    ∃ span source style, s.node cs start =
      .scalar { span } (.string (.ofList cs)) source style := by
  cases s <;> exact ⟨_, _, _, rfl⟩

/-- A scalar is read as a text in a map of a given indentation. -/
def Spelling.IsRead (s : Spelling) (indent : Nat) (cs : List Char) : Prop :=
  ∀ start, Reads (s.tree start indent) (s.node cs start)

theorem isRead_plain {indent i : Nat} {cs out : List Char} (hcs : IsPlain cs)
    (hvalue : ScalarText.isValue cs = false) (h : Folded i cs out) :
    (Spelling.plain out).IsRead indent cs := by
  intro start
  refine reads_leaf (by decide) (fun rs => plainValue_folded hcs h rs) ?_
  exact (ofPlain_eq_string hvalue).symm

theorem isRead_block {indent : Nat} {header text cs : List Char}
    (h : ∀ (t remark : Token) (rs : List Report), t.text = header → remark.kind = .newline →
      (blockValue t [remark] indent text false).run rs = (cs, rs)) :
    (Spelling.block header text).IsRead indent cs := by
  intro start props rs hanchor htag
  have hvalue := h ⟨.blockHeader, header, start, indent⟩
    (token .newline "\n" (start + Text.widthOf header) indent) rs rfl rfl
  have hwidth : Text.widthOf (['\n'] ++ text) = 1 + Text.widthOf text := by
    simp [Text.widthOf, Text.width]
  rw [Spelling.tree, nodeOf, blockNode, run_bind_of hvalue]
  refine (scalarNode_run _ hanchor htag rfl rs).trans ?_
  simp [Spelling.node, token, Token.stop, Token.width, ← hwidth, Nat.add_assoc]

theorem isRead_brokenArgs : (Spelling.plain brokenArgs.toList).IsRead 2 argsText.toList :=
  isRead_plain isPlain_argsText (by decide) folded_brokenArgs

theorem line_eq_leaf (text : String) (start indent : Nat)
    (h : Text.widthOf text.toList = text.length) :
    line text start indent = Spelling.leaf .scalar text.toList start indent := by
  rw [line, Spelling.leaf, h]
  rfl

theorem reads_line {text : String} (htext : isWord text = true) (start indent : Nat) :
    Reads (line text start indent) ((Spelling.plain text.toList).node text.toList start) := by
  obtain ⟨hcs, hvalue, hwidth⟩ := isWord_iff.mp htext
  rw [line_eq_leaf text start indent hwidth]
  exact isRead_plain hcs hvalue (Folded.whole hcs.line : Folded 0 _ _) start

theorem reads_two (start : Nat) :
    Reads (line "2" start 2) (leafNode .scalar ['2'] ['2'] (.number (.ofNat 2)) start) := by
  rw [line_eq_leaf "2" start 2 rfl]
  refine reads_leaf (by decide) (fun rs => ?_) (by decide)
  rfl

theorem reads_true (start : Nat) :
    Reads (line "true" start 4) (leafNode .scalar "true".toList "true".toList (.bool true) start) := by
  rw [line_eq_leaf "true" start 4 rfl]
  refine reads_leaf (by decide) (fun rs => ?_) (by decide)
  rfl

/-- The name of the checker. -/
def checkerText : String := "src/test/docker/docker-run-checks.sh"

/-- The node of the default settings, with a node for the image. -/
def defaultsNode (v : Node) (o : Nat) : Node :=
  .map { span := ⟨58, o + 123, o + 123⟩ } .plain
    [(keyNode "image" 58, some v),
      (keyNode "args" (o + 2), some ((Spelling.plain brokenArgs.toList).node argsText.toList (o + 8))),
      (keyNode "jobs" (o + 115), some (leafNode .scalar ['2'] ['2'] (.number (.ofNat 2)) (o + 121)))]

theorem reads_args (start : Nat) :
    Reads (line brokenArgs start 2)
      ((Spelling.plain brokenArgs.toList).node argsText.toList start) := by
  rw [line_eq_leaf brokenArgs start 2 (by decide)]
  exact isRead_brokenArgs start

theorem reads_defaultsTree {v : Tree} {n : Node} {o : Nat} (hv : Reads v n)
    (hblock : v.isBlockCollection = false) :
    Reads (defaultsTree v o) (defaultsNode n o) := by
  refine reads_map (p := ⟨_, o + 123, none⟩) (fun rs => ?_) rfl
  rw [pair, mapItems_item (isLead_nil 2 58) isKey_image (isGap_space 2 _ 2) rfl rfl
      (fun _ => hblock) hv,
    pair, mapItems_item (isLead_two 2 _ o 0) isKey_args (isGap_space 2 _ 2) rfl rfl
      (fun _ => rfl) (reads_args _),
    pair, mapItems_item (isLead_two 2 _ (o + 113) 0) isKey_jobs (isGap_space 2 _ 2) rfl rfl
      (fun _ => rfl) (reads_two _), mapItems]
  rfl

/-- The node of the builds, with a node for the name of the first. -/
def buildsNode (w : Node) (o p : Nat) : Node :=
  .seq { span := ⟨o + 133, p + 38, p + 38⟩ }
    [.map { span := ⟨o + 135, p, p⟩ } .plain [(keyNode "name" (o + 135), some w)],
      .map { span := ⟨p + 4, p + 38, p + 38⟩ } .plain
        [(keyNode "name" (p + 4), some ((Spelling.plain "coverage".toList).node "coverage".toList (p + 10))),
          (keyNode "coverage" (p + 23),
            some (leafNode .scalar "true".toList "true".toList (.bool true) (p + 33)))]]

theorem reads_buildsTree {w : Tree} {n : Node} {o p : Nat} (hw : Reads w n)
    (hblock : w.isBlockCollection = false) (hn : n.span.stop = p) :
    Reads (buildsTree w o p) (buildsNode n o p) := by
  have hname : Reads (.map (o + 135) 4 [pair [] "name" (o + 135) 4 (some w)])
      (.map { span := ⟨o + 135, p, p⟩ } .plain [(keyNode "name" (o + 135), some n)]) := by
    refine reads_map (p := ⟨_, p, none⟩) (fun rs => ?_) rfl
    rw [pair, mapItems_item (isLead_nil 4 _) isKey_name (isGap_space 4 _ 4) rfl rfl
      (fun _ => hblock) hw, mapItems, hn]
    rfl
  have hcoverage : Reads (.map (p + 4) 4
      [pair [] "name" (p + 4) 4 (some (line "coverage" (p + 10) 4)),
        pair [token .space "    " (p + 19) 0] "coverage" (p + 23) 4 (some (line "true" (p + 33) 4))])
      (.map { span := ⟨p + 4, p + 38, p + 38⟩ } .plain
        [(keyNode "name" (p + 4),
            some ((Spelling.plain "coverage".toList).node "coverage".toList (p + 10))),
          (keyNode "coverage" (p + 23),
            some (leafNode .scalar "true".toList "true".toList (.bool true) (p + 33)))]) := by
    refine reads_map (p := ⟨_, p + 38, none⟩) (fun rs => ?_) rfl
    rw [pair, mapItems_item (isLead_nil 4 _) isKey_name (isGap_space 4 _ 4) rfl rfl (fun _ => rfl)
        (reads_line (by decide) _ _),
      pair, mapItems_item (isLead_four 4 _ (p + 19) 0) isKey_coverage (isGap_space 4 _ 4) rfl rfl
        (fun _ => rfl) (reads_true _), mapItems]
    rfl
  refine reads_seq (p := ⟨_, p + 38, none⟩) (fun rs => ?_) rfl
  rw [seqItems_item (isDash_first 2 _ _ 2 3) hname, seqItems_item (isDash_next 2 _ p) hcoverage,
    seqItems]
  rfl

/-- The node of the file. -/
def fileNode (v w : Node) (o p : Nat) : Node :=
  .map { span := ⟨0, p + 38, p + 38⟩ } .plain
    [(keyNode "checker" 0, some ((Spelling.plain checkerText.toList).node checkerText.toList 9)),
      (keyNode "defaults" 46, some (defaultsNode v o)),
      (keyNode "builds" (o + 123), some (buildsNode w o p))]

theorem reads_fileTree {v w : Tree} {m n : Node} {o p : Nat} (hv : Reads v m)
    (hvblock : v.isBlockCollection = false) (hw : Reads w n)
    (hwblock : w.isBlockCollection = false) (hn : n.span.stop = p) :
    Reads (fileTree v w o p) (fileNode m n o p) := by
  refine reads_map (p := ⟨_, p + 38, none⟩) (fun rs => ?_) rfl
  rw [checkerItem, pair, mapItems_item (isLead_nil 0 0) isKey_checker (isGap_space 0 _ 0) rfl rfl
      (fun _ => rfl) (reads_line (by decide) _ _),
    heading, mapItems_item (isLead_nil 0 46) isKey_defaults (isGap_newline _) rfl rfl
      (by simp) (reads_defaultsTree hv hvblock),
    heading, mapItems_item (isLead_nil 0 (o + 123)) isKey_builds (isGap_newline _) rfl rfl
      (by simp) (reads_buildsTree hw hwblock hn), mapItems]
  rfl

/-! ## The configuration of the file -/

theorem node_document {start indent : Nat} {items : List (Item Tree)} {n : Node}
    (h : Reads (.map start indent items) n) (lineStarts : List Nat) (length : Nat) :
    (Source.mk [.document { start := 0, value := some (.map start indent items) }]
      lineStarts).node length = .ok (some n) := by
  have hprops : (readProperties
      { indicator := .documentStart, next := .first (some (.map start indent items)) none,
        offset := 0, parentIndent := 0, startOnNewline := true } []).run [] =
      (({} : Properties), []) := by
    rfl
  have hroot : (nodeOf { directives := {}, atRoot := true } {} (.map start indent items)).run [] =
      (n, []) := by
    rw [← h {} [] rfl rfl, nodeOf, nodeOf]
    rfl
  have hraw : (Document.ofRaw {} { start := 0, value := some (.map start indent items) }).run [] =
      (⟨n, n.span.stop, false⟩, []) := by
    have hmarker : (reportIf (({} : Properties).found.isSome &&
        (some (Yaml.Tree.map start indent items)).any Tree.isBlockCollection &&
        !({} : Properties).hasNewline)
        (Report.point ({} : Properties).stop .collectionOnMarkerLine)).run [] = ((), []) := rfl
    rw [Document.ofRaw, run_bind_of hprops, run_bind_of hmarker]
    dsimp only
    rw [run_bind_of hroot]
    rfl
  have hsurvey : Survey.next {} (.document { start := 0, value := some (.map start indent items) }) =
      { first := some (⟨n, n.span.stop, false⟩, []) } := by
    rw [Survey.next]
    simp [hraw]
  rw [Source.node, List.foldl_cons, List.foldl_nil, hsurvey]
  rfl

/-- What the file holds. -/
def fileValue (checker image args name : String) : Value :=
  .object
    [("checker", .string checker),
      ("defaults", .object
        [("image", .string image), ("args", .string args), ("jobs", .number (.ofNat 2))]),
      ("builds", .array
        [.object [("name", .string name)],
          .object [("name", .string "coverage"), ("coverage", .bool true)]])]

/-- A key of the file has no alias, so the uses in its value are the ones that count. -/
theorem countUsesInPairs_keyNode (anchors : List Anchored) (counts : AliasCounts) (key : String)
    (start : Nat) (v : Node) (rest : List (Node × Option Node)) :
    Node.countUsesInPairs anchors counts ((keyNode key start, some v) :: rest) =
      match v.countUses anchors counts with
      | .ok counts => Node.countUsesInPairs anchors counts rest
      | .error fault => .error fault := rfl

theorem countUsesInPairs_cons {anchors : List Anchored} {counts : AliasCounts} {key : String}
    {start : Nat} {v : Node} (h : v.countUses anchors counts = .ok counts)
    (rest : List (Node × Option Node)) :
    Node.countUsesInPairs anchors counts ((keyNode key start, some v) :: rest) =
      Node.countUsesInPairs anchors counts rest := by
  rw [countUsesInPairs_keyNode, h]

theorem countUsesInItems_cons {anchors : List Anchored} {counts : AliasCounts} {v : Node}
    (h : v.countUses anchors counts = .ok counts) (rest : List Node) :
    Node.countUsesInItems anchors counts (v :: rest) =
      Node.countUsesInItems anchors counts rest := by
  simp only [Node.countUsesInItems, h]

theorem anchored_fileNode (s t : Spelling) (a b : List Char) (x y o p : Nat) :
    (fileNode (s.node a x) (t.node b y) o p).anchored = [] := by
  obtain ⟨i, c, k, hs⟩ := s.node_eq a x
  obtain ⟨i', c', k', ht⟩ := t.node_eq b y
  rw [hs, ht]
  simp [fileNode, defaultsNode, buildsNode, keyNode, leafNode, Spelling.node, Node.anchored,
    Node.anchoredInPairs, Node.anchoredInItems]

theorem countUses_fileNode (s t : Spelling) (a b : List Char) (x y o p : Nat) :
    (fileNode (s.node a x) (t.node b y) o p).countUses [] [] = .ok [] := by
  obtain ⟨i, c, k, hs⟩ := s.node_eq a x
  obtain ⟨i', c', k', ht⟩ := t.node_eq b y
  rw [hs, ht]
  have hdefaults (n : Node) (hn : n.countUses [] [] = .ok []) :
      (defaultsNode n o).countUses [] [] = .ok [] := by
    refine (countUsesInPairs_cons hn _).trans ?_
    refine (countUsesInPairs_cons rfl _).trans ?_
    exact countUsesInPairs_cons rfl _
  have hbuilds (n : Node) (hn : n.countUses [] [] = .ok []) :
      (buildsNode n o p).countUses [] [] = .ok [] := by
    have hfirst : (Node.map { span := ⟨o + 135, p, p⟩ } .plain
        [(keyNode "name" (o + 135), some n)]).countUses [] [] = .ok [] :=
      countUsesInPairs_cons hn _
    refine (countUsesInItems_cons hfirst _).trans ?_
    refine countUsesInItems_cons ?_ _
    refine (countUsesInPairs_cons rfl _).trans ?_
    exact countUsesInPairs_cons rfl _
  refine (countUsesInPairs_cons rfl _).trans ?_
  refine (countUsesInPairs_cons (hdefaults _ rfl) _).trans ?_
  exact countUsesInPairs_cons (hbuilds _ rfl) _

/-- A name that is no array index is set after the others. -/
theorem set_eq_append {α : Type} {r : Record α} {name : String} (hr : r.has name = false)
    (hname : Record.index? name = none) (value : α) : r.set name value = r ++ [(name, value)] := by
  rw [Record.set, hr, if_neg Bool.false_ne_true]
  refine Record.place_eq_append value fun entry _ => ?_
  rw [Record.overtakes, hname]

theorem fieldsOf_cons {anchors : List Anchored} {known : List Expansion}
    {fields : List (String × Value)} {key : String} {start : Nat} {v : Node}
    (hr : Record.has fields key = false) (hkey : Record.index? key = none)
    (rest : List (Node × Option Node)) :
    Node.fieldsOf anchors known fields ((keyNode key start, some v) :: rest) =
      Node.fieldsOf anchors known (fields ++ [(key, v.value anchors known)]) rest := by
  rw [← set_eq_append hr hkey]
  rfl

theorem toValue_fileNode (s t : Spelling) (a b : List Char) (x y o p : Nat) :
    (fileNode (s.node a x) (t.node b y) o p).toValue =
      .ok (fileValue checkerText (.ofList a) argsText (.ofList b)) := by
  rw [Node.toValue, anchored_fileNode, countUses_fileNode]
  obtain ⟨i, c, k, hs⟩ := s.node_eq a x
  obtain ⟨i', c', k', ht⟩ := t.node_eq b y
  rw [hs, ht]
  have hdefaults (n : Node) : (defaultsNode n o).value [] [] = .object
      [("image", n.value [] []), ("args", .string (.ofList argsText.toList)),
        ("jobs", .number (.ofNat 2))] := by
    rw [defaultsNode, Node.value, fieldsOf_cons rfl (by decide), fieldsOf_cons rfl (by decide),
      fieldsOf_cons rfl (by decide), Node.fieldsOf]
    rfl
  have hbuilds (n : Node) : (buildsNode n o p).value [] [] = .array
      [.object [("name", n.value [] [])],
        .object [("name", .string (.ofList "coverage".toList)), ("coverage", .bool true)]] := by
    rw [buildsNode, Node.value, Node.valuesOf, Node.valuesOf, Node.valuesOf, Node.value, Node.value,
      fieldsOf_cons rfl (by decide), fieldsOf_cons rfl (by decide), fieldsOf_cons rfl (by decide),
      Node.fieldsOf, Node.fieldsOf]
    rfl
  have hfile : (fileNode (.scalar { span := i } (.string (.ofList a)) c k)
      (.scalar { span := i' } (.string (.ofList b)) c' k') o p).value [] [] =
      fileValue (.ofList checkerText.toList) (.ofList a) (.ofList argsText.toList) (.ofList b) := by
    rw [fileNode, Node.value, fieldsOf_cons rfl (by decide), fieldsOf_cons rfl (by decide),
      fieldsOf_cons rfl (by decide), Node.fieldsOf, hdefaults, hbuilds, fileValue,
      String.ofList_toList (s := "coverage")]
    rfl
  rw [String.ofList_toList, String.ofList_toList] at hfile
  exact congrArg Except.ok hfile

theorem check_fileValue (checker image args name : String) :
    Config.check (fileValue checker image args name) = .ok
      { checker, image, args
        builds := [{ name := some name }, { name := some "coverage", coverage := some true }] } := by
  rfl

theorem isBlockCollection_tree (s : Spelling) (start indent : Nat) :
    (s.tree start indent).isBlockCollection = false := by
  cases s <;> rfl

/-- The tree of the characters of the file. -/
theorem entries_fileChars {s t : Spelling} (hs : s.IsCut 2) (ht : t.IsCut 4) :
    ∃ lineStarts, Source.ofText (fileChars s t) =
      ⟨[.document
        { start := 0
          value := some (fileTree (s.tree 65 2) (t.tree (65 + s.width + 141) 4) (65 + s.width)
            (65 + s.width + 141 + t.width)) }], lineStarts⟩ := by
  obtain ⟨starts, onKeyLine, himage⟩ := s.foldl_lexemes_image
  obtain ⟨starts', onKeyLine', hname⟩ := t.foldl_lexemes_name (s.tree 65 2) (65 + s.width) starts
  have hlast := foldl_lastLexemes (s.tree 65 2) (t.tree (65 + s.width + 141) 4) (65 + s.width)
    (65 + s.width + 141 + t.width) starts' onKeyLine'
  rw [Source.ofText, lex_fileChars hs ht]
  simp only [List.foldl_append, foldl_headLexemes, himage, foldl_middleLexemes, hname]
  dsimp only at hlast
  rw [hlast]
  exact ⟨_, rfl⟩

/-- The file is read as the configuration with the texts that its two scalars are read as. -/
theorem read_fileChars {s t : Spelling} {a b : List Char} (hs : s.IsCut 2) (ha : s.IsRead 2 a)
    (ht : t.IsCut 4) (hb : t.IsRead 4 b) :
    Config.read (.ofList (fileChars s t)) = .ok
      { image := .ofList a
        builds := [{ name := some (.ofList b) },
          { name := some "coverage", coverage := some true }] } := by
  obtain ⟨lineStarts, hsource⟩ := entries_fileChars hs ht
  have hreads := reads_fileTree (o := 65 + s.width) (ha 65) (isBlockCollection_tree s 65 2)
    (hb (65 + s.width + 141))
    (isBlockCollection_tree t _ 4) (t.stop_node b _)
  have hread : Yaml.read (.ofList (fileChars s t)) =
      .ok (fileValue checkerText (.ofList a) argsText (.ofList b)) := by
    rw [Yaml.read, String.toList_ofList, hsource]
    dsimp only
    rw [fileTree, node_document hreads]
    dsimp only
    rw [toValue_fileNode]
  have hargs : argsText = ({} : Defaults).args := by decide
  rw [Config.read, hread]
  show (Config.check (fileValue checkerText (.ofList a) argsText (.ofList b))).mapError .invalid = _
  rw [check_fileValue, hargs]
  rfl

end BuildMatrix.Starter
