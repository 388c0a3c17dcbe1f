import BuildMatrix.Yaml.Node.OfTree
import BuildMatrix.Yaml.Tree.Builder

/-!
# The document of a text

A text holds directives, markers and at most one document. Of several mistakes the first one that
was found is reported, and any in the document goes before the mistake of having a second one.
-/

namespace BuildMatrix.Yaml

/-- A document: its node, the end of its content, and whether a marker line starts it. -/
structure Document where
  node : Node
  stop : Nat
  marked : Bool
deriving Inhabited

/-- The document of a raw one. -/
def Document.ofRaw (directives : Directives) (raw : RawDocument) : Reporting Document := do
  let props ← readProperties
    { indicator := .documentStart
      next := .first raw.value raw.tail
      offset := raw.start
      parentIndent := 0
      startOnNewline := true } raw.lead
  reportIf (props.found.isSome && raw.value.any Tree.isBlockCollection && !props.hasNewline)
    (.point props.stop .collectionOnMarkerLine)
  let place : Place := { directives, atRoot := true }
  let node ← match raw.value with
    | some t => nodeOf place props t
    | none => emptyNode place props.stop raw.lead props
  let _ ← readTail false node.span.stop (raw.tail.getD [])
  return ⟨node, node.span.stop, props.found.isSome⟩

/-- What was found in a text so far. -/
structure Survey where
  directives : Directives := {}
  /-- Whether directives were read since the last document. -/
  atDirectives : Bool := false
  /-- The reports that do not belong to a document yet. -/
  pending : List Report := []
  /-- The first document and its reports. -/
  first : Option (Document × List Report) := none
  /-- The stretch of the second document. -/
  second : Option (Nat × Nat) := none

namespace Survey

/-- Adds reports to the first document, if there is one and no directives follow it. -/
def add (s : Survey) (reports : List Report) : Survey :=
  match s.first with
  | some (d, found) =>
    if s.atDirectives then { s with pending := s.pending ++ reports }
    else { s with first := some (d, found ++ reports) }
  | none => { s with pending := s.pending ++ reports }

/-- Reads the next entry of a text. -/
def next (s : Survey) (entry : Entry) : Survey :=
  if s.second.isSome then s
  else
    match entry with
    | .trivia _ => s
    | .directive t =>
      let (directives, reports) := (s.directives.read t).run []
      { s with directives, atDirectives := true, pending := s.pending ++ reports.reverse }
    | .bad fault t => s.add [.ofToken t (.entry fault t.text)]
    | .document raw =>
      let (document, reports) := (Document.ofRaw s.directives raw).run []
      match s.first with
      | some _ => { s with second := some (raw.start, document.stop) }
      | none =>
        let unended := if s.atDirectives && !document.marked then
            [Report.point raw.start .directivesUnended] else []
        { s with
          first := some (document, s.pending ++ reports.reverse ++ unended)
          pending := []
          atDirectives := false }
    | .documentEnd t tail =>
      match s.first with
      | none => { s with pending := s.pending ++ [.ofToken t .documentEndAlone] }
      | some (document, found) =>
        let (_, reports) := (readTail true t.stop tail).run []
        { s with first := some (document, found ++ s.pending ++ reports.reverse), pending := [] }

/-- The first mistake, or the node of the document; a text without a document has none. -/
def result (s : Survey) (length : Nat) : Except Report (Option Node) :=
  match s.first with
  | some (document, found) =>
    match found, s.second, s.pending with
    | r :: _, _, _ => .error r
    | [], some (start, stop), _ => .error ⟨.manyDocuments, start, stop⟩
    | [], none, r :: _ => .error r
    | [], none, [] => .ok (some document.node)
  | none =>
    match s.pending with
    | r :: _ => .error r
    | [] => if s.atDirectives then .error (.point length .directivesOnly) else .ok none

end Survey

/-- The node of the one document of a source. -/
def Source.node (source : Source) (length : Nat) : Except Report (Option Node) :=
  (source.entries.foldl Survey.next {}).result length

end BuildMatrix.Yaml
