import BuildMatrix.Json
import BuildMatrix.Yaml.Tree

/-!
# What can be wrong with YAML text

Each mistake that a text can show is a case with what its message speaks of. A report is a mistake
with the stretch of text that shows it.
-/

namespace BuildMatrix.Yaml

/-- The two kinds of flow collections. -/
inductive FlowKind where
  | map
  | sequence
deriving DecidableEq, Repr

namespace FlowKind

/-- The name of a kind. -/
def name : FlowKind → String
  | .map => "flow map"
  | .sequence => "flow sequence"

/-- The name at the start of a message. -/
def title : FlowKind → String
  | .map => "Flow map"
  | .sequence => "Flow sequence"

/-- The closing bracket. -/
def close : FlowKind → String
  | .map => "\x7d"
  | .sequence => "]"

end FlowKind

/-- A mistake in a text. -/
inductive Fault where
  | tree (fault : TreeFault)
  | entry (fault : TreeFault) (text : List Char)
  | documentEndAlone
  | directivesUnended
  | directivesOnly
  | manyDocuments
  | tagDirectiveParts
  | versionDirectiveParts
  | version (text : String)
  | unspacedProperty
  | tab
  | unspacedComment
  | anchors
  | tags
  | lateIndicator (text : List Char)
  | repeatedIndicator (text : List Char) (flow : Option FlowKind)
  | comma (flow : FlowKind)
  | token (kind : TokenKind)
  | afterNode (kind : TokenKind)
  | collectionOnMarkerLine
  | aliasProperties
  | emptyAnchor
  | emptyAlias
  | sequenceAsKey
  | mapColumn
  | keyLines
  | duplicateKey
  | nestedCompactMap
  | longKey
  | keyWithoutValue
  | trailingMapComment
  | sequenceColumn
  | itemWithoutDash
  | emptyFlowItem (flow : FlowKind)
  | flowPairLines
  | missingComma (flow : FlowKind)
  | blockInFlow
  | longFlowKey
  | unspacedColon (flow : FlowKind)
  | missingSeparator (flow : FlowKind)
  | unclosedFlow (flow : FlowKind)
  | unindentedFlow (flow : FlowKind)
  | sequenceProperties
  | plainStart (what : String)
  | openSingleQuote
  | openDoubleQuote
  | escape (text : List Char)
  | blockHeader (text : List Char)
  | blockHeaderToken (kind : TokenKind)
  | leadingEmptyLines
  | unindentedBlock
  | blockIndent (explicit : Bool)
  | tagForm (text : List Char)
  | verbatimTag (text : List Char)
  | openVerbatimTag
  | tagSuffix (text : List Char)
  | tagHandle (text : List Char)
  | tagEscape
  | tagName (name : String)
  | base64
  | timestamp
  | setValues
  | pairItem
  | orderedKeys (name : String)
deriving DecidableEq, Repr

/-- The text of a mistake that is found in a tree. -/
def TreeFault.message : TreeFault → String
  | .notToken text => "Not a YAML token: " ++ .ofList text
  | .sequenceOnKeyLine => "Unexpected block-seq-ind on same line with key"
  | .inStream kind _ => "Unexpected " ++ kind.name ++ " token in YAML stream"
  | .inDocument kind _ => "Unexpected " ++ kind.name ++ " token in YAML document"

/-- The text of a mistake. -/
def Fault.message : Fault → String
  | .tree fault => fault.message
  | .entry fault text =>
    if text.isEmpty then fault.message
    else fault.message ++ ": " ++ .ofList (Json.quote (.ofList text))
  | .documentEndAlone => "Unexpected doc-end without preceding document"
  | .directivesUnended => "Missing directives-end/doc-start indicator line"
  | .directivesOnly => "Missing directives-end indicator line"
  | .manyDocuments =>
    "Source contains multiple documents; please use YAML.parseAllDocuments()"
  | .tagDirectiveParts => "%TAG directive should contain exactly two parts"
  | .versionDirectiveParts => "%YAML directive should contain exactly one part"
  | .version text => "Unsupported YAML version " ++ text
  | .unspacedProperty =>
    "Tags and anchors must be separated from the next token by white space"
  | .tab => "Tabs are not allowed as indentation"
  | .unspacedComment =>
    "Comments must be separated from other tokens by white space characters"
  | .anchors => "A node can have at most one anchor"
  | .tags => "A node can have at most one tag"
  | .lateIndicator text =>
    "Anchors and tags must be after the " ++ .ofList text ++ " indicator"
  | .repeatedIndicator text flow =>
    "Unexpected " ++ .ofList text ++ " in " ++ (flow.map (·.name)).getD "collection"
  | .comma flow => "Unexpected , in " ++ flow.name
  | .token kind => "Unexpected " ++ kind.name ++ " token"
  | .afterNode kind => "Unexpected " ++ kind.name ++ " at node end"
  | .collectionOnMarkerLine =>
    "Block collection cannot start on same line with directives-end marker"
  | .aliasProperties => "An alias node must not specify any properties"
  | .emptyAnchor => "Anchor cannot be an empty string"
  | .emptyAlias => "Alias cannot be an empty string"
  | .sequenceAsKey => "A block sequence may not be used as an implicit map key"
  | .mapColumn => "All mapping items must start at the same column"
  | .keyLines => "Implicit keys need to be on a single line"
  | .duplicateKey => "Map keys must be unique"
  | .nestedCompactMap => "Nested mappings are not allowed in compact mappings"
  | .longKey =>
    "The : indicator must be at most 1024 chars after the start of an implicit block mapping key"
  | .keyWithoutValue => "Implicit map keys need to be followed by map values"
  | .trailingMapComment => "Map comment with trailing content"
  | .sequenceColumn => "All sequence items must start at the same column"
  | .itemWithoutDash => "Sequence item without - indicator"
  | .emptyFlowItem flow => "Unexpected empty item in " ++ flow.name
  | .flowPairLines => "Implicit keys of flow sequence pairs need to be on a single line"
  | .missingComma flow => "Missing , between " ++ flow.name ++ " items"
  | .blockInFlow => "Block collections are not allowed within flow collections"
  | .longFlowKey =>
    "The : indicator must be at most 1024 chars after the start of an implicit flow sequence key"
  | .unspacedColon flow => "Missing space after : in " ++ flow.name
  | .missingSeparator flow => "Missing , or : between " ++ flow.name ++ " items"
  | .unclosedFlow flow => flow.title ++ " must end with a " ++ flow.close
  | .unindentedFlow flow =>
    flow.title ++ " in block collection must be sufficiently indented and end with a " ++
      flow.close
  | .sequenceProperties => "Missing newline after block sequence props"
  | .plainStart what => "Plain value cannot start with " ++ what
  | .openSingleQuote => "Missing closing 'quote"
  | .openDoubleQuote => "Missing closing \"quote"
  | .escape text => "Invalid escape sequence " ++ .ofList text
  | .blockHeader text =>
    "Block scalar header includes extra characters: " ++ .ofList text
  | .blockHeaderToken kind => "Unexpected token in block scalar header: " ++ kind.name
  | .leadingEmptyLines =>
    "Block scalars with more-indented leading empty lines must use an explicit indentation indicator"
  | .unindentedBlock => "Block scalar values in collections must be indented"
  | .blockIndent explicit =>
    "Block scalar lines must not be less indented than their " ++
      if explicit then "explicit indentation indicator" else "first line"
  | .tagForm text => "Not a valid tag: " ++ .ofList text
  | .verbatimTag text =>
    "Verbatim tags aren't resolved, so " ++ .ofList text ++ " is invalid."
  | .openVerbatimTag => "Verbatim tags must end with a >"
  | .tagSuffix text => "The " ++ .ofList text ++ " tag has no suffix"
  | .tagHandle text => "Could not resolve tag: " ++ .ofList text
  | .tagEscape => "URIError: URI malformed"
  | .tagName name => "Unresolved tag: " ++ name
  | .base64 => "The string to be decoded is not correctly encoded."
  | .timestamp => "!!timestamp expects a date, starting with yyyy-mm-dd"
  | .setValues => "Set items must all have null values"
  | .pairItem => "Each pair must have its own sequence indicator"
  | .orderedKeys name => "Ordered maps must not include duplicate keys: " ++ name

/-- A mistake and the stretch of text that shows it. -/
structure Report where
  fault : Fault
  start : Nat
  stop : Nat
deriving DecidableEq, Repr

namespace Report

/-- A mistake at a single offset. -/
def point (offset : Nat) (fault : Fault) : Report := ⟨fault, offset, offset + 1⟩

/-- A mistake that a token shows. -/
def ofToken (t : Token) (fault : Fault) : Report := ⟨fault, t.start, t.stop⟩

end Report

/-- The reports made so far, last first. -/
abbrev Reporting := StateM (List Report)

/-- Makes a report. -/
def report (r : Report) : Reporting Unit := modify (r :: ·)

/-- Makes a report if a condition holds. -/
def reportIf (condition : Bool) (r : Report) : Reporting Unit :=
  if condition then report r else pure ()

end BuildMatrix.Yaml
