import BuildMatrix.Yaml.Node
import BuildMatrix.Yaml.ScalarText

/-!
# Collections as keys

A key that is a collection goes by its text in flow style, on one line if it fits there. Anchors
and tags inside the collection are part of that text; those of the key itself are not. A number
keeps the notation that it was read in.
-/

namespace BuildMatrix.Yaml

/-- The full names of the common tags start like this; `!!` is short for it. -/
def commonTags : String := "tag:yaml.org,2002:"

/-- A character of a tag, as an escape if it could end the tag or a handle. -/
def tagChar (c : Char) : List Char :=
  match c with
  | '!' => "%21".toList
  | ',' => "%2C".toList
  | '[' => "%5B".toList
  | ']' => "%5D".toList
  | '\x7b' => "%7B".toList
  | '\x7d' => "%7D".toList
  | c => [c]

/-- The written form of the full name of a tag. -/
def tagForm (name : String) : List Char :=
  match Scalar.after? commonTags name.toList with
  | some rest => '!' :: '!' :: rest.flatMap tagChar
  | none =>
    if name.toList.head? = some '!' then name.toList else '!' :: '<' :: name.toList ++ ['>']

namespace NodeInfo

/-- The anchor and the tag of a node, with a space after each. -/
def propertyForm (info : NodeInfo) : List Char :=
  (match info.anchor with
    | some anchor => '&' :: anchor.name.toList ++ [' ']
    | none => []) ++
  match info.tag with
  | some name => tagForm name ++ [' ']
  | none => []

end NodeInfo

/-- The number of digits after the point of a decimal that ends in a zero: as many are written
again. -/
def keptPlaces (source : List Char) : Nat :=
  if source.getLast? = some '0' then ((source.dropWhile (· != '.')).drop 1).length else 0

/-- A decimal with zeros at the end up to a number of digits after the point. -/
def padPlaces (places : Nat) (digits : List Char) : List Char :=
  if places = 0 then digits
  else
    let after := (digits.dropWhile (· != '.')).drop 1
    (if digits.contains '.' then digits else digits ++ ['.']) ++
      List.replicate (places - after.length) '0'

/-- A number in the notation of the text that it was read from. -/
def numberForm (source : List Char) : Number → List Char
  | .nan => ".nan".toList
  | .infinite negative => (if negative then "-.inf" else ".inf").toList
  | .finite negative m e =>
    let value := m <<< e.toNat
    let signed (cs : List Char) := if negative then '-' :: cs else cs
    match source with
    | '0' :: 'x' :: _ => '0' :: 'x' :: Nat.toDigits 16 value
    | '0' :: 'o' :: _ => '0' :: 'o' :: Nat.toDigits 8 value
    | _ =>
      if source.any fun c => c == 'e' || c == 'E' then
        let digits := Number.exponentLayout.magnitude m e
        if m = 0 then digits else signed digits
      else signed (padPlaces (keptPlaces source) (Number.plainLayout.magnitude m e))

namespace Node

/-- Items in brackets: on one line if they fit, else on a line each. -/
def bracket (opening closing : Char) (indent : Nat) (items : List (List Char)) : List Char :=
  if items.isEmpty then [opening, closing]
  else
    let lines := items.dropLast.map (· ++ [',']) ++ items.getLast?.toList
    let length := lines.foldl (fun n line => n + Text.widthOf line + 2) 2
    if lines.any (·.contains '\n') || lineWidth < length then
      opening :: lines.flatMap (fun line => breakTo (indent + 2) ++ line) ++ breakTo indent ++
        [closing]
    else opening :: ' ' :: [' '].intercalate lines ++ [' ', closing]

/-- The text of a scalar in flow style. -/
def scalarForm (slot : Slot) (value : Scalar) (source : List Char) (style : TokenKind) :
    List Char :=
  match value with
  | .string s =>
    match style with
    | .doubleQuoted => ScalarText.doubleQuoted slot s.toList
    | .singleQuoted =>
      if s.toList.any ScalarText.isControl then ScalarText.doubleQuoted slot s.toList
      else ScalarText.singleQuoted slot s.toList
    | .scalar => scalarChars slot s.toList
    | _ => ScalarText.quoted slot s.toList
  | .number n => numberForm source n
  | _ => source

/-- Whether a node is a map or a sequence. -/
def isCollection : Node → Bool
  | .map _ _ _ | .seq _ _ => true
  | _ => false

/-- The text of a pair. A key that is a collection is marked as a key. -/
def pairForm (indent : Nat) (explicit : Bool) (key : List Char) : Option (Bool × List Char) →
    List Char
  | none => if key.isEmpty then ['?'] else if explicit then '?' :: ' ' :: key else key
  | some (isCollection, value) =>
    let label := if explicit then '?' :: ' ' :: key ++ breakTo indent ++ [':'] else key ++ [':']
    let gap :=
      if value.isEmpty then []
      else if !explicit && isCollection && value.contains '\n' then breakTo (indent + 2)
      else [' ']
    label ++ gap ++ value

mutual

/-- The text of a node in flow style. Its first line is taken to start in a column. -/
def flowForm (indent column : Nat) (isKey : Bool) : Node → List Char
  | .scalar info value source style =>
    let properties := info.propertyForm
    let column := column + properties.length
    properties ++ scalarForm { indent, column, inFlow := true, isKey } value source style
  | .alias _ name => '*' :: name.toList ++ if isKey then [' '] else []
  | .map info _ pairs =>
    info.propertyForm ++ bracket '\x7b' '\x7d' indent (pairForms (indent + 2) pairs)
  | .seq info items => info.propertyForm ++ bracket '[' ']' indent (itemForms (indent + 4) items)

/-- The texts of items. -/
def itemForms (indent : Nat) : List Node → List (List Char)
  | [] => []
  | n :: rest => n.flowForm indent 0 false :: itemForms indent rest

/-- The texts of pairs. -/
def pairForms (indent : Nat) : List (Node × Option Node) → List (List Char)
  | [] => []
  | (key, none) :: rest =>
    pairForm indent key.isCollection (key.flowForm (indent + 2) 0 (!key.isCollection)) none ::
      pairForms indent rest
  | (key, some v) :: rest =>
    let label := key.flowForm (indent + 2) 0 (!key.isCollection)
    let column := if key.isCollection then 0 else Text.widthOf label + 2
    pairForm indent key.isCollection label
        (some (v.isCollection, v.flowForm (indent + 2) column false)) ::
      pairForms indent rest

end

/-- The name that a node has as a key. -/
def keyForm (n : Node) : String :=
  match n with
  | .scalar _ (.bytes octets) _ _ => ",".intercalate (octets.map toString)
  | n => .ofList ((n.withInfo { span := n.span }).flowForm 0 0 false)

end Node

end BuildMatrix.Yaml
