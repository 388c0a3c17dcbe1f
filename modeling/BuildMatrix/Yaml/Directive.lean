import BuildMatrix.Text.Blank
import BuildMatrix.Yaml.Quoted

/-!
# Directives and the names of tags

The directives before a document set its version and the handles of its tags. The name of a tag is
resolved with them; one that cannot be resolved is reported and dropped.
-/

namespace BuildMatrix.Yaml

/-- The versions of the format. -/
inductive Version where
  | v11
  | v12
deriving DecidableEq, Repr, Inhabited

/-- What the directives before a document set. -/
structure Directives where
  version : Version := .v12
  /-- The texts that tag handles stand for. -/
  handles : List (String × String) := [("!!", "tag:yaml.org,2002:")]
deriving Inhabited

/-- A text cut at runs of spaces and tabs. -/
def wordsOf (cs : List Char) : List (List Char) :=
  let rec go (word : List Char) : List Char → List (List Char)
    | [] => [word.reverse]
    | c :: rest =>
      if isWhite c then
        match rest with
        | d :: _ => if isWhite d then go word rest else word.reverse :: go [] rest
        | [] => [word.reverse, []]
      else go (c :: word) rest
  go [] cs

/-- Whether a text has the form of a version, such as `1.3`. -/
def isVersionText (cs : List Char) : Bool :=
  match cs.span Char.isDigit with
  | (_ :: _, '.' :: minor) => !minor.isEmpty && minor.all Char.isDigit
  | _ => false

namespace Directives

/-- Sets the text of a handle. -/
def setHandle (d : Directives) (handle text : String) : Directives :=
  { d with handles := (handle, text) :: d.handles }

/-- Reads a directive. -/
def read (d : Directives) (t : Token) : Reporting Directives := do
  match (wordsOf (Text.dropBlanksEnd t.text)).map String.ofList with
  | "%TAG" :: parts =>
    reportIf (parts.length != 2) (.ofToken t .tagDirectiveParts)
    match parts with
    | handle :: text :: _ => return d.setHandle handle text
    | _ => return d
  | "%YAML" :: parts =>
    match parts with
    | ["1.1"] => return { d with version := .v11 }
    | ["1.2"] => return { d with version := .v12 }
    | [text] =>
      reportIf (!isVersionText text.toList) ⟨.version text, t.start + 6, t.stop⟩
      return d
    | _ =>
      report (.ofToken t .versionDirectiveParts)
      return d
  | _ => return d

end Directives

/-- The bytes of a text with percent signs resolved. -/
def percentBytes : List Char → List UInt8
  | '%' :: a :: b :: rest =>
    match Json.hexValue? a, Json.hexValue? b with
    | some a, some b => UInt8.ofNat (a * 16 + b) :: percentBytes rest
    | _, _ => '%'.toNat.toUInt8 :: percentBytes (a :: b :: rest)
  | c :: rest => (String.singleton c).toUTF8.toList ++ percentBytes rest
  | [] => []

/-- A text with percent signs resolved, if that gives text again. -/
def percentDecode? (cs : List Char) : Option String :=
  if cs.contains '%' then String.fromUTF8? ⟨(percentBytes cs).toArray⟩ else some (.ofList cs)

/-- Splits a tag after its last exclamation mark. -/
def splitHandle (cs : List Char) : List Char × List Char :=
  let suffix := (cs.reverse.takeWhile (· != '!')).reverse
  (cs.take (cs.length - suffix.length), suffix)

/-- The full name of a tag; `!` alone stays as it is. -/
def tagName? (d : Directives) (t : Token) : Reporting (Option String) := do
  let fault (f : Fault) : Reporting Unit := report (.ofToken t f)
  match t.text with
  | ['!'] => return some "!"
  | '!' :: '<' :: uri =>
    let verbatim := uri.dropLast
    if verbatim == ['!'] || verbatim == ['!', '!'] then
      fault (.verbatimTag t.text)
      return none
    if t.text.getLast? != some '>' then fault .openVerbatimTag
    return some (.ofList verbatim)
  | '!' :: _ =>
    let (handle, suffix) := splitHandle t.text
    if suffix.isEmpty then fault (.tagSuffix t.text)
    match (d.handles.lookup (.ofList handle)).filter (· != "") with
    | some text =>
      match percentDecode? suffix with
      | some suffix => return some (text ++ suffix)
      | none =>
        fault .tagEscape
        return none
    | none =>
      if handle == ['!'] then return some (.ofList t.text)
      fault (.tagHandle t.text)
      return none
  | _ =>
    fault (.tagForm t.text)
    return none

end BuildMatrix.Yaml
