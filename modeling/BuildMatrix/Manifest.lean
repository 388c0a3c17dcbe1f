import BuildMatrix.Files
import BuildMatrix.Json.Read

/-!
# The manifest of the program

The program does not know its version: it is told in `package.json`, which is read when somebody
asks. A manifest without a version stands for an unknown one; a manifest that cannot be read, or
whose text is no JSON, has no answer.
-/

namespace BuildMatrix

/-- What reading the manifest gives: its text, or why there is none. -/
inductive Manifest where
  | text (content : String)
  | unreadable (error : FileError)
deriving DecidableEq, Repr

namespace Manifest

/-- The manifest as it is packaged, less the fields that nobody reads. -/
def shipped : Manifest :=
  .text <| "\n".intercalate
    ["\x7b",
      "  \"name\": \"ci-matrix\",",
      "  \"version\": \"0.1.0\"",
      "\x7d",
      ""]

/-- The version of a manifest that names none. -/
def unknownVersion : String := "0.0.0"

mutual

/-- A JSON value in running text. An object that has a field in place of the method that would
write it cannot be written. -/
def written? : Json → Option String
  | .null => some "null"
  | .bool true => some "true"
  | .bool false => some "false"
  | .number n => some n.toText
  | .string s => some s
  | .array items => (writtenItems? items).map ",".intercalate
  | .object fields => if Record.has fields "toString" then none else some "[object Object]"

/-- The items of an array in running text, where nothing is written for null. -/
def writtenItems? : List Json → Option (List String)
  | [] => some []
  | .null :: rest => (writtenItems? rest).map ("" :: ·)
  | item :: rest => do
    let first ← written? item
    let others ← writtenItems? rest
    return first :: others

end

/-- The version that the value of a manifest names. -/
def versionIn : Json → Except FileError String
  | .null => .error (.malformed "Cannot read properties of null (reading 'version')")
  | .object fields =>
    match Record.get? fields "version" with
    | none | some .null => .ok unknownVersion
    | some v =>
      match written? v with
      | none => .error (.malformed "Cannot convert object to primitive value")
      | some version => .ok version
  | _ => .ok unknownVersion

/-- The version that a manifest names, or why there is no telling. -/
def version : Manifest → Except FileError String
  | .unreadable e => .error e
  | .text content =>
    match Json.read content with
    | .error fault => .error (.malformed (fault.message content))
    | .ok v => versionIn v

/-- The version can be told. -/
def IsWhole (manifest : Manifest) : Prop := manifest.version.isOk = true

instance (manifest : Manifest) : Decidable manifest.IsWhole :=
  inferInstanceAs (Decidable (manifest.version.isOk = true))

theorem isWhole_shipped : shipped.IsWhole := by decide +kernel

end Manifest

/-- The version of the program as it is packaged. -/
def Arguments.programVersion : String :=
  match Manifest.shipped.version with
  | .ok version => version
  | .error _ => Manifest.unknownVersion

end BuildMatrix
