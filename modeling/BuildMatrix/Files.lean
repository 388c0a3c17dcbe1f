import BuildMatrix.Text.Decode
import BuildMatrix.Text.Split

/-!
# Files

A file system is seen through what stands at each absolute path. Looking up, reading, writing and
appending say what they find or leave there, or why they fail. A path is reached through the
directories on the way to it, from the root down, and the first of them that is not a directory
decides the error. Once a file has been reached, a text is stored in it or not: the system may
refuse to open the file, or break the text off when part of it has been stored.
-/

namespace BuildMatrix

/-- The names on the way from the root to a place. -/
abbrev Path := List String

namespace Path

/-- A path as it is shown. -/
def text (path : Path) : String := "/" ++ "/".intercalate path

/-- The place that one written step leads to. -/
def step (path : Path) (name : String) : Path :=
  if name = "" ∨ name = "." then path
  else if name = ".." then path.dropLast
  else path ++ [name]

/-- Whether a written path starts at the root. -/
def isAbsolute (written : String) : Bool := written.toList.head? = some '/'

/-- The place that a written path names, seen from a directory. The steps are taken on paper: no
place on the way has to exist. -/
def resolve (here : Path) (written : String) : Path :=
  (Text.split '/' written).foldl step (if isAbsolute written then [] else here)

end Path

/-- What stands at a path. The text of a file is that of its bytes. What is locked is there, and
cannot be read or gone through, whatever it holds; a message says why. -/
inductive Entry where
  | file (text : String)
  | directory
  | locked (message text : String)
deriving DecidableEq, Repr, Inhabited

namespace Entry

/-- The text that an entry holds, whether or not it can be read. -/
def text? : Entry → Option String
  | .file text | .locked _ text => some text
  | .directory => none

/-- An entry with a text in place of what it holds. -/
def withText (text : String) : Entry → Entry
  | .locked message _ => .locked message text
  | _ => .file text

@[simp] theorem text?_withText (text : String) (entry : Entry) :
    (entry.withText text).text? = some text := by
  cases entry <;> rfl

end Entry

/-- What becomes of a text that is to be stored in a file that has been reached: all of it is
stored, the file is not opened, or it is opened and the text breaks off after some bytes. -/
inductive Storage where
  | whole
  | closed (message : String)
  | cut (bytes : Nat) (message : String)
deriving DecidableEq, Repr

/-- Why a file cannot be used. Each constructor holds the path as the caller gave it. -/
inductive FileError where
  | missing (path : String)
  | notDirectory (path : String)
  | nameTooLong (path : String)
  | directory (path : String)
  | directoryContent
  | refused (message : String)
  | malformed (message : String)
deriving DecidableEq, Repr

/-- The text of an error. -/
def FileError.message : FileError → String
  | .missing path => "ENOENT: no such file or directory, open '" ++ path ++ "'"
  | .notDirectory path => "ENOTDIR: not a directory, open '" ++ path ++ "'"
  | .nameTooLong path => "ENAMETOOLONG: name too long, open '" ++ path ++ "'"
  | .directory path => "EISDIR: illegal operation on a directory, open '" ++ path ++ "'"
  | .directoryContent => "EISDIR: illegal operation on a directory, read"
  | .refused message | .malformed message => message

/-- A file system: what stands at each path. -/
structure Files where
  get? : Path → Option Entry

/-- A text has not been stored as it should be: the error, and the files as they are then. -/
structure WriteFailure where
  error : FileError
  files : Files

/-- Where the files do not matter, a failure is its error. -/
instance : Coe WriteFailure FileError := ⟨WriteFailure.error⟩

namespace Files

/-- The longest name, in bytes. -/
def maxNameBytes : Nat := 255

/-- Follows the steps of a written path from a place. Every place that is left has to be a
directory. -/
def follow (files : Files) (written : String) (here : Path) : List String → Except FileError Path
  | [] => .ok here
  | name :: rest =>
    match files.get? here with
    | none => .error (.missing written)
    | some (.file _) => .error (.notDirectory written)
    | some (.locked message _) => .error (.refused message)
    | some .directory =>
      if maxNameBytes < name.utf8ByteSize then .error (.nameTooLong written)
      else files.follow written (here.step name) rest

/-- Reaches a path from the root. -/
def reach (files : Files) (path : Path) : Except FileError Path :=
  files.follow path.text [] path

/-- Whether there is anything at a path. -/
def has (files : Files) (path : Path) : Bool :=
  match files.reach path with
  | .ok place => (files.get? place).isSome
  | .error _ => false

/-- The text of the file at a path. -/
def read (files : Files) (path : Path) : Except FileError String :=
  match files.reach path with
  | .error e => .error e
  | .ok place =>
    match files.get? place with
    | none => .error (.missing path.text)
    | some .directory => .error .directoryContent
    | some (.locked message _) => .error (.refused message)
    | some (.file text) => .ok text

/-- The text that stands in a place. -/
def text? (files : Files) (place : Path) : Option String := (files.get? place).bind Entry.text?

/-- The file system in which an entry has been put at a path. -/
def put (files : Files) (path : Path) (entry : Option Entry) : Files :=
  ⟨fun p => if p = path then entry else files.get? p⟩

@[simp] theorem get?_put_self (files : Files) (path : Path) (entry : Option Entry) :
    (files.put path entry).get? path = entry := by
  simp [put]

theorem get?_put_of_ne (files : Files) {path p : Path} (entry : Option Entry) (h : p ≠ path) :
    (files.put path entry).get? p = files.get? p := by
  simp [put, h]

/-- The file system in which a place holds a text. -/
def fill (files : Files) (place : Path) (text : String) : Files :=
  files.put place (some (((files.get? place).getD (.file "")).withText text))

@[simp] theorem text?_fill (files : Files) (place : Path) (text : String) :
    (files.fill place text).text? place = some text := by
  simp [fill, text?]

/-- What a place holds, if it is kept. -/
def kept (files : Files) (keep : Bool) (place : Path) : String :=
  if keep then (files.text? place).getD "" else ""

/-- Stores a text in the file that a written path has led to, which is emptied first unless what it
holds is kept. -/
def save (files : Files) (written : String) (keep : Bool) (text : String) (storage : Storage) :
    Except FileError Path → Except WriteFailure Files
  | .error e => .error ⟨e, files⟩
  | .ok place =>
    match files.get? place with
    | some .directory => .error ⟨.directory written, files⟩
    | _ =>
      match storage with
      | .whole => .ok (files.fill place (files.kept keep place ++ text))
      | .closed message => .error ⟨.refused message, files⟩
      | .cut bytes message =>
        .error ⟨.refused message, files.fill place (files.kept keep place ++ Text.start bytes text)⟩

/-- Writes a file, whether or not it was there. -/
def write (files : Files) (path : Path) (text : String) (storage : Storage := .whole) :
    Except WriteFailure Files :=
  files.save path.text false text storage (files.reach path)

/-- Adds text at the end of the file that a written path names, seen from a directory. -/
def append (files : Files) (here : Path) (written text : String) (storage : Storage := .whole) :
    Except WriteFailure Files :=
  files.save written true text storage
    (files.follow written (if Path.isAbsolute written then [] else here) (Text.split '/' written))

end Files

end BuildMatrix
