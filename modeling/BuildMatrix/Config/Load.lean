import BuildMatrix.Config.Read
import BuildMatrix.Files

/-!
# Finding the configuration of a run

A file that the caller names is the only one that is tried. Without one, the configuration file
of the working directory is used if there is anything under its name, and the packaged one only if
there is nothing.
-/

namespace BuildMatrix

/-- Why a run has no configuration. -/
inductive LoadError where
  | file (error : FileError)
  | content (error : ReadError)
deriving Repr

/-- The text of an error. -/
def LoadError.message : LoadError → String
  | .file error => error.message
  | .content error => error.message

namespace Config

/-- The name of the configuration file of a directory. -/
def fileName : String := ".ci-matrix.yml"

/-- The name of the packaged configuration file. -/
def stockName : String := "matrix.default.yml"

/-- The configuration file of a directory. -/
def fileIn (directory : Path) : Path := directory ++ [fileName]

/-- The packaged configuration file. -/
def stockIn (package : Path) : Path := package ++ [stockName]

/-- A configuration and the file that it comes from. -/
structure Loaded where
  config : Config
  path : Path
  builtin : Bool

/-- The file that is to be used, and whether it is the packaged one. -/
def source (files : Files) (package directory : Path) (named : Option String) : Path × Bool :=
  match named.filter (· ≠ "") with
  | some written => (directory.resolve written, false)
  | none =>
    if files.has (fileIn directory) then (fileIn directory, false) else (stockIn package, true)

/-- The configuration in a file. -/
def readFile (files : Files) (path : Path) : Except LoadError Config :=
  match files.read path with
  | .error e => .error (.file e)
  | .ok text => (Config.read text).mapError .content

/-- The configuration of a run. -/
def load (files : Files) (package directory : Path) (named : Option String) :
    Except LoadError Loaded :=
  let (path, builtin) := source files package directory named
  (readFile files path).map fun config => { config, path, builtin }

end Config

end BuildMatrix
