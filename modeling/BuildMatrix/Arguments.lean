/-!
# Command line arguments

A first argument that is not an option is the command. After it, options are taken from left to
right: a later value replaces an earlier one, and a value never starts with two hyphens. What is
not understood is noted and does not stop the reading, so every mistake of a command line is known
when it ends.
-/

namespace BuildMatrix

/-- What a run is asked to do. -/
inductive Command where
  | generate
  | «show»
  | init
deriving DecidableEq, Repr, Inhabited

/-- The word that asks for a command. -/
def Command.word : Command → String
  | .generate => "generate"
  | .show => "show"
  | .init => "init"

/-- The command that a word asks for. -/
def Command.ofWord? (word : String) : Option Command :=
  [Command.generate, .show, .init].find? (·.word == word)

/-- What is wrong with an argument. -/
inductive ArgumentError where
  | unknownCommand (word : String)
  | missingValue (option : String)
deriving DecidableEq, Repr

/-- The text of an error. -/
def ArgumentError.message : ArgumentError → String
  | .unknownCommand word => "Unknown command: " ++ word
  | .missingValue option => "Missing value for " ++ option

/-- The arguments of a run, read. -/
structure Arguments where
  command : Command := .generate
  config : Option String := none
  ref : Option String := none
  pretty : Bool := false
  githubOutput : Bool := false
  force : Bool := false
  verbose : Bool := false
  help : Bool := false
  version : Bool := false
  unknown : List String := []
  errors : List ArgumentError := []
deriving DecidableEq, Repr, Inhabited

/-- An option with a value. -/
inductive ValueOption where
  | config
  | ref
deriving DecidableEq, Repr

namespace ValueOption

/-- The option as it is typed. -/
def text : ValueOption → String
  | .config => "--config"
  | .ref => "--ref"

/-- The option that an argument is. -/
def ofText? : String → Option ValueOption
  | "--config" => some .config
  | "--ref" => some .ref
  | _ => none

end ValueOption

namespace Arguments

/-- A value may start with one hyphen, never with two, and is not empty. -/
def isValue (token : String) : Bool :=
  token != "" && !("--".toList.isPrefixOf token.toList)

/-- Sets the value of an option. -/
def setValue (args : Arguments) (option : ValueOption) (value : Option String) : Arguments :=
  match option with
  | .config => { args with config := value }
  | .ref => { args with ref := value }

/-- Notes that an option has no value. -/
def missValue (args : Arguments) (option : ValueOption) : Arguments :=
  let args := args.setValue option none
  { args with errors := args.errors ++ [.missingValue option.text] }

/-- Takes an argument that stands alone. -/
def takeFlag (args : Arguments) : String → Arguments
  | "--help" | "-h" => { args with help := true }
  | "--version" | "-v" => { args with version := true }
  | "--pretty" => { args with pretty := true }
  | "--github-output" => { args with githubOutput := true }
  | "--force" => { args with force := true }
  | "--verbose" => { args with verbose := true }
  | "" => args
  | token => { args with unknown := args.unknown ++ [token] }

/-- Reads the options from left to right. -/
def readOptions (args : Arguments) : List String → Arguments
  | [] => args
  | token :: rest =>
    match ValueOption.ofText? token with
    | none => readOptions (args.takeFlag token) rest
    | some option =>
      match rest with
      | [] => args.missValue option
      | value :: tail =>
        if isValue value then readOptions (args.setValue option (some value)) tail
        else readOptions (args.missValue option) (value :: tail)

/-- Reads a whole command line. A first argument that is not an option is the command. -/
def read (argv : List String) : Arguments :=
  match argv with
  | [] => {}
  | first :: rest =>
    if first = "" ∨ first.toList.head? = some '-' then readOptions {} (first :: rest)
    else
      match Command.ofWord? first with
      | some command => readOptions { command } rest
      | none => readOptions { errors := [.unknownCommand first] } rest

/-- Whether nothing is wrong with the arguments. -/
def isValid (args : Arguments) : Bool := args.unknown.isEmpty && args.errors.isEmpty

/-- Whether only help or the version is asked for. -/
def isAboutProgram (args : Arguments) : Bool := args.help || args.version

/-- The help text. -/
def usage : String :=
  "\n".intercalate
    ["ci-matrix <command> [options]",
      "",
      "Commands:",
      "  generate              Print the build matrix as JSON (default)",
      "  show                  Render the build matrix as a table",
      "  init                  Write a starter .ci-matrix.yml",
      "",
      "Options:",
      "  --config <file>       Matrix definition file",
      "  --ref <ref>           Source reference (defaults to $GITHUB_REF)",
      "  --pretty              Print sorted, indented JSON",
      "  --github-output       Also append matrix=<json> to $GITHUB_OUTPUT",
      "  --force               For init, overwrite an existing file",
      "  --verbose             Log a summary to stderr",
      "  -h, --help            Show help",
      "  -v, --version         Show version",
      ""]

end Arguments

end BuildMatrix
