import BuildMatrix.Arguments
import BuildMatrix.Manifest
import BuildMatrix.Matrix.Output
import BuildMatrix.Prompt
import BuildMatrix.Starter.File
import BuildMatrix.Table.Frame

/-!
# A run of the program

A run takes its surroundings, the files and the arguments, and gives an outcome: how it ends, what
it has written where, and the files as they are afterwards. Help and version come first, then
faults of the arguments; only then is anything read but the manifest of the program. A run stores at
most one text in a file, and what becomes of it is part of the surroundings.
-/

namespace BuildMatrix

/-- A terminal: its width, and the keys that will be pressed. -/
structure Terminal where
  columns : Nat := 80
  answers : Answers := {}
deriving DecidableEq, Repr

/-- What happens to text that is appended to a file: it is only noted, it is refused, or it is
added to the file. -/
inductive Sink where
  | note
  | refuse (message : String)
  | files
deriving DecidableEq, Repr

/-- The surroundings of a run: where it is started and where the program is packaged, the
environment and the terminal, what becomes of a text that is appended or stored, and what reading
the manifest of the package gives. -/
structure Surroundings where
  directory : Path
  package : Path
  environment : List (String × String) := []
  terminal : Option Terminal := none
  sink : Sink := .files
  storage : Storage := .whole
  manifest : Manifest := .shipped
deriving DecidableEq, Repr

namespace Surroundings

/-- The reference that the workflow runs for. -/
def ref (s : Surroundings) : Option String := s.environment.lookup "GITHUB_REF"

/-- The file that takes the outputs of a workflow step, if it is set to something. -/
def outputFile (s : Surroundings) : Option String :=
  (s.environment.lookup "GITHUB_OUTPUT").filter (· ≠ "")

end Surroundings

/-- How a run ends: with an exit code, with a table that stays on the screen, or with an error that
nobody has handled. -/
inductive Ending where
  | code (n : Nat)
  | drawn
  | failed (error : FileError)
deriving DecidableEq, Repr

/-- What a run has done. -/
structure Outcome where
  ending : Ending
  out : List String := []
  err : List String := []
  appended : List (String × String) := []
  screen : String := ""
  closing : Option String := none
  files : Files

namespace Run

/-- The complaint about unknown arguments. -/
def unknownOptions (names : List String) : List String :=
  ["Unknown option(s): " ++ ", ".intercalate names ++ "\n",
    "Run `ci-matrix --help` for usage.\n"]

/-- What the program says when it has written the starter file. -/
def wroteFile : String := "Wrote " ++ Config.fileName ++ "."

/-- Places the starter file without questions. -/
def initPlain (s : Surroundings) (files : Files) (force : Bool) : Outcome :=
  match Starter.place files s.directory ({} : Defaults).image force s.storage with
  | .error failure => { ending := .failed failure.error, files := failure.files }
  | .ok .exists =>
    { ending := .code 1
      err := [Config.fileName ++ " already exists. Use --force to overwrite.\n"]
      files }
  | .ok (.written files) => { ending := .code 0, out := [wroteFile ++ "\n"], files }

/-- A set-up that was given up. -/
def canceled (files : Files) : Outcome :=
  { ending := .code 130, closing := some "Canceled.", files }

/-- Places the starter file for an image that was asked for. -/
def initNamed (s : Surroundings) (files : Files) (image : String) (force : Bool) : Outcome :=
  match Starter.place files s.directory (Text.trim image) force s.storage with
  | .error failure => { ending := .failed failure.error, files := failure.files }
  | .ok .exists => { ending := .code 0, closing := some "Left existing file untouched.", files }
  | .ok (.written files) => { ending := .code 0, closing := some wroteFile, files }

/-- Whether a set-up has to ask before it writes: there is something to overwrite, and no order to
do so. -/
def needsConsent (s : Surroundings) (files : Files) (force : Bool) : Bool :=
  !force && files.has (Config.fileIn s.directory)

/-- Places the starter file after the questions have been answered. -/
def initAsking (s : Surroundings) (answers : Answers) (files : Files) (force : Bool) : Outcome :=
  match TextAnswer.submitted ({} : Defaults).image answers.image with
  | none => canceled files
  | some image =>
    if needsConsent s files force then
      match answers.overwrite.given with
      | none => canceled files
      | some consent => initNamed s files image consent
    else initNamed s files image force

/-- Sets a directory up. -/
def init (s : Surroundings) (files : Files) (force : Bool) : Outcome :=
  match s.terminal with
  | none => initPlain s files force
  | some terminal => initAsking s terminal.answers files force

/-- Shows the table. -/
def «show» (s : Surroundings) (files : Files) (matrix : Matrix) (commands : Bool) : Outcome :=
  let rows := Table.rows matrix
  match s.terminal with
  | none =>
    { ending := .code 0
      out := ["\n".intercalate (Table.lines matrix.context rows commands) ++ "\n"]
      files }
  | some terminal =>
    { ending := .drawn
      screen := "\n".intercalate (Table.frame terminal.columns matrix.context rows commands) ++ "\n"
      files }

/-- Appends text to a file, after the outcome so far. -/
def append (s : Surroundings) (outcome : Outcome) (name text : String) : Outcome :=
  match s.sink with
  | .note => { outcome with appended := outcome.appended ++ [(name, text)] }
  | .refuse message => { outcome with ending := .failed (.refused message) }
  | .files =>
    match outcome.files.append s.directory name text s.storage with
    | .error failure => { outcome with ending := .failed failure.error, files := failure.files }
    | .ok files => { outcome with appended := outcome.appended ++ [(name, text)], files }

/-- Prints the matrix, and hands it to later steps of the workflow if asked to. -/
def generate (s : Surroundings) (files : Files) (matrix : Matrix) (args : Arguments) : Outcome :=
  let printed : Outcome :=
    { ending := .code 0
      out := [(if args.pretty then matrix.pretty else matrix.compact) ++ "\n"]
      files }
  if args.githubOutput then
    match s.outputFile with
    | none =>
      { ending := .code 2
        err := ["--github-output requires GITHUB_OUTPUT to be set.\n"]
        files }
    | some name => append s printed name (Matrix.outputLine matrix.compact)
  else printed

/-- What is said about a configuration on request. -/
def notes (loaded : Config.Loaded) (matrix : Matrix) : List String :=
  ["Using " ++ (if loaded.builtin then "built-in matrix" else loaded.path.text) ++ "\n",
    "Generated " ++ toString matrix.size ++ " job(s) for " ++ matrix.context.describe ++ "\n"]

/-- Runs a command that needs the matrix. -/
def withMatrix (s : Surroundings) (files : Files) (args : Arguments) : Outcome :=
  match Config.load files s.package s.directory args.config with
  | .error e => { ending := .code 1, err := ["Config error: " ++ e.message ++ "\n"], files }
  | .ok loaded =>
    let matrix := loaded.config.matrix (args.ref.or s.ref)
    let outcome :=
      match args.command with
      | .show => «show» s files matrix args.verbose
      | _ => generate s files matrix args
    if args.verbose then { outcome with err := notes loaded matrix ++ outcome.err } else outcome

/-- Tells the version that the manifest names. -/
def tellVersion (s : Surroundings) (files : Files) : Outcome :=
  match s.manifest.version with
  | .error e => { ending := .failed e, files }
  | .ok version => { ending := .code 0, out := ["ci-matrix " ++ version ++ "\n"], files }

/-- Runs the program on arguments that have been read. -/
def perform (s : Surroundings) (files : Files) (args : Arguments) : Outcome :=
  if args.help then { ending := .code 0, out := [Arguments.usage], files }
  else if args.version then tellVersion s files
  else if !args.unknown.isEmpty then
    { ending := .code 2, err := unknownOptions args.unknown, files }
  else if !args.errors.isEmpty then
    { ending := .code 2, err := args.errors.map (·.message ++ "\n"), files }
  else
    match args.command with
    | .init => init s files args.force
    | _ => withMatrix s files args

end Run

/-- Runs the program. -/
def run (s : Surroundings) (files : Files) (argv : List String) : Outcome :=
  Run.perform s files (Arguments.read argv)

namespace Outcome

/-- The exit code of the process. An error that nobody has handled ends it with one; a table that
stays on the screen does not change it. -/
def exitCode (o : Outcome) : Nat :=
  match o.ending with
  | .code n => n
  | .drawn => 0
  | .failed _ => 1

/-- All that the process writes to its error channel. -/
def errorText (o : Outcome) : String :=
  .join <| o.err ++
    match o.ending with
    | .failed e => ["ci-matrix: " ++ e.message ++ "\n"]
    | _ => []

end Outcome

end BuildMatrix
