import BuildMatrix.Config.Issue
import BuildMatrix.Matrix

/-!
# Configurations and their check

A configuration is read off a value by checks, one for each kind of value. A check of a collection
checks all of its parts, so that every issue is reported, in a fixed order: the known fields in the
order in which they are listed, then the names that are not known. What is left out has its
default.
-/

namespace BuildMatrix

/-- A configuration that is complete. -/
structure Config where
  checker : String := ({} : Defaults).checker
  image : String := ({} : Defaults).image
  args : String := ({} : Defaults).args
  jobs : Number := ({} : Defaults).jobs
  builds : List BuildOptions := []
deriving DecidableEq, Repr, Inhabited

namespace Config

/-- A text. -/
def checkText : Value → Checked String
  | .string s => .ok s
  | v => .fault (.wrongKind .string v.kind)

/-- A truth value. -/
def checkFlag : Value → Checked Bool
  | .bool b => .ok b
  | v => .fault (.wrongKind .boolean v.kind)

/-- A number of jobs: whole and positive. -/
def checkCount : Value → Checked Number
  | .number .nan => .fault (.wrongKind .number .nan)
  | .number n =>
    let whole := if n.isWhole then [] else [⟨[], .wrongKind .integer .float⟩]
    let positive := if n.isPositive then [] else [⟨[], .notPositive⟩]
    let issues := whole ++ positive
    if issues.isEmpty then .ok n else .error issues
  | v => .fault (.wrongKind .number v.kind)

/-- The entries of an environment, one after the other. The name `__proto__` cannot be set. -/
def checkEntries : List (String × Value) → Checked (Record String)
  | [] => .ok []
  | (name, v) :: rest =>
    .app (((checkText v).under (.key name)).map fun s entries =>
      if name = "__proto__" then entries else (name, s) :: entries) (checkEntries rest)

/-- An environment: an object of texts. -/
def checkEnv : Value → Checked (Record String)
  | .object fields => checkEntries fields
  | v => .fault (.wrongKind .object v.kind)

/-- The field of a name, if it is there. -/
def checkField {α : Type} (check : Value → Checked α) (fields : List (String × Value))
    (name : String) : Checked (Option α) :=
  match Record.get? fields name with
  | none => .ok none
  | some v => ((check v).under (.key name)).map some

/-- Nothing may stand beside the known names. -/
def checkKnown (known : List String) (fields : List (String × Value)) : Checked Unit :=
  let unknown := (Record.names fields).filter (!known.contains ·)
  if unknown.isEmpty then .ok () else .fault (.unknownKeys unknown)

/-- The names of the fields of a build. -/
def buildKeys : List String :=
  ["name", "image", "args", "jobs", "env", "coverage", "platform", "commandArgs"]

/-- The options of one build. -/
def checkBuild : Value → Checked BuildOptions
  | .object fields =>
    let build (name image args : Option String) (jobs : Option Number)
        (env : Option (Record String)) (coverage : Option Bool)
        (platform commandArgs : Option String) : BuildOptions :=
      { name, image, args, jobs, env, coverage, platform, commandArgs }
    let text := checkField checkText fields
    let checked : Checked BuildOptions :=
      Checked.app ((text "name").map build) (text "image")
        |>.app (text "args")
        |>.app (checkField checkCount fields "jobs")
        |>.app (checkField checkEnv fields "env")
        |>.app (checkField checkFlag fields "coverage")
        |>.app (text "platform")
        |>.app (text "commandArgs")
    checked.also (checkKnown buildKeys fields)
  | v => .fault (.wrongKind .object v.kind)

/-- Builds from a given index on. -/
def checkBuildsFrom (index : Nat) : List Value → Checked (List BuildOptions)
  | [] => .ok []
  | v :: rest =>
    .app (((checkBuild v).under (.index index)).map List.cons) (checkBuildsFrom (index + 1) rest)

/-- A list of builds. -/
def checkBuilds : Value → Checked (List BuildOptions)
  | .array items => checkBuildsFrom 0 items
  | v => .fault (.wrongKind .array v.kind)

/-- The names of the fields under `defaults`. -/
def defaultKeys : List String := ["image", "args", "jobs"]

/-- The settings under `defaults`, as a change to a configuration. -/
def checkDefaults : Value → Checked (Config → Config)
  | .object fields =>
    let settings (image args : Option String) (jobs : Option Number) (config : Config) : Config :=
      { config with
        image := image.getD config.image
        args := args.getD config.args
        jobs := jobs.getD config.jobs }
    let checked : Checked (Config → Config) :=
      Checked.app ((checkField checkText fields "image").map settings)
          (checkField checkText fields "args")
        |>.app (checkField checkCount fields "jobs")
    checked.also (checkKnown defaultKeys fields)
  | v => .fault (.wrongKind .object v.kind)

/-- The names of the fields of a configuration. -/
def configKeys : List String := ["checker", "defaults", "builds"]

/-- A whole configuration; what is missing has its default. -/
def check : Value → Checked Config
  | .object fields =>
    let config (checker : Option String) (defaults : Option (Config → Config))
        (builds : Option (List BuildOptions)) : Config :=
      defaults.getD id
        { checker := checker.getD ({} : Config).checker, builds := builds.getD [] }
    let checked : Checked Config :=
      Checked.app ((checkField checkText fields "checker").map config)
          (checkField checkDefaults fields "defaults")
        |>.app (checkField checkBuilds fields "builds")
    checked.also (checkKnown configKeys fields)
  | v => .fault (.wrongKind .object v.kind)

/-- Checks a value that may be absent altogether. -/
def checkPresent {α : Type} (check : Value → Checked α) : Option Value → Checked α
  | none => .fault .missing
  | some v => check v

/-- A field that is left out when it has no value. -/
def field? {α : Type} (name : String) (toJson : α → Json) (value : Option α) :
    List (String × Json) :=
  (value.map fun v => (name, toJson v)).toList

/-- The options of a build as JSON: the fields that are present, in a fixed order. -/
def buildJson (build : BuildOptions) : Json :=
  .object <|
    field? "name" .string build.name ++ field? "image" .string build.image ++
    field? "args" .string build.args ++ field? "jobs" .number build.jobs ++
    field? "env" .ofRecord build.env ++ field? "coverage" .bool build.coverage ++
    field? "platform" .string build.platform ++ field? "commandArgs" .string build.commandArgs

/-- A configuration as JSON. -/
def json (config : Config) : Json :=
  .object
    [("checker", .string config.checker),
      ("defaults", .object
        [("image", .string config.image), ("args", .string config.args),
          ("jobs", .number config.jobs)]),
      ("builds", .array (config.builds.map buildJson))]

/-- The defaults that a configuration sets for its jobs. -/
def defaults (config : Config) : Defaults :=
  { checker := config.checker, image := config.image, args := config.args, jobs := config.jobs }

/-- The matrix of a configuration in the run that a reference started. -/
def matrix (config : Config) (ref : Option String) : Matrix :=
  (Matrix.empty ref config.defaults).addAll config.builds

end Config

end BuildMatrix
