import BuildMatrix.Json
import BuildMatrix.Ref

/-!
# Jobs: their options, their command and their record

A job is made from what a caller asks for, the defaults of the matrix for the rest, and the
reference that the run was started for. Its command line holds no blank piece, its environment says
when coverage is measured, and it makes a release only on a tag.
-/

namespace BuildMatrix

/-- The settings that a job falls back to. -/
structure Defaults where
  checker : String := "src/test/docker/docker-run-checks.sh"
  image : String := "bookworm"
  args : String := "--prefix=/usr --sysconfdir=/etc " ++
    "--with-systemdsystemunitdir=/etc/systemd/system --localstatedir=/var"
  jobs : Number := 2
deriving DecidableEq, Repr, Inhabited

/-- What a caller may say about a job. -/
structure BuildOptions where
  name : Option String := none
  image : Option String := none
  args : Option String := none
  jobs : Option Number := none
  env : Option (Record String) := none
  coverage : Option Bool := none
  platform : Option String := none
  commandArgs : Option String := none
deriving DecidableEq, Repr, Inhabited

/-- The pieces of a checker call. -/
structure CommandParts where
  checker : String
  jobs : Number
  image : String
  args : Option String := none
  commandArgs : Option String := none
  platform : Option String := none
deriving DecidableEq, Repr

/-- A job of the matrix. -/
structure Job where
  name : Option String
  image : String
  command : String
  env : Record String
  tag : Option String
  branch : Option String
  coverage : Bool
  needsBuildx : Bool
  createRelease : Bool
deriving DecidableEq, Repr, Inhabited

/-- A job for a named platform has to be built with the extended builder. -/
def needsBuildx (platform : Option String) : Bool := platform.any (· != "")

namespace CommandParts

/-- The option that names the platform; empty if there is none. -/
def platformOption (parts : CommandParts) : String :=
  match parts.platform with
  | none => ""
  | some platform => if platform = "" then "" else "--platform=" ++ platform

/-- The pieces in the order of the command line. -/
def pieces (parts : CommandParts) : List String :=
  [parts.checker, "-j" ++ parts.jobs.toText, "--image=" ++ parts.image,
    parts.args.getD "", parts.commandArgs.getD "", parts.platformOption]

/-- The command line: the trimmed pieces that are not blank, with one space between two. -/
def compose (parts : CommandParts) : String :=
  " ".intercalate ((parts.pieces.map Text.trim).filter (· != ""))

end CommandParts

namespace Job

/-- The environment of a job that measures coverage says so. -/
def withCoverage (env : Record String) (coverage : Bool) : Record String :=
  if coverage then env.set "COVERAGE" "t" else env

/-- Only the distribution check of a tag makes a release. -/
def isReleaseBuild (tag : Option String) (env : Record String) : Bool :=
  tag.isSome && env.has "DISTCHECK"

/-- The job that options ask for under given defaults, in a run. -/
def ofOptions (context : RunContext) (defaults : Defaults) (options : BuildOptions) : Job :=
  let image := options.image.getD defaults.image
  let coverage := options.coverage.getD false
  let env := withCoverage (options.env.getD []) coverage
  let parts : CommandParts :=
    { checker := defaults.checker
      jobs := options.jobs.getD defaults.jobs
      image
      args := some (options.args.getD defaults.args)
      commandArgs := options.commandArgs
      platform := options.platform }
  { name := options.name
    image
    command := parts.compose
    env
    tag := context.tag
    branch := context.branch
    coverage
    needsBuildx := BuildMatrix.needsBuildx options.platform
    createRelease := isReleaseBuild context.tag env }

/-- A field that is left out when it has no value. -/
def optionalField (name : String) (value : Option String) : List (String × Json) :=
  (value.map fun v => (name, Json.string v)).toList

/-- The record of a job as it is handed to the build service. -/
def record (job : Job) : Json :=
  .object <|
    optionalField "name" job.name ++
    [("env", .ofRecord job.env), ("command", .string job.command), ("image", .string job.image)] ++
    optionalField "tag" job.tag ++ optionalField "branch" job.branch ++
    [("coverage", .bool job.coverage), ("needs_buildx", .bool job.needsBuildx),
      ("create_release", .bool job.createRelease)]

end Job

end BuildMatrix
