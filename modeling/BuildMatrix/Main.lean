import BuildMatrix.Config.Stock
import BuildMatrix.Run
import BuildMatrix.Text.Decode

/-!
# The command line program

This is the only module that touches the world: it looks at the files that a run can use, asks the
questions of a set-up on a terminal, hands everything to `run`, and carries the outcome out.
-/

namespace BuildMatrix.Program

/-- What stands at a path on the disk. What is there and cannot be read or gone through is
locked. -/
def look (path : Path) : IO (Option Entry) := do
  let place := (← IO.currentDir) / path.text
  let denied : Entry := .locked ("EACCES: permission denied, open '" ++ path.text ++ "'") ""
  if ← place.isDir then
    return some (if ← (place / ".").pathExists then .directory else denied)
  unless ← place.pathExists do return none
  try
    let bytes ← IO.FS.readBinFile place
    return some (.file (Text.decode bytes.toList))
  catch
    | .permissionDenied .. => return some denied
    | e => return some (.locked e.toString "")

/-- The part of the disk that lies on the way to some paths. The packaged configuration is always
there. -/
def snapshot (package : Path) (paths : List Path) : IO Files := do
  let ways := (Config.stockIn package :: paths).flatMap fun path =>
    (List.range (path.length + 1)).map path.take
  let entries ← ways.eraseDups.mapM fun path => return (path, ← look path)
  let found : Files := ⟨fun path => (entries.lookup path).join⟩
  return found.put (Config.stockIn package) (some (.file Config.stock))

/-- Writes the starter file if a run says that it has written it. -/
def storeStarter (s : Surroundings) (outcome : Outcome) : IO Unit := do
  if outcome.out = [Run.wroteFile ++ "\n"] ∨ outcome.closing = some Run.wroteFile then
    let path := Config.fileIn s.directory
    for text in outcome.files.text? path do IO.FS.writeFile path.text text

/-- Adds the texts that a run has appended to the files that it names. -/
def storeAppended (outcome : Outcome) : IO Unit :=
  for (name, text) in outcome.appended do
    let file ← IO.FS.Handle.mk name .append
    file.putStr text

/-- Puts a question and reads a line, unless the input has ended. -/
def ask (question : String) : IO (Option String) := do
  (← IO.getStdout).putStr question
  (← IO.getStdout).flush
  let line ← (← IO.getStdin).getLine
  return if line.isEmpty then none else some (line.dropEndWhile (· == '\n')).toString

/-- Asks for an image until one is given. -/
def askImage : IO (List TextAnswer) := do
  repeat
    match ← ask ("Default build image (" ++ ({} : Defaults).image ++ "): ") with
    | none => return [.cancel]
    | some "" => return [.enter]
    | some line => unless Text.isBlankText line do return [.typed line]
  return []

/-- Asks for consent to overwrite the configuration file. -/
def askConsent : IO Consent := do
  match ← ask (Config.fileName ++ " already exists. Overwrite it? (y/N): ") with
  | none => return .cancel
  | some line => return if line = "y" ∨ line = "yes" then .yes else .no

/-- Asks what a set-up has to know. -/
def askAll (s : Surroundings) (files : Files) (args : Arguments) : IO Answers := do
  if args.command = .init ∧ args.isValid ∧ ¬ args.isAboutProgram then
    let image ← askImage
    let overwrite ←
      if Run.needsConsent s files args.force then askConsent else pure Consent.enter
    return { image, overwrite }
  else return {}

/-- The terminal that input and output are connected to, if both are. -/
def terminal : IO (Option Terminal) := do
  if (← (← IO.getStdout).isTty) && (← (← IO.getStdin).isTty) then
    let columns := (← IO.getEnv "COLUMNS").bind (·.toNat?)
    return some { columns := columns.getD 80 }
  else return none

/-- Runs the program in the working directory. -/
def start (argv : List String) : IO UInt32 := do
  let directory := Path.resolve [] (toString (← IO.currentDir))
  let package := (Path.resolve [] (toString (← IO.appPath))).dropLast
  let environment ← ["GITHUB_REF", "GITHUB_OUTPUT"].filterMapM fun name =>
    return (← IO.getEnv name).map (name, ·)
  let s : Surroundings := { directory, package, environment, terminal := ← terminal }
  let args := Arguments.read argv
  let named := (args.config.toList ++ s.outputFile.toList).map directory.resolve
  let paths := Config.fileIn directory :: named
  let files ← snapshot package paths
  let answers ← if s.terminal.isSome then askAll s files args else pure {}
  let s := { s with terminal := s.terminal.map ({ · with answers }) }
  -- a text that the disk does not take ends the run with the error of the disk
  let storing (outcome : Outcome) (act : IO Unit) : IO Outcome :=
    try
      act
      return outcome
    catch e => return run { s with storage := .closed e.toString } files argv
  let outcome := run s files argv
  let outcome ← storing outcome (storeStarter s outcome)
  let stdout ← IO.getStdout
  stdout.putStr (.join outcome.out ++ outcome.screen)
  for line in outcome.closing do stdout.putStrLn line
  let outcome ← storing outcome (storeAppended outcome)
  (← IO.getStderr).putStr outcome.errorText
  return outcome.exitCode.toUInt32

end BuildMatrix.Program

/-- The entry point. -/
def main (argv : List String) : IO UInt32 := BuildMatrix.Program.start argv
