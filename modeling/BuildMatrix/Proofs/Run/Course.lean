import BuildMatrix.Run

/-!
# The courses that a run can take

A run is decided by a handful of questions: what the arguments ask for and whether anything is
wrong with them, whether there is a configuration, what stands in the way of a starter file, where
an output goes, and what becomes of a text that is stored.  Each way to answer them is one
constructor below, with the conditions under which the run goes that way and with all that it does
then: `SetUp` for setting a directory up, `HandOver` for printing a matrix, and `Course` for a whole
run.  Every run takes one of them (`course_perform`), so what holds of all runs is shown course by
course.
-/

namespace BuildMatrix

/-- Nothing is wrong with the arguments, and neither help nor the version is asked for. -/
structure Arguments.Proceeds (args : Arguments) : Prop where
  help : args.help = false
  version : args.version = false
  unknown : args.unknown = []
  errors : args.errors = []

/-- The same outcome with lines on the error channel before the others. -/
def Outcome.noting (lines : List String) (outcome : Outcome) : Outcome :=
  { outcome with err := lines ++ outcome.err }

section

variable (lines : List String) (outcome : Outcome)

@[simp] theorem Outcome.ending_noting : (outcome.noting lines).ending = outcome.ending := rfl
@[simp] theorem Outcome.out_noting : (outcome.noting lines).out = outcome.out := rfl
@[simp] theorem Outcome.err_noting : (outcome.noting lines).err = lines ++ outcome.err := rfl
@[simp] theorem Outcome.files_noting : (outcome.noting lines).files = outcome.files := rfl
@[simp] theorem Outcome.closing_noting : (outcome.noting lines).closing = outcome.closing := rfl
@[simp] theorem Outcome.appended_noting : (outcome.noting lines).appended = outcome.appended := rfl

end

namespace Run

variable {s : Surroundings} {files : Files}

/-! ## Setting a directory up -/

/-- Nothing keeps a starter file from being written: its name is free, or the caller insists. -/
def IsClear (s : Surroundings) (files : Files) (force : Bool) : Prop :=
  files.has (Config.fileIn s.directory) = false ∨ force = true

/-- The ways in which setting a directory up goes. -/
inductive SetUp (s : Surroundings) (files : Files) (force : Bool) : Outcome → Prop
  /-- Without a terminal, a file that is there stays. -/
  | refused (hs : s.terminal = none) (hclear : ¬ IsClear s files force) :
      SetUp s files force
        { ending := .code 1
          err := [Config.fileName ++ " already exists. Use --force to overwrite.\n"]
          files }
  | written {after : Files} (hs : s.terminal = none) (hclear : IsClear s files force)
      (hwrite : files.write (Config.fileIn s.directory) Starter.render s.storage = .ok after) :
      SetUp s files force { ending := .code 0, out := [wroteFile ++ "\n"], files := after }
  | failed {failure : WriteFailure} (hs : s.terminal = none) (hclear : IsClear s files force)
      (hwrite : files.write (Config.fileIn s.directory) Starter.render s.storage =
        .error failure) :
      SetUp s files force { ending := .failed failure.error, files := failure.files }
  /-- On a terminal, no image is named. -/
  | unnamed {t : Terminal} (hs : s.terminal = some t)
      (himage : TextAnswer.submitted ({} : Defaults).image t.answers.image = none) :
      SetUp s files force (canceled files)
  /-- The question whether to overwrite is given up. -/
  | unanswered {t : Terminal} {image : String} (hs : s.terminal = some t)
      (himage : TextAnswer.submitted ({} : Defaults).image t.answers.image = some image)
      (hclear : ¬ IsClear s files force) (hconsent : t.answers.overwrite.given = none) :
      SetUp s files force (canceled files)
  | declined {t : Terminal} {image : String} (hs : s.terminal = some t)
      (himage : TextAnswer.submitted ({} : Defaults).image t.answers.image = some image)
      (hclear : ¬ IsClear s files force) (hconsent : t.answers.overwrite.given = some false) :
      SetUp s files force
        { ending := .code 0, closing := some "Left existing file untouched.", files }
  | writtenFor {t : Terminal} {image : String} {after : Files} (hs : s.terminal = some t)
      (himage : TextAnswer.submitted ({} : Defaults).image t.answers.image = some image)
      (hclear : IsClear s files force ∨ t.answers.overwrite.given = some true)
      (hwrite : files.write (Config.fileIn s.directory) (Starter.render (Text.trim image))
        s.storage = .ok after) :
      SetUp s files force { ending := .code 0, closing := some wroteFile, files := after }
  | failedFor {t : Terminal} {image : String} {failure : WriteFailure} (hs : s.terminal = some t)
      (himage : TextAnswer.submitted ({} : Defaults).image t.answers.image = some image)
      (hclear : IsClear s files force ∨ t.answers.overwrite.given = some true)
      (hwrite : files.write (Config.fileIn s.directory) (Starter.render (Text.trim image))
        s.storage = .error failure) :
      SetUp s files force { ending := .failed failure.error, files := failure.files }

theorem isClear_iff {force : Bool} :
    IsClear s files force ↔ (files.has (Config.fileIn s.directory) && !force) = false := by
  rw [IsClear, Bool.and_eq_false_iff, Bool.not_eq_false']

theorem isClear_iff_needsConsent {force : Bool} :
    IsClear s files force ↔ needsConsent s files force = false := by
  rw [isClear_iff, needsConsent, Bool.and_comm]

theorem place_of_isClear {force : Bool} (h : IsClear s files force) (image : String) :
    Starter.place files s.directory image force s.storage =
      (files.write (Config.fileIn s.directory) (Starter.render image) s.storage).map .written := by
  rw [Starter.place, isClear_iff.mp h]
  rfl

theorem place_of_not_isClear {force : Bool} (h : ¬ IsClear s files force) (image : String) :
    Starter.place files s.directory image force s.storage = .ok .exists := by
  rw [isClear_iff, Bool.not_eq_false] at h
  rw [Starter.place, h]
  rfl

theorem setUp_initPlain (hs : s.terminal = none) (force : Bool) :
    SetUp s files force (initPlain s files force) := by
  unfold initPlain
  by_cases hclear : IsClear s files force
  · rw [place_of_isClear hclear]
    cases hwrite : files.write (Config.fileIn s.directory) Starter.render s.storage with
    | error failure => exact .failed hs hclear hwrite
    | ok after => exact .written hs hclear hwrite
  · rw [place_of_not_isClear hclear]
    exact .refused hs hclear

/-- A file that is named on a terminal is written if nothing keeps it from being written. -/
theorem setUp_initNamed {t : Terminal} {image : String} {force force' : Bool}
    (hs : s.terminal = some t)
    (himage : TextAnswer.submitted ({} : Defaults).image t.answers.image = some image)
    (hclear : IsClear s files force' →
      IsClear s files force ∨ t.answers.overwrite.given = some true)
    (hdeclined : ¬ IsClear s files force' →
      ¬ IsClear s files force ∧ t.answers.overwrite.given = some false) :
    SetUp s files force (initNamed s files image force') := by
  unfold initNamed
  by_cases h : IsClear s files force'
  · rw [place_of_isClear h]
    cases hwrite : files.write (Config.fileIn s.directory) (Starter.render (Text.trim image))
        s.storage with
    | error failure => exact .failedFor hs himage (hclear h) hwrite
    | ok after => exact .writtenFor hs himage (hclear h) hwrite
  · rw [place_of_not_isClear h]
    exact .declined hs himage (hdeclined h).1 (hdeclined h).2

theorem setUp_initAsking {t : Terminal} (hs : s.terminal = some t) (force : Bool) :
    SetUp s files force (initAsking s t.answers files force) := by
  unfold initAsking
  cases himage : TextAnswer.submitted ({} : Defaults).image t.answers.image with
  | none => exact .unnamed hs himage
  | some image =>
    dsimp only
    by_cases hclear : IsClear s files force
    · rw [isClear_iff_needsConsent.mp hclear]
      exact setUp_initNamed hs himage .inl fun h => absurd hclear h
    · rw [isClear_iff_needsConsent, Bool.not_eq_false] at hclear
      rw [if_pos hclear]
      rw [← Bool.not_eq_false, ← isClear_iff_needsConsent] at hclear
      cases hconsent : t.answers.overwrite.given with
      | none => exact .unanswered hs himage hclear hconsent
      | some consent =>
        refine setUp_initNamed hs himage (fun h => .inr ?_) fun h => ⟨hclear, ?_⟩
        · -- the name is taken, so only consent can have cleared the way
          rcases h with h | h
          · exact absurd (.inl h) hclear
          · rw [hconsent, h]
        · cases consent with
          | false => exact hconsent
          | true => exact absurd (.inr rfl) h

/-- Setting a directory up goes in one of these ways. -/
theorem setUp_init (force : Bool) : SetUp s files force (init s files force) := by
  unfold init
  cases hs : s.terminal with
  | none => exact setUp_initPlain hs force
  | some t => exact setUp_initAsking hs force

theorem SetUp.appended_eq_nil {force : Bool} {o : Outcome} (h : SetUp s files force o) :
    o.appended = [] := by
  cases h <;> rfl

/-! ## Printing a matrix -/

/-- The text in which a matrix is printed. -/
def printed (args : Arguments) (matrix : Matrix) : String :=
  (if args.pretty then matrix.pretty else matrix.compact) ++ "\n"

/-- The ways in which printing a matrix, and handing it to later steps of the workflow, goes. -/
inductive HandOver (s : Surroundings) (files : Files) (matrix : Matrix) (args : Arguments) :
    Outcome → Prop
  | printed (houtput : args.githubOutput = false) :
      HandOver s files matrix args
        { ending := .code 0, out := [printed args matrix], files }
  /-- The environment names no file for outputs. -/
  | homeless (houtput : args.githubOutput = true) (hname : s.outputFile = none) :
      HandOver s files matrix args
        { ending := .code 2
          err := ["--github-output requires GITHUB_OUTPUT to be set.\n"]
          files }
  | noted {name : String} (houtput : args.githubOutput = true) (hname : s.outputFile = some name)
      (hsink : s.sink = .note) :
      HandOver s files matrix args
        { ending := .code 0
          out := [printed args matrix]
          appended := [(name, Matrix.outputLine matrix.compact)]
          files }
  | refused {name message : String} (houtput : args.githubOutput = true)
      (hname : s.outputFile = some name) (hsink : s.sink = .refuse message) :
      HandOver s files matrix args
        { ending := .failed (.refused message), out := [printed args matrix], files }
  | appended {name : String} {after : Files} (houtput : args.githubOutput = true)
      (hname : s.outputFile = some name) (hsink : s.sink = .files)
      (happend : files.append s.directory name (Matrix.outputLine matrix.compact) s.storage =
        .ok after) :
      HandOver s files matrix args
        { ending := .code 0
          out := [printed args matrix]
          appended := [(name, Matrix.outputLine matrix.compact)]
          files := after }
  | failed {name : String} {failure : WriteFailure} (houtput : args.githubOutput = true)
      (hname : s.outputFile = some name) (hsink : s.sink = .files)
      (happend : files.append s.directory name (Matrix.outputLine matrix.compact) s.storage =
        .error failure) :
      HandOver s files matrix args
        { ending := .failed failure.error, out := [printed args matrix], files := failure.files }

/-- Printing a matrix goes in one of these ways. -/
theorem handOver_generate (matrix : Matrix) (args : Arguments) :
    HandOver s files matrix args (generate s files matrix args) := by
  unfold generate
  cases houtput : args.githubOutput with
  | false => exact .printed houtput
  | true =>
    cases hname : s.outputFile with
    | none => exact .homeless houtput hname
    | some name =>
      dsimp only
      rw [if_pos rfl]
      unfold append
      cases hsink : s.sink with
      | note => exact .noted houtput hname hsink
      | refuse message => exact .refused houtput hname hsink
      | files =>
        dsimp only
        cases happend : files.append s.directory name (Matrix.outputLine matrix.compact)
            s.storage with
        | error failure => exact .failed houtput hname hsink happend
        | ok after => exact .appended houtput hname hsink happend

/-! ## Whole runs -/

/-- The matrix of a run that has a configuration. -/
def matrixOf (s : Surroundings) (args : Arguments) (loaded : Config.Loaded) : Matrix :=
  loaded.config.matrix (args.ref.or s.ref)

/-- What a run says about its configuration. -/
def notesOf (s : Surroundings) (args : Arguments) (loaded : Config.Loaded) : List String :=
  if args.verbose then notes loaded (matrixOf s args loaded) else []

/-- The ways in which a run goes. -/
inductive Course (s : Surroundings) (files : Files) (args : Arguments) : Outcome → Prop
  | help (hhelp : args.help = true) :
      Course s files args { ending := .code 0, out := [Arguments.usage], files }
  | version {version : String} (hhelp : args.help = false) (hversion : args.version = true)
      (hmanifest : s.manifest.version = .ok version) :
      Course s files args { ending := .code 0, out := ["ci-matrix " ++ version ++ "\n"], files }
  /-- The version is asked for, and the manifest does not tell it. -/
  | untold {e : FileError} (hhelp : args.help = false) (hversion : args.version = true)
      (hmanifest : s.manifest.version = .error e) :
      Course s files args { ending := .failed e, files }
  /-- Some arguments are not understood. -/
  | unknown (hhelp : args.help = false) (hversion : args.version = false)
      (hunknown : args.unknown ≠ []) :
      Course s files args { ending := .code 2, err := unknownOptions args.unknown, files }
  /-- All arguments are understood, and something is wrong with them. -/
  | misused (hhelp : args.help = false) (hversion : args.version = false)
      (hunknown : args.unknown = []) (herrors : args.errors ≠ []) :
      Course s files args
        { ending := .code 2, err := args.errors.map (·.message ++ "\n"), files }
  | setUp {outcome : Outcome} (hargs : args.Proceeds) (hcommand : args.command = .init)
      (h : SetUp s files args.force outcome) : Course s files args outcome
  /-- There is no configuration. -/
  | unconfigured {e : LoadError} (hargs : args.Proceeds) (hcommand : args.command ≠ .init)
      (hload : Config.load files s.package s.directory args.config = .error e) :
      Course s files args
        { ending := .code 1, err := ["Config error: " ++ e.message ++ "\n"], files }
  | shown {loaded : Config.Loaded} (hargs : args.Proceeds) (hcommand : args.command = .show)
      (hload : Config.load files s.package s.directory args.config = .ok loaded) :
      Course s files args
        ((«show» s files (matrixOf s args loaded) args.verbose).noting (notesOf s args loaded))
  | handedOver {loaded : Config.Loaded} {outcome : Outcome} (hargs : args.Proceeds)
      (hcommand : args.command = .generate)
      (hload : Config.load files s.package s.directory args.config = .ok loaded)
      (h : HandOver s files (matrixOf s args loaded) args outcome) :
      Course s files args (outcome.noting (notesOf s args loaded))

theorem noting_notesOf (args : Arguments) (loaded : Config.Loaded) (outcome : Outcome) :
    (if args.verbose then
        { outcome with
          err := notes loaded (loaded.config.matrix (args.ref.or s.ref)) ++ outcome.err }
      else outcome) = outcome.noting (notesOf s args loaded) := by
  unfold Outcome.noting notesOf
  cases args.verbose <;> rfl

theorem course_withMatrix {args : Arguments} (hargs : args.Proceeds)
    (hcommand : args.command ≠ .init) : Course s files args (withMatrix s files args) := by
  unfold withMatrix
  cases hload : Config.load files s.package s.directory args.config with
  | error e => exact .unconfigured hargs hcommand hload
  | ok loaded =>
    dsimp only
    rw [noting_notesOf]
    cases hc : args.command with
    | init => exact absurd hc hcommand
    | «show» => exact .shown hargs hc hload
    | generate => exact .handedOver hargs hc hload (handOver_generate _ args)

theorem course_tellVersion {args : Arguments} (hhelp : args.help = false)
    (hversion : args.version = true) : Course s files args (tellVersion s files) := by
  unfold tellVersion
  cases hmanifest : s.manifest.version with
  | error e => exact .untold hhelp hversion hmanifest
  | ok version => exact .version hhelp hversion hmanifest

/-- Every run goes in one of these ways. -/
theorem course_perform (args : Arguments) : Course s files args (perform s files args) := by
  unfold perform
  cases hhelp : args.help with
  | true => exact .help hhelp
  | false =>
  cases hversion : args.version with
  | true => exact course_tellVersion hhelp hversion
  | false =>
  by_cases hunknown : args.unknown = []
  case neg =>
    simp only [List.isEmpty_eq_false_iff.mpr hunknown]
    exact .unknown hhelp hversion hunknown
  by_cases herrors : args.errors = []
  case neg =>
    simp only [hunknown, List.isEmpty_eq_false_iff.mpr herrors]
    exact .misused hhelp hversion hunknown herrors
  · have hargs : args.Proceeds := ⟨hhelp, hversion, hunknown, herrors⟩
    simp only [hunknown, herrors]
    cases hc : args.command with
    | init => exact .setUp hargs hc (setUp_init args.force)
    | «show» => exact course_withMatrix hargs (by simp [hc])
    | generate => exact course_withMatrix hargs (by simp [hc])

theorem course_run (s : Surroundings) (files : Files) (argv : List String) :
    Course s files (Arguments.read argv) (run s files argv) :=
  course_perform (Arguments.read argv)

end Run

end BuildMatrix
