import BuildMatrix.Proofs.Files.Writing
import BuildMatrix.Proofs.Run.Course

/-!
# Exit codes and channels

A run away from a terminal ends with one of three exit codes or with an error that it leaves to its
caller, and each of them says what has gone where: success is one text on the output channel,
failure is complaints and nothing else (`run_contract`).  Which ending it is depends on the
arguments, the configuration, the manifest and the place of the output alone, and is told by
conditions that exclude each other (`Course.code_two_iff`, `Course.code_one_iff`,
`Course.failed_iff`).  Two of them are easily forgotten: a question about the program is answered
whatever the configuration is, and the answer may be an error (`run_about_program`).
-/

namespace BuildMatrix

/-- The file for the outputs of a workflow step is not set, or set to nothing. -/
def Surroundings.LacksOutputFile (s : Surroundings) : Prop :=
  s.environment.lookup "GITHUB_OUTPUT" = none ∨ s.environment.lookup "GITHUB_OUTPUT" = some ""

theorem Surroundings.outputFile_eq_none_iff {s : Surroundings} :
    s.outputFile = none ↔ s.LacksOutputFile := by
  rw [outputFile, LacksOutputFile]
  cases s.environment.lookup "GITHUB_OUTPUT" with
  | none => simp
  | some name => simp [Option.filter_eq_none_iff]

theorem Arguments.proceeds_iff {args : Arguments} :
    args.Proceeds ↔
      args.help = false ∧ args.version = false ∧ args.unknown = [] ∧ args.errors = [] :=
  ⟨fun ⟨hhelp, hversion, hunknown, herrors⟩ => ⟨hhelp, hversion, hunknown, herrors⟩,
    fun ⟨hhelp, hversion, hunknown, herrors⟩ => ⟨hhelp, hversion, hunknown, herrors⟩⟩

theorem Arguments.Proceeds.not_wrong {args : Arguments} (h : args.Proceeds) :
    ¬ (args.unknown ≠ [] ∨ args.errors ≠ []) := by
  rintro (hunknown | herrors)
  · exact hunknown h.unknown
  · exact herrors h.errors

namespace Run

variable {s : Surroundings} {files : Files} {args : Arguments} {o : Outcome}

/-! ## Conditions -/

/-- The configuration of a run. -/
abbrev configOf (s : Surroundings) (files : Files) (args : Arguments) :
    Except LoadError Config.Loaded :=
  Config.load files s.package s.directory args.config

/-- The matrix is to be handed over, and it could be, but there is no file to take it. -/
def HasNoOutputFile (s : Surroundings) (files : Files) (args : Arguments) : Prop :=
  args.command = .generate ∧ args.githubOutput = true ∧
    (∃ loaded, configOf s files args = .ok loaded) ∧ s.LacksOutputFile

/-- A matrix is asked for, and its configuration cannot be read, or is not one. -/
def HasNoConfig (s : Surroundings) (files : Files) (args : Arguments) : Prop :=
  args.command ≠ .init ∧ ∃ e, configOf s files args = .error e

/-- A directory is to be set up that has a configuration file, and the caller does not insist. -/
def MeetsFile (s : Surroundings) (files : Files) (args : Arguments) : Prop :=
  args.command = .init ∧ args.force = false ∧ files.has (Config.fileIn s.directory) = true

/-- The version is to be told, and the manifest does not tell it. -/
def FailsToTell (s : Surroundings) (args : Arguments) (e : FileError) : Prop :=
  args.help = false ∧ args.version = true ∧ s.manifest.version = .error e

/-- A starter file is to be written, and the write fails. -/
def FailsToWrite (s : Surroundings) (files : Files) (args : Arguments) (e : FileError) : Prop :=
  args.command = .init ∧ ¬ MeetsFile s files args ∧
    ∃ failure, files.write (Config.fileIn s.directory) Starter.render s.storage = .error failure ∧
      failure.error = e

/-- An append fails. -/
def RefusesAppend (s : Surroundings) (files : Files) (name text : String) (e : FileError) : Prop :=
  (∃ message, s.sink = .refuse message ∧ .refused message = e) ∨
    s.sink = .files ∧
      ∃ failure, files.append s.directory name text s.storage = .error failure ∧ failure.error = e

/-- The matrix of a configuration is to be handed over, and the append that does so fails. -/
def FailsToAppend (s : Surroundings) (files : Files) (args : Arguments) (e : FileError) : Prop :=
  args.command = .generate ∧ args.githubOutput = true ∧
    ∃ loaded name, configOf s files args = .ok loaded ∧ s.outputFile = some name ∧
      RefusesAppend s files name (Matrix.outputLine (matrixOf s args loaded).compact) e

theorem not_isClear_iff {force : Bool} :
    ¬ IsClear s files force ↔ force = false ∧ files.has (Config.fileIn s.directory) = true := by
  rw [isClear_iff, Bool.not_eq_false, Bool.and_eq_true, Bool.not_eq_true', and_comm]

theorem meetsFile_iff (hcommand : args.command = .init) :
    MeetsFile s files args ↔ ¬ IsClear s files args.force := by
  rw [MeetsFile, not_isClear_iff, and_iff_right hcommand]

theorem not_failsToTell (h : args.Proceeds) (e : FileError) : ¬ FailsToTell s args e := by
  simp [FailsToTell, h.version]

/-- A manifest that is whole tells the version. -/
theorem not_failsToTell_of_isWhole (h : s.manifest.IsWhole) (e : FileError) :
    ¬ FailsToTell s args e := by
  rintro ⟨-, -, hmanifest⟩
  rw [Manifest.IsWhole, hmanifest] at h
  cases h

/-! ## What decides the ending -/

/-- The second exit code is for faults of the arguments and for an output without a file. -/
theorem Course.code_two_iff (h : Course s files args o) (hs : s.terminal = none) :
    o.ending = .code 2 ↔ args.help = false ∧ args.version = false ∧
      ((args.unknown ≠ [] ∨ args.errors ≠ []) ∨ HasNoOutputFile s files args) := by
  cases h with
  | help hhelp => simp [hhelp]
  | version _ hversion | untold _ hversion => simp [hversion]
  | unknown hhelp hversion hunknown => simp [hhelp, hversion, hunknown]
  | misused hhelp hversion _ herrors => simp [hhelp, hversion, herrors]
  | setUp hargs hcommand h =>
    have hnot : ¬ HasNoOutputFile s files args := by simp [HasNoOutputFile, hcommand]
    simp only [hargs.not_wrong, hnot, or_self, and_false, iff_false]
    cases h <;> simp_all
  | unconfigured hargs hcommand hload =>
    have hnot : ¬ HasNoOutputFile s files args := by simp [HasNoOutputFile, configOf, hload]
    simp [hargs.not_wrong, hnot]
  | shown hargs hcommand hload =>
    have hnot : ¬ HasNoOutputFile s files args := by simp [HasNoOutputFile, hcommand]
    simp [hargs.not_wrong, hnot, «show», hs]
  | handedOver hargs hcommand hload h =>
    simp only [hargs.help, hargs.version, hargs.not_wrong, false_or, true_and,
      HasNoOutputFile, configOf, hcommand, hload, ← Surroundings.outputFile_eq_none_iff,
      Outcome.ending_noting]
    cases h <;> simp_all

/-- The first exit code is for a missing or bad configuration and for a file that is in the way. -/
theorem Course.code_one_iff (h : Course s files args o) (hs : s.terminal = none) :
    o.ending = .code 1 ↔
      args.Proceeds ∧ (HasNoConfig s files args ∨ MeetsFile s files args) := by
  cases h with
  | help hhelp => simp [Arguments.proceeds_iff, hhelp]
  | version _ hversion | untold _ hversion => simp [Arguments.proceeds_iff, hversion]
  | unknown _ _ hunknown => simp [Arguments.proceeds_iff, hunknown]
  | misused _ _ _ herrors => simp [Arguments.proceeds_iff, herrors]
  | setUp hargs hcommand h =>
    have hnot : ¬ HasNoConfig s files args := by simp [HasNoConfig, hcommand]
    simp only [hargs, hnot, meetsFile_iff hcommand, false_or, true_and]
    cases h <;> simp_all
  | unconfigured hargs hcommand hload => simp [hargs, HasNoConfig, configOf, hcommand, hload]
  | shown hargs hcommand hload =>
    simp [HasNoConfig, configOf, MeetsFile, hcommand, hload, «show», hs]
  | handedOver hargs hcommand hload h =>
    have hnot : ¬ (HasNoConfig s files args ∨ MeetsFile s files args) := by
      simp [HasNoConfig, configOf, MeetsFile, hcommand, hload]
    simp only [hnot, and_false, iff_false]
    cases h <;> simp

/-- The only errors that a run leaves to its caller are those of the manifest, if the version is
asked for, and of its last write or append. -/
theorem Course.failed_iff (h : Course s files args o) (hs : s.terminal = none) (e : FileError) :
    o.ending = .failed e ↔ FailsToTell s args e ∨
      args.Proceeds ∧ (FailsToWrite s files args e ∨ FailsToAppend s files args e) := by
  cases h with
  | help hhelp => simp [FailsToTell, Arguments.proceeds_iff, hhelp]
  | version _ hversion hmanifest | untold _ hversion hmanifest =>
    simp_all [FailsToTell, Arguments.proceeds_iff]
  | unknown _ hversion hunknown =>
    simp [FailsToTell, Arguments.proceeds_iff, hversion, hunknown]
  | misused _ hversion _ herrors =>
    simp [FailsToTell, Arguments.proceeds_iff, hversion, herrors]
  | setUp hargs hcommand h =>
    have hnot : ¬ FailsToAppend s files args e := by simp [FailsToAppend, hcommand]
    simp only [not_failsToTell hargs, hargs, hnot, FailsToWrite, meetsFile_iff hcommand, hcommand,
      or_false, false_or, true_and, Classical.not_not]
    cases h <;> simp_all
  | unconfigured hargs hcommand hload =>
    simp [not_failsToTell hargs, FailsToWrite, FailsToAppend, configOf, hcommand, hload]
  | shown hargs hcommand hload =>
    simp [not_failsToTell hargs, FailsToWrite, FailsToAppend, hcommand, «show», hs]
  | handedOver hargs hcommand hload h =>
    have hnot : ¬ FailsToWrite s files args e := by simp [FailsToWrite, hcommand]
    simp only [not_failsToTell hargs, hargs, hnot, FailsToAppend, RefusesAppend, configOf, hcommand,
      hload, false_or, true_and, Outcome.ending_noting]
    cases h <;> simp_all

/-! ## What has gone where -/

/-- A run away from a terminal ends with one of three exit codes or with an error. -/
theorem Course.ending_cases (h : Course s files args o) (hs : s.terminal = none) :
    (o.ending = .code 0 ∨ o.ending = .code 1 ∨ o.ending = .code 2) ∨ ∃ e, o.ending = .failed e := by
  cases h with
  | setUp _ _ h => cases h <;> simp_all
  | shown => simp [«show», hs]
  | handedOver _ _ _ h => cases h <;> simp
  | _ => simp

/-- A run that succeeds has written one text, and complains of nothing. -/
theorem Course.out_of_success (h : Course s files args o) (hs : s.terminal = none)
    (hcode : o.ending = .code 0) : o.out.length = 1 ∧ (args.verbose = false → o.err = []) := by
  cases h with
  | help | version => exact ⟨rfl, fun _ => rfl⟩
  | untold | unknown | misused | unconfigured => simp at hcode
  | setUp _ _ h =>
    cases h with
    | written => exact ⟨rfl, fun _ => rfl⟩
    | refused | failed => simp at hcode
    | _ => simp_all
  | shown => simp +contextual [«show», hs, notesOf]
  | handedOver _ _ _ h => cases h <;> simp_all [notesOf]

/-- A run that ends with another exit code has complained and done nothing else. -/
theorem Course.err_of_code (h : Course s files args o) (hs : s.terminal = none)
    (hcode : o.ending = .code 1 ∨ o.ending = .code 2) :
    o.out = [] ∧ o.appended = [] ∧ o.files = files ∧ o.err ≠ [] := by
  cases h with
  | help | version | untold => simp at hcode
  | unknown => simp [unknownOptions]
  | misused _ _ _ herrors => simp [herrors]
  | setUp _ _ h => cases h <;> simp_all
  | unconfigured => simp
  | shown => simp [«show», hs] at hcode
  | handedOver _ _ _ h => cases h <;> simp_all

/-- Setting a directory up ends with an error if the write of the starter file fails. -/
theorem SetUp.of_failed {force : Bool} {e : FileError} (h : SetUp s files force o)
    (hfailed : o.ending = .failed e) :
    o.out = [] ∧ (¬ s.storage.BreaksOff → o.files = files) := by
  cases h with
  | failed _ _ hwrite => exact ⟨rfl, Files.eq_of_write_error hwrite⟩
  | failedFor _ _ _ hwrite => exact ⟨rfl, Files.eq_of_write_error hwrite⟩
  | refused | written | unnamed | unanswered | declined | writtenFor =>
    simp [canceled] at hfailed

/-- Printing a matrix ends with an error if the append fails, and then it has been printed. -/
theorem HandOver.of_failed {matrix : Matrix} {e : FileError} (h : HandOver s files matrix args o)
    (hfailed : o.ending = .failed e) :
    o.appended = [] ∧ (¬ s.storage.BreaksOff → o.files = files) ∧
      o.out = [Run.printed args matrix] := by
  cases h with
  | refused => exact ⟨rfl, fun _ => rfl, rfl⟩
  | failed _ _ _ happend => exact ⟨rfl, Files.eq_of_append_error happend, rfl⟩
  | printed | homeless | noted | appended => simp at hfailed

/-- A run that ends with an error has recorded no append, has changed no file unless the text that
it was to store was broken off, and has printed what it prints before its last step. -/
theorem Course.out_of_failed {e : FileError} (h : Course s files args o) (hs : s.terminal = none)
    (hfailed : o.ending = .failed e) :
    o.appended = [] ∧ (¬ s.storage.BreaksOff → o.files = files) ∧
      ((FailsToTell s args e ∨ FailsToWrite s files args e) ∧ o.out = [] ∨
        ∃ loaded, configOf s files args = .ok loaded ∧ FailsToAppend s files args e ∧
          o.out = [printed args (matrixOf s args loaded)]) := by
  have hwhy := (h.failed_iff hs e).mp hfailed
  cases h with
  | help | version | unknown | misused | unconfigured => simp at hfailed
  | untold hhelp hversion hmanifest =>
    obtain rfl := Ending.failed.inj hfailed
    exact ⟨rfl, fun _ => rfl, .inl ⟨.inl ⟨hhelp, hversion, hmanifest⟩, rfl⟩⟩
  | setUp hargs hcommand h =>
    have hnot : ¬ FailsToAppend s files args e := by simp [FailsToAppend, hcommand]
    obtain ⟨hout, hfiles⟩ := h.of_failed hfailed
    refine ⟨h.appended_eq_nil, hfiles, .inl ⟨?_, hout⟩⟩
    exact hwhy.imp id fun hlast => hlast.2.resolve_right hnot
  | shown => simp [«show», hs] at hfailed
  | handedOver hargs hcommand hload h =>
    have hnot : ¬ FailsToWrite s files args e := by simp [FailsToWrite, hcommand]
    obtain ⟨happended, hfiles, hout⟩ := h.of_failed hfailed
    refine ⟨happended, hfiles, .inr ⟨_, hload, ?_, hout⟩⟩
    exact (hwhy.resolve_left (not_failsToTell hargs e)).2.resolve_left hnot

end Run

namespace Outcome

theorem exitCode_of_code {o : Outcome} {n : Nat} (h : o.ending = .code n) :
    o.exitCode = n ∧ o.errorText = .join o.err := by
  simp [exitCode, errorText, h]

theorem exitCode_of_failed {o : Outcome} {e : FileError} (h : o.ending = .failed e) :
    o.exitCode = 1 ∧ o.errorText = .join o.err ++ ("ci-matrix: " ++ e.message ++ "\n") := by
  simp [exitCode, errorText, h]

end Outcome

/-- Away from a terminal, a run ends with exit code zero, one or two, or with an error that it
leaves to its caller.

* Success is one text on the output channel, and silence on the other one unless notes are asked
  for.
* Both other exit codes come with a complaint, and then nothing has been printed, appended or
  written.  The second one is for arguments that are not understood or wrong, and for an output
  that has no file; the first one is for a configuration that cannot be had, and for a file that is
  in the way of a starter file.  Neither is for a question about the program.
* The errors are those of the write of a starter file, before which nothing is printed, of the
  append of an output, before which the matrix is printed once, and of the manifest, if the version
  is asked for and the manifest cannot be read, is no JSON or holds a version that cannot be
  written; a whole manifest has no errors.  No append is recorded then, and unless the text that was
  to be stored was broken off, no file has changed.  As a process, such a run ends with the first
  exit code and the error in its last line. -/
theorem run_contract {s : Surroundings} (hs : s.terminal = none) (files : Files)
    (argv : List String) :
    let args := Arguments.read argv
    let o := run s files argv
    ((o.ending = .code 0 ∨ o.ending = .code 1 ∨ o.ending = .code 2) ∨ ∃ e, o.ending = .failed e) ∧
    (o.ending = .code 0 → o.out.length = 1 ∧ (args.verbose = false → o.err = [])) ∧
    (o.ending = .code 1 ∨ o.ending = .code 2 →
      o.out = [] ∧ o.appended = [] ∧ o.files = files ∧ o.err ≠ []) ∧
    (o.ending = .code 2 ↔ args.help = false ∧ args.version = false ∧
      ((args.unknown ≠ [] ∨ args.errors ≠ []) ∨ Run.HasNoOutputFile s files args)) ∧
    (o.ending = .code 1 ↔
      args.Proceeds ∧ (Run.HasNoConfig s files args ∨ Run.MeetsFile s files args)) ∧
    (∀ e, o.ending = .failed e ↔ Run.FailsToTell s args e ∨
      args.Proceeds ∧ (Run.FailsToWrite s files args e ∨ Run.FailsToAppend s files args e)) ∧
    (s.manifest.IsWhole → ∀ e, ¬ Run.FailsToTell s args e) ∧
    (∀ e, o.ending = .failed e → o.appended = [] ∧ (¬ s.storage.BreaksOff → o.files = files) ∧
      ((Run.FailsToTell s args e ∨ Run.FailsToWrite s files args e) ∧ o.out = [] ∨
        ∃ loaded, Run.configOf s files args = .ok loaded ∧ Run.FailsToAppend s files args e ∧
          o.out = [Run.printed args (Run.matrixOf s args loaded)])) ∧
    (∀ e, o.ending = .failed e →
      o.exitCode = 1 ∧ o.errorText = .join o.err ++ ("ci-matrix: " ++ e.message ++ "\n")) ∧
    ∀ n, o.ending = .code n → o.exitCode = n ∧ o.errorText = .join o.err := by
  intro args o
  have h : Run.Course s files args o := Run.course_run s files argv
  exact ⟨h.ending_cases hs, h.out_of_success hs, h.err_of_code hs, h.code_two_iff hs,
    h.code_one_iff hs, h.failed_iff hs, Run.not_failsToTell_of_isWhole, fun e => h.out_of_failed hs,
    fun e => Outcome.exitCode_of_failed, fun n => Outcome.exitCode_of_code⟩

/-- A matrix is printed, and the file that is to take it is full before the append is through.  The
manifest is whole, so the version can be told at the same time. -/
theorem run_contract_refused :
    let s : Surroundings :=
      { directory := ["w"]
        package := ["p"]
        environment := [("GITHUB_OUTPUT", "out")]
        storage := .cut 6 "no space left" }
    let files : Files := ⟨fun path =>
      if path = ["w", ".ci-matrix.yml"] then some (.file "builds:\n- name: a\n")
      else if path = [] ∨ path = ["w"] then some .directory
      else none⟩
    let o := run s files ["generate", "--github-output"]
    s.terminal = none ∧ o.ending = .failed (.refused "no space left") ∧ o.appended = [] ∧
      o.files.text? ["w", "out"] = some "matrix" ∧ (∃ text, o.out = [text]) ∧ o.exitCode = 1 ∧
      o.errorText = "ci-matrix: no space left\n" ∧
      ∀ e, (run s files ["--version"]).ending ≠ .failed e := by
  intro s files o
  have hs : s.terminal = none := rfl
  have hending : o.ending = .failed (.refused "no space left") := by decide +kernel
  have herr : o.err = [] := by decide +kernel
  obtain ⟨-, -, -, -, -, -, -, hfailed, hprocess, -⟩ :=
    run_contract hs files ["generate", "--github-output"]
  obtain ⟨-, -, -, -, -, hversion, hwhole, -⟩ := run_contract hs files ["--version"]
  obtain ⟨happended, -, hout⟩ := hfailed _ hending
  obtain ⟨hcode, htext⟩ := hprocess _ hending
  refine ⟨hs, hending, happended, by decide +kernel, ?_, hcode, ?_, fun e he => ?_⟩
  · rcases hout with ⟨⟨-, hversion, -⟩ | ⟨hinit, -⟩, -⟩ | ⟨loaded, -, -, hout⟩
    · exact absurd hversion (by decide)
    · exact absurd hinit (by decide)
    · exact ⟨_, hout⟩
  · rw [htext, herr]
    decide
  · rcases (hversion e).mp he with htell | ⟨hargs, -⟩
    · exact hwhole Manifest.isWhole_shipped e htell
    · exact absurd hargs.version (by decide)

/-- Two exceptions that a shorter contract would miss.  Help is given although the configuration of
the command cannot be had and nothing is wrong with the arguments; and a missing manifest ends the
question for the version with an error, where nothing is to be written or appended. -/
theorem run_about_program :
    let files : Files := ⟨fun path =>
      if path = ["w", ".ci-matrix.yml"] then some (.file "builds: none\n")
      else if path = [] ∨ path = ["w"] then some .directory
      else none⟩
    let s : Surroundings :=
      { directory := ["w"]
        package := ["p"]
        manifest := .unreadable (.missing "/p/package.json") }
    let help := Arguments.read ["generate", "--help"]
    let version := Arguments.read ["--version"]
    (s.terminal = none ∧ help.unknown = [] ∧ help.errors = [] ∧ Run.HasNoConfig s files help ∧
        (run s files ["generate", "--help"]).ending = .code 0) ∧
      (run s files ["--version"]).ending = .failed (.missing "/p/package.json") ∧
        ∀ e, ¬ Run.FailsToWrite s files version e ∧ ¬ Run.FailsToAppend s files version e := by
  intro files s help version
  have hload : (Run.configOf s files help).isOk = false := by decide +kernel
  refine ⟨⟨rfl, by decide, by decide, ⟨by decide, ?_⟩, by decide⟩, by decide, fun e => ⟨?_, ?_⟩⟩
  · cases hconfig : Run.configOf s files help with
    | error e => exact ⟨e, rfl⟩
    | ok loaded =>
      rw [hconfig] at hload
      cases hload
  · rintro ⟨hinit, -⟩
    exact absurd hinit (by decide)
  · rintro ⟨-, houtput, -⟩
    exact absurd houtput (by decide)

end BuildMatrix
