import BuildMatrix.Proofs.Run.Course

/-!
# What a run depends on

A run looks at two variables of its environment, and at each of them only when it needs it: at the
reference when the arguments name none, and at the file for outputs when a matrix is to be handed
over.  Two surroundings that agree on what is needed (`Surroundings.Agree`) lead to the same
outcome, and arguments that are wrong or only ask about the program lead to one outcome in all
surroundings with the same manifest, which leaves the files as they are (`run_dependence`).
-/

namespace BuildMatrix

/-- Surroundings that agree on all that a run with the given arguments looks at. -/
structure Surroundings.Agree (args : Arguments) (s s' : Surroundings) : Prop where
  directory : s.directory = s'.directory
  package : s.package = s'.package
  terminal : s.terminal = s'.terminal
  sink : s.sink = s'.sink
  storage : s.storage = s'.storage
  manifest : s.manifest = s'.manifest
  ref : args.ref = none →
    s.environment.lookup "GITHUB_REF" = s'.environment.lookup "GITHUB_REF"
  output : args.command = .generate → args.githubOutput = true →
    s.environment.lookup "GITHUB_OUTPUT" = s'.environment.lookup "GITHUB_OUTPUT"

namespace Surroundings.Agree

variable {args : Arguments} {s s' : Surroundings}

/-- Surroundings that agree differ in their environments at most. -/
theorem eq (h : Agree args s s') : s' = { s with environment := s'.environment } := by
  obtain ⟨hdirectory, hpackage, hterminal, hsink, hstorage, hmanifest, -, -⟩ := h
  cases s
  cases s'
  subst hdirectory hpackage hterminal hsink hstorage hmanifest
  rfl

/-- The reference of the environment counts only if the arguments name none. -/
theorem ref_eq (h : Agree args s s') : args.ref.or s.ref = args.ref.or s'.ref := by
  cases href : args.ref with
  | none => rw [Surroundings.ref, Surroundings.ref, h.ref href]
  | some r => rfl

theorem outputFile_eq (h : Agree args s s') (hcommand : args.command = .generate)
    (houtput : args.githubOutput = true) : s.outputFile = s'.outputFile := by
  rw [outputFile, outputFile, h.output hcommand houtput]

end Surroundings.Agree

namespace Run

variable {s s' : Surroundings} {files : Files} {args : Arguments}

/-! ## Steps of a run -/

/-- Setting a directory up does not look at the environment. -/
theorem init_of_agree (h : s.Agree args s') (force : Bool) :
    init s files force = init s' files force := by
  rw [h.eq]
  rfl

/-- Nor does showing the table. -/
theorem show_of_agree (h : s.Agree args s') (matrix : Matrix) (commands : Bool) :
    «show» s files matrix commands = «show» s' files matrix commands := by
  rw [h.eq]
  rfl

/-- Nor does appending text to a file that is named. -/
theorem append_of_agree (h : s.Agree args s') (outcome : Outcome) (name text : String) :
    append s outcome name text = append s' outcome name text := by
  rw [h.eq]
  rfl

/-- Printing a matrix looks at the file for outputs if it has to be handed over. -/
theorem generate_of_agree (h : s.Agree args s') (hcommand : args.command = .generate)
    (matrix : Matrix) : generate s files matrix args = generate s' files matrix args := by
  unfold generate
  cases houtput : args.githubOutput with
  | false => rfl
  | true =>
    rw [h.outputFile_eq hcommand houtput]
    cases s'.outputFile with
    | none => rfl
    | some name => exact append_of_agree h _ name _

/-- The matrix is that of the configuration and of the reference, if one is needed. -/
theorem withMatrix_of_agree (h : s.Agree args s') (hcommand : args.command ≠ .init) :
    withMatrix s files args = withMatrix s' files args := by
  unfold withMatrix
  rw [h.package, h.directory, h.ref_eq]
  cases Config.load files s'.package s'.directory args.config with
  | error e => rfl
  | ok loaded =>
    dsimp only
    cases hc : args.command with
    | init => exact absurd hc hcommand
    | «show» =>
      dsimp only
      rw [show_of_agree h]
    | generate =>
      dsimp only
      rw [generate_of_agree h hc]

/-! ## Whole runs -/

theorem perform_of_agree (h : s.Agree args s') : perform s files args = perform s' files args := by
  have htell : tellVersion s files = tellVersion s' files := by
    rw [tellVersion, tellVersion, h.manifest]
  unfold perform
  rw [htell]
  cases hcommand : args.command with
  | init =>
    dsimp only
    rw [init_of_agree h]
  | «show» =>
    dsimp only
    rw [withMatrix_of_agree h (by simp [hcommand])]
  | generate =>
    dsimp only
    rw [withMatrix_of_agree h (by simp [hcommand])]

theorem tellVersion_of_manifest_eq {files' : Files} (h : s.manifest = s'.manifest) :
    tellVersion s' files' = { tellVersion s files with files := files' } := by
  rw [tellVersion, tellVersion, h]
  cases s'.manifest.version <;> rfl

/-- Arguments that ask about the program, or are wrong, decide the outcome alone, but for the
version that the manifest tells. -/
theorem perform_of_answered {files' : Files}
    (hmanifest : args.help = false → args.version = true → s.manifest = s'.manifest)
    (h : args.help = true ∨ args.version = true ∨ args.unknown ≠ [] ∨ args.errors ≠ []) :
    perform s' files' args = { perform s files args with files := files' } := by
  unfold perform
  cases hhelp : args.help with
  | true => rfl
  | false =>
  cases hversion : args.version with
  | true => exact tellVersion_of_manifest_eq (hmanifest hhelp hversion)
  | false =>
  cases hunknown : args.unknown.isEmpty with
  | false => rfl
  | true =>
  cases herrors : args.errors.isEmpty with
  | false => rfl
  | true =>
    rw [List.isEmpty_iff] at hunknown herrors
    simp [hhelp, hversion, hunknown, herrors] at h

end Run

/-- What a run does is decided by its arguments, the files, and the part of its surroundings on
which `Agree` insists: the environment counts for the reference, unless the arguments name one, and
for the file for outputs, if a matrix is to be handed over.  If help or the version is asked for, or
if anything is wrong with the arguments, they decide everything: whatever the surroundings and the
files are, the outcome is the same, and the files stay as they are.  Only the version is told by
the manifest, which comes with the program. -/
theorem run_dependence (argv : List String) :
    (∀ s s' files, Surroundings.Agree (Arguments.read argv) s s' →
      run s files argv = run s' files argv) ∧
    ((Arguments.read argv).help = true ∨ (Arguments.read argv).version = true ∨
        (Arguments.read argv).unknown ≠ [] ∨ (Arguments.read argv).errors ≠ [] →
      ∀ s s' : Surroundings,
        ((Arguments.read argv).help = false → (Arguments.read argv).version = true →
          s.manifest = s'.manifest) →
        ∀ files files', (run s files argv).files = files ∧
          run s' files' argv = { run s files argv with files := files' }) := by
  refine ⟨fun s s' files h => Run.perform_of_agree h, fun h s s' hmanifest files files' => ⟨?_, ?_⟩⟩
  · have hsame : run s files argv = { run s files argv with files } :=
      Run.perform_of_answered (fun _ _ => rfl) h
    rw [hsame]
  · exact Run.perform_of_answered hmanifest h

/-- The arguments name a reference, so two workflows for different references are alike; the file
for outputs is set in one of them and is not asked for.  An unknown option after that decides the
outcome without them. -/
theorem run_dependence_overridden :
    let s : Surroundings :=
      { directory := ["w"]
        package := ["p"]
        environment := [("GITHUB_REF", "refs/tags/v1"), ("HOME", "h")] }
    let s' : Surroundings := { s with environment := [("GITHUB_OUTPUT", "out")] }
    let files : Files := ⟨fun path =>
      if path = ["w", ".ci-matrix.yml"] then some (.file "builds:\n- name: a\n")
      else if path = [] ∨ path = ["w"] then some .directory
      else none⟩
    let argv := ["generate", "--ref", "refs/heads/main"]
    s.Agree (Arguments.read argv) s' ∧ s.ref ≠ s'.ref ∧ (run s files argv).ending = .code 0 ∧
      run s files argv = run s' files argv ∧
      (run s files (argv ++ ["--frob"])).files = files ∧
      run s' ⟨fun _ => none⟩ (argv ++ ["--frob"]) =
        { run s files (argv ++ ["--frob"]) with files := ⟨fun _ => none⟩ } := by
  intro s s' files argv
  have hagree : s.Agree (Arguments.read argv) s' :=
    { directory := rfl
      package := rfl
      terminal := rfl
      sink := rfl
      storage := rfl
      manifest := rfl
      ref := fun h => absurd h (by decide)
      output := fun _ h => absurd h (by decide) }
  have hunknown : (Arguments.read (argv ++ ["--frob"])).unknown ≠ [] := by decide
  obtain ⟨hfiles, hsame⟩ :=
    (run_dependence (argv ++ ["--frob"])).2 (.inr (.inr (.inl hunknown))) s s' (fun _ _ => rfl)
      files ⟨fun _ => none⟩
  exact ⟨hagree, by decide, by decide +kernel, (run_dependence argv).1 s s' files hagree, hfiles,
    hsame⟩

end BuildMatrix
