import BuildMatrix.Run
import BuildMatrix.Proofs.Config.Proper
import BuildMatrix.Proofs.Matrix.Document

/-!
# Outputs of workflow steps

A run that hands its matrix to later steps of the workflow appends one line to the file of step
outputs.  No text of a configuration or of a reference can break that line or start another one,
and what it hands over is what the run prints (`run_stepOutput`).  Whether the printed text is
indented plays no part in it (`read_append_pretty`, `perform_prettily`).
-/

namespace BuildMatrix

/-! ## The `--pretty` option -/

namespace Arguments

/-- The same arguments with the matrix printed in indented form. -/
def prettily (args : Arguments) : Arguments := { args with pretty := true }

/-- A last `--pretty` is never taken for the value of an option, so it has its effect after all
command lines. -/
theorem readOptions_append_pretty (args : Arguments) (tokens : List String) :
    readOptions args (tokens ++ ["--pretty"]) = (readOptions args tokens).prettily := by
  fun_induction readOptions args tokens with
  | case1 args => rfl
  | case2 args token rest hoption ih => simpa [readOptions, hoption] using ih
  | case3 args token option hoption =>
    have hvalue : isValue "--pretty" = false := by decide
    have hpretty : ValueOption.ofText? "--pretty" = none := by decide
    rw [List.singleton_append, readOptions, hoption]
    dsimp only
    rw [hvalue, if_neg Bool.false_ne_true, readOptions, hpretty]
    rfl
  | case4 args token option hoption value tail hvalue ih =>
    rw [List.cons_append, List.cons_append, readOptions, hoption]
    dsimp only
    rw [if_pos hvalue]
    exact ih
  | case5 args token option hoption value tail hvalue ih =>
    rw [List.cons_append, List.cons_append, readOptions, hoption]
    dsimp only
    rw [if_neg hvalue]
    exact ih

theorem read_append_pretty (argv : List String) :
    read (argv ++ ["--pretty"]) = (read argv).prettily := by
  cases argv with
  | nil => rfl
  | cons first rest =>
    have hoptions := readOptions_append_pretty {} (first :: rest)
    simp only [read, List.cons_append] at hoptions ⊢
    split
    · exact hoptions
    · split <;> exact readOptions_append_pretty _ rest

/-- The arguments ask for the matrix and for handing it to later steps of the workflow. -/
structure HandsOver (args : Arguments) : Prop where
  command : args.command = .generate
  githubOutput : args.githubOutput = true
  help : args.help = false
  version : args.version = false

end Arguments

/-! ## The appended text -/

/-- An outcome without what has been printed. -/
def Outcome.unprinted (outcome : Outcome) : Outcome := { outcome with out := [] }

namespace Run

variable {s : Surroundings} {files : Files}

/-- An append that does not end the run with an error is noted after those before it, and changes
nothing that was printed. -/
theorem append_of_exitCode {outcome : Outcome} {name text : String}
    (h : (append s outcome name text).exitCode = 0) :
    (append s outcome name text).appended = outcome.appended ++ [(name, text)] ∧
      (append s outcome name text).out = outcome.out := by
  unfold append at h ⊢
  cases hs : s.sink with
  | note => exact ⟨rfl, rfl⟩
  | refuse message => simp [hs, Outcome.exitCode] at h
  | files =>
    cases hf : outcome.files.append s.directory name text s.storage with
    | error failure => simp [hs, hf, Outcome.exitCode] at h
    | ok files => exact ⟨rfl, rfl⟩

/-- Printing and handing over a matrix, if it succeeds. -/
theorem generate_of_exitCode {m : Matrix} {args : Arguments} (houtput : args.githubOutput = true)
    (h : (generate s files m args).exitCode = 0) :
    ∃ name, s.outputFile = some name ∧
      (generate s files m args).appended = [(name, Matrix.outputLine m.compact)] ∧
      (generate s files m args).out = [(if args.pretty then m.pretty else m.compact) ++ "\n"] := by
  simp only [generate, houtput, if_true] at h ⊢
  cases hname : s.outputFile with
  | none => simp [hname, Outcome.exitCode] at h
  | some name =>
    rw [hname] at h
    obtain ⟨happended, hout⟩ := append_of_exitCode h
    exact ⟨name, rfl, happended, hout⟩

/-- Once its configuration is loaded, a run that is asked for the matrix prints and hands over the
matrix of that configuration; what it says besides goes to the error channel. -/
theorem withMatrix_of_load {args : Arguments} {loaded : Config.Loaded}
    (hcommand : args.command = .generate)
    (hload : Config.load files s.package s.directory args.config = .ok loaded) :
    ∃ err, withMatrix s files args =
      { generate s files (loaded.config.matrix (args.ref.or s.ref)) args with err } := by
  simp only [withMatrix, hload, hcommand]
  split
  · exact ⟨_, rfl⟩
  · exact ⟨_, rfl⟩

/-- A run that is asked for the matrix and succeeds has loaded a configuration. -/
theorem perform_of_exitCode {args : Arguments} (hargs : args.HandsOver)
    (h : (perform s files args).exitCode = 0) :
    perform s files args = withMatrix s files args ∧
      ∃ loaded, Config.load files s.package s.directory args.config = .ok loaded := by
  obtain ⟨hcommand, -, hhelp, hversion⟩ := hargs
  simp only [perform, hhelp, hversion, hcommand, Bool.false_eq_true, if_false] at h ⊢
  split at h
  · cases h
  split at h
  · cases h
  cases hload : Config.load files s.package s.directory args.config with
  | error e => simp [withMatrix, hload, Outcome.exitCode] at h
  | ok loaded =>
    refine ⟨?_, loaded, rfl⟩
    rw [if_neg ‹_›, if_neg ‹_›]

/-- Appending does not look at what has been printed. -/
theorem append_unprinted (outcome : Outcome) (name text : String) :
    append s outcome.unprinted name text = (append s outcome name text).unprinted := by
  unfold append Outcome.unprinted
  cases s.sink with
  | note => rfl
  | refuse message => rfl
  | files => cases outcome.files.append s.directory name text s.storage <;> rfl

/-- Whether the matrix is printed in indented form changes what is printed and nothing else. -/
theorem generate_prettily (m : Matrix) (args : Arguments) :
    (generate s files m args.prettily).unprinted = (generate s files m args).unprinted := by
  simp only [generate, Arguments.prettily]
  split
  · cases s.outputFile with
    | none => rfl
    | some name =>
      dsimp only
      rw [← append_unprinted, ← append_unprinted]
      rfl
  · rfl

theorem note_unprinted {o o' : Outcome} (h : o.unprinted = o'.unprinted) (verbose : Bool)
    (lines : List String) :
    (if verbose then { o with err := lines ++ o.err } else o).unprinted =
      (if verbose then { o' with err := lines ++ o'.err } else o').unprinted := by
  cases verbose with
  | false => exact h
  | true => exact congrArg (fun o : Outcome => { o with err := lines ++ o.err }) h

theorem withMatrix_prettily (args : Arguments) :
    (withMatrix s files args.prettily).unprinted = (withMatrix s files args).unprinted := by
  simp only [withMatrix, Arguments.prettily]
  split
  · rfl
  · rename_i loaded hload
    set m := loaded.config.matrix (args.ref.or s.ref)
    have hgenerate : (generate s files m args.prettily).unprinted =
        (generate s files m args).unprinted := generate_prettily m args
    cases args.command with
    | generate => exact note_unprinted hgenerate args.verbose _
    | «show» => rfl
    | init => exact note_unprinted hgenerate args.verbose _

/-- The same holds for whole runs. -/
theorem perform_prettily (args : Arguments) :
    (perform s files args.prettily).unprinted = (perform s files args).unprinted := by
  have hmatrix : (withMatrix s files args.prettily).unprinted = (withMatrix s files args).unprinted :=
    withMatrix_prettily args
  unfold perform
  cases hhelp : args.help with
  | true => simp [Arguments.prettily, hhelp]
  | false =>
  cases hversion : args.version with
  | true => simp [Arguments.prettily, hhelp, hversion]
  | false =>
  cases hunknown : args.unknown.isEmpty with
  | false => simp [Arguments.prettily, hhelp, hversion, hunknown]
  | true =>
  cases herrors : args.errors.isEmpty with
  | false => simp [Arguments.prettily, hhelp, hversion, hunknown, herrors]
  | true =>
    rw [Arguments.prettily] at hmatrix ⊢
    cases hcommand : args.command with
    | init => simp [hhelp, hversion, hunknown, herrors]
    | generate => simpa [hhelp, hversion, hunknown, herrors, hcommand] using hmatrix
    | «show» => simpa [hhelp, hversion, hunknown, herrors, hcommand] using hmatrix

end Run

/-- A run that hands its matrix to later steps and succeeds makes one append, to the file that the
environment names.  The appended line ends with its only character below a space, and what follows
`matrix=` reads back as a value alike to the one that is printed.  The printed text may be
indented or not; the appended text is the same. -/
theorem run_stepOutput {s : Surroundings} {files : Files} {argv : List String}
    (hargs : (Arguments.read argv).HandsOver) (h : (run s files argv).exitCode = 0) :
    (∃ name json printed v w, s.outputFile = some name ∧
      (run s files argv).appended = [(name, "matrix=" ++ json ++ "\n")] ∧
      (∀ c ∈ ("matrix=" ++ json).toList, 0x20 ≤ c.toNat) ∧
      (run s files argv).out = [printed ++ "\n"] ∧
      Json.read json = .ok v ∧ Json.read printed = .ok w ∧ v.Alike w) ∧
    (∀ argv', (Arguments.read argv').prettily = (Arguments.read argv).prettily →
      (run s files argv').appended = (run s files argv).appended) ∧
    (run s files (argv ++ ["--pretty"])).appended = (run s files argv).appended := by
  have hpretty : ∀ argv', (Arguments.read argv').prettily = (Arguments.read argv).prettily →
      (run s files argv').appended = (run s files argv).appended := by
    intro argv' heq
    have hrest : (run s files argv').unprinted = (run s files argv).unprinted := by
      rw [run, run, ← Run.perform_prettily, heq, Run.perform_prettily]
    have happended := congrArg Outcome.appended hrest
    exact happended
  refine ⟨?_, hpretty, hpretty _ (by rw [Arguments.read_append_pretty]; rfl)⟩
  obtain ⟨hperform, loaded, hload⟩ := Run.perform_of_exitCode hargs h
  obtain ⟨err, hwith⟩ := Run.withMatrix_of_load hargs.command hload
  simp only [run, hperform, hwith] at h ⊢
  set m := loaded.config.matrix ((Arguments.read argv).ref.or s.ref)
  obtain ⟨name, hname, happended, hout⟩ := Run.generate_of_exitCode hargs.githubOutput h
  have hm : m.Reachable := Config.reachable_matrix (Config.isProper_of_load hload) _
  obtain ⟨v, hv, halike⟩ := hm.read_pretty
  have hcompact := (Matrix.compact_faithful hm).1
  have hchars : ∀ c ∈ ("matrix=" ++ m.compact).toList, 0x20 ≤ c.toNat := by
    have hprefix : ∀ c ∈ "matrix=".toList, 0x20 ≤ c.toNat := Json.le_toNat_of_all (by decide)
    intro c hc
    rw [String.toList_append] at hc
    rcases List.mem_append.mp hc with hc | hc
    · exact hprefix c hc
    · rw [Matrix.compact, Json.compact, String.toList_ofList] at hc
      exact Json.le_toNat_of_mem_chars hm.isPlain_document c hc
  cases hp : (Arguments.read argv).pretty with
  | false =>
    rw [hp] at hout
    exact ⟨name, m.compact, m.compact, m.document, m.document, hname, happended, hchars, hout,
      hcompact, hcompact, .refl _⟩
  | true =>
    rw [hp] at hout
    exact ⟨name, m.compact, m.pretty, m.document, v, hname, happended, hchars, hout, hcompact, hv,
      halike.symm⟩

/-- A configuration whose names and values hold a line break and a `=`, in a run for a tag whose
printed text is indented. -/
theorem run_stepOutput_indented :
    let s : Surroundings :=
      { directory := ["w"]
        package := ["p"]
        environment := [("GITHUB_OUTPUT", "out"), ("GITHUB_REF", "refs/tags/v\nmatrix=1")] }
    let files : Files := ⟨fun path =>
      if path = ["w", ".ci-matrix.yml"] then
        some (.file "builds:\n- name: \"a\\nmatrix=b\"\n  env:\n    K: \"\\t\"\n    7: é\n")
      else if path = [] ∨ path = ["w"] then some .directory
      else none⟩
    let argv := ["--pretty", "--github-output"]
    (Arguments.read argv).HandsOver ∧ (run s files argv).exitCode = 0 ∧
      ∃ name json, (run s files argv).appended = [(name, "matrix=" ++ json ++ "\n")] ∧
        ∀ c ∈ ("matrix=" ++ json).toList, 0x20 ≤ c.toNat := by
  intro s files argv
  have hargs : (Arguments.read argv).HandsOver := by
    constructor <;> decide
  have h : (run s files argv).exitCode = 0 := by decide +kernel
  obtain ⟨name, json, -, -, -, -, happended, hchars, -⟩ := (run_stepOutput hargs h).1
  exact ⟨hargs, h, name, json, happended, hchars⟩

end BuildMatrix
