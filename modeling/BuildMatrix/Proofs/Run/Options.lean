import BuildMatrix.Proofs.Arguments.Insertion
import BuildMatrix.Proofs.Matrix.History
import BuildMatrix.Proofs.Run.Course

/-!
# What an option changes in a run

An option concerns some commands and no others.  Asked for details, a run that prints the matrix
says two lines more before everything else on the error channel (`withMatrix_verbose`); leave to
overwrite counts for setting a directory up alone, and the form of the output and its hand-over for
printing alone.  So an option that is put into a command line, wherever one may begin, changes
exactly that (`run_insertAt`).
-/

namespace BuildMatrix

namespace Run

variable {s : Surroundings} {files : Files} {args args' : Arguments}

/-- What a run says about its configuration if it is asked for details: which one it uses, and how
many jobs that has for the reference.  Without a configuration it says nothing. -/
def details (s : Surroundings) (files : Files) (args : Arguments) : List String :=
  match Config.load files s.package s.directory args.config with
  | .error _ => []
  | .ok loaded =>
    ["Using " ++ (if loaded.builtin then "built-in matrix" else loaded.path.text) ++ "\n",
      "Generated " ++ toString loaded.config.builds.length ++ " job(s) for " ++
        (RunContext.ofRef (args.ref.or s.ref)).describe ++ "\n"]

/-- A configuration makes one job for each of its builds. -/
theorem notes_matrix (loaded : Config.Loaded) (ref : Option String) :
    notes loaded (loaded.config.matrix ref) =
      ["Using " ++ (if loaded.builtin then "built-in matrix" else loaded.path.text) ++ "\n",
        "Generated " ++ toString loaded.config.builds.length ++ " job(s) for " ++
          (RunContext.ofRef ref).describe ++ "\n"] := by
  have hmatrix := Matrix.addAll_eq (.empty ref loaded.config.defaults) loaded.config.builds
  have hsize : (loaded.config.matrix ref).size = loaded.config.builds.length := by
    rw [Config.matrix, hmatrix, Matrix.size]
    simp [Matrix.empty]
  have hcontext : (loaded.config.matrix ref).context = .ofRef ref := by
    rw [Config.matrix, hmatrix]
    rfl
  rw [notes, hsize, hcontext]

/-! ## Commands -/

/-- Arguments with which nothing is wrong get to the matrix, unless a directory is to be set up. -/
theorem perform_of_ne_init (h : args.Proceeds) (hcommand : args.command ≠ .init) :
    perform s files args = withMatrix s files args := by
  rw [perform, h.help, h.version, h.unknown, h.errors]
  cases hc : args.command with
  | init => exact absurd hc hcommand
  | «show» => rfl
  | generate => rfl

/-- Asked for details, printing the matrix says them first and is the same otherwise. -/
theorem withMatrix_verbose (hcommand : args.command = .generate) :
    withMatrix s files (args.raise .verbose) =
      (withMatrix s files args).noting (if args.verbose then [] else details s files args) := by
  have hnil : ∀ outcome : Outcome, outcome.noting [] = outcome := fun _ => rfl
  have hconfig : (args.raise .verbose).config = args.config := rfl
  unfold withMatrix details
  rw [hconfig]
  cases Config.load files s.package s.directory args.config with
  | error e => rw [ite_self, hnil]
  | ok loaded =>
    dsimp only
    rw [← notes_matrix, noting_notesOf, noting_notesOf]
    have hraised : (args.raise .verbose).command = .generate := hcommand
    rw [hcommand, hraised]
    rw [notesOf, notesOf]
    cases args.verbose with
    | true => rfl
    | false => rfl

/-- Leave to overwrite does not concern the matrix. -/
theorem withMatrix_force : withMatrix s files (args.raise .force) = withMatrix s files args := rfl

/-- The form of the output and its hand-over do not concern the table. -/
theorem withMatrix_of_show (hcommand : args.command = .show)
    (h : args'.command = .show) (hconfig : args'.config = args.config)
    (href : args'.ref = args.ref) (hverbose : args'.verbose = args.verbose) :
    withMatrix s files args' = withMatrix s files args := by
  simp only [withMatrix, hcommand, h, hconfig, href, hverbose]

/-- Setting a directory up does not need a configuration or a reference. -/
theorem perform_setValue (hcommand : args.command = .init) (option : ValueOption)
    (value : Option String) :
    perform s files (args.setValue option value) = perform s files args := by
  unfold perform
  cases option <;> simp only [Arguments.setValue, hcommand]

/-- Nor does it look at how a matrix would be printed. -/
theorem perform_raise_of_init (hcommand : args.command = .init) {flag : Flag}
    (hflag : flag = .pretty ∨ flag = .githubOutput ∨ flag = .verbose) :
    perform s files (args.raise flag) = perform s files args := by
  unfold perform
  rcases hflag with rfl | rfl | rfl <;> simp only [Arguments.raise, hcommand]

theorem perform_of_alikeBut {option : ValueOption} (h : Arguments.AlikeBut option args args')
    (hcommand : args'.command = .init) : perform s files args = perform s files args' := by
  have hsame : ∀ a : Arguments, (a.setValue option none).command = a.command := by
    intro a
    cases option <;> rfl
  have hcommand' : args.command = .init := by
    rw [← hsame args, h, hsame args', hcommand]
  rw [← perform_setValue hcommand' option none, h, perform_setValue hcommand]

/-! ## Options that are put in -/

theorem proceeds_raise (h : args.Proceeds) {flag : Flag} (hhelp : flag ≠ .help)
    (hversion : flag ≠ .version) : (args.raise flag).Proceeds := by
  obtain ⟨h₁, h₂, h₃, h₄⟩ := h
  cases flag with
  | help => exact absurd rfl hhelp
  | version => exact absurd rfl hversion
  | pretty | githubOutput | force | verbose => exact ⟨h₁, h₂, h₃, h₄⟩

end Run

/-- In a command line with which nothing is wrong, an option that is put in where one may begin
changes nothing but what it is for.  Asking for details adds them in front of all else on the error
channel of a run that prints the matrix, unless they have been asked for already; leave to overwrite
counts only for setting a directory up; a table does not care for the form of the output or its
hand-over; and setting a directory up cares for nothing but leave to overwrite. -/
theorem run_insertAt {argv : List String} {i : Nat} (hargs : (Arguments.read argv).Proceeds)
    (hplace : Arguments.MayBegin argv i) (s : Surroundings) (files : Files) :
    let args := Arguments.read argv
    let outcome := run s files argv
    let inserting (tokens : List String) := run s files (Arguments.insertAt argv i tokens)
    (args.command = .generate → inserting ["--verbose"] =
      outcome.noting (if args.verbose then [] else Run.details s files args)) ∧
    (args.command ≠ .init → inserting ["--force"] = outcome) ∧
    (args.command = .show →
      inserting ["--pretty"] = outcome ∧ inserting ["--github-output"] = outcome) ∧
    (args.command = .init →
      inserting ["--pretty"] = outcome ∧ inserting ["--github-output"] = outcome ∧
        inserting ["--verbose"] = outcome ∧
        ∀ (option : ValueOption) (value : String), Arguments.isValue value = true →
          inserting [option.text, value] = outcome) := by
  intro args outcome inserting
  have hraise : ∀ (flag : Flag) (token : String), token ∈ flag.spellings →
      "--".toList <+: token.toList → inserting [token] = Run.perform s files (args.raise flag) := by
    intro flag token htoken hhyphens
    exact congrArg (Run.perform s files) (Arguments.read_insertAt_flag hplace htoken hhyphens)
  have hverbose := hraise .verbose "--verbose" (by decide) (by decide)
  have hforce := hraise .force "--force" (by decide) (by decide)
  have hpretty := hraise .pretty "--pretty" (by decide) (by decide)
  have houtput := hraise .githubOutput "--github-output" (by decide) (by decide)
  have hmatrix : ∀ flag : Flag, flag ≠ .help → flag ≠ .version → args.command ≠ .init →
      Run.perform s files (args.raise flag) = Run.withMatrix s files (args.raise flag) := by
    intro flag hhelp hversion hcommand
    refine Run.perform_of_ne_init (Run.proceeds_raise hargs hhelp hversion) ?_
    cases flag <;> exact hcommand
  have houtcome : args.command ≠ .init → outcome = Run.withMatrix s files args :=
    Run.perform_of_ne_init hargs
  refine ⟨fun hcommand => ?_, fun hcommand => ?_, fun hcommand => ⟨?_, ?_⟩,
    fun hcommand => ⟨?_, ?_, ?_, fun option value hvalue => ?_⟩⟩
  · have hne : args.command ≠ .init := by simp [hcommand]
    rw [hverbose, hmatrix .verbose (by decide) (by decide) hne, houtcome hne,
      Run.withMatrix_verbose hcommand]
  · rw [hforce, hmatrix .force (by decide) (by decide) hcommand, houtcome hcommand,
      Run.withMatrix_force]
  · have hne : args.command ≠ .init := by simp [hcommand]
    rw [hpretty, hmatrix .pretty (by decide) (by decide) hne, houtcome hne]
    exact Run.withMatrix_of_show hcommand hcommand rfl rfl rfl
  · have hne : args.command ≠ .init := by simp [hcommand]
    rw [houtput, hmatrix .githubOutput (by decide) (by decide) hne, houtcome hne]
    exact Run.withMatrix_of_show hcommand hcommand rfl rfl rfl
  · rw [hpretty, Run.perform_raise_of_init hcommand (.inl rfl)]
    rfl
  · rw [houtput, Run.perform_raise_of_init hcommand (.inr (.inl rfl))]
    rfl
  · rw [hverbose, Run.perform_raise_of_init hcommand (.inr (.inr rfl))]
    rfl
  · exact Run.perform_of_alikeBut (Arguments.read_insertAt_valued hplace option hvalue) hcommand

/-- The details stand before the complaint that there is no file for outputs.  On the same
configuration a table is not handed over, so nothing is missing for it; and what looks like an option
is the value of another one where a directory is set up. -/
theorem run_insertAt_details :
    let s : Surroundings :=
      { directory := ["w"], package := ["p"], environment := [("GITHUB_REF", "refs/tags/v1")] }
    let files : Files := ⟨fun path =>
      if path = ["w", "c.yml"] then some (.file "builds:\n- name: a\n- name: b\n")
      else if path = [] ∨ path = ["w"] then some .directory
      else none⟩
    let argv := ["generate", "--config", "c.yml", "--github-output"]
    let table := ["show", "--config", "c.yml"]
    (Arguments.read argv).Proceeds ∧ Arguments.MayBegin argv 3 ∧
      (run s files (argv.take 3 ++ ["--verbose", "--github-output"])).err =
        ["Using /w/c.yml\n", "Generated 2 job(s) for tag v1\n",
          "--github-output requires GITHUB_OUTPUT to be set.\n"] ∧
      run s files (argv.take 3 ++ ["--force", "--github-output"]) = run s files argv ∧
      ¬ Arguments.MayBegin table 2 ∧
      run s files (table ++ ["--github-output"]) = run s files table ∧
      run s files ["init", "--ref", "-v", "--force"] = run s files ["init", "--force"] := by
  intro s files argv table
  have hargv : (Arguments.read argv).Proceeds := by constructor <;> decide
  have htable : (Arguments.read table).Proceeds := by constructor <;> decide
  have hinit : (Arguments.read ["init", "--force"]).Proceeds := by constructor <;> decide
  have hplace : Arguments.MayBegin argv 3 := by decide
  obtain ⟨hverbose, hforce, -⟩ := run_insertAt hargv hplace s files
  obtain ⟨-, -, hshow, -⟩ := run_insertAt htable (i := 3) (by decide) s files
  obtain ⟨-, -, -, hsetUp⟩ := run_insertAt hinit (i := 1) (by decide) s files
  refine ⟨hargv, hplace, ?_, hforce (by decide), by decide, (hshow (by decide)).2,
    (hsetUp (by decide)).2.2.2 .ref "-v" (by decide)⟩
  have herr := congrArg Outcome.err (hverbose (by decide))
  refine herr.trans ?_
  decide +kernel

end BuildMatrix
