import BuildMatrix.Proofs.Config.Checked
import BuildMatrix.Proofs.Matrix.History
import BuildMatrix.Table

/-!
# Matrices that are built from a value as it stands

A caller can take a value apart without checking it: the settings that it has are given to a new
matrix, and its builds are added one after the other (`Value.matrix`).  What is not given has its
default there (`GivenDefaults.fill`), as it has in the check of a configuration.  For a value that
passes the check both ways lead to the same matrix, but for the name `__proto__`, which the check
leaves out of environments (`Config.matrix_eq_direct`).
-/

namespace BuildMatrix

/-! ## Reading a value without checking it -/

/-- Some of the settings that a job falls back to. -/
structure GivenDefaults where
  checker : Option String
  image : Option String
  args : Option String
  jobs : Option Number
deriving DecidableEq, Repr

/-- The settings that are given, and the stock settings for the others. -/
def GivenDefaults.fill (given : GivenDefaults) : Defaults :=
  { checker := given.checker.getD ({} : Defaults).checker
    image := given.image.getD ({} : Defaults).image
    args := given.args.getD ({} : Defaults).args
    jobs := given.jobs.getD ({} : Defaults).jobs }

namespace Value

/-- The value under a name, if there is one. -/
def field? : Value → String → Option Value
  | .object fields, name => Record.get? fields name
  | _, _ => none

/-- The text that a value is. -/
def text? : Value → Option String
  | .string s => some s
  | _ => none

/-- The truth value that a value is. -/
def flag? : Value → Option Bool
  | .bool b => some b
  | _ => none

/-- The number that a value is. -/
def number? : Value → Option Number
  | .number n => some n
  | _ => none

/-- The texts that an object holds, under their names. -/
def texts? : Value → Option (Record String)
  | .object fields => some (fields.filterMap fun field => field.2.text?.map (field.1, ·))
  | _ => none

/-- The items of a list. -/
def items : Value → List Value
  | .array items => items
  | _ => []

/-- The settings that a value gives. -/
def given (v : Value) : GivenDefaults :=
  let defaults := v.field? "defaults"
  { checker := (v.field? "checker").bind text?
    image := (defaults.bind (·.field? "image")).bind text?
    args := (defaults.bind (·.field? "args")).bind text?
    jobs := (defaults.bind (·.field? "jobs")).bind number? }

/-- A value as the options of a build. -/
def options (v : Value) : BuildOptions :=
  { name := (v.field? "name").bind text?
    image := (v.field? "image").bind text?
    args := (v.field? "args").bind text?
    jobs := (v.field? "jobs").bind number?
    env := (v.field? "env").bind texts?
    coverage := (v.field? "coverage").bind flag?
    platform := (v.field? "platform").bind text?
    commandArgs := (v.field? "commandArgs").bind text? }

/-- The builds of a value, one after the other; none if it has no list of builds. -/
def builds (v : Value) : List Value := ((v.field? "builds").map items).getD []

/-- The matrix with the settings that a value gives and the builds that it has. -/
def matrix (v : Value) (ref : Option String) : Matrix :=
  (Matrix.empty ref v.given.fill).addAll (v.builds.map options)

end Value

/-! ## Leaving a name out of environments -/

/-- The options without an entry of the environment. -/
def BuildOptions.without (options : BuildOptions) (name : String) : BuildOptions :=
  { options with env := options.env.map (·.without name) }

/-- The job without an entry of its environment. -/
def Job.without (job : Job) (name : String) : Job := { job with env := job.env.without name }

/-- The matrix whose jobs are all without an entry of their environments. -/
def Matrix.without (m : Matrix) (name : String) : Matrix :=
  { m with jobs := m.jobs.map (·.without name) }

namespace Job

variable {name : String}

theorem withCoverage_without (h : "COVERAGE" ≠ name) (env : Record String) (coverage : Bool) :
    withCoverage (env.without name) coverage = (withCoverage env coverage).without name := by
  cases coverage with
  | false => rfl
  | true => exact (Record.set_without h (by decide) "t").symm

/-- Leaving out a name that no job looks for commutes with making the job. -/
theorem ofOptions_without (hcoverage : "COVERAGE" ≠ name) (hrelease : "DISTCHECK" ≠ name)
    (context : RunContext) (defaults : Defaults) (options : BuildOptions) :
    ofOptions context defaults (options.without name) =
      (ofOptions context defaults options).without name := by
  have hgiven : (options.env.map (·.without name)).getD [] =
      Record.without (options.env.getD []) name := by
    cases options.env <;> rfl
  simp only [ofOptions, without, BuildOptions.without, isReleaseBuild, hgiven,
    withCoverage_without hcoverage, Record.has_without hrelease]

theorem without_eq_self {job : Job} (h : name ∉ Record.names job.env) : job.without name = job := by
  rw [without, Record.without_eq_self h]

end Job

theorem Matrix.without_eq_self {m : Matrix} {name : String}
    (h : ∀ job ∈ m.jobs, name ∉ Record.names job.env) : m.without name = m := by
  rw [Matrix.without, List.map_congr_left fun job hjob => Job.without_eq_self (h job hjob),
    List.map_id']

namespace Config

/-! ## What a check gives -/

/-- A check that succeeds gives what a reading of the value takes from it. -/
def Gives {α : Type} (check : Value → Checked α) (read : Value → Option α) : Prop :=
  ∀ v a, check v = .ok a → read v = some a

theorem gives_text : Gives checkText Value.text? := by
  intro v s h
  cases v with
  | string t => exact congrArg some (Except.ok.inj h)
  | _ => cases h

theorem gives_flag : Gives checkFlag Value.flag? := by
  intro v b h
  cases v with
  | bool c => exact congrArg some (Except.ok.inj h)
  | _ => cases h

theorem gives_count : Gives checkCount Value.number? := by
  intro v n h
  cases v with
  | number m =>
    rcases checkCount_number m with ⟨-, hok⟩ | ⟨-, found, herror, -⟩
    · rw [hok] at h
      exact congrArg some (Except.ok.inj h)
    · rw [herror] at h
      cases h
  | _ => cases h

/-- The check of an environment leaves out one name and nothing else. -/
theorem gives_env : Gives checkEnv fun v => v.texts?.map (·.without "__proto__") := by
  intro v env h
  cases v with
  | object fields =>
    refine congrArg some ?_
    induction fields generalizing env with
    | nil => exact Except.ok.inj h
    | cons field rest ih =>
      obtain ⟨name, v⟩ := field
      obtain ⟨s, entries, hs, hrest, rfl⟩ := entry_of_checkEntries h
      rw [List.filterMap_cons, gives_text v s hs, Option.map_some]
      dsimp only
      by_cases hname : name = "__proto__"
      · rw [if_pos hname, hname, Record.without_cons_self]
        exact ih entries hrest
      · rw [if_neg hname, Record.without_cons_of_ne hname]
        exact congrArg _ (ih entries hrest)
  | _ => cases h

/-- The check of a field gives what is read from it, if it is there. -/
theorem Gives.field {α : Type} {check : Value → Checked α} {read : Value → Option α}
    (h : Gives check read) {fields : List (String × Value)} {name : String} {a : Option α}
    (hfield : checkField check fields name = .ok a) :
    a = ((Value.object fields).field? name).bind read := by
  rw [Value.field?]
  rcases checkField_eq_ok hfield with ⟨hnone, rfl⟩ | ⟨v, b, hsome, hcheck, rfl⟩
  · rw [hnone, Option.bind_none]
  · rw [hsome, Option.bind_some, h v b hcheck]

theorem gives_build : Gives checkBuild fun v => some (v.options.without "__proto__") := by
  intro v build h
  obtain ⟨fields, rfl, hfields⟩ := fields_of_checkBuild h
  have henv := gives_env.field hfields.env
  rw [← Function.comp_def, ← Option.map_bind] at henv
  cases build
  simp only [Value.options, BuildOptions.without, Option.some.injEq, BuildOptions.mk.injEq]
  exact ⟨(gives_text.field hfields.name).symm, (gives_text.field hfields.image).symm,
    (gives_text.field hfields.args).symm, (gives_count.field hfields.jobs).symm, henv.symm,
    (gives_flag.field hfields.coverage).symm, (gives_text.field hfields.platform).symm,
    (gives_text.field hfields.commandArgs).symm⟩

/-- The check of a list of builds gives what is read from its items. -/
theorem gives_builds :
    Gives checkBuilds fun v => some (v.items.map fun item => item.options.without "__proto__") := by
  intro v builds h
  obtain ⟨items, rfl, hitems⟩ := items_of_checkBuilds h
  refine congrArg some (List.forall₂_eq_eq_eq ▸ List.forall₂_map_left_iff.mpr ?_)
  exact hitems.imp fun item build hbuild => Option.some.inj (gives_build item build hbuild)

/-- The check of the settings under `defaults` gives the change that puts those which are there in
the place of the others. -/
theorem gives_defaults : Gives checkDefaults fun v => some fun config =>
    { config with
      image := ((v.field? "image").bind Value.text?).getD config.image
      args := ((v.field? "args").bind Value.text?).getD config.args
      jobs := ((v.field? "jobs").bind Value.number?).getD config.jobs } := by
  intro v change h
  obtain ⟨fields, image, args, jobs, rfl, himage, hargs, hjobs, rfl⟩ := fields_of_checkDefaults h
  rw [gives_text.field himage, gives_text.field hargs, gives_count.field hjobs]

/-- A configuration that passes the check has the settings that are given, the stock settings for
the others, and the builds that are there. -/
theorem settings_of_check {v : Value} {config : Config} (h : check v = .ok config) :
    config.defaults = v.given.fill ∧
      config.builds = (v.builds.map Value.options).map (·.without "__proto__") := by
  obtain ⟨fields, checker, defaults, builds, rfl, hchecker, hdefaults, hbuilds, rfl⟩ :=
    fields_of_check h
  rw [gives_text.field hchecker, gives_defaults.field hdefaults, gives_builds.field hbuilds]
  simp only [Value.given, Value.builds, List.map_map]
  cases (Value.object fields).field? "defaults" <;>
    cases (Value.object fields).field? "builds" <;> exact ⟨rfl, rfl⟩

/-! ## The two ways to a matrix -/

/-- A value that passes the check leads to the same matrix by way of its configuration and directly:
the same run, settings and jobs, in all printed forms.  Only the name `__proto__` is left out of
the environments of the jobs, so without it nothing differs at all. -/
theorem matrix_eq_direct {v : Value} {config : Config} (h : check v = .ok config)
    (ref : Option String) :
    let m := config.matrix ref
    let direct := v.matrix ref
    let kept := direct.without "__proto__"
    m.context = direct.context ∧ m.defaults = direct.defaults ∧
      m.jobs = direct.jobs.map (·.without "__proto__") ∧
      m.compact = kept.compact ∧ m.pretty = kept.pretty ∧
      (∀ commands, Table.lines m.context (Table.rows m) commands =
        Table.lines kept.context (Table.rows kept) commands) ∧
      ((∀ job ∈ direct.jobs, "__proto__" ∉ Record.names job.env) → kept = direct) := by
  intro m direct kept
  obtain ⟨hdefaults, hbuilds⟩ := settings_of_check h
  have hkept : m = kept := by
    show config.matrix ref = (v.matrix ref).without "__proto__"
    rw [matrix, Value.matrix, Matrix.addAll_eq, Matrix.addAll_eq, hdefaults, hbuilds]
    simp only [Matrix.without, Matrix.empty, List.nil_append, List.map_map]
    refine congrArg (Matrix.mk _ _) (List.map_congr_left fun item _ => ?_)
    exact Job.ofOptions_without (by decide) (by decide) _ _ _
  exact ⟨by rw [hkept]; rfl, by rw [hkept]; rfl, by rw [hkept]; rfl, by rw [hkept], by rw [hkept],
    fun commands => by rw [hkept], Matrix.without_eq_self⟩

/-- Some settings are given and some are not, one of those that are given is empty, and an
environment has the name that is left out. -/
theorem matrix_eq_direct_partly :
    let v : Value := .object
      [("builds", .array
          [.object
            [("env", .object [("2", .string "x"), ("__proto__", .string "y"), ("K", .string "")]),
              ("coverage", .bool true), ("jobs", .number 3)],
            .object [("args", .string "")]]),
        ("defaults", .object [("image", .string "")])]
    ∃ config, check v = .ok config ∧
      (config.matrix "refs/tags/v1").defaults = { image := "" } ∧
      (config.matrix "refs/tags/v1").jobs.map (Record.names ·.env) = [["2", "K", "COVERAGE"], []] ∧
      (config.matrix "refs/tags/v1").pretty =
        ((v.matrix "refs/tags/v1").without "__proto__").pretty := by
  intro v
  have hok : (check v).isOk = true := by decide
  cases h : check v with
  | error found =>
    rw [h] at hok
    cases hok
  | ok config =>
    obtain ⟨-, hdefaults, hjobs, -, hpretty, -⟩ := matrix_eq_direct h "refs/tags/v1"
    refine ⟨config, rfl, ?_, ?_, hpretty⟩
    · rw [hdefaults]
      decide
    · rw [hjobs]
      decide

end Config

end BuildMatrix
