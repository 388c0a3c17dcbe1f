import BuildMatrix.Proofs.Matrix.Reachable
import BuildMatrix.Proofs.Record.Lookup
import BuildMatrix.Proofs.Ref.Naming

/-!
# What a job has from its reference and its options

A job names what the reference of its run names, makes a release exactly if that is a tag and its
environment has a distribution check, and has the entries of the caller's environment, in which
coverage is noted (`Describes`, `describes_ofOptions`).  Its record has one field for each value
that is there (`Written`, `written_fields`): the values are told by their keys (`wire?`), and the
record lists them in the order of `fieldNames` (`fields_eq`).
-/

namespace BuildMatrix

/-! ## Coverage in an environment -/

/-- Coverage is noted in an environment: in place of the entry that is there, or else after all
other entries. -/
inductive CoverageNoted : Record String → Record String → Prop
  | inPlace {before after : Record String} {old : String} :
      "COVERAGE" ∉ Record.names before →
      CoverageNoted (before ++ ("COVERAGE", old) :: after) (before ++ ("COVERAGE", "t") :: after)
  | atEnd {env : Record String} :
      "COVERAGE" ∉ Record.names env → CoverageNoted env (env ++ [("COVERAGE", "t")])

theorem coverageNoted_set (env : Record String) : CoverageNoted env (env.set "COVERAGE" "t") := by
  unfold Record.set
  split
  · rename_i hhas
    obtain ⟨before, old, after, rfl, hbefore, hreplace⟩ :=
      Record.replace_eq_of_mem (Record.has_iff.mp hhas) "t"
    rw [hreplace]
    exact .inPlace hbefore
  · rename_i hhas
    rw [Record.place_eq_append "t" fun entry _ =>
      Record.overtakes_of_index?_eq_none (by decide) entry.1]
    exact .atEnd (Record.has_eq_false_iff.mp (by simpa using hhas))

/-- Where coverage is noted, it is there to be read. -/
theorem CoverageNoted.get?_coverage {env env' : Record String} (h : CoverageNoted env env') :
    env'.get? "COVERAGE" = some "t" := by
  cases h with
  | inPlace hbefore => rw [Record.get?_append_of_notMem hbefore, Record.get?_cons_self]
  | atEnd henv => rw [Record.get?_append_of_notMem henv, Record.get?_cons_self]

namespace Job

/-! ## The job -/

/-- What a job says, in terms of the reference of its run and the options that it was added
with. -/
structure Describes (ref : Option String) (options : BuildOptions) (job : Job) : Prop where
  context : job.tag = (RunContext.ofRef ref).tag ∧ job.branch = (RunContext.ofRef ref).branch
  tag : ∀ name, job.tag = some name ↔
    ref = some ("refs/tags/" ++ name) ∧ Text.IsOneLine name
  branch : ∀ name, job.branch = some name ↔
    ref = some ("refs/heads/" ++ name) ∧ Text.IsOneLine name
  tagOrBranch : job.tag = none ∨ job.branch = none
  release : job.createRelease = true ↔ job.tag ≠ none ∧ "DISTCHECK" ∈ Record.names job.env
  noRelease : job.branch ≠ none ∨ job.tag = none → job.createRelease = false
  buildx : job.needsBuildx = true ↔ ∃ platform, options.platform = some platform ∧ platform ≠ ""
  coverage : job.coverage = true ↔ options.coverage = some true
  covered : job.coverage = true → Record.get? job.env "COVERAGE" = some "t"
  env : if job.coverage = true then CoverageNoted (options.env.getD []) job.env
    else job.env = options.env.getD []

theorem isReleaseBuild_iff {tag : Option String} {env : Record String} :
    isReleaseBuild tag env = true ↔ tag ≠ none ∧ "DISTCHECK" ∈ Record.names env := by
  rw [isReleaseBuild, Bool.and_eq_true, Record.has_iff, Option.isSome_iff_ne_none]

theorem needsBuildx_iff {platform : Option String} :
    BuildMatrix.needsBuildx platform = true ↔ ∃ p, platform = some p ∧ p ≠ "" := by
  cases platform <;> simp [BuildMatrix.needsBuildx]

/-- The job that options make in a run says what `Describes` tells. -/
theorem describes_ofOptions (ref : Option String) (defaults : Defaults) (options : BuildOptions) :
    (ofOptions (.ofRef ref) defaults options).Describes ref options := by
  set job := ofOptions (.ofRef ref) defaults options with hjob
  have hcoverage : job.coverage = options.coverage.getD false := rfl
  have henv : job.env = withCoverage (options.env.getD []) job.coverage := rfl
  have hrelease : job.createRelease = true ↔
      job.tag ≠ none ∧ "DISTCHECK" ∈ Record.names job.env := isReleaseBuild_iff
  have hone : job.tag = none ∨ job.branch = none := RunContext.ofRef_tag_or_branch ref
  have hnoted : job.coverage = true → CoverageNoted (options.env.getD []) job.env := by
    intro hcov
    rw [henv, hcov]
    exact coverageNoted_set _
  exact
    { context := ⟨rfl, rfl⟩
      tag := fun name => RunContext.ofRef_tag_eq_some_iff
      branch := fun name => RunContext.ofRef_branch_eq_some_iff
      tagOrBranch := hone
      release := hrelease
      noRelease := by
        intro hname
        have htag : job.tag = none := hname.elim hone.resolve_right id
        rw [← Bool.not_eq_true, hrelease]
        exact fun h => h.1 htag
      buildx := needsBuildx_iff
      coverage := by
        rw [hcoverage]
        cases options.coverage <;> simp
      covered := fun hcov => (hnoted hcov).get?_coverage
      env := by
        split
        · rename_i hcov
          exact hnoted hcov
        · rename_i hcov
          rw [henv, withCoverage, if_neg hcov] }

/-! ## Its record -/

/-- The value under a key of the record of a job, if the record has the key. -/
def wire? (job : Job) : String → Option Json
  | "name" => job.name.map .string
  | "env" => some (.ofRecord job.env)
  | "command" => some (.string job.command)
  | "image" => some (.string job.image)
  | "tag" => job.tag.map .string
  | "branch" => job.branch.map .string
  | "coverage" => some (.bool job.coverage)
  | "needs_buildx" => some (.bool job.needsBuildx)
  | "create_release" => some (.bool job.createRelease)
  | _ => none

/-- Fields that write a job: each key once, the optional ones exactly if the job has the value, and
the values of the job under them. -/
structure Written (job : Job) (fields : Record Json) : Prop where
  distinct : (Record.names fields).Nodup
  name : "name" ∈ Record.names fields ↔ job.name ≠ none
  tag : "tag" ∈ Record.names fields ↔ job.tag ≠ none
  branch : "branch" ∈ Record.names fields ↔ job.branch ≠ none
  value : ∀ key, fields.get? key = job.wire? key

/-- The fields are those of the keys that have a value, in order. -/
theorem fields_eq (job : Job) :
    job.fields = fieldNames.filterMap fun key => (job.wire? key).map (key, ·) := by
  obtain ⟨name, _, _, _, tag, branch, _, _, _⟩ := job
  cases name <;> cases tag <;> cases branch <;> rfl

/-- A key that no record has. -/
theorem wire?_eq_none {job : Job} {key : String} (h : key ∉ fieldNames) : job.wire? key = none := by
  unfold wire?
  split <;> first | exact absurd (by decide) h | rfl

/-- The record of a job has under each key the value that the job has for it. -/
theorem get?_fields (job : Job) (key : String) : Record.get? job.fields key = job.wire? key := by
  rw [fields_eq, Record.get?_filterMap]
  split
  · rfl
  · rename_i hkey
    exact (wire?_eq_none hkey).symm

/-- The record of a job writes it. -/
theorem written_fields (job : Job) : job.Written job.fields := by
  have hkey : ∀ key, key ∈ Record.names job.fields ↔ job.wire? key ≠ none := fun key => by
    rw [Record.mem_names_iff_get?, get?_fields]
  exact
    { distinct := (ordered_fields job).nodup_names
      name := by rw [hkey, wire?, Ne, Option.map_eq_none_iff]
      tag := by rw [hkey, wire?, Ne, Option.map_eq_none_iff]
      branch := by rw [hkey, wire?, Ne, Option.map_eq_none_iff]
      value := get?_fields job }

end Job

end BuildMatrix
