import BuildMatrix.Matrix
import BuildMatrix.Proofs.Json.Printer

/-!
# Reachable matrices

A matrix is reachable if it comes about by adding jobs one after the other, each with options whose
environment is a record (`Reachable`).  What every reachable matrix has in common is shown by one
fact about adding a job (`Job.ofOptions_isProper`) and induction over the run: each of its jobs has
a record as its environment (`Reachable.isProper`), so its document is a plain value
(`Reachable.isPlain_document`).
-/

namespace BuildMatrix

/-- The environment that options hold, if any, is a record. -/
def BuildOptions.IsProper (options : BuildOptions) : Prop :=
  ∀ env, options.env = some env → Record.Ordered env

/-- The environment of a job is a record. -/
def Job.IsProper (job : Job) : Prop := Record.Ordered job.env

/-! ## One job -/

namespace Job

/-- Noting coverage in a record gives a record. -/
theorem ordered_withCoverage {env : Record String} (h : env.Ordered) (coverage : Bool) :
    (withCoverage env coverage).Ordered := by
  unfold withCoverage
  split
  · exact h.set _ _
  · exact h

/-- Options with a record as their environment make a job with one. -/
theorem ofOptions_isProper {options : BuildOptions} (h : options.IsProper) (context : RunContext)
    (defaults : Defaults) : (ofOptions context defaults options).IsProper := by
  refine ordered_withCoverage ?_ _
  cases henv : options.env with
  | none => exact Record.ordered_nil
  | some env => exact h env henv

/-- The names of the fields of a record of a job, when all of them are there. -/
def fieldNames : List String :=
  ["name", "env", "command", "image", "tag", "branch", "coverage", "needs_buildx",
    "create_release"]

theorem names_optionalField_sublist (name : String) (value : Option String) :
    (Record.names (optionalField name value)).Sublist [name] := by
  cases value with
  | none => exact List.nil_sublist _
  | some v => exact List.Sublist.refl _

/-- The fields of a record of a job. -/
def fields (job : Job) : List (String × Json) :=
  optionalField "name" job.name ++
    [("env", .ofRecord job.env), ("command", .string job.command), ("image", .string job.image)] ++
    optionalField "tag" job.tag ++ optionalField "branch" job.branch ++
    [("coverage", .bool job.coverage), ("needs_buildx", .bool job.needsBuildx),
      ("create_release", .bool job.createRelease)]

theorem record_eq (job : Job) : job.record = .object job.fields := rfl

theorem names_fields_sublist (job : Job) : (Record.names job.fields).Sublist fieldNames := by
  simp only [fields, Record.names, List.map_append]
  have hname := names_optionalField_sublist "name" job.name
  have htag := names_optionalField_sublist "tag" job.tag
  have hbranch := names_optionalField_sublist "branch" job.branch
  exact ((((hname.append (.refl _)).append htag).append hbranch).append (.refl _))

/-- The fields of a record of a job are in reading order. -/
theorem ordered_fields (job : Job) : Record.Ordered job.fields := by
  have hall : fieldNames.Pairwise fun a b => a ≠ b ∧ Record.overtakes b a = false := by decide
  have hsub := hall.sublist (names_fields_sublist job)
  exact List.pairwise_map.mp hsub

theorem isPlain_of_mem_optionalField {name : String} {value : Option String}
    {f : String × Json} (h : f ∈ optionalField name value) : f.2.IsPlain := by
  cases value with
  | none => simp [optionalField] at h
  | some v =>
    obtain rfl : f = (name, .string v) := by simpa [optionalField] using h
    trivial

/-- The record of a job with a record as its environment is plain. -/
theorem IsProper.isPlain_record {job : Job} (h : job.IsProper) : job.record.IsPlain := by
  refine ⟨ordered_fields job, Json.isPlainFields_iff.mpr fun f hf => ?_⟩
  simp only [List.mem_append, List.mem_cons, List.not_mem_nil, or_false] at hf
  rcases hf with (((hf | rfl | rfl | rfl) | hf) | hf) | rfl | rfl | rfl
  · exact isPlain_of_mem_optionalField hf
  · exact Json.isPlain_ofRecord h
  · trivial
  · trivial
  · exact isPlain_of_mem_optionalField hf
  · exact isPlain_of_mem_optionalField hf
  · trivial
  · trivial
  · trivial

end Job

/-! ## Runs -/

namespace Matrix

/-- The matrices that come about by adding jobs whose environments are records. -/
inductive Reachable : Matrix → Prop
  | empty (ref : Option String) (defaults : Defaults) : Reachable (.empty ref defaults)
  | add {m : Matrix} {options : BuildOptions} :
      Reachable m → options.IsProper → Reachable (m.add options)

/-- Adding jobs to a reachable matrix gives a reachable matrix. -/
theorem Reachable.addAll {m : Matrix} (h : m.Reachable) {options : List BuildOptions}
    (ho : ∀ o ∈ options, o.IsProper) : (m.addAll options).Reachable := by
  induction options generalizing m with
  | nil => exact h
  | cons o rest ih =>
    exact ih (h.add (ho o (by simp))) fun o' ho' => ho o' (List.mem_cons_of_mem _ ho')

/-- Every job of a reachable matrix has a record as its environment. -/
theorem Reachable.isProper {m : Matrix} (h : m.Reachable) : ∀ job ∈ m.jobs, job.IsProper := by
  induction h with
  | empty ref defaults => simp [Matrix.empty]
  | add _ ho ih =>
    intro job hjob
    rcases List.mem_append.mp hjob with hjob | hjob
    · exact ih job hjob
    · rw [List.mem_singleton.mp hjob]
      exact Job.ofOptions_isProper ho _ _

/-- The document of a reachable matrix is plain. -/
theorem Reachable.isPlain_document {m : Matrix} (h : m.Reachable) : m.document.IsPlain := by
  refine ⟨List.pairwise_singleton _ _, ?_, trivial⟩
  refine Json.isPlainItems_iff.mpr fun v hv => ?_
  obtain ⟨job, hjob, rfl⟩ := List.mem_map.mp hv
  exact (h.isProper job hjob).isPlain_record

end Matrix

end BuildMatrix
