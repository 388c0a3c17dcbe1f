import BuildMatrix.Proofs.Job.Descriptor
import BuildMatrix.Proofs.Matrix.Document
import BuildMatrix.Table
import BuildMatrix.Text.Split

/-!
# The table shows what the document says

A job can be told from its record (`record_injective`), and the jobs of a reachable matrix from its
compact text (`Reachable.jobs_eq_of_compact_eq`).  Every job of such a matrix names the tag or branch
of the run (`Reachable.context_eq`), so the title of a table with rows can be told from the jobs as
well.  Two reachable matrices with the same compact text are therefore shown as the same table, and
each row shows the values of its record (`table_faithful`).
-/

namespace BuildMatrix

/-! ## Jobs and their records -/

theorem Json.ofRecord_injective : Function.Injective Json.ofRecord := by
  intro r r' h
  have hentry : Function.Injective fun entry : String × String =>
      (entry.1, Json.string entry.2) := by
    rintro ⟨name, value⟩ ⟨name', value'⟩ heq
    obtain ⟨hname, hvalue⟩ := Prod.mk.inj heq
    rw [Prod.mk.injEq]
    exact ⟨hname, Json.string.inj hvalue⟩
  exact List.map_injective_iff.mpr hentry (Json.object.inj h)

/-- A job can be told from its record. -/
theorem Job.record_injective : Function.Injective Job.record := by
  intro a b h
  have hfields : a.fields = b.fields := Json.object.inj h
  have hwire : ∀ key, a.wire? key = b.wire? key := by
    intro key
    rw [← get?_fields, hfields, get?_fields]
  have htext : ∀ {s t : Option String}, s.map Json.string = t.map Json.string → s = t :=
    fun heq => Option.map_injective (fun _ _ => Json.string.inj) heq
  have hname : a.name = b.name := htext (hwire "name")
  have htag : a.tag = b.tag := htext (hwire "tag")
  have hbranch : a.branch = b.branch := htext (hwire "branch")
  have henv : a.env = b.env := Json.ofRecord_injective (Option.some.inj (hwire "env"))
  have hcommand : a.command = b.command := Json.string.inj (Option.some.inj (hwire "command"))
  have himage : a.image = b.image := Json.string.inj (Option.some.inj (hwire "image"))
  have hcoverage : a.coverage = b.coverage := Json.bool.inj (Option.some.inj (hwire "coverage"))
  have hbuildx : a.needsBuildx = b.needsBuildx :=
    Json.bool.inj (Option.some.inj (hwire "needs_buildx"))
  have hrelease : a.createRelease = b.createRelease :=
    Json.bool.inj (Option.some.inj (hwire "create_release"))
  rw [Job.mk.injEq]
  exact ⟨hname, himage, hcommand, henv, htag, hbranch, hcoverage, hbuildx, hrelease⟩

namespace Matrix

variable {m m' : Matrix}

/-- The jobs of a reachable matrix name the tag or branch of its run. -/
theorem Reachable.context_eq (h : m.Reachable) :
    ∀ job ∈ m.jobs, job.tag = m.context.tag ∧ job.branch = m.context.branch := by
  induction h with
  | empty ref defaults => exact List.forall_mem_nil _
  | add _ _ ih => exact List.forall_mem_append.mpr ⟨ih, List.forall_mem_singleton.mpr ⟨rfl, rfl⟩⟩

/-- The jobs of a reachable matrix can be told from its compact text. -/
theorem Reachable.jobs_eq_of_compact_eq (h : m.Reachable) (h' : m'.Reachable)
    (heq : m.compact = m'.compact) : m.jobs = m'.jobs := by
  have hspells := h'.spells_compact
  rw [← heq] at hspells
  have hdocument : m.document = m'.document := h.spells_compact.unique hspells
  obtain ⟨hfield, -⟩ := List.cons.inj (Json.object.inj hdocument)
  have hrecords := Json.array.inj (Prod.mk.inj hfield).2
  exact List.map_injective_iff.mpr Job.record_injective hrecords

end Matrix

/-! ## The table -/

theorem RunContext.describe_eq {context context' : RunContext} (htag : context.tag = context'.tag)
    (hbranch : context.branch = context'.branch) : context.describe = context'.describe := by
  rw [describe, describe, htag, hbranch]

namespace JobRow

/-- What a row shows of the fields of a record: its flags are those that the record sets, and it has
the command and the image of the record. -/
structure Shows (row : JobRow) (fields : Record Json) : Prop where
  buildx : "buildx" ∈ Text.split ',' row.flags ↔ fields.get? "needs_buildx" = some (.bool true)
  coverage : "coverage" ∈ Text.split ',' row.flags ↔ fields.get? "coverage" = some (.bool true)
  release : "release" ∈ Text.split ',' row.flags ↔
    fields.get? "create_release" = some (.bool true)
  known : ∀ flag ∈ Text.split ',' row.flags, flag ∈ ["buildx", "coverage", "release", "-"]
  command : fields.get? "command" = some (.string row.command)
  image : fields.get? "image" = some (.string row.image)

/-- The flags between the commas are those of the job. -/
theorem mem_split_flagsText (job : Job) :
    ("buildx" ∈ Text.split ',' (flagsText job) ↔ job.needsBuildx = true) ∧
      ("coverage" ∈ Text.split ',' (flagsText job) ↔ job.coverage = true) ∧
      ("release" ∈ Text.split ',' (flagsText job) ↔ job.createRelease = true) ∧
      ∀ flag ∈ Text.split ',' (flagsText job), flag ∈ ["buildx", "coverage", "release", "-"] := by
  unfold flagsText
  cases job.needsBuildx <;> cases job.coverage <;> cases job.createRelease <;> decide

/-- The row of a job shows the record of the job. -/
theorem shows_ofJob (job : Job) (index : Nat) : (ofJob job index).Shows job.fields := by
  obtain ⟨hbuildx, hcoverage, hrelease, hknown⟩ := mem_split_flagsText job
  have hbool : ∀ {b : Bool}, some (Json.bool b) = some (.bool true) ↔ b = true := by simp
  exact
    { buildx := by rw [Job.get?_fields, Job.wire?, hbool]; exact hbuildx
      coverage := by rw [Job.get?_fields, Job.wire?, hbool]; exact hcoverage
      release := by rw [Job.get?_fields, Job.wire?, hbool]; exact hrelease
      known := hknown
      command := Job.get?_fields job "command"
      image := Job.get?_fields job "image" }

end JobRow

theorem Table.rows_eq_nil_iff {m : Matrix} : Table.rows m = [] ↔ m.jobs = [] :=
  List.mapIdx_eq_nil_iff

/-- The title counts jobs and names the run as the jobs do. -/
theorem Matrix.Reachable.title_eq {m m' : Matrix} (h : m.Reachable) (h' : m'.Reachable)
    (hjobs : m.jobs = m'.jobs) (hne : m.jobs ≠ []) (count : Nat) :
    Table.title m.context count = Table.title m'.context count := by
  obtain ⟨job, hjob⟩ := List.exists_mem_of_ne_nil _ hne
  obtain ⟨htag, hbranch⟩ := h.context_eq job hjob
  have hjob' : job ∈ m'.jobs := by
    rw [← hjobs]
    exact hjob
  obtain ⟨htag', hbranch'⟩ := h'.context_eq job hjob'
  have hdescribe : m.context.describe = m'.context.describe :=
    RunContext.describe_eq (htag.symm.trans htag') (hbranch.symm.trans hbranch')
  unfold Table.title
  rw [hdescribe]

/-- The table and the document never disagree.  Two reachable matrices with one compact text have the
same rows and column widths, and the same table under the same title if there are rows at all; and
row by row a table shows the records of the document. -/
theorem table_faithful {m m' : Matrix} (h : m.Reachable) (h' : m'.Reachable) :
    (m.compact = m'.compact →
      Table.rows m = Table.rows m' ∧
        Table.widths (Table.rows m) = Table.widths (Table.rows m') ∧
        (Table.rows m ≠ [] → ∀ commands,
          Table.lines m.context (Table.rows m) commands =
            Table.lines m'.context (Table.rows m') commands)) ∧
      ∃ records, m.document = .object [("include", .array records)] ∧
        List.Forall₂ (fun row record => ∃ fields, record = .object fields ∧ row.Shows fields)
          (Table.rows m) records := by
  constructor
  · intro heq
    have hjobs := h.jobs_eq_of_compact_eq h' heq
    have hrows : Table.rows m = Table.rows m' := by rw [Table.rows, Table.rows, hjobs]
    refine ⟨hrows, congrArg Table.widths hrows, fun hne commands => ?_⟩
    have hne' : m.jobs ≠ [] := fun hnil => hne (Table.rows_eq_nil_iff.mpr hnil)
    rw [Table.lines, Table.lines, ← hrows, h.title_eq h' hjobs hne']
  · refine ⟨m.jobs.map Job.record, rfl, List.forall₂_iff_get.mpr ⟨by simp [Table.rows], ?_⟩⟩
    intro i hi hi'
    have hlt : i < m.jobs.length := by simpa using hi'
    refine ⟨m.jobs[i].fields, by simp [Job.record_eq], ?_⟩
    have hrow : (Table.rows m).get ⟨i, hi⟩ = .ofJob m.jobs[i] i := by simp [Table.rows]
    rw [hrow]
    exact JobRow.shows_ofJob _ i

/-- A reference that names nothing is as good as none, and an image may come from the defaults or
from the options. -/
theorem table_faithful_defaults :
    let m := (Matrix.empty (some "refs/pull/1") { image := "a" }).add
      { platform := some "p", coverage := some true }
    let m' := (Matrix.empty none {}).add
      { image := some "a", platform := some "p", coverage := some true }
    m.Reachable ∧ m'.Reachable ∧ m ≠ m' ∧ m.compact = m'.compact ∧ Table.rows m ≠ [] ∧
      Table.lines m.context (Table.rows m) true = Table.lines m'.context (Table.rows m') true := by
  intro m m'
  have h : m.Reachable := .add (.empty _ _) fun env henv => by cases henv
  have h' : m'.Reachable := .add (.empty _ _) fun env henv => by cases henv
  have hjobs : m.jobs = m'.jobs := by rfl
  have heq : m.compact = m'.compact := by
    rw [Matrix.compact, Matrix.compact, Matrix.document, Matrix.document, hjobs]
  have hne : Table.rows m ≠ [] := by decide
  exact ⟨h, h', by decide, heq, hne, ((table_faithful h h').1 heq).2.2 hne true⟩

end BuildMatrix
