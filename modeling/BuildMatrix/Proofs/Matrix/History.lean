import BuildMatrix.Matrix.Output
import BuildMatrix.Proofs.Job.Descriptor

/-!
# The history of a matrix

A caller adds jobs to a matrix and looks at it in between, in any order (`Operation`).  What a step
does is one fact (`after_eq_addAll`): it adds the jobs that it asks for, and looking adds none.  By
induction over the history, only the calls that add a job leave a trace (`run_eq_addAll`), each of
them one job that depends on nothing but the reference, the defaults and its own options
(`history_faithful`).
-/

namespace BuildMatrix.Matrix

/-- What a caller can do with a matrix. -/
inductive Operation where
  | add (options : BuildOptions)
  | entries
  | document
  | compact
  | size
deriving DecidableEq, Repr

/-- What a caller gets from an operation. -/
inductive Answer where
  | job (job : Job)
  | jobs (jobs : List Job)
  | document (document : Json)
  | text (text : String)
  | count (n : Nat)

namespace Operation

/-- The options of the job that an operation adds, if it adds one. -/
def call? : Operation → Option BuildOptions
  | .add options => some options
  | .entries | .document | .compact | .size => none

/-- The options of the jobs that are added in a history, in order. -/
def calls (history : List Operation) : List BuildOptions := history.filterMap call?

end Operation

open Operation (calls)

/-! ## Steps and runs -/

/-- What an operation on a matrix answers. -/
def answer (m : Matrix) : Operation → Answer
  | .add options => .job (m.job options)
  | .entries => .jobs m.jobs
  | .document => .document m.document
  | .compact => .text m.compact
  | .size => .count m.size

/-- The matrix after an operation. -/
def after (m : Matrix) : Operation → Matrix
  | .add options => m.add options
  | .entries | .document | .compact | .size => m

/-- The matrix after a history. -/
def run (m : Matrix) (history : List Operation) : Matrix := history.foldl after m

/-- The answers that a caller gets in a history, in order. -/
def answers (m : Matrix) : List Operation → List Answer
  | [] => []
  | operation :: rest => m.answer operation :: (m.after operation).answers rest

variable {m : Matrix}

/-- An operation adds the jobs that it asks for and does nothing else. -/
theorem after_eq_addAll (m : Matrix) (operation : Operation) :
    m.after operation = m.addAll operation.call?.toList := by
  cases operation <;> rfl

theorem addAll_append (m : Matrix) (first second : List BuildOptions) :
    m.addAll (first ++ second) = (m.addAll first).addAll second :=
  List.foldl_append

/-- Of a history only the calls that add a job leave a trace. -/
theorem run_eq_addAll (m : Matrix) (history : List Operation) :
    m.run history = m.addAll (calls history) := by
  induction history generalizing m with
  | nil => rfl
  | cons operation rest ih =>
    have hcalls : calls (operation :: rest) = operation.call?.toList ++ calls rest := by
      cases operation <;> rfl
    calc m.run (operation :: rest)
        = (m.after operation).run rest := rfl
      _ = (m.after operation).addAll (calls rest) := ih _
      _ = m.addAll (calls (operation :: rest)) := by
        rw [after_eq_addAll, ← addAll_append, hcalls]

/-- Each call adds one job after the others, made in the run and with the defaults of the matrix,
which stay as they are. -/
theorem addAll_eq (m : Matrix) (added : List BuildOptions) :
    m.addAll added = { m with jobs := m.jobs ++ added.map (Job.ofOptions m.context m.defaults) } := by
  induction added generalizing m with
  | nil => simp [addAll]
  | cons options rest ih =>
    calc m.addAll (options :: rest)
        = (m.add options).addAll rest := rfl
      _ = { m with
            jobs := (m.add options).jobs ++ rest.map (Job.ofOptions m.context m.defaults) } := ih _
      _ = { m with
            jobs := m.jobs ++ (options :: rest).map (Job.ofOptions m.context m.defaults) } := by
        rw [add, List.append_assoc, List.map_cons, List.singleton_append, job]

theorem jobs_addAll (m : Matrix) (added : List BuildOptions) :
    (m.addAll added).jobs = m.jobs ++ added.map (Job.ofOptions m.context m.defaults) := by
  rw [addAll_eq]

/-- The answer to an operation is that of the matrix which the calls before it have made. -/
theorem getElem?_answers (m : Matrix) (history : List Operation) (i : Nat) :
    (m.answers history)[i]? =
      history[i]?.map (m.addAll (calls (history.take i))).answer := by
  rw [← run_eq_addAll]
  induction history generalizing m i with
  | nil => rfl
  | cons operation rest ih =>
    cases i with
    | zero => rfl
    | succ i => exact ih (m.after operation) i

/-! ## The invariant -/

/-- Whatever a caller does with a matrix, it holds one job for each call that added one, in order.
A job depends on the reference, the defaults and the options of its own call alone; later operations
leave it as it is, and every answer is that of the calls made before it.  Each job says what its
reference and its options ask for, and its record in the document writes it. -/
theorem history_faithful (ref : Option String) (defaults : Defaults) (history : List Operation) :
    let start := empty ref defaults
    let m := start.run history
    let made := Job.ofOptions (.ofRef ref) defaults
    m.size = (calls history).length ∧
      (∀ i : Nat, m.jobs[i]? = (calls history)[i]?.map made) ∧
      (∀ later, m.jobs <+: (m.run later).jobs) ∧
      (∀ i : Nat, (start.answers history)[i]? =
        history[i]?.map (start.addAll (calls (history.take i))).answer) ∧
      m.document = .object [("include", .array (m.jobs.map Job.record))] ∧
      ∀ (i : Nat) options, (calls history)[i]? = some options →
        ∃ job fields, m.jobs[i]? = some job ∧ job.record = .object fields ∧
          job.Describes ref options ∧ job.Written fields := by
  intro start m made
  have hjobs : m.jobs = (calls history).map made := by
    show (start.run history).jobs = _
    rw [run_eq_addAll, jobs_addAll]
    rfl
  refine ⟨?_, fun i => ?_, fun later => ?_, getElem?_answers start history, rfl,
    fun i options hcall => ?_⟩
  · rw [size, hjobs, List.length_map]
  · rw [hjobs, List.getElem?_map]
  · rw [run_eq_addAll, jobs_addAll]
    exact List.prefix_append _ _
  · refine ⟨made options, (made options).fields, ?_, Job.record_eq _,
      Job.describes_ofOptions ref defaults options, Job.written_fields _⟩
    rw [hjobs, List.getElem?_map, hcall, Option.map_some]

/-- On a tag with an empty name, a job with a distribution check makes a release, and coverage takes
the place of what the caller had set. -/
theorem history_faithful_emptyTag :
    let history : List Operation :=
      [.size, .add { env := some [("7", "x"), ("COVERAGE", "no"), ("DISTCHECK", "")]
                     coverage := some true },
        .compact, .add { platform := some "" }, .entries]
    let m := (empty (some "refs/tags/") {}).run history
    m.size = 2 ∧
      ∃ job fields, m.jobs[0]? = some job ∧ job.record = .object fields ∧ job.tag = some "" ∧
        job.createRelease = true ∧ Record.get? job.env "COVERAGE" = some "t" ∧
        "tag" ∈ Record.names fields ∧ "branch" ∉ Record.names fields := by
  intro history m
  obtain ⟨hsize, hmade, -, -, -, hcalls⟩ := history_faithful (some "refs/tags/") {} history
  obtain ⟨job, fields, hjob, hrecord, hdescribes, hwritten⟩ := hcalls 0 _ rfl
  have htag : job.tag = some "" := (hdescribes.tag "").mpr ⟨rfl, List.forall_mem_nil _⟩
  have hnamed : job.tag ≠ none := htag ▸ Option.some_ne_none _
  have hbranch : job.branch = none := hdescribes.tagOrBranch.resolve_left hnamed
  have hcovered : job.coverage = true := hdescribes.coverage.mpr rfl
  have hcheck : "DISTCHECK" ∈ Record.names job.env := by
    obtain rfl := Option.some.inj ((hmade 0).symm.trans hjob)
    decide
  refine ⟨hsize, job, fields, hjob, hrecord, htag, hdescribes.release.mpr ⟨hnamed, hcheck⟩,
    hdescribes.covered hcovered, hwritten.tag.mpr hnamed, ?_⟩
  rw [hwritten.branch, hbranch]
  exact fun h => h rfl

end BuildMatrix.Matrix
