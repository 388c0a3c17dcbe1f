import BuildMatrix.Job

/-!
# The build matrix

A matrix holds jobs in the order in which they were added. All of them are made with the defaults
and the reference of the matrix, and none is changed or removed afterwards.
-/

namespace BuildMatrix

/-- Jobs that share a run and defaults. -/
structure Matrix where
  context : RunContext
  defaults : Defaults
  jobs : List Job := []
deriving DecidableEq, Repr, Inhabited

namespace Matrix

/-- A matrix without jobs, for the run that a reference started. -/
def empty (ref : Option String) (defaults : Defaults) : Matrix :=
  { context := .ofRef ref, defaults }

/-- The number of jobs. -/
def size (m : Matrix) : Nat := m.jobs.length

/-- The job that options make in this matrix. -/
def job (m : Matrix) (options : BuildOptions) : Job := .ofOptions m.context m.defaults options

/-- Adds a job after the others. -/
def add (m : Matrix) (options : BuildOptions) : Matrix :=
  { m with jobs := m.jobs ++ [m.job options] }

/-- Adds jobs one after the other. -/
def addAll (m : Matrix) (options : List BuildOptions) : Matrix := options.foldl add m

/-- The document of the matrix: the records of its jobs under `include`. -/
def document (m : Matrix) : Json := .object [("include", .array (m.jobs.map Job.record))]

end Matrix

end BuildMatrix
