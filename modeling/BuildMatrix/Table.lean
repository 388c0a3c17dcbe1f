import BuildMatrix.Matrix
import BuildMatrix.Text.Units

/-!
# The matrix as a plain table

A job is shown as a row of cells, the environment sorted by name. The columns are as wide as their
longest cell, counted in 16-bit units, and a line of cells does not end in blanks.
-/

namespace BuildMatrix

/-- A row of the table. -/
structure JobRow where
  id : String
  name : String
  image : String
  flags : String
  env : String
  command : String
deriving DecidableEq, Repr, Inhabited

namespace JobRow

/-- The flags of a job between commas, or `-`. -/
def flagsText (job : Job) : String :=
  let flags :=
    (if job.needsBuildx then ["buildx"] else []) ++
    (if job.coverage then ["coverage"] else []) ++
    (if job.createRelease then ["release"] else [])
  if flags.isEmpty then "-" else ",".intercalate flags

/-- The environment as assignments, sorted by name, or `-`. -/
def envText (env : Record String) : String :=
  let sorted := env.mergeSort fun a b => Text.notAfter a.1 b.1
  if sorted.isEmpty then "-"
  else " ".intercalate (sorted.map fun entry => entry.1 ++ "=" ++ entry.2)

/-- The row of the job at an index; a job without a name goes by its number. -/
def ofJob (job : Job) (index : Nat) : JobRow :=
  { id := "job-" ++ toString index
    name := job.name.getD ("#" ++ toString (index + 1))
    image := job.image
    flags := flagsText job
    env := envText job.env
    command := job.command }

/-- The cells of a row, from left to right. -/
def cells (row : JobRow) : List String := [row.name, row.image, row.flags, row.env]

end JobRow

namespace Table

/-- The rows of a matrix. -/
def rows (m : Matrix) : List JobRow := m.jobs.mapIdx fun index job => .ofJob job index

/-- The title line. -/
def title (context : RunContext) (count : Nat) : String :=
  "Build matrix · " ++ context.describe ++ " · " ++ toString count ++ " job(s)"

/-- The column heads. -/
def heads : List String := ["NAME", "IMAGE", "FLAGS", "ENV"]

/-- The width of each column: that of its longest cell, the head included. -/
def widths (rows : List JobRow) : List Nat :=
  rows.foldl (fun widths row => widths.zipWith max (row.cells.map Text.length))
    (heads.map Text.length)

/-- A line of padded cells, two spaces apart. -/
def paddedLine (widths : List Nat) (cells : List String) : String :=
  "  ".intercalate (List.zipWith Text.padEnd cells widths)

/-- A line of cells without the blanks at its end. -/
def line (widths : List Nat) (cells : List String) : String :=
  Text.trimEnd (paddedLine widths cells)

/-- The lines of a row, with its command if asked for. -/
def rowLines (widths : List Nat) (commands : Bool) (row : JobRow) : List String :=
  line widths row.cells :: if commands then ["  " ++ row.command] else []

/-- The whole table. -/
def lines (context : RunContext) (rows : List JobRow) (commands : Bool) : List String :=
  let widths := Table.widths rows
  title context rows.length :: line widths heads :: rows.flatMap (rowLines widths commands)

end Table

end BuildMatrix
