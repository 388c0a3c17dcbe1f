import BuildMatrix.Json.Pretty
import BuildMatrix.Matrix

/-!
# The printed forms of a matrix

A matrix is printed compactly, for other programs, or with sorted keys and indentation, for
people. Both are forms of the same document.
-/

namespace BuildMatrix.Matrix

/-- The document on one line. -/
def compact (m : Matrix) : String := m.document.compact

/-- The document with sorted keys, indented. -/
def pretty (m : Matrix) : String := m.document.pretty

/-- The line that hands a document to later steps of a workflow. -/
def outputLine (json : String) : String := "matrix=" ++ json ++ "\n"

end BuildMatrix.Matrix
