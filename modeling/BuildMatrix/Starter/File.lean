import BuildMatrix.Config.Load
import BuildMatrix.Starter

/-!
# Putting the starter file into a directory

A file that is there already is replaced only when the caller insists; otherwise nothing is
written.
-/

namespace BuildMatrix.Starter

/-- What became of a starter file. -/
inductive Placed where
  | written (files : Files)
  | exists

/-- Writes the starter file for an image. Anything that has its name already is left alone unless
the caller insists. -/
def place (files : Files) (directory : Path) (image : String) (force : Bool)
    (storage : Storage := .whole) : Except WriteFailure Placed :=
  if files.has (Config.fileIn directory) && !force then .ok .exists
  else (files.write (Config.fileIn directory) (render image) storage).map .written

end BuildMatrix.Starter
