import BuildMatrix.Text.Blank

/-!
# Questions on a terminal

Setting up a directory on a terminal asks two questions: which image to build on, and, if there is
a file already, whether to overwrite it. The answers are the keys that were pressed. The image
question is put again until its answer is not blank.
-/

namespace BuildMatrix

/-- An attempt at a question for a text. -/
inductive TextAnswer where
  | typed (text : String)
  | enter
  | cancel
deriving DecidableEq, Repr

/-- An answer to a question that is answered with no by default. -/
inductive Consent where
  | yes
  | no
  | enter
  | cancel
deriving DecidableEq, Repr

/-- The answers to both questions. -/
structure Answers where
  image : List TextAnswer := []
  overwrite : Consent := .cancel
deriving DecidableEq, Repr

/-- Whether a text has nothing but blanks. -/
def Text.isBlankText (s : String) : Bool := Text.trim s = ""

/-- The text that is submitted, starting from a text that stands in the prompt already. Return
submits the text that stands there, and a blank one stays there. Nothing is submitted after a
cancel, or when the answers run out. -/
def TextAnswer.submitted (standing : String) : List TextAnswer → Option String
  | [] | .cancel :: _ => none
  | .enter :: rest =>
    if Text.isBlankText standing then submitted standing rest else some standing
  | .typed text :: rest => if Text.isBlankText text then submitted text rest else some text

/-- Whether consent was given, if the question was answered. -/
def Consent.given : Consent → Option Bool
  | .yes => some true
  | .no | .enter => some false
  | .cancel => none

end BuildMatrix
