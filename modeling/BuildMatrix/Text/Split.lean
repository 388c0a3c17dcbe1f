/-!
# Splitting text at a separator

`splitAt sep` cuts a run of characters at every separator.
-/

namespace BuildMatrix.Text

/-- The parts of a run of characters between separators; one more than there are separators. -/
def splitAt (sep : Char) : List Char → List (List Char)
  | [] => [[]]
  | c :: rest =>
    if c = sep then [] :: splitAt sep rest
    else
      match splitAt sep rest with
      | [] => [[c]]
      | part :: parts => (c :: part) :: parts

/-- The parts of a text. -/
def split (sep : Char) (s : String) : List String := (splitAt sep s.toList).map String.ofList

end BuildMatrix.Text
