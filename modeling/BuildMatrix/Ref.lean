import BuildMatrix.Text.Blank

/-!
# Source references

The reference of a run names a branch, a tag, or neither, by how it starts. A name has to fit on one
line; a reference that goes on to a second line names nothing.
-/

namespace BuildMatrix

/-- What a run was started for: the reference as given, and the tag or branch that it names. -/
structure RunContext where
  ref : Option String
  tag : Option String
  branch : Option String
deriving DecidableEq, Repr, Inhabited

/-- The rest of a text after a given start. -/
def Text.after? (start s : String) : Option String :=
  if start.toList.isPrefixOf s.toList then some (.ofList (s.toList.drop start.toList.length))
  else none

namespace RunContext

/-- The name that follows a given start, which has to fit on one line. -/
def nameAfter? (start ref : String) : Option String :=
  (Text.after? start ref).filter fun name => !name.toList.any Text.isLineEnd

/-- Reads `refs/heads/…` as a branch and `refs/tags/…` as a tag. -/
def ofRef (ref : Option String) : RunContext :=
  match ref with
  | none => ⟨none, none, none⟩
  | some r =>
    match nameAfter? "refs/heads/" r with
    | some name => ⟨r, none, name⟩
    | none => ⟨r, nameAfter? "refs/tags/" r, none⟩

/-- A short description for people. -/
def describe (context : RunContext) : String :=
  match context.tag, context.branch with
  | some tag, _ => "tag " ++ tag
  | none, some branch => "branch " ++ branch
  | none, none => "no ref"

end RunContext

end BuildMatrix
