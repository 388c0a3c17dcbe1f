import Mathlib.Data.List.Basic
import BuildMatrix.Ref

/-!
# What a reference names

A reference names a branch exactly if it is `refs/heads/` followed by the name on one line
(`ofRef_branch_eq_some_iff`), and a tag exactly if it is `refs/tags/` followed by the name on one
line (`ofRef_tag_eq_some_iff`).  No reference names both (`ofRef_tag_or_branch`).
-/

namespace BuildMatrix

/-- No line ends in a text. -/
def Text.IsOneLine (s : String) : Prop := ∀ c ∈ s.toList, Text.isLineEnd c = false

variable {start s rest name : String}

theorem Text.after?_eq_some_iff : Text.after? start s = some rest ↔ s = start ++ rest := by
  have hsplit : s = start ++ rest ↔ s.toList = start.toList ++ rest.toList := by
    rw [← String.toList_append, String.toList_inj]
  rw [hsplit, Text.after?]
  split
  · rename_i hstart
    obtain ⟨cs, hcs⟩ := List.isPrefixOf_iff_prefix.mp hstart
    rw [← hcs, List.drop_left, Option.some.injEq, List.append_cancel_left_eq]
    constructor
    · rintro rfl
      rw [String.toList_ofList]
    · rintro rfl
      rw [String.ofList_toList]
  · rename_i hstart
    refine iff_of_false (by simp) fun heq => hstart ?_
    exact List.isPrefixOf_iff_prefix.mpr ⟨_, heq.symm⟩

namespace RunContext

theorem nameAfter?_eq_some_iff :
    nameAfter? start s = some name ↔ s = start ++ name ∧ Text.IsOneLine name := by
  simp [nameAfter?, Option.filter_eq_some_iff, Text.after?_eq_some_iff, Text.IsOneLine]

/-- What starts as a branch does not start as a tag. -/
theorem heads_ne_tags {a b : String} : "refs/heads/" ++ a ≠ "refs/tags/" ++ b := by
  intro heq
  have hlist := congrArg String.toList heq
  simp only [String.toList_append] at hlist
  have hfifth := congrArg (fun cs => cs[5]?) hlist
  simp at hfifth

/-- A reference names a branch if it is `refs/heads/` and the name, on one line. -/
theorem ofRef_branch_eq_some_iff {ref : Option String} :
    (ofRef ref).branch = some name ↔
      ref = some ("refs/heads/" ++ name) ∧ Text.IsOneLine name := by
  cases ref with
  | none => simp [ofRef]
  | some r =>
    rw [Option.some.injEq, ← nameAfter?_eq_some_iff, ofRef]
    split
    · rename_i hheads
      rw [hheads]
    · rename_i hheads
      rw [hheads]

/-- A reference names a tag if it is `refs/tags/` and the name, on one line. -/
theorem ofRef_tag_eq_some_iff {ref : Option String} :
    (ofRef ref).tag = some name ↔ ref = some ("refs/tags/" ++ name) ∧ Text.IsOneLine name := by
  cases ref with
  | none => simp [ofRef]
  | some r =>
    rw [Option.some.injEq, ofRef]
    split
    · rename_i found hheads
      obtain ⟨rfl, -⟩ := nameAfter?_eq_some_iff.mp hheads
      exact iff_of_false (by simp) fun htag => heads_ne_tags htag.1
    · exact nameAfter?_eq_some_iff

/-- No reference names a tag and a branch. -/
theorem ofRef_tag_or_branch (ref : Option String) :
    (ofRef ref).tag = none ∨ (ofRef ref).branch = none := by
  rw [or_iff_not_imp_right]
  intro hbranch
  obtain ⟨branch, hbranch⟩ := Option.ne_none_iff_exists'.mp hbranch
  obtain ⟨rfl, -⟩ := ofRef_branch_eq_some_iff.mp hbranch
  refine Option.eq_none_iff_forall_ne_some.mpr fun tag htag => ?_
  exact heads_ne_tags (Option.some.inj (ofRef_tag_eq_some_iff.mp htag).1)

end RunContext

end BuildMatrix
