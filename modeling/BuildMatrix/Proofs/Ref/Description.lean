import BuildMatrix.Proofs.Ref.Naming

/-!
# What the description of a reference tells

References come in two shapes, and all others name nothing.  A description says which shape there
was and repeats the name, so for runs that do not name both a tag and a branch it tells the two
apart (`describe_eq_iff`).  No run names both, so references have one description exactly if they
name the same (`ofRef_shapes`).
-/

namespace BuildMatrix

/-- The characters that a name cannot hold. -/
theorem Text.isOneLine_iff {s : String} :
    Text.IsOneLine s ↔ s.toList.Disjoint ['\n', '\r', '\u2028', '\u2029'] := by
  have hchar : ∀ c : Char,
      Text.isLineEnd c = false ↔ c ∉ ['\n', '\r', '\u2028', '\u2029'] := by
    intro c
    simp [Text.isLineEnd, and_assoc]
  constructor
  · intro h c hc
    exact (hchar c).mp (h c hc)
  · intro h c hc
    exact (hchar c).mpr (h hc)

/-- Texts that start with different characters are different, however they go on. -/
theorem Text.append_ne_append {a b : String} (ha : a ≠ "") (hb : b ≠ "")
    (h : a.toList.head? ≠ b.toList.head?) (s t : String) : a ++ s ≠ b ++ t := by
  intro heq
  refine h ?_
  calc a.toList.head?
      = (a ++ s).toList.head? := by
        rw [String.toList_append,
          List.head?_append_of_ne_nil _ (String.toList_eq_nil_iff.not.mpr ha)]
    _ = (b ++ t).toList.head? := by rw [heq]
    _ = b.toList.head? := by
        rw [String.toList_append,
          List.head?_append_of_ne_nil _ (String.toList_eq_nil_iff.not.mpr hb)]

namespace RunContext

theorem describe_tag_ne_branch (tag branch : String) : "tag " ++ tag ≠ "branch " ++ branch :=
  Text.append_ne_append (by decide) (by decide) (by decide) tag branch

theorem describe_tag_ne_none (tag : String) : "tag " ++ tag ≠ "no ref" :=
  Text.append_ne_append (b := "no ref") (by decide) (by decide) (by decide) tag ""

theorem describe_branch_ne_none (branch : String) : "branch " ++ branch ≠ "no ref" :=
  Text.append_ne_append (b := "no ref") (by decide) (by decide) (by decide) branch ""

/-- The description of a run tells what it names, unless the run names both a tag and a branch. -/
theorem describe_eq_iff {context context' : RunContext}
    (h : context.tag = none ∨ context.branch = none)
    (h' : context'.tag = none ∨ context'.branch = none) :
    context.describe = context'.describe ↔
      context.tag = context'.tag ∧ context.branch = context'.branch := by
  obtain ⟨ref, tag, branch⟩ := context
  obtain ⟨ref', tag', branch'⟩ := context'
  have hbranchTag := fun branch tag => (describe_tag_ne_branch tag branch).symm
  have hnoneTag := fun tag => (describe_tag_ne_none tag).symm
  have hnoneBranch := fun branch => (describe_branch_ne_none branch).symm
  cases tag <;> cases branch <;> cases tag' <;> cases branch' <;>
    simp_all [describe, describe_tag_ne_branch, describe_tag_ne_none, describe_branch_ne_none]

/-- The reference is kept as it is given. -/
theorem ref_ofRef (ref : Option String) : (ofRef ref).ref = ref := by
  cases ref with
  | none => rfl
  | some r =>
    rw [ofRef]
    cases nameAfter? "refs/heads/" r <;> rfl

/-- A reference names a branch if it is `refs/heads/` and the name, and a tag if it is `refs/tags/`
and the name, on one line; every other one, and none at all, names neither.  What a reference names
can be told from its description. -/
theorem ofRef_shapes :
    (∀ ref name : String,
      ((ofRef ref).branch = some name ↔
        ref = "refs/heads/" ++ name ∧
          name.toList.Disjoint ['\n', '\r', '\u2028', '\u2029']) ∧
      ((ofRef ref).tag = some name ↔
        ref = "refs/tags/" ++ name ∧
          name.toList.Disjoint ['\n', '\r', '\u2028', '\u2029'])) ∧
    (∀ ref : Option String,
      (ofRef ref).ref = ref ∧ ((ofRef ref).tag = none ∨ (ofRef ref).branch = none) ∧
      ((ofRef ref).tag = none ∧ (ofRef ref).branch = none ↔
        ¬ ∃ name : String, name.toList.Disjoint ['\n', '\r', '\u2028', '\u2029'] ∧
          (ref = some ("refs/heads/" ++ name) ∨ ref = some ("refs/tags/" ++ name)))) ∧
    ofRef none = ⟨none, none, none⟩ ∧
    ∀ ref ref' : Option String,
      (ofRef ref).describe = (ofRef ref').describe ↔
        (ofRef ref).tag = (ofRef ref').tag ∧ (ofRef ref).branch = (ofRef ref').branch := by
  refine ⟨fun ref name => ⟨?_, ?_⟩, fun ref => ⟨ref_ofRef ref, ofRef_tag_or_branch ref, ?_⟩, rfl,
    fun ref ref' => describe_eq_iff (ofRef_tag_or_branch ref) (ofRef_tag_or_branch ref')⟩
  · rw [ofRef_branch_eq_some_iff, Option.some.injEq, Text.isOneLine_iff]
  · rw [ofRef_tag_eq_some_iff, Option.some.injEq, Text.isOneLine_iff]
  · have hnames : (∃ name, (ofRef ref).branch = some name ∨ (ofRef ref).tag = some name) ↔
        ∃ name : String, name.toList.Disjoint ['\n', '\r', '\u2028', '\u2029'] ∧
          (ref = some ("refs/heads/" ++ name) ∨ ref = some ("refs/tags/" ++ name)) := by
      refine exists_congr fun name => ?_
      rw [ofRef_branch_eq_some_iff, ofRef_tag_eq_some_iff, ← or_and_right, and_comm,
        Text.isOneLine_iff]
    rw [← hnames, exists_or, not_or, ← Option.isSome_iff_exists, ← Option.isSome_iff_exists,
      Option.not_isSome_iff_eq_none, Option.not_isSome_iff_eq_none, and_comm]

/-- A name may look like a reference itself, and it may be empty. -/
example : ["refs/tags/refs/heads/a", "refs/heads/", "refs/heads/a\nb", "heads/a"].map
    (fun ref => (ofRef (some ref)).describe) =
    ["tag refs/heads/a", "branch ", "no ref", "no ref"] := by
  decide

end RunContext

end BuildMatrix
