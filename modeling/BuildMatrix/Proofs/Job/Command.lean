import BuildMatrix.Job
import BuildMatrix.Proofs.Number.Characters
import BuildMatrix.Proofs.Text.Words

/-!
# The words of a command line

A command line is put together from the trimmed pieces that are not blank (`shown`).  These are
tight (`areTight_shown`), so the command line has the words of its pieces, one after the other
(`wordsOf_compose`), starts and ends with one of them (`isTight_compose`), and has two blanks next
to each other only inside of a piece (`compose_words`).
-/

namespace BuildMatrix.CommandParts

open Text

variable {parts : CommandParts}

/-- The pieces that stand in the command line. -/
def shown (parts : CommandParts) : List String := (parts.pieces.map trim).filter (· != "")

theorem toList_compose (parts : CommandParts) :
    parts.compose.toList = [' '].intercalate (parts.shown.map String.toList) := by
  rw [compose, String.toList_intercalate]
  rfl

/-- The pieces that are shown are there and are tight. -/
theorem areTight_shown (parts : CommandParts) : AreTight (parts.shown.map String.toList) := by
  intro piece hpiece
  obtain ⟨_, hshown, rfl⟩ := List.mem_map.mp hpiece
  obtain ⟨htrimmed, hne⟩ := List.mem_filter.mp hshown
  obtain ⟨piece, -, rfl⟩ := List.mem_map.mp htrimmed
  refine ⟨?_, isTight_trim piece⟩
  rw [Ne, String.toList_eq_nil_iff]
  exact bne_iff_ne.mp hne

theorem isBlank_of_mem_jobs (parts : CommandParts) :
    ∀ c ∈ ("-j" ++ parts.jobs.toText).toList, isBlank c = false := by
  rw [String.toList_append]
  exact List.forall_mem_append.mpr ⟨isBlank_of_any (by decide), parts.jobs.isBlank_of_mem_toText⟩

theorem jobs_ne_empty (parts : CommandParts) : "-j" ++ parts.jobs.toText ≠ "" := by
  simp [← String.toList_inj]

/-- The piece for the number of jobs is shown as it is, behind what is shown of the checker. -/
theorem exists_shown_eq (parts : CommandParts) :
    ∃ back, parts.shown =
      [trim parts.checker].filter (· != "") ++ ("-j" ++ parts.jobs.toText) :: back := by
  have htrim : trim ("-j" ++ parts.jobs.toText) = "-j" ++ parts.jobs.toText :=
    trim_eq_self (isTight_of_forall parts.isBlank_of_mem_jobs)
  refine ⟨[trim ("--image=" ++ parts.image), trim (parts.args.getD ""),
    trim (parts.commandArgs.getD ""), trim parts.platformOption].filter (· != ""), ?_⟩
  rw [shown, pieces, List.map_cons, List.map_cons, htrim, ← List.singleton_append,
    List.filter_append]
  have hjobs : ("-j" ++ parts.jobs.toText != "") = true := bne_iff_ne.mpr parts.jobs_ne_empty
  exact congrArg _ (List.filter_cons_of_pos (p := (· != "")) hjobs)

theorem jobs_mem_shown (parts : CommandParts) : "-j" ++ parts.jobs.toText ∈ parts.shown := by
  obtain ⟨back, hshown⟩ := parts.exists_shown_eq
  rw [hshown]
  exact List.mem_append_right _ List.mem_cons_self

/-- It is one word. -/
theorem wordsOf_jobs (parts : CommandParts) :
    wordsOf ("-j" ++ parts.jobs.toText) = ["-j" ++ parts.jobs.toText] := by
  have hne : ("-j" ++ parts.jobs.toText).toList ≠ [] := by
    rw [Ne, String.toList_eq_nil_iff]
    exact parts.jobs_ne_empty
  rw [wordsOf, words_eq_singleton hne parts.isBlank_of_mem_jobs, List.map_singleton,
    String.ofList_toList]

/-- A platform counts if it is given and not empty. -/
theorem wordsOf_platformOption (parts : CommandParts) :
    wordsOf parts.platformOption =
      ((parts.platform.filter (· ≠ "")).map fun p => wordsOf ("--platform=" ++ p)).getD [] := by
  rw [platformOption]
  cases parts.platform with
  | none => rfl
  | some platform =>
    by_cases hp : platform = ""
    · subst hp
      rfl
    · rw [Option.filter_some_pos (by simpa using hp)]
      dsimp only
      rw [if_neg hp]
      rfl

/-- A command line has the words of its pieces. -/
theorem wordsOf_compose (parts : CommandParts) :
    wordsOf parts.compose = parts.pieces.flatMap wordsOf := by
  have hblank : ∀ texts : List String,
      (texts.filter (· != "")).flatMap wordsOf = texts.flatMap wordsOf := by
    intro texts
    induction texts with
    | nil => rfl
    | cons text rest ih =>
      by_cases htext : text = ""
      · rw [List.filter_cons_of_neg (by simpa using htext), ih, htext]
        rfl
      · rw [List.filter_cons_of_pos (by simpa using htext), List.flatMap_cons, ih,
          List.flatMap_cons]
  calc wordsOf parts.compose
      = parts.shown.flatMap wordsOf := wordsOf_intercalate parts.shown
    _ = (parts.pieces.map trim).flatMap wordsOf := hblank _
    _ = parts.pieces.flatMap wordsOf := by
      simp only [List.flatMap_map, wordsOf_trim]

/-- A command line does not start or end with a blank. -/
theorem isTight_compose (parts : CommandParts) : IsTight parts.compose.toList := by
  rw [toList_compose]
  exact isTight_intercalate parts.areTight_shown

theorem compose_ne_empty (parts : CommandParts) : parts.compose ≠ "" := by
  rw [Ne, ← String.toList_eq_nil_iff, toList_compose]
  refine intercalate_ne_nil parts.areTight_shown ?_
  exact List.ne_nil_of_mem (List.mem_map_of_mem parts.jobs_mem_shown)

/-- No word of a piece is lost, split or moved in a command line, and no two words are put together:
its words are those of its pieces, in their order; what is missing has none.  A command line is
never empty, does not start or end with a blank, and two blanks follow each other only inside of a
piece. -/
theorem compose_words (parts : CommandParts) :
    wordsOf parts.compose =
        wordsOf parts.checker ++ ["-j" ++ parts.jobs.toText] ++
          wordsOf ("--image=" ++ parts.image) ++ (parts.args.map wordsOf).getD [] ++
          (parts.commandArgs.map wordsOf).getD [] ++
          ((parts.platform.filter (· ≠ "")).map fun p => wordsOf ("--platform=" ++ p)).getD [] ∧
      parts.compose ≠ "" ∧ IsTight parts.compose.toList ∧
      ∀ before c d after, parts.compose.toList = before ++ c :: d :: after →
        isBlank c = true → isBlank d = true →
          InPiece (parts.shown.map String.toList) before c d after := by
  refine ⟨?_, parts.compose_ne_empty, parts.isTight_compose, fun before c d after heq hc hd => ?_⟩
  · have hpieces : parts.pieces =
        [parts.checker, "-j" ++ parts.jobs.toText, "--image=" ++ parts.image,
          parts.args.getD "", parts.commandArgs.getD "", parts.platformOption] := rfl
    have hgiven : ∀ given : Option String,
        wordsOf (given.getD "") = (given.map wordsOf).getD [] := by
      intro given
      cases given <;> rfl
    simp only [wordsOf_compose, hpieces, List.flatMap_cons, List.flatMap_nil, List.append_nil,
      wordsOf_jobs, hgiven, wordsOf_platformOption, List.append_assoc]
  · rw [toList_compose] at heq
    exact inPiece_of_blanks parts.areTight_shown hc hd heq

/-- Two spaces inside of the checker stay, and nothing is left of the blanks around it. -/
theorem compose_words_twoSpaces :
    let parts : CommandParts :=
      { checker := "\u00a0a  b\n", jobs := 2, image := "", args := some " ", platform := some "p " }
    let after := "b -j2 --image= --platform=p".toList
    parts.compose.toList = ['a'] ++ ' ' :: ' ' :: after ∧
      InPiece (parts.shown.map String.toList) ['a'] ' ' ' ' after := by
  intro parts after
  have heq : parts.compose.toList = ['a'] ++ ' ' :: ' ' :: after := by decide +kernel
  exact ⟨heq, (compose_words parts).2.2.2 _ _ _ _ heq (by decide) (by decide)⟩

end BuildMatrix.CommandParts
