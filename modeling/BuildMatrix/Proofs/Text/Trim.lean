import Mathlib.Data.List.DropRight
import BuildMatrix.Text.Blank

/-!
# Trimming

Trimming takes blanks off a text and nothing else (`exists_trim`).  What stays neither starts nor
ends with a blank, which is called tight (`IsTight`, `isTight_trim`).
-/

namespace BuildMatrix.Text

variable {cs blanks : List Char}

/-- A run of characters that neither starts nor ends with a blank. -/
structure IsTight (cs : List Char) : Prop where
  head : ∀ c ∈ cs.head?, isBlank c = false
  last : ∀ c ∈ cs.getLast?, isBlank c = false

/-- A run in which no blank is found has none. -/
theorem isBlank_of_any (h : cs.any isBlank = false) : ∀ c ∈ cs, isBlank c = false := fun c hc =>
  (Bool.not_eq_true _).mp (List.any_eq_false.mp h c hc)

/-! ## The start -/

/-- Only blanks are taken off the start. -/
theorem exists_dropBlanks (cs : List Char) :
    ∃ front, (∀ c ∈ front, isBlank c = true) ∧ cs = front ++ dropBlanks cs :=
  ⟨cs.takeWhile isBlank, fun _ hc => List.mem_takeWhile_imp hc,
    List.takeWhile_append_dropWhile.symm⟩

theorem head?_dropBlanks (cs : List Char) : ∀ c ∈ (dropBlanks cs).head?, isBlank c = false := by
  intro c hc
  have hhead := List.head?_dropWhile_not isBlank cs
  rwa [← dropBlanks, Option.mem_def.mp hc] at hhead

/-- A run that does not start with a blank stays as it is. -/
theorem dropBlanks_eq_self (h : ∀ c ∈ cs.head?, isBlank c = false) : dropBlanks cs = cs := by
  cases cs with
  | nil => rfl
  | cons c rest => exact List.dropWhile_cons_of_neg (by simp [h c rfl])

/-! ## The end -/

/-- Only blanks are taken off the end. -/
theorem exists_dropBlanksEnd (cs : List Char) :
    ∃ back, (∀ c ∈ back, isBlank c = true) ∧ cs = dropBlanksEnd cs ++ back :=
  ⟨cs.rtakeWhile isBlank, fun _ hc => List.mem_rtakeWhile_imp hc,
    List.rdropWhile_append_rtakeWhile.symm⟩

theorem getLast?_dropBlanksEnd (cs : List Char) :
    ∀ c ∈ (dropBlanksEnd cs).getLast?, isBlank c = false := by
  intro c hc
  obtain ⟨hne, rfl⟩ := List.mem_getLast?_eq_getLast hc
  exact (Bool.not_eq_true _).mp (List.rdropWhile_last_not isBlank cs hne)

/-- A run that does not end with a blank stays as it is. -/
theorem dropBlanksEnd_eq_self (h : ∀ c ∈ cs.getLast?, isBlank c = false) :
    dropBlanksEnd cs = cs := by
  refine List.rdropWhile_eq_self_iff.mpr fun hne => ?_
  rw [h _ (List.getLast?_eq_some_getLast hne)]
  exact Bool.false_ne_true

/-- Blanks at the end do not matter. -/
theorem dropBlanksEnd_append_blanks (h : ∀ c ∈ blanks, isBlank c = true) :
    dropBlanksEnd (cs ++ blanks) = dropBlanksEnd cs := by
  rw [dropBlanksEnd, List.reverse_append,
    List.dropWhile_append_of_pos fun c hc => h c (List.mem_reverse.mp hc)]
  rfl

/-! ## Both ends -/

/-- Trimming takes blanks off both ends. -/
theorem exists_trim (s : String) :
    ∃ front back, (∀ c ∈ front, isBlank c = true) ∧ (∀ c ∈ back, isBlank c = true) ∧
      s.toList = front ++ ((trim s).toList ++ back) := by
  obtain ⟨front, hfront, hstart⟩ := exists_dropBlanks s.toList
  obtain ⟨back, hback, hend⟩ := exists_dropBlanksEnd (dropBlanks s.toList)
  refine ⟨front, back, hfront, hback, ?_⟩
  rw [trim, String.toList_ofList, ← hend]
  exact hstart

/-- What stays is tight. -/
theorem isTight_trim (s : String) : IsTight (trim s).toList := by
  rw [trim, String.toList_ofList]
  refine ⟨fun c hc => head?_dropBlanks s.toList c ?_, getLast?_dropBlanksEnd _⟩
  obtain ⟨back, -, hend⟩ := exists_dropBlanksEnd (dropBlanks s.toList)
  rw [hend, List.head?_append, Option.mem_def.mp hc]
  rfl

/-- A tight text stays as it is. -/
theorem trim_eq_self {s : String} (h : IsTight s.toList) : trim s = s := by
  rw [trim, dropBlanks_eq_self h.head, dropBlanksEnd_eq_self h.last, String.ofList_toList]

theorem isTight_of_forall (h : ∀ c ∈ cs, isBlank c = false) : IsTight cs :=
  ⟨fun c hc => h c (List.mem_of_mem_head? hc), fun c hc => h c (List.mem_of_mem_getLast? hc)⟩

end BuildMatrix.Text
