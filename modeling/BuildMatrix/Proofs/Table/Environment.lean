import BuildMatrix.Proofs.Record.Sorted
import BuildMatrix.Table.Frame

/-!
# The text of an environment

The text of an environment is a hyphen exactly if the environment is empty (`envText_eq_hyphen_iff`),
so the frame dims no other one (`styledCells_env`).  Otherwise it has one assignment for each name,
in ascending order, whatever the order in which the names were set (`envText_eq_of_perm`).  As long
as no name holds a space or an equals sign and no value holds a space, the entries can be read in the
text (`readEnv?_envText`), so environments of that kind can be told apart by their texts
(`envText_canonical`).
-/

namespace BuildMatrix

/-! ## Cutting at a separator -/

namespace Text

variable {sep : Char} {cs front back : List Char}

/-- What stands before and behind the first separator, if there is one. -/
def cut? (sep : Char) : List Char → Option (List Char × List Char)
  | [] => none
  | c :: rest =>
    if c = sep then some ([], rest) else (cut? sep rest).map fun parts => (c :: parts.1, parts.2)

/-- A text is cut at a separator that has none before it. -/
theorem cut?_eq_some_iff :
    cut? sep cs = some (front, back) ↔ cs = front ++ sep :: back ∧ sep ∉ front := by
  induction cs generalizing front with
  | nil => simp [cut?]
  | cons c rest ih =>
    by_cases hc : c = sep
    · subst hc
      cases front with
      | nil => simp [cut?]
      | cons d front => simp +contextual [cut?]
    · cases front with
      | nil => simp [cut?, hc]
      | cons d front =>
        -- a character that is no separator stays in front of the first one
        have hmap : (cut? sep rest).map (fun parts => (c :: parts.1, parts.2)) =
            some (d :: front, back) ↔ c = d ∧ cut? sep rest = some (front, back) := by
          cases cut? sep rest <;> simp [Prod.ext_iff, and_assoc]
        rw [cut?, if_neg hc, hmap, ih]
        constructor
        · rintro ⟨rfl, rfl, hfront⟩
          exact ⟨rfl, by simp [Ne.symm hc, hfront]⟩
        · rintro ⟨heq, hfront⟩
          obtain ⟨rfl, hrest⟩ := List.cons.inj heq
          exact ⟨rfl, hrest, fun h => hfront (List.mem_cons_of_mem _ h)⟩

end Text

namespace JobRow

variable {env env' entries : Record String}

/-! ## Assignments -/

/-- The assignment of a value to a name. -/
def assignment (entry : String × String) : String := entry.1 ++ "=" ++ entry.2

/-- An entry that can be read in a text of assignments: no space and no equals sign is part of its
name, and no space is part of its value. -/
structure IsReadable (entry : String × String) : Prop where
  name_space : ' ' ∉ entry.1.toList
  name_equals : '=' ∉ entry.1.toList
  value_space : ' ' ∉ entry.2.toList

instance (entry : String × String) : Decidable (IsReadable entry) :=
  decidable_of_iff (' ' ∉ entry.1.toList ∧ '=' ∉ entry.1.toList ∧ ' ' ∉ entry.2.toList)
    ⟨fun ⟨h₁, h₂, h₃⟩ => ⟨h₁, h₂, h₃⟩, fun ⟨h₁, h₂, h₃⟩ => ⟨h₁, h₂, h₃⟩⟩

/-- The entry that an assignment is read as: its first equals sign ends the name. -/
def readAssignment? (cs : List Char) : Option (String × String) :=
  (Text.cut? '=' cs).map fun parts => (.ofList parts.1, .ofList parts.2)

/-- The entries that are read in assignments with a space between two of them. -/
def readEnv? (text : String) : Option (Record String) :=
  (text.toList.splitOn ' ').mapM readAssignment?

theorem toList_assignment (entry : String × String) :
    (assignment entry).toList = entry.1.toList ++ '=' :: entry.2.toList := by
  simp [assignment]

theorem IsReadable.notMem_assignment {entry : String × String} (h : IsReadable entry) :
    ' ' ∉ (assignment entry).toList := by
  rw [toList_assignment]
  simp [h.name_space, h.value_space]

theorem IsReadable.readAssignment?_eq {entry : String × String} (h : IsReadable entry) :
    readAssignment? (assignment entry).toList = some entry := by
  have hcut : Text.cut? '=' (assignment entry).toList = some (entry.1.toList, entry.2.toList) :=
    Text.cut?_eq_some_iff.mpr ⟨toList_assignment entry, h.name_equals⟩
  rw [readAssignment?, hcut]
  simp

theorem mapM_readAssignment? (h : ∀ entry ∈ entries, IsReadable entry) :
    (entries.map fun entry => (assignment entry).toList).mapM readAssignment? = some entries := by
  induction entries with
  | nil => rfl
  | cons entry rest ih =>
    obtain ⟨hentry, hrest⟩ := List.forall_mem_cons.mp h
    rw [List.map_cons, List.mapM_cons, hentry.readAssignment?_eq, ih hrest]
    rfl

/-- Assignments between spaces are read as the entries that they are made of. -/
theorem readEnv?_intercalate (h : ∀ entry ∈ entries, IsReadable entry) (hne : entries ≠ []) :
    readEnv? (" ".intercalate (entries.map assignment)) = some entries := by
  have hsplit : (" ".intercalate (entries.map assignment)).toList.splitOn ' ' =
      entries.map fun entry => (assignment entry).toList := by
    rw [String.toList_intercalate, List.map_map]
    refine List.splitOn_intercalate ' ' ?_ (by simpa using hne)
    intro part hpart
    obtain ⟨entry, hentry, rfl⟩ := List.mem_map.mp hpart
    exact (h entry hentry).notMem_assignment
  rw [readEnv?, hsplit, mapM_readAssignment? h]

/-! ## The text and the entries in it -/

@[simp] theorem envText_nil : envText [] = "-" := by simp [envText]

/-- The text is made of the assignments of the sorted entries, if there are any. -/
theorem envText_eq (h : env ≠ []) : envText env = " ".intercalate (env.sorted.map assignment) := by
  have hsorted : env.sorted.isEmpty = false := by
    rwa [List.isEmpty_eq_false_iff, Ne, Record.sorted_eq_nil_iff]
  change (if env.sorted.isEmpty then "-" else _) = _
  rw [hsorted]
  rfl

/-- There is an equals sign in every assignment, and none in a hyphen. -/
theorem envText_eq_hyphen_iff : envText env = "-" ↔ env = [] := by
  refine ⟨fun htext => ?_, fun h => h ▸ envText_nil⟩
  by_contra h
  obtain ⟨entry, rest, hsorted⟩ :=
    List.exists_cons_of_ne_nil (mt Record.sorted_eq_nil_iff.mp h)
  rw [envText_eq h, hsorted, List.map_cons, assignment, String.intercalate_cons_append] at htext
  have hmem : '=' ∈ "-".toList := by
    rw [← htext]
    simp
  exact absurd hmem (by decide)

/-- In the frame the environment of a job is dim exactly if there is nothing in it. -/
theorem styledCells_env (job : Job) (index : Nat) :
    (Table.styledCells (ofJob job index))[3]? =
      some (if job.env = [] then .dim else .plain, envText job.env) := by
  simp [Table.styledCells, ofJob, envText_eq_hyphen_iff]

/-- The order in which names are set does not show. -/
theorem envText_eq_of_perm (h : env.Perm env') (hn : (Record.names env).Nodup) :
    envText env = envText env' := by
  by_cases henv : env = []
  · subst henv
    rw [h.nil_eq]
  · have henv' : env' ≠ [] := fun hnil => henv (List.perm_nil.mp (hnil ▸ h))
    rw [envText_eq henv, envText_eq henv', Record.sorted_eq_of_perm h hn]

/-- What is read in the text of an environment are its sorted entries. -/
theorem readEnv?_envText (h : ∀ entry ∈ env, IsReadable entry) (henv : env ≠ []) :
    readEnv? (envText env) = some env.sorted := by
  rw [envText_eq henv]
  refine readEnv?_intercalate (fun entry hentry => h entry ?_) (mt Record.sorted_eq_nil_iff.mp henv)
  exact (Record.sorted_perm env).mem_iff.mp hentry

/-- Environments that can be read have the same entries if they have the same text. -/
theorem perm_of_envText_eq (h : ∀ entry ∈ env, IsReadable entry)
    (h' : ∀ entry ∈ env', IsReadable entry) (htext : envText env = envText env') :
    env.Perm env' := by
  have hnil : env = [] ↔ env' = [] := by
    rw [← envText_eq_hyphen_iff, htext, envText_eq_hyphen_iff]
  by_cases henv : env = []
  · rw [henv, hnil.mp henv]
  · have hread := readEnv?_envText h henv
    rw [htext, readEnv?_envText h' (mt hnil.mpr henv)] at hread
    have hsorted : env'.sorted = env.sorted := Option.some.inj hread
    exact (Record.sorted_perm env).symm.trans (hsorted ▸ Record.sorted_perm env')

/-- The text of an environment does not depend on the order in which the entries are set.  It is a
hyphen if there are none, and has one assignment for each of them, with strictly ascending names, if
there are any.  If no name holds a space or an equals sign and no value holds a space, the entries
are what is read in a text other than the hyphen, and an environment of that kind with other entries
has another text. -/
theorem envText_canonical (hn : (Record.names env).Nodup) :
    (∀ order : List (String × String), order.Perm env →
        envText (Record.ofList order) = envText env) ∧
      (envText env = "-" ↔ env = []) ∧
      (∃ entries : Record String, entries.Perm env ∧ entries.Ascending ∧
        (env ≠ [] → envText env = " ".intercalate (entries.map assignment)) ∧
        ((∀ entry ∈ env, IsReadable entry) → envText env ≠ "-" →
          readEnv? (envText env) = some entries)) ∧
      ((∀ entry ∈ env, IsReadable entry) → ∀ env' : Record String,
        (∀ entry ∈ env', IsReadable entry) → ¬ env.Perm env' → envText env ≠ envText env') := by
  refine ⟨fun order horder => ?_, envText_eq_hyphen_iff, ?_, fun h env' h' hne htext => ?_⟩
  · have hnames : (Record.names order).Nodup := (horder.map _).nodup_iff.mpr hn
    have hperm : (Record.ofList order).Perm env := (Record.ofList_perm hnames).trans horder
    exact (envText_eq_of_perm hperm.symm hn).symm
  · refine ⟨env.sorted, Record.sorted_perm env, Record.ascending_sorted hn, envText_eq,
      fun h htext => ?_⟩
    exact readEnv?_envText h (mt envText_eq_hyphen_iff.mpr htext)
  · exact hne (perm_of_envText_eq h h' htext)

/-- Names that are array indexes, an empty name, an empty value and a value with an equals sign. -/
theorem envText_canonical_indexes :
    let env : Record String := [("9", "b=c"), ("10", ""), ("", "-")]
    let order : List (String × String) := [("", "-"), ("10", ""), ("9", "b=c")]
    let env' : Record String := [("9", "b"), ("10", "c"), ("", "-")]
    (Record.names env).Nodup ∧ (∀ entry ∈ env ++ env', IsReadable entry) ∧
      envText env = "=- 10= 9=b=c" ∧ envText (Record.ofList order) = envText env ∧
      readEnv? (envText env) = some order ∧ envText env ≠ envText env' := by
  intro env order env'
  have hn : (Record.names env).Nodup := by decide
  have hreadable : ∀ entry ∈ env ++ env', IsReadable entry := by decide
  obtain ⟨h, h'⟩ := List.forall_mem_append.mp hreadable
  have henv : env ≠ [] := List.cons_ne_nil _ _
  obtain ⟨horder, hhyphen, ⟨entries, hentries, hascending, htext, hread⟩, hother⟩ :=
    envText_canonical hn
  obtain rfl : entries = order :=
    hascending.eq_of_perm (by decide) (hentries.trans (by decide))
  refine ⟨hn, hreadable, ?_, horder _ (by decide), ?_, ?_⟩
  · rw [htext henv]
    decide +kernel
  · exact hread h (mt hhyphen.mp henv)
  · exact hother h env' h' (by decide)

end JobRow

end BuildMatrix
