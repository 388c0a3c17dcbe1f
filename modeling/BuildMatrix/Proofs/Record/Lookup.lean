import BuildMatrix.Proofs.Record.Order

/-!
# Entries of records

Replacing a value moves no entry (`replace_eq_of_mem`).  A name is there exactly if it can be looked
up (`mem_names_iff_get?`), and entries that a function gives to a list of keys are looked up by that
function (`get?_filterMap`).  Leaving a name out of a record touches no other name, so it does not
matter whether another one is set before or after (`set_without`).
-/

namespace BuildMatrix.Record

variable {α : Type} {r : Record α} {name : String}

/-! ## Setting -/

/-- A present name has its first value replaced, and nothing else moves. -/
theorem replace_eq_of_mem (h : name ∈ names r) (value : α) :
    ∃ before old after, r = before ++ (name, old) :: after ∧ name ∉ names before ∧
      r.replace name value = before ++ (name, value) :: after := by
  induction r with
  | nil => simp [names] at h
  | cons entry rest ih =>
    obtain ⟨first, old⟩ := entry
    by_cases hfirst : first = name
    · subst hfirst
      exact ⟨[], old, rest, rfl, by simp [names], by simp [replace]⟩
    · have hrest : name ∈ names rest := (List.mem_cons.mp h).resolve_left (Ne.symm hfirst)
      obtain ⟨before, old', after, rfl, hbefore, hreplace⟩ := ih hrest
      refine ⟨(first, old) :: before, old', after, rfl, ?_, ?_⟩
      · simp [names, Ne.symm hfirst, List.mem_map.not.mp hbefore]
      · rw [replace, if_neg hfirst, hreplace, List.cons_append]

/-- A name that is no array index overtakes none. -/
theorem overtakes_of_index?_eq_none (h : index? name = none) (earlier : String) :
    overtakes name earlier = false := by
  rw [overtakes, h]

/-! ## Looking up -/

theorem get?_append_of_notMem {before : Record α} (h : name ∉ names before) :
    get? (before ++ r) name = get? r name := by
  induction before with
  | nil => rfl
  | cons entry rest ih =>
    obtain ⟨hentry, hrest⟩ : name ≠ entry.1 ∧ name ∉ names rest := by simpa [names] using h
    have hne : (name == entry.1) = false := by simpa using hentry
    rw [get?, List.cons_append, List.lookup_cons, hne]
    exact ih hrest

@[simp] theorem get?_cons_self (value : α) : get? ((name, value) :: r) name = some value :=
  List.lookup_cons_self

theorem mem_names_iff_get? : name ∈ names r ↔ get? r name ≠ none := by
  rw [get?, Ne, List.lookup_eq_none_iff, names, List.mem_map]
  push Not
  refine exists_congr fun entry => and_congr_right fun _ => ?_
  rw [Ne, bne_iff_ne, not_ne_iff, eq_comm]

theorem get?_eq_none_of_notMem (h : name ∉ names r) : get? r name = none :=
  not_not.mp (mem_names_iff_get?.not.mp h)

/-- The entries that a function gives to some keys, in the order of the keys, are looked up by the
function. -/
theorem get?_filterMap (keys : List String) (f : String → Option α) (key : String) :
    get? (keys.filterMap fun k => (f k).map (k, ·)) key = if key ∈ keys then f key else none := by
  induction keys with
  | nil => rfl
  | cons first rest ih =>
    by_cases hkey : key = first
    · subst hkey
      rw [if_pos (List.mem_cons_self ..)]
      cases hvalue : f key with
      | none => simp [hvalue, ih]
      | some value => simp [hvalue]
    · have hne : (key == first) = false := by simpa using hkey
      have hmem : key ∈ first :: rest ↔ key ∈ rest := by simp [hkey]
      simp only [hmem, ← ih]
      cases hvalue : f first with
      | none => simp [hvalue]
      | some value => simp [hvalue, get?, List.lookup_cons, hne]

/-! ## Leaving a name out -/

/-- The record without the entries of a name. -/
def without (r : Record α) (name : String) : Record α := r.filter (·.1 ≠ name)

theorem without_cons_self (value : α) : without ((name, value) :: r) name = r.without name :=
  List.filter_cons_of_neg (by simp)

theorem without_cons_of_ne {entry : String × α} (h : entry.1 ≠ name) :
    without (entry :: r) name = entry :: r.without name :=
  List.filter_cons_of_pos (by simpa using h)

theorem without_eq_self (h : name ∉ names r) : r.without name = r := by
  refine List.filter_eq_self.mpr fun entry hentry => ?_
  have hne : entry.1 ≠ name := fun hname => h (List.mem_map.mpr ⟨entry, hentry, hname⟩)
  simpa using hne

/-- A name that is left out is not found, and the others are found as before. -/
theorem get?_without (other name : String) :
    get? (r.without other) name = if name = other then none else get? r name := by
  induction r with
  | nil => simp [without, get?]
  | cons entry rest ih =>
    obtain ⟨first, value⟩ := entry
    by_cases hfirst : first = other
    · subst hfirst
      rw [without_cons_self, ih]
      split
      · rfl
      · rename_i hne
        rw [get?, get?, List.lookup_cons, beq_false_of_ne hne]
    · rw [without_cons_of_ne hfirst]
      by_cases hname : name = first
      · subst hname
        rw [get?_cons_self, get?_cons_self, if_neg hfirst]
      · simp only [get?, List.lookup_cons, beq_false_of_ne hname]
        exact ih

theorem has_without {other : String} (h : name ≠ other) :
    (r.without other).has name = r.has name := by
  rw [Bool.eq_iff_iff, has, has, without, List.any_filter, List.any_eq_true, List.any_eq_true]
  refine exists_congr fun entry => and_congr_right fun _ => ?_
  simp only [beq_iff_eq, Bool.and_eq_true, decide_eq_true_eq]
  exact ⟨And.right, fun hname => ⟨hname ▸ h, hname⟩⟩

theorem replace_without {other : String} (h : name ≠ other) (value : α) :
    (r.replace name value).without other = (r.without other).replace name value := by
  induction r with
  | nil => rfl
  | cons entry rest ih =>
    obtain ⟨first, old⟩ := entry
    by_cases hname : first = name
    · subst hname
      rw [replace, if_pos rfl, without_cons_of_ne h, without_cons_of_ne h, replace, if_pos rfl]
    · rw [replace, if_neg hname]
      by_cases hother : first = other
      · subst hother
        rw [without_cons_self, without_cons_self, ih]
      · rw [without_cons_of_ne hother, without_cons_of_ne hother, replace, if_neg hname, ih]

/-- A name that is no array index is set in the same way when another one has been left out. -/
theorem set_without {other : String} (h : name ≠ other) (hindex : index? name = none) (value : α) :
    (r.set name value).without other = (r.without other).set name value := by
  have hlast : ∀ s : Record α, s.place name value = s ++ [(name, value)] := fun s =>
    place_eq_append value fun entry _ => overtakes_of_index?_eq_none hindex entry.1
  rw [set, set, has_without h]
  split
  · exact replace_without h value
  · simp [hlast, without, h]

end BuildMatrix.Record
