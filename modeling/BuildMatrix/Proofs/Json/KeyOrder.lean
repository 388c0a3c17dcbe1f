import Mathlib.Data.List.Pairwise
import BuildMatrix.Proofs.Json.Alike

/-!
# The order of sorted keys

Sorted names that are set one after the other in a record do not all stay where the sorting has put
them: names that are array indexes move to the front, in numerical order, and the others keep the
order of their units (`Precedes`).  This is the order of the names of every object in a value with
sorted keys (`eachObject_precedes`).  It is the order of units exactly if no name overtakes another
one that comes before it by units (`eachObject_before_iff`).
-/

namespace BuildMatrix

namespace Record

variable {α : Type} {R : String → String → Prop}

/-- What is not overtaken by a name that another one overtakes is overtaken by that one as well. -/
theorem overtakes_of_not_overtakes {a b c : String} (hab : overtakes a b = true)
    (hcb : overtakes c b = false) : overtakes a c = true := by
  unfold overtakes at hab hcb ⊢
  cases ha : index? a <;> cases hb : index? b <;> cases hc : index? c <;> simp_all
  omega

/-- The order in which names are read that have been set in a given order. -/
def ReadsAs (R : String → String → Prop) (a b : String) : Prop :=
  overtakes a b = true ∨ overtakes b a = false ∧ R a b

/-- The order in which sorted names are read: array indexes by their numbers, then the others by
their units. -/
abbrev Precedes : String → String → Prop := ReadsAs fun a b => Text.before a b = true

/-- A new name that comes after all others finds its place among them. -/
theorem pairwise_place {r : Record α} {name : String}
    (h : r.Pairwise fun e f => ReadsAs R e.1 f.1) (hlast : ∀ e ∈ r, R e.1 name) (value : α) :
    (r.place name value).Pairwise fun e f => ReadsAs R e.1 f.1 := by
  induction r with
  | nil => exact List.pairwise_singleton _ _
  | cons entry rest ih =>
    obtain ⟨hentry, hrest⟩ := List.pairwise_cons.mp h
    obtain ⟨hfirst, hlast⟩ := List.forall_mem_cons.mp hlast
    rw [place]
    split
    · -- what stands behind an overtaken name is overtaken too
      rename_i hover
      refine List.pairwise_cons.mpr ⟨List.forall_mem_cons.mpr ⟨.inl hover, fun f hf => .inl ?_⟩, h⟩
      rcases hentry f hf with hf | ⟨hf, -⟩
      · exact overtakes_trans hover hf
      · exact overtakes_of_not_overtakes hover hf
    · rename_i hover
      rw [Bool.not_eq_true] at hover
      refine List.pairwise_cons.mpr ⟨fun f hf => ?_, ih hrest hlast⟩
      rcases List.mem_cons.mp ((place_perm name value rest).mem_iff.mp hf) with rfl | hf
      · exact .inr ⟨hover, hfirst⟩
      · exact hentry f hf

/-- Names that are set in an order are read in that order, but for array indexes. -/
theorem pairwise_ofList {entries : List (String × α)}
    (h : entries.Pairwise fun e f => e.1 ≠ f.1 ∧ R e.1 f.1) :
    (ofList entries).Pairwise fun e f => ReadsAs R e.1 f.1 := by
  have key : ∀ (rest : List (String × α)) (r : Record α),
      (r.Pairwise fun e f => ReadsAs R e.1 f.1) →
      (rest.Pairwise fun e f => e.1 ≠ f.1 ∧ R e.1 f.1) →
      (∀ e ∈ r, ∀ f ∈ rest, e.1 ≠ f.1 ∧ R e.1 f.1) →
      (rest.foldl (fun r entry => Record.set r entry.1 entry.2) r).Pairwise
        fun e f => ReadsAs R e.1 f.1 := by
    intro rest
    induction rest with
    | nil => exact fun r hr _ _ => hr
    | cons entry rest ih =>
      intro r hr hrest hbetween
      obtain ⟨hentry, hrest⟩ := List.pairwise_cons.mp hrest
      have hbefore : ∀ e ∈ r, e.1 ≠ entry.1 ∧ R e.1 entry.1 := fun e he =>
        hbetween e he entry List.mem_cons_self
      have hnew : r.has entry.1 = false := by
        rw [has_eq_false_iff]
        intro hname
        obtain ⟨e, he, hname⟩ := List.mem_map.mp hname
        exact (hbefore e he).1 hname
      have hset : Record.set r entry.1 entry.2 = r.place entry.1 entry.2 := by
        rw [Record.set, hnew]
        rfl
      rw [List.foldl_cons, hset]
      refine ih _ (pairwise_place hr (fun e he => (hbefore e he).2) _) hrest fun e he f hf => ?_
      rcases List.mem_cons.mp ((place_perm _ _ _).mem_iff.mp he) with rfl | he
      · exact hentry f hf
      · exact hbetween e he f (List.mem_cons_of_mem _ hf)
  exact key entries [] .nil h fun e he => absurd he List.not_mem_nil

/-- No name overtakes another one that comes before it by units. -/
def KeepsUnits (names : List String) : Prop :=
  ∀ a ∈ names, ∀ b ∈ names, overtakes a b = true → Text.before a b = true

end Record

namespace Json

variable {P Q : List String → Prop}

/-! ## Objects at every depth -/

mutual

/-- The names of every object in a value, at every depth, are as asked for. -/
def EachObject (P : List String → Prop) : Json → Prop
  | .array items => EachObjectOfItems P items
  | .object fields => P (Record.names fields) ∧ EachObjectOfFields P fields
  | _ => True

/-- So are those of every object in items. -/
def EachObjectOfItems (P : List String → Prop) : List Json → Prop
  | [] => True
  | v :: rest => v.EachObject P ∧ EachObjectOfItems P rest

/-- So are those of every object in the values of fields. -/
def EachObjectOfFields (P : List String → Prop) : List (String × Json) → Prop
  | [] => True
  | (_, v) :: rest => v.EachObject P ∧ EachObjectOfFields P rest

end

theorem eachObjectOfItems_iff {items : List Json} :
    EachObjectOfItems P items ↔ ∀ v ∈ items, v.EachObject P := by
  induction items with
  | nil => simp [EachObjectOfItems]
  | cons v rest ih => simp [EachObjectOfItems, ih]

theorem eachObjectOfFields_iff {fields : List (String × Json)} :
    EachObjectOfFields P fields ↔ ∀ f ∈ fields, f.2.EachObject P := by
  induction fields with
  | nil => simp [EachObjectOfFields]
  | cons f rest ih => simp [EachObjectOfFields, ih]

mutual

theorem eachObject_true : ∀ v : Json, v.EachObject fun _ => True
  | .null | .bool _ | .number _ | .string _ => trivial
  | .array items => eachObjectOfItems_true items
  | .object fields => ⟨trivial, eachObjectOfFields_true fields⟩

theorem eachObjectOfItems_true : ∀ items : List Json, EachObjectOfItems (fun _ => True) items
  | [] => trivial
  | v :: rest => ⟨eachObject_true v, eachObjectOfItems_true rest⟩

theorem eachObjectOfFields_true :
    ∀ fields : List (String × Json), EachObjectOfFields (fun _ => True) fields
  | [] => trivial
  | (_, v) :: rest => ⟨eachObject_true v, eachObjectOfFields_true rest⟩

end

/-! ## Objects with sorted keys -/

/-- The names of fields that are sorted and set one after the other. -/
def sortedNames (fields : List (String × Json)) : List String :=
  Record.names (Record.ofList (sortFields fields))

/-- Names that are sorted have one property if they have another one as they are. -/
def SortedIff (P Q : List String → Prop) : Prop :=
  ∀ fields : List (String × Json), (Record.names fields).Nodup →
    (P (sortedNames fields) ↔ Q (Record.names fields))

mutual

/-- What sorting does to the names of one object it does to those of every object. -/
theorem eachObject_sortKeys_iff (h : SortedIff P Q) :
    ∀ {v : Json}, v.IsPlain → (v.sortKeys.EachObject P ↔ v.EachObject Q)
  | .null, _ | .bool _, _ | .string _, _ => Iff.rfl
  | .array _, hv => eachObjectOfItems_sortItems_iff h hv
  | .object fields, hv => by
    have hnames : (Record.names (sortValues fields)).Nodup := by
      rw [names_sortValues]
      exact hv.1.nodup_names
    refine and_congr ((h _ hnames).trans (by rw [names_sortValues])) ?_
    rw [← eachObjectOfFields_sortValues_iff h hv.2, eachObjectOfFields_iff, eachObjectOfFields_iff]
    exact forall_congr' fun f => imp_congr_left (ofList_sortFields_perm hv.1.nodup_names).mem_iff

theorem eachObjectOfItems_sortItems_iff (h : SortedIff P Q) :
    ∀ {items : List Json}, IsPlainItems items →
      (EachObjectOfItems P (sortItems items) ↔ EachObjectOfItems Q items)
  | [], _ => Iff.rfl
  | _ :: _, hv =>
    and_congr (eachObject_sortKeys_iff h hv.1) (eachObjectOfItems_sortItems_iff h hv.2)

theorem eachObjectOfFields_sortValues_iff (h : SortedIff P Q) :
    ∀ {fields : List (String × Json)}, IsPlainFields fields →
      (EachObjectOfFields P (sortValues fields) ↔ EachObjectOfFields Q fields)
  | [], _ => Iff.rfl
  | _ :: _, hv =>
    and_congr (eachObject_sortKeys_iff h hv.1) (eachObjectOfFields_sortValues_iff h hv.2)

end

/-- Sorted names are read with the array indexes first. -/
theorem pairwise_sortedNames {fields : List (String × Json)} (h : (Record.names fields).Nodup) :
    (sortedNames fields).Pairwise Record.Precedes := by
  refine List.pairwise_map.mpr (Record.pairwise_ofList ?_)
  exact (Record.ascending_sorted h).imp fun hbefore => ⟨Text.ne_of_before hbefore, hbefore⟩

/-- Of two different items of a list one stands before the other. -/
theorem pairwise_or {α : Type} {R : α → α → Prop} {xs : List α} (h : xs.Pairwise R) {a b : α}
    (ha : a ∈ xs) (hb : b ∈ xs) (hne : a ≠ b) : R a b ∨ R b a := by
  have : Std.Symm fun x y => R x y ∨ R y x := ⟨fun _ _ => Or.symm⟩
  exact (h.imp Or.inl : xs.Pairwise fun x y => R x y ∨ R y x).forall ha hb hne

/-- They are read in the order of their units exactly if no name overtakes one before it. -/
theorem pairwise_before_sortedNames_iff {fields : List (String × Json)}
    (h : (Record.names fields).Nodup) :
    (sortedNames fields).Pairwise (fun a b => Text.before a b = true) ↔
      Record.KeepsUnits (Record.names fields) := by
  have hmem : ∀ {a}, a ∈ sortedNames fields ↔ a ∈ Record.names fields :=
    ((Record.ofList_perm (((sortFields_perm fields).map _).nodup_iff.mpr h)).trans
      (sortFields_perm fields)).map _ |>.mem_iff
  have hread := pairwise_sortedNames h
  constructor
  · intro hunits a ha b hb hover
    have hne : a ≠ b := by
      rintro rfl
      rw [Record.overtakes_self] at hover
      cases hover
    -- a name that overtakes another one is not read after it
    rcases pairwise_or (hread.and hunits) (hmem.mpr ha) (hmem.mpr hb) hne with
      ⟨-, hbefore⟩ | ⟨hback | ⟨hback, -⟩, -⟩
    · exact hbefore
    · rw [Record.overtakes_asymm hover] at hback
      cases hback
    · rw [hover] at hback
      cases hback
  · intro hkeep
    refine hread.imp_of_mem fun {a b} ha hb hab => ?_
    rcases hab with hover | ⟨-, hbefore⟩
    · exact hkeep a (hmem.mp ha) b (hmem.mp hb) hover
    · exact hbefore

/-- The keys of every object in a value with sorted keys are in the order of sorted names. -/
theorem eachObject_precedes {v : Json} (hv : v.IsPlain) :
    v.sortKeys.EachObject (·.Pairwise Record.Precedes) := by
  have hsorted : SortedIff (·.Pairwise Record.Precedes) fun _ => True := fun fields h =>
    iff_of_true (pairwise_sortedNames h) trivial
  exact (eachObject_sortKeys_iff hsorted hv).mpr (eachObject_true v)

/-- They are in the order of their units exactly if no key overtakes one before it. -/
theorem eachObject_before_iff {v : Json} (hv : v.IsPlain) :
    v.sortKeys.EachObject (·.Pairwise fun a b => Text.before a b = true) ↔
      v.EachObject Record.KeepsUnits :=
  eachObject_sortKeys_iff (fun _ h => pairwise_before_sortedNames_iff h) hv

end Json

end BuildMatrix
