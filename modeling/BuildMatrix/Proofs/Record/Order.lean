import Mathlib.Data.List.Perm.Basic
import BuildMatrix.Record

/-!
# Records are in reading order

A list of entries is a record when its names are distinct and none of them overtakes one that
stands before it (`Ordered`).  Setting an entry keeps this (`Ordered.set`), so whatever is set one
after the other is a record (`ordered_ofList`), and setting the entries of a record again changes
nothing (`ofList_eq_self`).  What a record holds does not depend on the order in which it was set:
up to the order of entries, setting an entry replaces the old one of its name (`set_perm`).
-/

namespace BuildMatrix.Record

variable {α : Type}

/-! ## Which names come first -/

/-- A name does not overtake itself. -/
@[simp] theorem overtakes_self (a : String) : overtakes a a = false := by
  unfold overtakes
  split <;> simp_all

/-- Overtaking is transitive. -/
theorem overtakes_trans {a b c : String} (hab : overtakes a b = true)
    (hbc : overtakes b c = true) : overtakes a c = true := by
  unfold overtakes at hab hbc ⊢
  cases ha : index? a <;> cases hb : index? b <;> cases hc : index? c <;> simp_all
  exact Nat.lt_trans hab hbc

/-- Two names do not overtake each other. -/
theorem overtakes_asymm {a b : String} (h : overtakes a b = true) : overtakes b a = false := by
  by_contra hba
  rw [Bool.not_eq_false] at hba
  have := overtakes_trans h hba
  simp at this

/-! ## Reading order -/

/-- Names are distinct, and no entry overtakes one that stands before it. -/
def Ordered (r : Record α) : Prop :=
  r.Pairwise fun a b => a.1 ≠ b.1 ∧ overtakes b.1 a.1 = false

instance (r : Record α) : Decidable r.Ordered :=
  inferInstanceAs (Decidable (r.Pairwise _))

theorem ordered_nil : Ordered ([] : Record α) := List.Pairwise.nil

theorem Ordered.nodup_names {r : Record α} (h : r.Ordered) : (names r).Nodup :=
  List.pairwise_map.mpr (h.imp fun hab => hab.1)

theorem has_iff {r : Record α} {name : String} : r.has name = true ↔ name ∈ names r := by
  simp [has, names]

theorem has_eq_false_iff {r : Record α} {name : String} :
    r.has name = false ↔ name ∉ names r := by
  rw [← has_iff, Bool.not_eq_true]

/-- Reading order depends on the names alone. -/
theorem ordered_iff_of_names_eq {β : Type} {r : Record α} {r' : Record β}
    (h : names r = names r') : r.Ordered ↔ r'.Ordered := by
  have key : ∀ {γ : Type} (s : Record γ), s.Ordered ↔
      (names s).Pairwise fun a b => a ≠ b ∧ overtakes b a = false := by
    intro γ s
    rw [names, List.pairwise_map]
    rfl
  rw [key, key, h]

/-! ## Setting an entry -/

@[simp] theorem names_replace (name : String) (value : α) (r : Record α) :
    names (r.replace name value) = names r := by
  induction r with
  | nil => rfl
  | cons entry rest ih =>
    rw [replace]
    split
    · rename_i h
      simp [names, h]
    · simpa [names] using ih

theorem place_perm (name : String) (value : α) (r : Record α) :
    (r.place name value).Perm ((name, value) :: r) := by
  induction r with
  | nil => exact .refl _
  | cons entry rest ih =>
    rw [place]
    split
    · exact .refl _
    · exact (ih.cons entry).trans (.swap _ _ _)

/-- A new name finds its place in a record. -/
theorem Ordered.place {r : Record α} {name : String} (h : r.Ordered) (hn : name ∉ names r)
    (value : α) : (r.place name value).Ordered := by
  induction r with
  | nil => exact List.pairwise_singleton _ _
  | cons entry rest ih =>
    obtain ⟨hentry, hrest⟩ := List.pairwise_cons.mp h
    have hne : entry.1 ≠ name := fun e => hn (by simp [names, e])
    have hnr : name ∉ names rest := fun m => hn (List.mem_cons_of_mem _ m)
    rw [Record.place]
    split
    · -- what is overtaken by a later entry is overtaken by the new one as well
      rename_i hover
      refine List.pairwise_cons.mpr ⟨?_, h⟩
      intro b hb
      rcases List.mem_cons.mp hb with rfl | hb
      · exact ⟨hne.symm, overtakes_asymm hover⟩
      · refine ⟨fun e => hnr (List.mem_map.mpr ⟨b, hb, e.symm⟩), ?_⟩
        by_contra hc
        rw [Bool.not_eq_false] at hc
        have := overtakes_trans hc hover
        rw [(hentry b hb).2] at this
        exact absurd this (by simp)
    · rename_i hover
      rw [Bool.not_eq_true] at hover
      refine List.pairwise_cons.mpr ⟨?_, ih hrest hnr⟩
      intro b hb
      rcases List.mem_cons.mp ((place_perm name value rest).mem_iff.mp hb) with rfl | hb
      · exact ⟨hne, hover⟩
      · exact hentry b hb

/-- Setting an entry of a record gives a record. -/
theorem Ordered.set {r : Record α} (h : r.Ordered) (name : String) (value : α) :
    (r.set name value).Ordered := by
  unfold Record.set
  split
  · exact (ordered_iff_of_names_eq (names_replace name value r)).mpr h
  · rename_i hn
    exact h.place (has_eq_false_iff.mp (by simpa using hn)) value

/-- What is set last comes last, unless it overtakes something. -/
theorem place_eq_append {r : Record α} {name : String} (value : α)
    (h : ∀ entry ∈ r, overtakes name entry.1 = false) :
    r.place name value = r ++ [(name, value)] := by
  induction r with
  | nil => rfl
  | cons entry rest ih =>
    rw [Record.place, h entry (by simp)]
    simp [ih fun e he => h e (List.mem_cons_of_mem _ he)]

/-! ## Setting one entry after the other -/

/-- Setting the entries of a list one after the other in a record gives a record. -/
theorem Ordered.foldl_set {r : Record α} (h : r.Ordered) (entries : List (String × α)) :
    (entries.foldl (fun r entry => Record.set r entry.1 entry.2) r).Ordered := by
  induction entries generalizing r with
  | nil => exact h
  | cons entry rest ih => exact ih (h.set entry.1 entry.2)

/-- Whatever is set one after the other is a record. -/
theorem ordered_ofList (entries : List (String × α)) : (ofList entries).Ordered :=
  ordered_nil.foldl_set entries

/-- Setting the rest of a record entry by entry appends it. -/
theorem foldl_set_eq_append {r rest : Record α} (h : Ordered (r ++ rest)) :
    rest.foldl (fun r entry => Record.set r entry.1 entry.2) r = r ++ rest := by
  induction rest generalizing r with
  | nil => simp
  | cons entry rest ih =>
    have hlast : ∀ e ∈ r, e.1 ≠ entry.1 ∧ overtakes entry.1 e.1 = false := fun e he =>
      (List.pairwise_append.mp h).2.2 e he entry (by simp)
    have hnew : r.has entry.1 = false := by
      rw [has_eq_false_iff]
      intro hm
      obtain ⟨e, he, hname⟩ := List.mem_map.mp hm
      exact (hlast e he).1 hname
    have hset : Record.set r entry.1 entry.2 = r ++ [entry] := by
      rw [Record.set, hnew]
      exact place_eq_append entry.2 fun e he => (hlast e he).2
    rw [List.foldl_cons, hset, ih (by simpa using h)]
    simp

/-- Setting the entries of a record again gives the same record. -/
theorem ofList_eq_self {r : Record α} (h : r.Ordered) : ofList r = r :=
  foldl_set_eq_append (r := []) h

/-! ## Numbers as names -/

/-- The decimal digits of a positive number do not start with a zero. -/
theorem toDigits_start {n : Nat} (h : 0 < n) :
    ∃ c cs, Nat.toDigits 10 n = c :: cs ∧ c ≠ '0' := by
  induction n using Nat.strongRecOn with
  | ind n ih =>
    rw [Nat.toDigits_eq_if (by decide)]
    split
    · refine ⟨_, _, rfl, ?_⟩
      simp only [ne_eq, Nat.digitChar_eq_zero]
      omega
    · obtain ⟨c, cs, hcs, hc⟩ := ih (n / 10) (by omega) (by omega)
      exact ⟨c, _, by rw [hcs, List.cons_append], hc⟩

theorem decimal?_toDigits (n : Nat) : decimal? (Nat.toDigits 10 n) = some n := by
  have hall : (Nat.toDigits 10 n).all Char.isDigit = true :=
    List.all_eq_true.mpr fun c hc => Nat.isDigit_of_mem_toDigits (by decide) (by decide) hc
  rw [decimal?, if_pos hall]
  have hvalue := Nat.ofDigitChars_ten_toDigits (n := n)
  rw [Nat.ofDigitChars_eq_foldl] at hvalue
  exact congrArg some hvalue

/-- A number is the array index that its decimal text writes, unless it is too large for one. -/
theorem index?_toString (n : Nat) :
    index? (toString n) = if n < 4294967295 then some n else none := by
  rw [Nat.toString_eq_ofList_toDigits, index?, String.toList_ofList]
  rcases Nat.eq_zero_or_pos n with rfl | hn
  · rfl
  · obtain ⟨c, cs, hcs, hc⟩ := toDigits_start hn
    have hvalue := decimal?_toDigits n
    rw [hcs] at hvalue ⊢
    split
    · contradiction
    · rename_i heq
      exact absurd (List.cons.inj heq).1 hc
    · rename_i heq
      exact absurd (List.cons.inj heq).1 hc
    · rw [hvalue]
      split <;> simp_all

/-- Entries that are named after their places are in reading order. -/
theorem ordered_mapIdx {β : Type} (xs : List β) (f : Nat → β → α) :
    Ordered (xs.mapIdx fun i x => (toString i, f i x)) := by
  rw [Ordered, List.pairwise_iff_getElem]
  intro i j hi hj hij
  simp only [List.getElem_mapIdx, overtakes, index?_toString]
  constructor
  · intro heq
    have hdigits : Nat.toDigits 10 i = Nat.toDigits 10 j := by
      rw [Nat.toString_eq_ofList_toDigits, Nat.toString_eq_ofList_toDigits] at heq
      exact String.ofList_inj.mp heq
    have hsame := decimal?_toDigits j
    rw [← hdigits, decimal?_toDigits] at hsame
    exact absurd (Option.some.inj hsame) (by omega)
  · by_cases hj' : j < 4294967295
    · rw [if_pos hj', if_pos (by omega)]
      simpa using by omega
    · rw [if_neg hj']

/-! ## Records up to the order of their entries -/

/-- Setting an entry leaves the other names as they are. -/
theorem set_perm {r : Record α} (h : (names r).Nodup) (name : String) (value : α) :
    (r.set name value).Perm ((name, value) :: r.filter (·.1 ≠ name)) := by
  unfold Record.set
  split
  · rename_i hhas
    rw [has_iff] at hhas
    induction r with
    | nil => simp [names] at hhas
    | cons entry rest ih =>
      obtain ⟨hentry, hrest⟩ := List.nodup_cons.mp h
      rw [replace]
      split
      · rename_i he
        have hkeep : rest.filter (·.1 ≠ name) = rest := by
          refine List.filter_eq_self.mpr fun e hm => ?_
          have : e.1 ≠ name := fun hc =>
            hentry (List.mem_map.mpr ⟨e, hm, hc.trans he.symm⟩)
          simpa using this
        rw [List.filter_cons_of_neg (by simpa using he), hkeep]
      · rename_i he
        have hrestHas : name ∈ names rest := by
          rcases List.mem_cons.mp hhas with hc | hc
          · exact absurd hc.symm he
          · exact hc
        rw [List.filter_cons_of_pos (by simpa using he)]
        exact ((ih hrest hrestHas).cons entry).trans (.swap _ _ _)
  · rename_i hhas
    rw [Bool.not_eq_true, has_eq_false_iff] at hhas
    have hkeep : r.filter (·.1 ≠ name) = r := by
      refine List.filter_eq_self.mpr fun e hm => ?_
      have : e.1 ≠ name := fun hc => hhas (List.mem_map.mpr ⟨e, hm, hc⟩)
      simpa using this
    rw [hkeep]
    exact place_perm name value r

/-- Setting the same entry in two records that agree up to order keeps them so. -/
theorem set_perm_set {r r' : Record α} (h : r.Perm r') (hn : (names r).Nodup) (name : String)
    (value : α) : (r.set name value).Perm (r'.set name value) := by
  have hn' : (names r').Nodup := (h.map _).nodup_iff.mp hn
  exact ((set_perm hn name value).trans ((h.filter _).cons _)).trans
    (set_perm hn' name value).symm

/-- Distinct names that are set one after the other are all there. -/
theorem ofList_perm {entries : List (String × α)} (h : (names entries).Nodup) :
    (ofList entries).Perm entries := by
  have key : ∀ (rest : List (String × α)) (r : Record α), (names (r ++ rest)).Nodup →
      (rest.foldl (fun r entry => Record.set r entry.1 entry.2) r).Perm (r ++ rest) := by
    intro rest
    induction rest with
    | nil => intro r _; simp
    | cons entry rest ih =>
      intro r hr
      have hmid : (r ++ entry :: rest).Perm (entry :: (r ++ rest)) := List.perm_middle
      have hr' : (names (entry :: (r ++ rest))).Nodup := (hmid.map _).nodup_iff.mp hr
      have hnew : entry.1 ∉ names r := by
        intro hm
        refine (List.nodup_cons.mp hr').1 ?_
        rw [List.map_append]
        exact List.mem_append_left _ hm
      have hset : (Record.set r entry.1 entry.2).Perm (entry :: r) := by
        rw [Record.set, has_eq_false_iff.mpr hnew]
        exact place_perm entry.1 entry.2 r
      have happ : (Record.set r entry.1 entry.2 ++ rest).Perm (entry :: (r ++ rest)) :=
        hset.append_right rest
      exact ((ih _ ((happ.map _).nodup_iff.mpr hr')).trans happ).trans hmid.symm
  exact key entries [] h

/-- Whether a name is present does not depend on the order. -/
theorem has_eq_of_perm {r r' : Record α} (h : r.Perm r') (name : String) :
    r.has name = r'.has name := by
  rw [Bool.eq_iff_iff, has_iff, has_iff]
  exact (h.map _).mem_iff

end BuildMatrix.Record
