import BuildMatrix.Proofs.Json.Printer
import BuildMatrix.Proofs.Record.Sorted

/-!
# Values that are equal up to the order of keys

Two values are alike if one becomes the other when the fields of its objects are put into another
order, at any depth; the order of items counts (`Alike`).  This is an equivalence.  Sorting the keys
of a plain value gives a value alike to it (`alike_sortKeys`), and the same one for all values that
are alike (`sortKeys_eq_of_alike`), so sorted values are representatives of the classes of alike
values (`alike_iff_sortKeys_eq`).
-/

namespace BuildMatrix.Json

/-! ## The relation -/

mutual

/-- Equality up to the order of the fields of objects. -/
inductive Alike : Json → Json → Prop
  | null : Alike .null .null
  | bool (b : Bool) : Alike (.bool b) (.bool b)
  | number (n : Number) : Alike (.number n) (.number n)
  | string (s : String) : Alike (.string s) (.string s)
  | array {xs ys : List Json} : AlikeItems xs ys → Alike (.array xs) (.array ys)
  | object {fs gs hs : List (String × Json)} :
      fs.Perm hs → AlikeFields hs gs → Alike (.object fs) (.object gs)

/-- Items that are alike one by one. -/
inductive AlikeItems : List Json → List Json → Prop
  | nil : AlikeItems [] []
  | cons {v w : Json} {xs ys : List Json} :
      Alike v w → AlikeItems xs ys → AlikeItems (v :: xs) (w :: ys)

/-- Fields of the same names, in the same order, whose values are alike. -/
inductive AlikeFields : List (String × Json) → List (String × Json) → Prop
  | nil : AlikeFields [] []
  | cons {name : String} {v w : Json} {fs gs : List (String × Json)} :
      Alike v w → AlikeFields fs gs → AlikeFields ((name, v) :: fs) ((name, w) :: gs)

end

theorem alikeFields_iff_forall₂ {fs gs : List (String × Json)} :
    AlikeFields fs gs ↔ List.Forall₂ (fun f g => f.1 = g.1 ∧ Alike f.2 g.2) fs gs := by
  induction fs generalizing gs with
  | nil => exact ⟨fun h => by cases h; exact .nil, fun h => by cases h; exact .nil⟩
  | cons f fs ih =>
    constructor
    · rintro (_ | ⟨hv, hrest⟩)
      exact .cons ⟨rfl, hv⟩ (ih.mp hrest)
    · rintro (_ | ⟨⟨hname, hv⟩, hrest⟩)
      obtain ⟨name, v⟩ := f
      subst hname
      exact .cons hv (ih.mpr hrest)

/-- Putting the second fields into another order can be done on the first ones instead. -/
theorem AlikeFields.perm_right {fs gs hs : List (String × Json)} (h : AlikeFields fs gs)
    (hp : gs.Perm hs) : ∃ fs', fs.Perm fs' ∧ AlikeFields fs' hs := by
  have hcomp : Relation.Comp (List.Forall₂ fun f g : String × Json => f.1 = g.1 ∧ Alike f.2 g.2)
      List.Perm fs hs := ⟨gs, alikeFields_iff_forall₂.mp h, hp⟩
  rw [List.forall₂_comp_perm_eq_perm_comp_forall₂] at hcomp
  obtain ⟨fs', hperm, hfs'⟩ := hcomp
  exact ⟨fs', hperm, alikeFields_iff_forall₂.mpr hfs'⟩

/-- Putting the first fields into another order can be done on the second ones instead. -/
theorem AlikeFields.perm_left {fs gs hs : List (String × Json)} (hp : hs.Perm fs)
    (h : AlikeFields fs gs) : ∃ gs', AlikeFields hs gs' ∧ gs'.Perm gs := by
  obtain ⟨gs', hgs', hperm⟩ := List.perm_comp_forall₂ hp (alikeFields_iff_forall₂.mp h)
  exact ⟨gs', alikeFields_iff_forall₂.mpr hgs', hperm⟩

/-! ## An equivalence -/

mutual

theorem Alike.refl : ∀ v : Json, Alike v v
  | .null => .null
  | .bool b => .bool b
  | .number n => .number n
  | .string s => .string s
  | .array items => .array (AlikeItems.refl items)
  | .object fields => .object (.refl _) (AlikeFields.refl fields)

theorem AlikeItems.refl : ∀ items : List Json, AlikeItems items items
  | [] => .nil
  | v :: rest => .cons (Alike.refl v) (AlikeItems.refl rest)

theorem AlikeFields.refl : ∀ fields : List (String × Json), AlikeFields fields fields
  | [] => .nil
  | (_, v) :: rest => .cons (Alike.refl v) (AlikeFields.refl rest)

end

mutual

theorem Alike.symm {v w : Json} : Alike v w → Alike w v
  | .null => .null
  | .bool b => .bool b
  | .number n => .number n
  | .string s => .string s
  | .array h => .array h.symm
  | .object hp h => by
    obtain ⟨gs', hperm, hgs'⟩ := h.symm.perm_right hp.symm
    exact .object hperm hgs'

theorem AlikeItems.symm {xs ys : List Json} : AlikeItems xs ys → AlikeItems ys xs
  | .nil => .nil
  | .cons hv h => .cons hv.symm h.symm

theorem AlikeFields.symm {fs gs : List (String × Json)} : AlikeFields fs gs → AlikeFields gs fs
  | .nil => .nil
  | .cons hv h => .cons hv.symm h.symm

end

mutual

theorem Alike.trans {u v w : Json} : Alike u v → Alike v w → Alike u w
  | .null, h | .bool _, h | .number _, h | .string _, h => h
  | .array h, .array h' => .array (h.trans h')
  | .object hp h, .object hp' h' => by
    obtain ⟨gs, hgs, hperm⟩ := AlikeFields.perm_left hp' h'
    obtain ⟨fs, hperm', hfs⟩ := (h.trans hgs).perm_right hperm
    exact .object (hp.trans hperm') hfs

theorem AlikeItems.trans {xs ys zs : List Json} :
    AlikeItems xs ys → AlikeItems ys zs → AlikeItems xs zs
  | .nil, h => h
  | .cons hv h, .cons hw h' => .cons (hv.trans hw) (h.trans h')

theorem AlikeFields.trans {fs gs hs : List (String × Json)} :
    AlikeFields fs gs → AlikeFields gs hs → AlikeFields fs hs
  | .nil, h => h
  | .cons hv h, .cons hw h' => .cons (hv.trans hw) (h.trans h')

end

/-! ## Sorting keys -/

theorem names_sortValues (fields : List (String × Json)) :
    Record.names (sortValues fields) = Record.names fields := by
  induction fields with
  | nil => rfl
  | cons f rest ih => simpa [sortValues, Record.names] using ih

theorem sortValues_eq_map (fields : List (String × Json)) :
    sortValues fields = fields.map fun f => (f.1, f.2.sortKeys) := by
  induction fields with
  | nil => rfl
  | cons f rest ih => simp [sortValues, ih]

theorem sortFields_perm (fields : List (String × Json)) : (sortFields fields).Perm fields :=
  Record.sorted_perm fields

/-- Fields with distinct names that differ in their order alone are sorted alike. -/
theorem sortFields_eq_of_perm {fs gs : List (String × Json)} (h : fs.Perm gs)
    (hn : (Record.names fs).Nodup) : sortFields fs = sortFields gs :=
  Record.sorted_eq_of_perm h hn

/-- The fields of a sorted object are the sorted fields, in some order. -/
theorem ofList_sortFields_perm {fields : List (String × Json)}
    (hn : (Record.names fields).Nodup) :
    (Record.ofList (sortFields (sortValues fields))).Perm (sortValues fields) := by
  have hsorted := sortFields_perm (sortValues fields)
  refine (Record.ofList_perm ?_).trans hsorted
  rw [← names_sortValues] at hn
  exact (hsorted.map _).nodup_iff.mpr hn

mutual

/-- A sorted plain value is plain. -/
theorem IsPlain.sortKeys : ∀ {v : Json}, v.IsPlain → v.sortKeys.IsPlain
  | .null, _ => trivial
  | .bool _, _ => trivial
  | .string _, _ => trivial
  | .array _, h => IsPlainItems.sortItems h
  | .object fields, h => by
    have hvalues := isPlainFields_iff.mp (IsPlainFields.sortValues h.2)
    refine ⟨Record.ordered_ofList _, isPlainFields_iff.mpr fun f hf => hvalues f ?_⟩
    exact (ofList_sortFields_perm h.1.nodup_names).mem_iff.mp hf

theorem IsPlainItems.sortItems : ∀ {items : List Json}, IsPlainItems items →
    IsPlainItems (sortItems items)
  | [], _ => trivial
  | _ :: _, h => ⟨h.1.sortKeys, IsPlainItems.sortItems h.2⟩

theorem IsPlainFields.sortValues : ∀ {fields : List (String × Json)}, IsPlainFields fields →
    IsPlainFields (sortValues fields)
  | [], _ => trivial
  | _ :: _, h => ⟨h.1.sortKeys, IsPlainFields.sortValues h.2⟩

end

mutual

/-- Sorting the keys of a plain value changes nothing but their order. -/
theorem alike_sortKeys : ∀ {v : Json}, v.IsPlain → Alike v v.sortKeys
  | .null, _ => .null
  | .bool b, _ => .bool b
  | .string s, _ => .string s
  | .array _, h => .array (alikeItems_sortItems h)
  | .object fields, h => by
    have hperm := ofList_sortFields_perm h.1.nodup_names
    obtain ⟨fs, hfs, hfields⟩ := (alikeFields_sortValues h.2).perm_right hperm.symm
    exact .object hfs hfields

theorem alikeItems_sortItems : ∀ {items : List Json}, IsPlainItems items →
    AlikeItems items (sortItems items)
  | [], _ => .nil
  | _ :: _, h => .cons (alike_sortKeys h.1) (alikeItems_sortItems h.2)

theorem alikeFields_sortValues : ∀ {fields : List (String × Json)}, IsPlainFields fields →
    AlikeFields fields (sortValues fields)
  | [], _ => .nil
  | _ :: _, h => .cons (alike_sortKeys h.1) (alikeFields_sortValues h.2)

end

mutual

/-- Alike plain values are sorted to the same value. -/
theorem sortKeys_eq_of_alike : ∀ {v w : Json}, v.IsPlain → w.IsPlain → Alike v w →
    v.sortKeys = w.sortKeys
  | _, _, _, _, .null | _, _, _, _, .bool _ | _, _, _, _, .number _ | _, _, _, _, .string _ => rfl
  | _, _, hv, hw, .array h => by
    rw [sortKeys, sortKeys, sortItems_eq_of_alike hv hw h]
  | .object fs, .object gs, hv, hw, @Alike.object _ _ hs hp h => by
    have hplain : IsPlainFields hs :=
      isPlainFields_iff.mpr fun f hf => isPlainFields_iff.mp hv.2 f (hp.mem_iff.mpr hf)
    have hvalues : sortValues hs = sortValues gs := sortValues_eq_of_alike hplain hw.2 h
    have hperm : (sortValues fs).Perm (sortValues gs) := by
      rw [← hvalues, sortValues_eq_map, sortValues_eq_map]
      exact hp.map _
    have hn : (Record.names (sortValues fs)).Nodup := by
      rw [names_sortValues]
      exact hv.1.nodup_names
    rw [sortKeys, sortKeys, sortFields_eq_of_perm hperm hn]

theorem sortItems_eq_of_alike : ∀ {xs ys : List Json}, IsPlainItems xs → IsPlainItems ys →
    AlikeItems xs ys → sortItems xs = sortItems ys
  | _, _, _, _, .nil => rfl
  | _, _, hx, hy, .cons hv h => by
    rw [sortItems, sortItems, sortKeys_eq_of_alike hx.1 hy.1 hv,
      sortItems_eq_of_alike hx.2 hy.2 h]

theorem sortValues_eq_of_alike : ∀ {fs gs : List (String × Json)}, IsPlainFields fs →
    IsPlainFields gs → AlikeFields fs gs → sortValues fs = sortValues gs
  | _, _, _, _, .nil => rfl
  | _, _, hf, hg, .cons hv h => by
    rw [sortValues, sortValues, sortKeys_eq_of_alike hf.1 hg.1 hv,
      sortValues_eq_of_alike hf.2 hg.2 h]

end

/-- Plain values are alike exactly if they are sorted to the same value. -/
theorem alike_iff_sortKeys_eq {v w : Json} (hv : v.IsPlain) (hw : w.IsPlain) :
    Alike v w ↔ v.sortKeys = w.sortKeys := by
  refine ⟨sortKeys_eq_of_alike hv hw, fun h => ?_⟩
  have hback : Alike v.sortKeys w := h ▸ (alike_sortKeys hw).symm
  exact (alike_sortKeys hv).trans hback

end BuildMatrix.Json
