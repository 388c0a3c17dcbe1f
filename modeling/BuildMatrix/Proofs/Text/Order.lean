import Mathlib.Data.List.Lex
import Mathlib.Order.Basic
import BuildMatrix.Text.Units

/-!
# The order of texts by units

The units of a text determine it (`unitsOf_injective`), since a unit says whether it stands alone
or starts a pair.  So the order of texts by their units is linear: any two texts are comparable
(`notAfter_total`), and of two different ones that are compared one comes strictly before the other
(`before_of_notAfter`).
-/

namespace BuildMatrix.Text

/-- The units at the front of a text determine its first character. -/
theorem units_append_inj {c d : Char} {xs ys : List Nat} (h : units c ++ xs = units d ++ ys) :
    c = d ∧ xs = ys := by
  have hc : c.toNat < 0xD800 ∨ 0xDFFF < c.toNat ∧ c.toNat < 0x110000 := c.valid
  have hd : d.toNat < 0xD800 ∨ 0xDFFF < d.toNat ∧ d.toNat < 0x110000 := d.valid
  unfold units at h
  split at h <;> split at h
  · obtain ⟨h₁, h₂⟩ := List.cons.inj h
    exact ⟨Char.toNat_inj.mp h₁, h₂⟩
  · -- a single unit is never the first one of a pair
    obtain ⟨h₁, -⟩ := List.cons.inj h
    omega
  · obtain ⟨h₁, -⟩ := List.cons.inj h
    omega
  · obtain ⟨h₁, h'⟩ := List.cons.inj h
    obtain ⟨h₂, h₃⟩ := List.cons.inj h'
    refine ⟨Char.toNat_inj.mp ?_, h₃⟩
    omega

/-- No two texts have the same units. -/
theorem flatMap_units_injective : Function.Injective fun cs : List Char => cs.flatMap units := by
  intro xs
  induction xs with
  | nil =>
    intro ys h
    cases ys with
    | nil => rfl
    | cons d rest =>
      have hlen := congrArg List.length h
      simp only [List.flatMap_nil, List.flatMap_cons, List.length_append, List.length_nil,
        length_units, width] at hlen
      split at hlen <;> omega
  | cons c rest ih =>
    intro ys h
    cases ys with
    | nil =>
      have hlen := congrArg List.length h
      simp only [List.flatMap_nil, List.flatMap_cons, List.length_append, List.length_nil,
        length_units, width] at hlen
      split at hlen <;> omega
    | cons d rest' =>
      obtain ⟨rfl, hrest⟩ := units_append_inj (by simpa using h)
      rw [ih hrest]

/-- No two texts have the same units. -/
theorem unitsOf_injective : Function.Injective unitsOf := fun _ _ h =>
  String.toList_inj.mp (flatMap_units_injective h)

theorem notAfter_iff {a b : String} : notAfter a b = true ↔ unitsOf a ≤ unitsOf b := by
  simp [notAfter, before]

theorem notAfter_trans {a b c : String} (hab : notAfter a b = true) (hbc : notAfter b c = true) :
    notAfter a c = true := by
  rw [notAfter_iff] at *
  exact le_trans hab hbc

theorem notAfter_total (a b : String) : (notAfter a b || notAfter b a) = true := by
  rw [Bool.or_eq_true, notAfter_iff, notAfter_iff]
  exact le_total _ _

theorem before_iff {a b : String} : before a b = true ↔ unitsOf a < unitsOf b := by
  simp [before]

theorem before_asymm {a b : String} (h : before a b = true) : before b a = false := by
  rw [← Bool.not_eq_true, before_iff, not_lt]
  exact (before_iff.mp h).le

theorem ne_of_before {a b : String} (h : before a b = true) : a ≠ b := by
  rintro rfl
  exact lt_irrefl _ (before_iff.mp h)

/-- Of two texts that are different one comes before the other. -/
theorem before_of_notAfter {a b : String} (hne : a ≠ b) (h : notAfter a b = true) :
    before a b = true := by
  rw [before_iff]
  exact lt_of_le_of_ne (notAfter_iff.mp h) fun heq => hne (unitsOf_injective heq)

end BuildMatrix.Text
