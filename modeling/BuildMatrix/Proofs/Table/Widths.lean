import Mathlib.Data.List.Forall2
import BuildMatrix.Table

/-!
# Column widths

The widths of the columns are the least numbers that no head and no cell of their column is longer
than (`widths_le_iff`).  So every cell fits its column (`fits_heads`, `fits_cells`).
-/

namespace BuildMatrix.Table

/-- Cells that are not longer than some bounds, one for each. -/
def Within (cells : List String) (bounds : List Nat) : Prop :=
  List.Forall₂ (fun cell bound => Text.length cell ≤ bound) cells bounds

/-- Bounds hold of the greater ones of two rows of numbers if they hold of both. -/
theorem forall₂_zipWith_max {as bs bounds : List Nat} (h : as.length = bs.length) :
    List.Forall₂ (· ≤ ·) (as.zipWith max bs) bounds ↔
      List.Forall₂ (· ≤ ·) as bounds ∧ List.Forall₂ (· ≤ ·) bs bounds := by
  induction as generalizing bs bounds with
  | nil =>
    obtain rfl : bs = [] := List.length_eq_zero_iff.mp h.symm
    exact (and_self_iff).symm
  | cons a as ih =>
    cases bs with
    | nil => exact absurd h (Nat.succ_ne_zero _)
    | cons b bs =>
      rw [List.zipWith_cons_cons, List.forall₂_cons_left_iff, List.forall₂_cons_left_iff,
        List.forall₂_cons_left_iff]
      constructor
      · rintro ⟨bound, bounds, hhead, htail, rfl⟩
        obtain ⟨ha, hb⟩ := Nat.max_le.mp hhead
        obtain ⟨has, hbs⟩ := (ih (Nat.succ.inj h)).mp htail
        exact ⟨⟨bound, bounds, ha, has, rfl⟩, ⟨bound, bounds, hb, hbs, rfl⟩⟩
      · rintro ⟨⟨bound, bounds, ha, has, rfl⟩, ⟨_, _, hb, hbs, heq⟩⟩
        obtain ⟨rfl, rfl⟩ := List.cons.inj heq
        exact ⟨bound, bounds, Nat.max_le.mpr ⟨ha, hb⟩, (ih (Nat.succ.inj h)).mpr ⟨has, hbs⟩, rfl⟩

/-- Bounds hold of the widths if they hold of the heads and of the cells of every row. -/
theorem widths_le_iff {rows : List JobRow} {bounds : List Nat} :
    List.Forall₂ (· ≤ ·) (widths rows) bounds ↔
      Within heads bounds ∧ ∀ row ∈ rows, Within row.cells bounds := by
  have hfold : ∀ start : List Nat, start.length = heads.length →
      (List.Forall₂ (· ≤ ·)
          (rows.foldl (fun widths row => widths.zipWith max (row.cells.map Text.length)) start)
          bounds ↔
        List.Forall₂ (· ≤ ·) start bounds ∧ ∀ row ∈ rows, Within row.cells bounds) := by
    induction rows with
    | nil => intro start _; simp
    | cons row rest ih =>
      intro start hstart
      have hlength : start.length = (row.cells.map Text.length).length := hstart
      have hmax : (start.zipWith max (row.cells.map Text.length)).length = heads.length := by
        rw [List.length_zipWith, ← hlength, Nat.min_self, hstart]
      rw [List.foldl_cons, ih _ hmax, forall₂_zipWith_max hlength, List.forall₂_map_left_iff,
        List.forall_mem_cons, and_assoc]
      rfl
  rw [widths, hfold _ (List.length_map ..), List.forall₂_map_left_iff]
  rfl

/-- The heads and the cells of all rows fit the columns. -/
theorem within_widths (rows : List JobRow) :
    Within heads (widths rows) ∧ ∀ row ∈ rows, Within row.cells (widths rows) :=
  widths_le_iff.mp (List.forall₂_refl _)

end BuildMatrix.Table
