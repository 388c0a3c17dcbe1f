import BuildMatrix.Proofs.Record.Order
import BuildMatrix.Proofs.Text.Order

/-!
# Records in the order of their names

Entries are ascending when each name comes before the next ones by its units.  There is at most one
such arrangement of given entries (`Ascending.eq_of_perm`), and sorting entries with distinct names
gives it (`ascending_sorted`).  So records that differ in their order alone are sorted alike
(`sorted_eq_of_perm`).
-/

namespace BuildMatrix.Record

variable {α : Type} {r r' : Record α}

/-- Each name comes before those that follow it, by units. -/
def Ascending (r : Record α) : Prop := r.Pairwise fun e f => Text.before e.1 f.1 = true

instance (r : Record α) : Decidable r.Ascending :=
  inferInstanceAs (Decidable (r.Pairwise _))

/-- There is one ascending arrangement of entries. -/
theorem Ascending.eq_of_perm (h : r.Ascending) (h' : r'.Ascending) (hperm : r.Perm r') :
    r = r' := by
  refine hperm.eq_of_pairwise (fun e f _ _ hef hfe => ?_) h h'
  rw [Text.before_asymm hef] at hfe
  cases hfe

/-- The entries in the order of their names. -/
def sorted (r : Record α) : Record α := r.mergeSort fun a b => Text.notAfter a.1 b.1

theorem sorted_perm (r : Record α) : r.sorted.Perm r := List.mergeSort_perm _ _

theorem sorted_eq_nil_iff : r.sorted = [] ↔ r = [] := by
  rw [← List.length_eq_zero_iff, (sorted_perm r).length_eq, List.length_eq_zero_iff]

/-- Sorting puts distinct names in ascending order. -/
theorem ascending_sorted (h : (names r).Nodup) : r.sorted.Ascending := by
  have hsorted : r.sorted.Pairwise fun e f => Text.notAfter e.1 f.1 = true := by
    refine List.pairwise_mergeSort ?_ ?_ r
    · intro e f g
      exact Text.notAfter_trans
    · intro e f
      exact Text.notAfter_total e.1 f.1
  have hnames : (names r.sorted).Nodup := ((sorted_perm r).map _).nodup_iff.mpr h
  exact (List.pairwise_map.mp hnames).imp₂ (fun _ _ => Text.before_of_notAfter) hsorted

/-- Entries with distinct names that differ in their order alone are sorted alike. -/
theorem sorted_eq_of_perm (h : r.Perm r') (hn : (names r).Nodup) : r.sorted = r'.sorted := by
  have hn' : (names r').Nodup := (h.map _).nodup_iff.mp hn
  have hperm : r.sorted.Perm r'.sorted := ((sorted_perm r).trans h).trans (sorted_perm r').symm
  exact (ascending_sorted hn).eq_of_perm (ascending_sorted hn') hperm

end BuildMatrix.Record
