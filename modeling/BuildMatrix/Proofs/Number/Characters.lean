import Mathlib.Data.List.Basic
import BuildMatrix.Number.Shortest
import BuildMatrix.Proofs.Text.Trim

/-!
# The characters of numbers

A number is written with decimal digits, a point, signs and the mark of an exponent, if it is
finite (`isNumeral_of_mem_render`); the others are written as words.  So no number has a blank in
its text (`isBlank_of_mem_toText`).
-/

namespace BuildMatrix.Number

/-- The characters that finite numbers are written with. -/
def isNumeral (c : Char) : Bool := c.isDigit || ['.', 'e', '+', '-'].contains c

theorem isNumeral_of_mem_toDigits {n : Nat} {c : Char} (h : c ∈ Nat.toDigits 10 n) :
    isNumeral c = true := by
  rw [isNumeral, Nat.isDigit_of_mem_toDigits (by decide) (by decide) h]
  rfl

/-- However digits are laid out, what stands between and behind them belongs to the number. -/
theorem isNumeral_of_mem_render (layout : Layout) {digits : List Char}
    (hdigits : ∀ c ∈ digits, isNumeral c = true) (p : Int) :
    ∀ c ∈ layout.render digits p, isNumeral c = true := by
  have hzeros : ∀ n, ∀ c ∈ List.replicate n '0', isNumeral c = true := by
    intro n c hc
    rw [List.eq_of_mem_replicate hc]
    decide
  have htake : ∀ n, ∀ c ∈ digits.take n, isNumeral c = true := fun n c hc =>
    hdigits c (List.mem_of_mem_take hc)
  have hdrop : ∀ n, ∀ c ∈ digits.drop n, isNumeral c = true := fun n c hc =>
    hdigits c (List.mem_of_mem_drop hc)
  unfold Layout.render
  dsimp only
  split_ifs with hplain hwhole hpoint hsign
  · exact List.forall_mem_append.mpr ⟨hdigits, hzeros _⟩
  · exact List.forall_mem_append.mpr ⟨htake _, List.forall_mem_cons.mpr ⟨by decide, hdrop _⟩⟩
  · refine List.forall_mem_cons.mpr ⟨by decide, List.forall_mem_cons.mpr ⟨by decide, ?_⟩⟩
    exact List.forall_mem_append.mpr ⟨hzeros _, hdigits⟩
  all_goals
    refine List.forall_mem_append.mpr ⟨?_, ?_⟩
    · split
      · obtain ⟨hfirst, hrest⟩ := List.forall_mem_cons.mp hdigits
        exact List.forall_mem_cons.mpr ⟨hfirst, List.forall_mem_cons.mpr ⟨by decide, hrest⟩⟩
      · exact hdigits
    · refine List.forall_mem_cons.mpr ⟨by decide, List.forall_mem_cons.mpr ⟨by decide, ?_⟩⟩
      exact fun _ => isNumeral_of_mem_toDigits

theorem isNumeral_of_mem_magnitudeChars (m : Nat) (e : Int) :
    ∀ c ∈ magnitudeChars m e, isNumeral c = true := by
  intro c hc
  unfold magnitudeChars Layout.magnitude at hc
  split at hc
  · refine isNumeral_of_mem_render _ ?_ _ c hc
    exact List.forall_mem_singleton.mpr (by decide)
  · exact isNumeral_of_mem_render _ (fun _ => isNumeral_of_mem_toDigits) _ c hc

theorem isBlank_of_isNumeral {c : Char} (h : isNumeral c = true) : Text.isBlank c = false := by
  have hnat : (48 ≤ c.toNat ∧ c.toNat ≤ 57) ∨ c = '.' ∨ c = 'e' ∨ c = '+' ∨ c = '-' := by
    simpa [isNumeral, Char.isDigit_iff_toNat] using h
  rcases hnat with ⟨hlow, hhigh⟩ | rfl | rfl | rfl | rfl
  · simp only [Text.isBlank, Bool.or_eq_false_iff, Bool.and_eq_false_iff, decide_eq_false_iff_not,
      beq_eq_false_iff_ne]
    omega
  all_goals decide

/-- No number has a blank in its text. -/
theorem isBlank_of_mem_toText (n : Number) : ∀ c ∈ n.toText.toList, Text.isBlank c = false := by
  cases n with
  | nan => exact Text.isBlank_of_any (by decide)
  | infinite negative => cases negative <;> exact Text.isBlank_of_any (by decide)
  | finite negative m e =>
    have hmagnitude := isNumeral_of_mem_magnitudeChars m e
    intro c hc
    refine isBlank_of_isNumeral ?_
    rw [toText, String.toList_ofList] at hc
    split at hc
    · rcases List.mem_cons.mp hc with rfl | hc
      · decide
      · exact hmagnitude c hc
    · exact hmagnitude c hc

end BuildMatrix.Number
