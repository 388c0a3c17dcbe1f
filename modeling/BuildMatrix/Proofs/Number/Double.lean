import Mathlib.Data.Nat.Factorization.Basic
import BuildMatrix.Proofs.Number.Rounding

/-!
# Numbers are doubles

The type of numbers holds more than the doubles: a mantissa can be too long there, or an exponent
too large.  Rounding gives doubles alone (`isDouble_nearest`), since the quotient that is rounded
has 53 bits at most (`quotient_lt`).  The doubles that are whole and positive are those that the
intervals are about (`IsDouble.isWholeDouble`).
-/

namespace BuildMatrix.Number

/-- A zero, or a number with an odd mantissa of 53 bits at most and an exponent in range; also what
is not finite. -/
def IsDouble : Number → Prop
  | .finite _ m e =>
    m = 0 ∧ e = 0 ∨ m % 2 = 1 ∧ m < 2 ^ 53 ∧ -1074 ≤ e ∧ (m.log2 : Int) + e < 1024
  | _ => True

instance : DecidablePred IsDouble
  | .nan => .isTrue trivial
  | .infinite _ => .isTrue trivial
  | .finite _ m e => inferInstanceAs (Decidable
      (m = 0 ∧ e = 0 ∨ m % 2 = 1 ∧ m < 2 ^ 53 ∧ -1074 ≤ e ∧ (m.log2 : Int) + e < 1024))

theorem isDouble_zero (negative : Bool) : (zero negative).IsDouble := .inl ⟨rfl, rfl⟩

/-- A positive double that is whole. -/
theorem IsDouble.isWholeDouble {n : Number} (h : n.IsDouble) (hwhole : n.isWhole = true)
    (hpositive : n.isPositive = true) : ∃ m e : Nat, n = .finite false m e ∧ IsWholeDouble m e := by
  cases n with
  | nan => cases hwhole
  | infinite negative => cases hwhole
  | finite negative m e =>
    simp only [isPositive, Bool.and_eq_true, Bool.not_eq_true', bne_iff_ne] at hpositive
    simp only [isWhole, Bool.or_eq_true, beq_iff_eq, decide_eq_true_eq] at hwhole
    obtain ⟨rfl, hm⟩ := hpositive
    rcases h with ⟨hzero, -⟩ | ⟨hodd, hnarrow, -, hbounded⟩
    · exact absurd hzero hm
    · obtain ⟨e, rfl⟩ := Int.eq_ofNat_of_zero_le (hwhole.resolve_left hm)
      exact ⟨m, e, rfl, hodd, hnarrow, by omega⟩

/-! ## What is rounded is a double -/

/-- The whole part of `num / (den · 2 ^ e)`. -/
def quotient (num den : Nat) (e : Int) : Nat := (scaleDown num den e).1 / (scaleDown num den e).2

/-- One more in the exponent halves the quotient. -/
theorem quotient_succ (num den : Nat) (e : Int) :
    quotient num den (e + 1) = quotient num den e / 2 := by
  rcases Int.lt_or_le e 0 with hneg | hpos
  · obtain ⟨k, rfl⟩ : ∃ k : Nat, e = -(k + 1 : Nat) := ⟨(-e).toNat - 1, by omega⟩
    have hquotient : quotient num den (-(k + 1 : Nat)) = num * 2 ^ (k + 1) / den := by
      rw [quotient, scaleDown, if_neg (by omega), Int.neg_neg, Int.toNat_natCast, Nat.shiftLeft_eq]
    have hnext : quotient num den (-(k + 1 : Nat) + 1) = num * 2 ^ k / den := by
      rw [quotient, show -((k + 1 : Nat) : Int) + 1 = -(k : Nat) by omega, scaleDown]
      split
      · obtain rfl : k = 0 := by omega
        simp
      · rw [Int.neg_neg, Int.toNat_natCast, Nat.shiftLeft_eq]
    rw [hquotient, hnext, Nat.div_div_eq_div_mul, Nat.pow_succ, ← Nat.mul_assoc,
      Nat.mul_div_mul_right _ _ (by decide)]
  · obtain ⟨k, rfl⟩ := Int.eq_ofNat_of_zero_le hpos
    have hquotient : ∀ k : Nat, quotient num den k = num / (den * 2 ^ k) := by
      intro k
      rw [quotient, scaleDown, if_pos (by omega), Int.toNat_natCast, Nat.shiftLeft_eq]
    rw [← Int.natCast_succ, hquotient, hquotient, Nat.div_div_eq_div_mul, Nat.pow_succ,
      Nat.mul_assoc]

theorem quotient_add_le (num den : Nat) (e : Int) (k : Nat) :
    quotient num den (e + k) ≤ quotient num den e := by
  induction k with
  | zero => simp
  | succ k ih =>
    have hstep := quotient_succ num den (e + k)
    rw [show e + (k + 1 : Nat) = e + k + 1 by omega]
    omega

/-- The binary digits of numerator and denominator tell the quotient up to one digit. -/
theorem quotient_lt {num den : Nat} (hden : 0 < den) :
    quotient num den ((num.log2 : Int) - den.log2 - 53) < 2 ^ 54 := by
  have hnum : num < 2 ^ (num.log2 + 1) := Nat.lt_log2_self
  have hlow : 2 ^ den.log2 ≤ den := Nat.log2_self_le hden.ne'
  rw [quotient, scaleDown]
  split
  · rename_i hle
    obtain ⟨k, hk⟩ : ∃ k, num.log2 = den.log2 + 53 + k :=
      ⟨num.log2 - den.log2 - 53, by omega⟩
    have hto : ((num.log2 : Int) - den.log2 - 53).toNat = k := by omega
    rw [hto, Nat.shiftLeft_eq, Nat.div_lt_iff_lt_mul (Nat.mul_pos hden (Nat.two_pow_pos k))]
    calc num < 2 ^ (num.log2 + 1) := hnum
      _ = 2 ^ 54 * (2 ^ den.log2 * 2 ^ k) := by
        rw [hk, ← Nat.pow_add, ← Nat.pow_add]
        congr 1
        omega
      _ ≤ 2 ^ 54 * (den * 2 ^ k) :=
        Nat.mul_le_mul_left _ (Nat.mul_le_mul_right _ hlow)
  · rename_i hlt
    obtain ⟨k, hk⟩ : ∃ k, num.log2 + k = den.log2 + 53 :=
      ⟨den.log2 + 53 - num.log2, by omega⟩
    have hto : (-((num.log2 : Int) - den.log2 - 53)).toNat = k := by omega
    rw [hto, Nat.shiftLeft_eq, Nat.div_lt_iff_lt_mul hden]
    calc num * 2 ^ k < 2 ^ (num.log2 + 1) * 2 ^ k :=
          Nat.mul_lt_mul_of_pos_right hnum (Nat.two_pow_pos k)
      _ = 2 ^ 54 * 2 ^ den.log2 := by
        rw [← Nat.pow_add, ← Nat.pow_add]
        congr 1
        omega
      _ ≤ 2 ^ 54 * den := Nat.mul_le_mul_left _ hlow

theorem divRound_le (num den : Nat) : divRound num den ≤ num / den + 1 := by
  unfold divRound
  dsimp only
  split_ifs <;> omega

/-- A mantissa of 53 bits, or the next power of two, is kept as a double. -/
theorem isDouble_normal {m : Nat} {e : Int} (hm : m ≤ 2 ^ 53) (hlow : -1074 ≤ e)
    (hbounded : (m.log2 : Int) + e < 1024) (negative : Bool) : (normal negative m e).IsDouble := by
  by_cases hzero : m = 0
  · rw [normal, if_pos hzero]
    exact isDouble_zero negative
  obtain ⟨k, odd, hodd, rfl⟩ := Nat.exists_eq_two_pow_mul_odd hzero
  have hone : odd % 2 = 1 := Nat.odd_iff.mp hodd
  have hpos : odd ≠ 0 := by
    rintro rfl
    cases hone
  have hnarrow : odd < 2 ^ 53 := by
    have hle : odd ≤ 2 ^ k * odd := Nat.le_mul_of_pos_left _ (Nat.two_pow_pos k)
    omega
  rw [Nat.mul_comm, log2_mul_pow hpos] at hbounded
  rw [Nat.mul_comm, normal_mul_pow hone]
  exact .inr ⟨hone, hnarrow, by omega, by omega⟩

/-- The exponent is chosen so that the quotient has 53 bits. -/
theorem quotient_lt_of_choice {num den : Nat} {low e : Int} (h : quotient num den low < 2 ^ 54)
    (he : max (if quotient num den low < 1 <<< 53 then low else low + 1) (-1074) = e) :
    quotient num den e < 2 ^ 53 := by
  obtain ⟨start, k, hstart, rfl⟩ :
      ∃ (start : Int) (k : Nat), quotient num den start < 2 ^ 53 ∧ e = start + k := by
    split at he
    · rename_i hfits
      exact ⟨low, (e - low).toNat, by rwa [Nat.shiftLeft_eq, Nat.one_mul] at hfits, by omega⟩
    · refine ⟨low + 1, (e - (low + 1)).toNat, ?_, by omega⟩
      rw [quotient_succ]
      omega
  exact Nat.lt_of_le_of_lt (quotient_add_le num den start k) hstart

/-- The number that is nearest to a fraction is a double. -/
theorem isDouble_nearest (negative : Bool) (num : Nat) {den : Nat} (hden : 0 < den) :
    (nearest negative num den).IsDouble := by
  unfold nearest
  split
  · exact isDouble_zero negative
  dsimp only
  obtain ⟨e, he⟩ : ∃ e : Int, max (if quotient num den ((num.log2 : Int) - den.log2 - 53) < 1 <<< 53
      then (num.log2 : Int) - den.log2 - 53 else (num.log2 : Int) - den.log2 - 53 + 1) (-1074) =
        e := ⟨_, rfl⟩
  have hnarrow := quotient_lt_of_choice (quotient_lt hden) he
  rw [quotient] at he
  rw [he]
  have hround : divRound (scaleDown num den e).1 (scaleDown num den e).2 ≤ 2 ^ 53 :=
    (divRound_le _ _).trans hnarrow
  split
  · trivial
  · exact isDouble_normal hround (by omega) (by omega) negative

theorem isDouble_ofNat (n : Nat) : (ofNat n).IsDouble := isDouble_nearest false n Nat.one_pos

end BuildMatrix.Number
