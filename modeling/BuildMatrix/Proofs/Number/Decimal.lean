import Mathlib.Data.Nat.Log
import BuildMatrix.Proofs.Number.Rounding
import BuildMatrix.Proofs.Record.Order

/-!
# The digits of a whole number

The shortest digits of a whole double stand for a natural of its interval (`shortest_natural`),
since a grid with whole steps meets the interval: with eighteen digits a step is not more than a
quarter of the last bit (`exists_isSome_onGrid?`).  Digits of a natural below `10 ^ 21` are written
out, and others with an exponent (`render_plain`, `render_scientific`).  The double and the natural
of its digits are both below `10 ^ 21` or neither is, since `10 ^ 21` is a double (`lt_bound_iff`).
-/

namespace BuildMatrix.Number

/-! ## Grids -/

section

variable {i : Interval} {p : Int}

/-- What a grid offers is in the interval. -/
theorem contains_of_onGrid? {k : Nat} (h : i.onGrid? p = some k) :
    i.contains (k * tenTo p.toNat) (tenTo (-p).toNat) = true := by
  unfold Interval.onGrid? at h
  dsimp only at h
  split at h
  · rename_i hboth
    obtain ⟨hlower, hupper⟩ := Bool.and_eq_true_iff.mp hboth
    obtain rfl := Option.some.inj h
    split
    · exact hlower
    · exact hupper
  · split at h
    · rename_i hlower
      obtain rfl := Option.some.inj h
      exact hlower
    · split at h
      · rename_i hupper
        obtain rfl := Option.some.inj h
        exact hupper
      · cases h

/-- A grid offers something if the multiple just below the value is in the interval. -/
theorem isSome_onGrid? (h : i.contains (i.value * tenTo (-p).toNat / (i.scale * tenTo p.toNat) *
    tenTo p.toNat) (tenTo (-p).toNat) = true) : (i.onGrid? p).isSome := by
  unfold Interval.onGrid?
  dsimp only
  rw [h]
  split
  · rfl
  · rfl

/-- Where one of the grids offers something, the search ends with what a grid offers that is not
finer. -/
theorem onGrid?_firstGrid {n j : Nat} (hj : j ≤ n) (h : (i.onGrid? (p - j)).isSome) :
    i.onGrid? (i.firstGrid n p).2 = some (i.firstGrid n p).1 ∧ p - j ≤ (i.firstGrid n p).2 := by
  induction n generalizing p j with
  | zero =>
    obtain rfl := Nat.le_zero.mp hj
    obtain ⟨k, hk⟩ := Option.isSome_iff_exists.mp h
    rw [Int.natCast_zero, Int.sub_zero] at hk
    simp [Interval.firstGrid, hk]
  | succ n ih =>
    rw [Interval.firstGrid]
    cases hhit : i.onGrid? p with
    | some k =>
      dsimp only
      exact ⟨hhit, by omega⟩
    | none =>
      -- the grid that offers something is one of the finer ones
      cases j with
      | zero => simp [hhit] at h
      | succ j =>
        have hp : p - (j + 1 : Nat) = p - 1 - j := by omega
        rw [hp] at h ⊢
        exact ih (by omega) h

end

/-! ## How many digits -/

theorem digitCount_pos (n : Nat) : 0 < digitCount n := Nat.length_toDigits_pos

theorem digitCount_le_iff {n k : Nat} (hk : 0 < k) : digitCount n ≤ k ↔ n < 10 ^ k :=
  Nat.length_toDigits_le_iff (by decide) hk

/-- The first of `k + 1` digits stands for `10 ^ k`. -/
theorem le_of_digitCount {n k : Nat} (hn : 0 < n) (h : digitCount n = k + 1) : 10 ^ k ≤ n := by
  rcases Nat.eq_zero_or_pos k with rfl | hk
  · exact hn
  · by_contra hlt
    have := (digitCount_le_iff hk).mpr (Nat.lt_of_not_le hlt)
    omega

theorem toDigits_mul_pow {k : Nat} (hk : 0 < k) (p : Nat) :
    Nat.toDigits 10 (k * 10 ^ p) = Nat.toDigits 10 k ++ List.replicate p '0' := by
  induction p with
  | zero => simp
  | succ p ih =>
    have hpos : 0 < k * 10 ^ p := Nat.mul_pos hk (Nat.pow_pos (by decide))
    have hstep := Nat.toDigits_append_toDigits (b := 10) (d := 0) (by decide) hpos (by decide)
    calc Nat.toDigits 10 (k * 10 ^ (p + 1))
        = Nat.toDigits 10 (10 * (k * 10 ^ p) + 0) := by
          congr 1
          ring
      _ = Nat.toDigits 10 (k * 10 ^ p) ++ ['0'] := by rw [← hstep, Nat.toDigits_zero]
      _ = Nat.toDigits 10 k ++ List.replicate (p + 1) '0' := by
          rw [ih, List.append_assoc, List.replicate_succ']

theorem digitCount_mul_pow {k : Nat} (hk : 0 < k) (p : Nat) :
    digitCount (k * 10 ^ p) = digitCount k + p := by
  rw [digitCount, toDigits_mul_pow hk, List.length_append, List.length_replicate, digitCount]

/-! ## The shortest digits of a whole double -/

variable {m e : Nat}

theorem leadingPower_interval (h : IsWholeDouble m e) :
    leadingPower (interval m e).value (interval m e).scale = digitCount (m * 2 ^ e) - 1 := by
  rw [leadingPower, value_interval, if_pos (Nat.le_mul_of_pos_left _ h.value_pos),
    Nat.mul_div_cancel _ (scale_interval_pos m e)]

/-- Seventeen digits below the leading one, a step is a quarter of the last bit at most. -/
theorem step_le_quarter (h : IsWholeDouble m e) {p : Nat} (hp : 10 ^ (p + 17) ≤ m * 2 ^ e) :
    10 ^ p * (interval m e).scale ≤ quarter m e := by
  have hbelow : m * 2 ^ e < 2 ^ (m.log2 + e + 1) := by
    rw [← h.log2_value]
    exact Nat.lt_log2_self
  have hpos : 0 < 10 ^ p := Nat.pow_pos (by decide)
  rw [Nat.pow_add] at hp
  rcases Nat.lt_or_ge (m.log2 + e) 52 with hfine | hcoarse
  · have hsmall : 2 ^ (m.log2 + e + 1) ≤ 2 ^ 52 := Nat.pow_le_pow_right (by decide) hfine
    omega
  · obtain ⟨q, hq⟩ := Nat.exists_eq_add_of_le hcoarse
    rw [hq, show 52 + q + 1 = 53 + q by omega, Nat.pow_add] at hbelow
    have hstep : 4 * 10 ^ p ≤ 2 ^ q := by omega
    have hscaled := Nat.mul_le_mul_right (interval m e).scale hstep
    rw [← four_mul_quarter h hq, Nat.mul_assoc] at hscaled
    omega

/-- From the leading digit on, one of eighteen grids with whole steps meets the interval. -/
theorem exists_isSome_onGrid? (h : IsWholeDouble m e) :
    ∃ j : Nat, j ≤ 17 ∧ j + 1 ≤ digitCount (m * 2 ^ e) ∧
      ((interval m e).onGrid? ((digitCount (m * 2 ^ e) : Int) - 1 - j)).isSome := by
  have hscale := scale_interval_pos m e
  obtain ⟨lead, hlead⟩ : ∃ lead, digitCount (m * 2 ^ e) = lead + 1 :=
    Nat.exists_eq_succ_of_ne_zero (digitCount_pos _).ne'
  -- the multiple of a power of ten just below the double
  have hgrid : ∀ p : Nat, (interval m e).contains (m * 2 ^ e / 10 ^ p * 10 ^ p) 1 = true →
      ((interval m e).onGrid? p).isSome := by
    intro p hp
    refine isSome_onGrid? ?_
    have hzero : (-(p : Int)).toNat = 0 := by omega
    have htenTo : ∀ n, tenTo n = 10 ^ n := fun _ => rfl
    rw [hzero, Int.toNat_natCast, htenTo, htenTo, Nat.pow_zero, Nat.mul_one, value_interval,
      Nat.mul_comm (interval m e).scale, Nat.mul_div_mul_right _ _ hscale]
    exact hp
  rw [hlead]
  rcases Nat.lt_or_ge lead 18 with hshort | hlong
  · refine ⟨lead, by omega, by omega, ?_⟩
    have hp : ((lead + 1 : Nat) : Int) - 1 - lead = (0 : Nat) := by omega
    rw [hp]
    refine hgrid 0 ?_
    rw [Nat.pow_zero, Nat.div_one, Nat.mul_one]
    exact contains_self h
  · obtain ⟨p, rfl⟩ := Nat.exists_eq_add_of_le' (Nat.le_of_lt hlong)
    refine ⟨17, by omega, by omega, ?_⟩
    have hp : ((p + 17 + 1 : Nat) : Int) - 1 - (17 : Nat) = (p : Nat) := by omega
    rw [hp]
    refine hgrid p (contains_of_lt h (Nat.div_mul_le_self _ _) ?_)
    have hmultiple : m * 2 ^ e < m * 2 ^ e / 10 ^ p * 10 ^ p + 10 ^ p :=
      Nat.lt_div_mul_add (Nat.pow_pos (by decide))
    have hscaled := Nat.mul_lt_mul_of_pos_right hmultiple hscale
    have hquarter := step_le_quarter h (le_of_digitCount h.value_pos hlead)
    rw [Nat.add_mul] at hscaled
    omega

/-- The shortest digits of a whole double stand for a natural of its interval. -/
theorem shortest_natural (h : IsWholeDouble m e) :
    ∃ k p : Nat, shortest m e = (k, (p : Int)) ∧ 0 < k ∧
      (interval m e).contains (k * 10 ^ p) 1 = true := by
  obtain ⟨j, hj, hlead, hhit⟩ := exists_isSome_onGrid? h
  obtain ⟨hfirst, hle⟩ := onGrid?_firstGrid hj hhit
  rw [← leadingPower_interval h] at hfirst hle
  obtain ⟨⟨k, p⟩, hgrid⟩ : ∃ grid, (interval m e).firstGrid 17
      (leadingPower (interval m e).value (interval m e).scale) = grid := ⟨_, rfl⟩
  rw [hgrid] at hfirst hle
  rw [leadingPower_interval h] at hle
  obtain ⟨p, rfl⟩ := Int.eq_ofNat_of_zero_le (show 0 ≤ p by omega)
  have hin : (interval m e).contains (k * 10 ^ p) 1 = true := by
    have hzero : (-(p : Int)).toNat = 0 := by omega
    have := contains_of_onGrid? hfirst
    rwa [hzero, Int.toNat_natCast] at this
  have hk : 0 < k := by
    -- zero is not in the interval
    rcases Nat.eq_zero_or_pos k with rfl | hk
    · rw [Nat.zero_mul] at hin
      have := nearest_of_contains h hin
      cases this
      exact absurd h.odd (by decide)
    · exact hk
  rw [shortest]
  dsimp only
  rw [hgrid]
  dsimp only
  split
  · rename_i hten
    have hk' : k / 10 * 10 = k := Nat.div_mul_cancel (Nat.dvd_of_mod_eq_zero hten)
    refine ⟨k / 10, p + 1, rfl, by omega, ?_⟩
    rwa [Nat.pow_succ', ← Nat.mul_assoc, hk']
  · exact ⟨k, p, rfl, hk, hin⟩

/-! ## Where an exponent is written -/

/-- The first number with an exponent is a double. -/
theorem nearest_bound : nearest false (10 ^ 21) 1 = .finite false (5 ^ 21) 21 := by decide +kernel

theorem shortest_bound : shortest (5 ^ 21) 21 = (1, 21) := by decide +kernel

/-- A double with `10 ^ 21` in its interval is `10 ^ 21`. -/
theorem eq_bound (h : (interval m e).contains (10 ^ 21) 1 = true) (hm : IsWholeDouble m e) :
    m = 5 ^ 21 ∧ e = 21 := by
  have hnearest := nearest_of_contains hm h
  rw [nearest_bound] at hnearest
  obtain ⟨-, hmantissa, hexponent⟩ := Number.finite.inj hnearest
  exact ⟨hmantissa.symm, by omega⟩

/-- The digits have an exponent exactly if the double is large. -/
theorem lt_bound_iff (h : IsWholeDouble m e) {k p : Nat} (hs : shortest m e = (k, (p : Int)))
    (hin : (interval m e).contains (k * 10 ^ p) 1 = true) :
    k * 10 ^ p < 10 ^ 21 ↔ m * 2 ^ e < 10 ^ 21 := by
  constructor
  · intro hlt
    by_contra hge
    obtain ⟨rfl, rfl⟩ :=
      eq_bound (Interval.contains_between hin (contains_self h) hlt.le (Nat.le_of_not_lt hge)) h
    rw [Nat.cast_ofNat, shortest_bound] at hs
    obtain ⟨rfl, hp⟩ := Prod.mk.inj hs
    obtain rfl : p = 21 := by omega
    omega
  · intro hlt
    by_contra hge
    obtain ⟨rfl, rfl⟩ :=
      eq_bound (Interval.contains_between (contains_self h) hin hlt.le (Nat.le_of_not_lt hge)) h
    omega

/-! ## The text of a whole double -/

/-- The digits of a number without a leading zero. -/
structure IsDecimal (cs : List Char) : Prop where
  ne_nil : cs ≠ []
  start : cs.head? ≠ some '0'
  digits : ∀ c ∈ cs, c.isDigit = true

/-- Digits with a point behind the first one, and a positive exponent. -/
def IsScientific (cs : List Char) : Prop :=
  ∃ first rest exponent,
    cs = first :: (if rest = [] then [] else '.' :: rest) ++ 'e' :: '+' :: exponent ∧
      IsDecimal (first :: rest) ∧ IsDecimal exponent

theorem isDecimal_toDigits {n : Nat} (hn : 0 < n) : IsDecimal (Nat.toDigits 10 n) := by
  obtain ⟨first, rest, hcs, hne⟩ := Record.toDigits_start hn
  refine ⟨Nat.toDigits_ne_nil, ?_, fun c => Nat.isDigit_of_mem_toDigits (by decide) (by decide)⟩
  rw [hcs, List.head?_cons]
  exact fun hfirst => hne (Option.some.inj hfirst)

/-- Up to twenty-one digits before the point are written out. -/
theorem render_plain {k p : Nat} (hk : 0 < k) (hlt : k * 10 ^ p < 10 ^ 21) :
    plainLayout.render (Nat.toDigits 10 k) p = Nat.toDigits 10 (k * 10 ^ p) := by
  have hcount := (digitCount_le_iff (by decide)).mpr hlt
  rw [digitCount_mul_pow hk, digitCount] at hcount
  have hpos : 0 < (Nat.toDigits 10 k).length := Nat.length_toDigits_pos
  have hplain : (decide (plainLayout.least ≤ (p : Int) + (Nat.toDigits 10 k).length - 1) &&
      decide ((p : Int) + (Nat.toDigits 10 k).length - 1 < plainLayout.bound)) = true := by
    have hleast : plainLayout.least = -6 := rfl
    have hbound : plainLayout.bound = 21 := rfl
    rw [Bool.and_eq_true, decide_eq_true_iff, decide_eq_true_iff]
    omega
  unfold Layout.render
  dsimp only
  rw [if_pos hplain, if_pos (by omega), Int.toNat_natCast, toDigits_mul_pow hk]

/-- More of them are written with an exponent. -/
theorem render_scientific {k p : Nat} (hk : 0 < k) (hle : 10 ^ 21 ≤ k * 10 ^ p) :
    ∃ first rest, Nat.toDigits 10 k = first :: rest ∧ 0 < p + rest.length ∧
      plainLayout.render (Nat.toDigits 10 k) p =
        first :: (if rest = [] then [] else '.' :: rest) ++
          'e' :: '+' :: Nat.toDigits 10 (p + rest.length) := by
  obtain ⟨first, rest, hcs, -⟩ := Record.toDigits_start hk
  have hcount := (digitCount_le_iff (k := 21) (by decide)).not.mpr (Nat.not_lt.mpr hle)
  rw [digitCount_mul_pow hk, digitCount, hcs, List.length_cons] at hcount
  refine ⟨first, rest, hcs, by omega, ?_⟩
  have hlead : (p : Int) + (first :: rest).length - 1 = (p + rest.length : Nat) := by
    rw [List.length_cons]
    omega
  have hplain : ¬ (decide (plainLayout.least ≤ ((p + rest.length : Nat) : Int)) &&
      decide (((p + rest.length : Nat) : Int) < plainLayout.bound)) = true := by
    have hbound : plainLayout.bound = 21 := rfl
    rw [Bool.and_eq_true, decide_eq_true_iff, decide_eq_true_iff]
    omega
  rw [hcs]
  unfold Layout.render
  dsimp only
  rw [hlead, if_neg hplain, if_neg (by omega), Int.natAbs_natCast]
  cases rest with
  | nil => rfl
  | cons second rest => rw [if_neg (List.cons_ne_nil second rest)]

end BuildMatrix.Number
