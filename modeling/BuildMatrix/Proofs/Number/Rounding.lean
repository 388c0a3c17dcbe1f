import Mathlib.Data.Nat.Bits
import Mathlib.Tactic.Ring
import BuildMatrix.Number.Shortest

/-!
# Naturals that round to a double

A whole double is kept with an odd mantissa of at most 53 bits (`IsWholeDouble`), and its interval
is measured from the mantissa of exactly 53 bits that it is stored with (`stored_natural`).  Where
the last of these bits is one or more, a natural of the interval is at most half of it away, and
below a power of two at most a quarter (`near_of_contains`); where it is less, there is but one such
natural (`eq_of_contains`).  Rounding to 53 bits takes all of them to the double
(`nearest_of_contains`).
-/

namespace BuildMatrix.Number

/-- `m · 2 ^ e` is a double in the form in which nonzero numbers are kept. -/
structure IsWholeDouble (m e : Nat) : Prop where
  odd : m % 2 = 1
  narrow : m < 2 ^ 53
  bounded : m.log2 + e < 1024

/-! ## Rounding -/

/-- The remainder decides which of two neighbours is the nearest. -/
theorem divRound_mul_add {rest den : Nat} (hrest : rest < den) (s : Nat) :
    divRound (s * den + rest) den =
      if 2 * rest < den then s else if den < 2 * rest then s + 1 else s + s % 2 := by
  have hdiv : (s * den + rest) / den = s := by
    rw [Nat.add_comm, Nat.add_mul_div_right _ _ (by omega), Nat.div_eq_of_lt hrest, Nat.zero_add]
  have hmod : (s * den + rest) % den = rest := by
    rw [Nat.add_comm, Nat.add_mul_mod_self_right, Nat.mod_eq_of_lt hrest]
  simp only [divRound, hdiv, hmod]

/-- What is at most half a unit away from a number rounds to it, and at exactly half a unit if the
number is even. -/
theorem divRound_eq {num den s : Nat} (hden : 0 < den) (hlow : 2 * (s * den) ≤ 2 * num + den)
    (hhigh : 2 * num ≤ 2 * (s * den) + den)
    (htie : s % 2 = 1 → 2 * (s * den) < 2 * num + den ∧ 2 * num < 2 * (s * den) + den) :
    divRound num den = s := by
  rcases Nat.lt_or_ge num (s * den) with hlt | hle
  · -- from below, the number is reached by rounding up
    obtain ⟨t, rfl⟩ : ∃ t, s = t + 1 := Nat.exists_eq_succ_of_ne_zero (by
      rintro rfl
      simp at hlt)
    have hsucc : (t + 1) * den = t * den + den := Nat.succ_mul t den
    rw [hsucc] at hlow hhigh htie hlt
    obtain ⟨rest, rfl⟩ : ∃ rest, num = t * den + rest := Nat.exists_eq_add_of_le (by omega)
    rw [divRound_mul_add (by omega)]
    split_ifs <;> omega
  · obtain ⟨rest, rfl⟩ := Nat.exists_eq_add_of_le hle
    rw [divRound_mul_add (by omega)]
    split_ifs <;> omega

theorem log2_mul_pow {m : Nat} (hm : m ≠ 0) (k : Nat) : (m * 2 ^ k).log2 = m.log2 + k := by
  rw [Nat.log2_eq_iff (Nat.mul_ne_zero hm (Nat.two_pow_pos k).ne'), Nat.pow_add,
    Nat.add_right_comm, Nat.pow_add]
  exact ⟨Nat.mul_le_mul_right _ (Nat.log2_self_le hm),
    Nat.mul_lt_mul_of_pos_right Nat.lt_log2_self (Nat.two_pow_pos k)⟩

/-- All factors of two move to the exponent. -/
theorem stripTwos_mul_pow {m : Nat} (hm : m % 2 = 1) {n k : Nat} (hk : k ≤ n) (e : Int) :
    stripTwos n (m * 2 ^ k) e = (m, e + k) := by
  induction k generalizing n e with
  | zero => cases n <;> simp [stripTwos, hm]
  | succ k ih =>
    obtain ⟨n, rfl⟩ := Nat.exists_eq_succ_of_ne_zero (by omega : n ≠ 0)
    have hhalf : m * 2 ^ (k + 1) = 2 * (m * 2 ^ k) := by ring
    have heven : m * 2 ^ (k + 1) % 2 = 0 := by omega
    rw [stripTwos, if_pos heven, hhalf, Nat.mul_div_cancel_left _ (by decide), ih (by omega)]
    congr 1
    omega

/-- A number is kept with its odd mantissa. -/
theorem normal_mul_pow {m : Nat} (hm : m % 2 = 1) (negative : Bool) (k : Nat) (e : Int) :
    normal negative (m * 2 ^ k) e = .finite negative m (e + k) := by
  have hpow : 2 ^ k ≤ m * 2 ^ k := Nat.le_mul_of_pos_left _ (by omega)
  have hne : m * 2 ^ k ≠ 0 := by
    have := Nat.two_pow_pos k
    omega
  have hk : k ≤ (m * 2 ^ k).log2 + 1 := Nat.le_succ_of_le ((Nat.le_log2 hne).mpr hpow)
  rw [normal, if_neg hne]
  dsimp only
  rw [stripTwos_mul_pow hm hk]

theorem scaleDown_natural (n q : Nat) : scaleDown n 1 (q : Int) = (n, 2 ^ q) := by
  rw [scaleDown, if_pos (by omega), Int.toNat_natCast, Nat.shiftLeft_eq, Nat.one_mul]

/-- A natural is rounded to 53 bits. -/
theorem nearest_natural {n : Nat} (hn : n ≠ 0) (negative : Bool) :
    nearest negative n 1 =
      let e : Int := n.log2 - 52
      let m := divRound (scaleDown n 1 e).1 (scaleDown n 1 e).2
      if 1024 ≤ (m.log2 : Int) + e then .infinite negative else normal negative m e := by
  have hone : (1 : Nat).log2 = 0 := by decide
  have hlow : ((n.log2 : Int) - (1 : Nat).log2 - 53) = n.log2 - 53 := by omega
  have hlarge : ¬ (scaleDown n 1 (n.log2 - 53 : Int)).1 / (scaleDown n 1 (n.log2 - 53 : Int)).2 <
      1 <<< 53 := by
    have hpow : 2 ^ n.log2 ≤ n := Nat.log2_self_le hn
    rw [scaleDown]
    split
    · rename_i hle
      obtain ⟨k, hk⟩ : ∃ k, n.log2 = k + 53 := ⟨n.log2 - 53, by omega⟩
      have hto : ((n.log2 : Int) - 53).toNat = k := by omega
      rw [hto, Nat.not_lt, Nat.le_div_iff_mul_le (by simp [Nat.shiftLeft_eq])]
      rw [hk, Nat.pow_add] at hpow
      simp only [Nat.shiftLeft_eq, Nat.one_mul]
      omega
    · rename_i hlt
      obtain ⟨k, hk⟩ : ∃ k, n.log2 + k = 53 := ⟨53 - n.log2, by omega⟩
      have hto : (-((n.log2 : Int) - 53)).toNat = k := by omega
      rw [hto, Nat.not_lt, Nat.div_one, Nat.shiftLeft_eq, Nat.shiftLeft_eq, Nat.one_mul, ← hk,
        Nat.pow_add]
      exact Nat.mul_le_mul_right _ hpow
  have hmax : max ((n.log2 : Int) - 53 + 1) (-1074) = n.log2 - 52 := by omega
  rw [nearest, if_neg hn, hlow]
  dsimp only
  rw [if_neg hlarge, hmax]

/-! ## The interval of a whole double -/

/-- The mantissa with all of its 53 bits. -/
def fullMantissa (m : Nat) : Nat := m * 2 ^ (52 - m.log2)

/-- The exponent of the last of the 53 bits. -/
def lastExponent (m e : Nat) : Int := (e : Int) - (52 - m.log2 : Nat)

namespace IsWholeDouble

variable {m e : Nat}

theorem ne_zero (h : IsWholeDouble m e) : m ≠ 0 := by
  have := h.odd
  omega

theorem log2_le (h : IsWholeDouble m e) : m.log2 ≤ 52 :=
  Nat.le_of_lt_succ ((Nat.log2_lt h.ne_zero).mpr h.narrow)

theorem value_pos (h : IsWholeDouble m e) : 0 < m * 2 ^ e :=
  Nat.mul_pos (Nat.pos_of_ne_zero h.ne_zero) (Nat.two_pow_pos e)

/-- The number has as many binary digits as its mantissa and its exponent say. -/
theorem log2_value (h : IsWholeDouble m e) : (m * 2 ^ e).log2 = m.log2 + e :=
  log2_mul_pow h.ne_zero e

theorem two_pow_log2_mul (h : IsWholeDouble m e) : 2 ^ m.log2 * 2 ^ (52 - m.log2) = 2 ^ 52 := by
  rw [← Nat.pow_add, Nat.add_sub_cancel' h.log2_le]

theorem le_fullMantissa (h : IsWholeDouble m e) : 2 ^ 52 ≤ fullMantissa m := by
  rw [← h.two_pow_log2_mul]
  exact Nat.mul_le_mul_right _ (Nat.log2_self_le h.ne_zero)

theorem fullMantissa_lt (h : IsWholeDouble m e) : fullMantissa m < 2 ^ 53 := by
  have hpow : 2 ^ (m.log2 + 1) * 2 ^ (52 - m.log2) = 2 * 2 ^ 52 := by
    rw [Nat.pow_succ', Nat.mul_assoc, h.two_pow_log2_mul]
  rw [show 2 ^ 53 = 2 * 2 ^ 52 by rfl, ← hpow]
  exact Nat.mul_lt_mul_of_pos_right Nat.lt_log2_self (Nat.two_pow_pos _)

theorem log2_fullMantissa (h : IsWholeDouble m e) : (fullMantissa m).log2 = 52 := by
  have hne : fullMantissa m ≠ 0 := by
    have := h.le_fullMantissa
    omega
  exact (Nat.log2_eq_iff hne).mpr ⟨h.le_fullMantissa, h.fullMantissa_lt⟩

theorem lastExponent_eq (h : IsWholeDouble m e) : lastExponent m e = m.log2 + e - 52 := by
  have := h.log2_le
  unfold lastExponent
  omega

/-- A power of two is kept with the mantissa one. -/
theorem eq_one (h : IsWholeDouble m e) (hs : fullMantissa m = 2 ^ 52) : m = 1 := by
  have hm : m = 2 ^ m.log2 :=
    Nat.eq_of_mul_eq_mul_right (Nat.two_pow_pos _) (hs.trans h.two_pow_log2_mul.symm)
  have hodd := h.odd
  cases hlog : m.log2 with
  | zero => rwa [hlog] at hm
  | succ k =>
    rw [hlog, Nat.pow_succ] at hm
    omega

end IsWholeDouble

variable {m e : Nat}

theorem stored_natural (m e : Nat) :
    stored m e = (fullMantissa m, lastExponent m e) := by
  have hshift : min (52 - m.log2) ((e : Int) + 1074).toNat = 52 - m.log2 := by omega
  rw [stored, hshift, Nat.shiftLeft_eq]
  rfl

/-- A quarter of the last of the 53 bits, in the scale of the interval. -/
def quarter (m e : Nat) : Nat := 2 ^ (lastExponent m e - 2).toNat

/-- How many quarters the interval reaches down. -/
def reach (m : Nat) : Nat := if fullMantissa m = 2 ^ 52 then 1 else 2

theorem scale_interval (m e : Nat) :
    (interval m e).scale = 2 ^ (2 - lastExponent m e).toNat := by
  simp only [interval, stored_natural, Nat.shiftLeft_eq, Nat.one_mul]

theorem scale_interval_pos (m e : Nat) : 0 < (interval m e).scale := by
  rw [scale_interval]
  exact Nat.two_pow_pos _

/-- Four quarters are the last bit. -/
theorem four_mul_quarter (h : IsWholeDouble m e) {q : Nat} (hq : m.log2 + e = 52 + q) :
    4 * quarter m e = 2 ^ q * (interval m e).scale := by
  have hlast := h.lastExponent_eq
  rw [scale_interval, quarter, show 4 = 2 ^ 2 by rfl, ← Nat.pow_add, ← Nat.pow_add]
  congr 1
  omega

theorem value_interval (m e : Nat) :
    (interval m e).value = m * 2 ^ e * (interval m e).scale := by
  have hpow : 4 * 2 ^ (52 - m.log2) * quarter m e = 2 ^ e * (interval m e).scale := by
    rw [scale_interval, quarter, lastExponent, show 4 = 2 ^ 2 by rfl, ← Nat.pow_add, ← Nat.pow_add,
      ← Nat.pow_add]
    congr 1
    omega
  calc (interval m e).value
      = 4 * (m * 2 ^ (52 - m.log2)) * quarter m e := by
        simp only [interval, stored_natural, Nat.shiftLeft_eq, Nat.one_mul, quarter, fullMantissa]
    _ = m * (4 * 2 ^ (52 - m.log2) * quarter m e) := by ring
    _ = m * 2 ^ e * (interval m e).scale := by rw [hpow, Nat.mul_assoc]

theorem high_interval (m e : Nat) :
    (interval m e).high = (interval m e).value + 2 * quarter m e := by
  simp only [interval, stored_natural, Nat.shiftLeft_eq, Nat.one_mul, quarter]
  ring

theorem low_interval (h : IsWholeDouble m e) :
    (interval m e).low + reach m * quarter m e = (interval m e).value := by
  have hreach : (if fullMantissa m = 2 ^ 52 ∧ -1074 < lastExponent m e
      then 1 else 2) = reach m := by
    have hq : -1074 < lastExponent m e := by
      have := h.lastExponent_eq
      omega
    simp only [reach, hq, and_true]
  have hle : reach m ≤ 4 * fullMantissa m := by
    have := h.le_fullMantissa
    unfold reach
    split <;> omega
  simp only [interval, stored_natural, Nat.shiftLeft_eq, Nat.one_mul]
  rw [hreach, quarter, ← Nat.add_mul, Nat.sub_add_cancel hle]

theorem reach_le (m : Nat) : reach m ≤ 2 := by
  unfold reach
  split <;> omega

/-- A natural of the interval is `reach` quarters below the double at most, and two above it; if the
mantissa is odd, it is less. -/
theorem bounds_of_contains (h : IsWholeDouble m e) {n : Nat}
    (hn : (interval m e).contains n 1 = true) :
    m * 2 ^ e * (interval m e).scale ≤
        n * (interval m e).scale + reach m * quarter m e ∧
      n * (interval m e).scale ≤ m * 2 ^ e * (interval m e).scale + 2 * quarter m e ∧
      (fullMantissa m % 2 = 1 →
        m * 2 ^ e * (interval m e).scale <
            n * (interval m e).scale + reach m * quarter m e ∧
          n * (interval m e).scale < m * 2 ^ e * (interval m e).scale + 2 * quarter m e) := by
  have hvalue : (interval m e).value = _ := value_interval m e
  have hhigh := high_interval m e
  have hlow := low_interval h
  have hclosed : (interval m e).closed = decide (fullMantissa m % 2 = 0) := by
    simp only [interval, stored_natural]
  unfold Interval.contains at hn
  simp only [hclosed, decide_eq_true_eq, Nat.mul_one] at hn
  split at hn
  · simp only [Bool.and_eq_true, decide_eq_true_eq] at hn
    omega
  · simp only [Bool.and_eq_true, decide_eq_true_eq] at hn
    omega

/-- What is less than one quarter below the double, and not above it, is in the interval. -/
theorem contains_of_lt (h : IsWholeDouble m e) {n : Nat} (hle : n ≤ m * 2 ^ e)
    (hlt : m * 2 ^ e * (interval m e).scale < n * (interval m e).scale + quarter m e) :
    (interval m e).contains n 1 = true := by
  have hvalue := value_interval m e
  have hhigh := high_interval m e
  have hlow := low_interval h
  have hreach : quarter m e ≤ reach m * quarter m e := by
    refine Nat.le_mul_of_pos_left _ ?_
    unfold reach
    split <;> decide
  have hscaled := Nat.mul_le_mul_right (interval m e).scale hle
  have hquarter : 0 < quarter m e := Nat.two_pow_pos _
  unfold Interval.contains
  simp only [Nat.mul_one]
  split <;>
  · simp only [Bool.and_eq_true, decide_eq_true_eq]
    omega

/-- The double is in its interval. -/
theorem contains_self (h : IsWholeDouble m e) : (interval m e).contains (m * 2 ^ e) 1 = true :=
  contains_of_lt h (Nat.le_refl _) (Nat.lt_add_of_pos_right (Nat.two_pow_pos _))

/-- So is what lies between two naturals that are. -/
theorem Interval.contains_between {i : Interval} {a b n : Nat} (ha : i.contains a 1 = true)
    (hb : i.contains b 1 = true) (han : a ≤ n) (hnb : n ≤ b) : i.contains n 1 = true := by
  have hlow := Nat.mul_le_mul_right i.scale han
  have hhigh := Nat.mul_le_mul_right i.scale hnb
  cases hclosed : i.closed <;>
  · simp only [Interval.contains, hclosed, Bool.false_eq_true, if_true, if_false, Nat.mul_one,
      Bool.and_eq_true, decide_eq_true_eq] at ha hb ⊢
    omega

/-! ## Naturals of the interval -/

/-- Where the last of the 53 bits is below one, the interval has but one natural. -/
theorem eq_of_contains (h : IsWholeDouble m e) (hfine : m.log2 + e < 52) {n : Nat}
    (hn : (interval m e).contains n 1 = true) : n = m * 2 ^ e := by
  obtain ⟨hlow, hhigh, -⟩ := bounds_of_contains h hn
  have hlast := h.lastExponent_eq
  have hquarter : quarter m e = 1 := by
    rw [quarter, show (lastExponent m e - 2).toNat = 0 by omega, Nat.pow_zero]
  have hscale : 2 ^ 3 ≤ (interval m e).scale := by
    rw [scale_interval]
    exact Nat.pow_le_pow_right (by decide) (by omega)
  have hreach := reach_le m
  rw [hquarter] at hlow hhigh
  generalize (interval m e).scale = scale at *
  rcases Nat.lt_trichotomy n (m * 2 ^ e) with hlt | heq | hlt
  · have := Nat.mul_le_mul_right scale hlt
    rw [Nat.succ_mul] at this
    omega
  · exact heq
  · have := Nat.mul_le_mul_right scale hlt
    rw [Nat.succ_mul] at this
    omega

/-- What a natural is to `s · 2 ^ q` if it rounds to it: at most half a unit away, below a power of
two at most a quarter, and less if `s` is odd. -/
structure Near (s q n : Nat) : Prop where
  low : 2 * (s * 2 ^ q) ≤ 2 * n + 2 ^ q
  high : 2 * n ≤ 2 * (s * 2 ^ q) + 2 ^ q
  tie : s % 2 = 1 → 2 * (s * 2 ^ q) < 2 * n + 2 ^ q ∧ 2 * n < 2 * (s * 2 ^ q) + 2 ^ q
  lowest : s = 2 ^ 52 → 4 * (s * 2 ^ q) ≤ 4 * n + 2 ^ q

/-- Where the last of the 53 bits is one or more, the naturals of the interval are near. -/
theorem near_of_contains (h : IsWholeDouble m e) {q : Nat} (hq : m.log2 + e = 52 + q) {n : Nat}
    (hn : (interval m e).contains n 1 = true) : Near (fullMantissa m) q n := by
  obtain ⟨hlow, hhigh, htie⟩ := bounds_of_contains h hn
  have hvalue : m * 2 ^ e = fullMantissa m * 2 ^ q := by
    have hlog := h.log2_le
    rw [fullMantissa, Nat.mul_assoc, ← Nat.pow_add]
    congr 2
    omega
  have hquarter := four_mul_quarter h hq
  have hscale := scale_interval_pos m e
  rw [hvalue] at hlow hhigh htie
  have hcancel : ∀ {a b : Nat}, a * (interval m e).scale ≤ b * (interval m e).scale → a ≤ b :=
    fun hab => Nat.le_of_mul_le_mul_right hab hscale
  have hcancel' : ∀ {a b : Nat}, a * (interval m e).scale < b * (interval m e).scale → a < b :=
    fun hab => Nat.lt_of_mul_lt_mul_right hab
  have hreach : reach m * quarter m e ≤ 2 * quarter m e := Nat.mul_le_mul_right _ (reach_le m)
  refine ⟨hcancel ?_, hcancel ?_, fun hodd => ?_, fun hs => hcancel ?_⟩
  · simp only [Nat.add_mul, Nat.mul_assoc 2]
    omega
  · simp only [Nat.add_mul, Nat.mul_assoc 2]
    omega
  · obtain ⟨hlow, hhigh⟩ := htie hodd
    refine ⟨hcancel' ?_, hcancel' ?_⟩
    all_goals
      simp only [Nat.add_mul, Nat.mul_assoc 2]
      omega
  · have hone : reach m = 1 := by rw [reach, if_pos hs]
    rw [hone] at hlow
    simp only [Nat.add_mul, Nat.mul_assoc 4]
    omega

/-! ## Naturals that round to the double -/

/-- A natural with as many binary digits as the double rounds to it if its first 53 bits do. -/
theorem nearest_of_log2 (h : IsWholeDouble m e) {n : Nat} (hn : n ≠ 0)
    (hlog : n.log2 = m.log2 + e)
    (hround : divRound (scaleDown n 1 (lastExponent m e)).1 (scaleDown n 1 (lastExponent m e)).2 =
      fullMantissa m) :
    nearest false n 1 = .finite false m e := by
  have hlast : (n.log2 : Int) - 52 = lastExponent m e := by
    have := h.lastExponent_eq
    omega
  have hbounded : ¬ 1024 ≤ ((52 : Nat) : Int) + lastExponent m e := by
    have := h.bounded
    have := h.lastExponent_eq
    omega
  rw [nearest_natural hn, hlast]
  dsimp only
  rw [hround, h.log2_fullMantissa, if_neg hbounded, fullMantissa, normal_mul_pow h.odd,
    lastExponent, Int.sub_add_cancel]

/-- The double itself needs no rounding if its last bit is below one. -/
theorem nearest_self (h : IsWholeDouble m e) (hfine : m.log2 + e < 52) :
    nearest false (m * 2 ^ e) 1 = .finite false m e := by
  have hlast := h.lastExponent_eq
  have hpow : m * 2 ^ e * 2 ^ (-lastExponent m e).toNat = fullMantissa m := by
    rw [fullMantissa, Nat.mul_assoc, ← Nat.pow_add, lastExponent]
    congr 2
    omega
  refine nearest_of_log2 h h.value_pos.ne' h.log2_value ?_
  rw [scaleDown, if_neg (by omega)]
  dsimp only
  rw [Nat.shiftLeft_eq, hpow]
  exact divRound_eq (by decide) (by omega) (by omega) (by omega)

/-- A near natural that does not lose a binary digit rounds to the double. -/
theorem Near.nearest_of_le (h : IsWholeDouble m e) {q n : Nat} (hq : m.log2 + e = 52 + q)
    (hn : Near (fullMantissa m) q n) (hle : 2 ^ (52 + q) ≤ n) :
    nearest false n 1 = .finite false m e := by
  have hunit := Nat.two_pow_pos q
  have hlast : lastExponent m e = (q : Nat) := by
    have := h.lastExponent_eq
    omega
  have hlt : n < 2 ^ (52 + q + 1) := by
    have hsucc : (fullMantissa m + 1) * 2 ^ q ≤ 2 ^ 53 * 2 ^ q :=
      Nat.mul_le_mul_right _ h.fullMantissa_lt
    have := hn.high
    rw [Nat.succ_mul, ← Nat.pow_add] at hsucc
    rw [show 52 + q + 1 = 53 + q by omega]
    omega
  have hne : n ≠ 0 := by
    have := Nat.two_pow_pos (52 + q)
    omega
  refine nearest_of_log2 h hne ?_ ?_
  · rw [hq]
    exact (Nat.log2_eq_iff hne).mpr ⟨hle, hlt⟩
  · rw [hlast, scaleDown_natural]
    exact divRound_eq hunit hn.low hn.high hn.tie

/-- A near natural that loses a binary digit lies below a power of two, and is rounded up to it. -/
theorem Near.nearest_of_lt (h : IsWholeDouble m e) {q n : Nat} (hq : m.log2 + e = 52 + q)
    (hn : Near (fullMantissa m) q n) (hlt : n < 2 ^ (52 + q)) :
    nearest false n 1 = .finite false m e := by
  have hs : fullMantissa m = 2 ^ 52 := by
    by_contra hne
    have hlow := hn.low
    have hunit := Nat.two_pow_pos q
    have hsucc : (2 ^ 52 + 1) * 2 ^ q ≤ fullMantissa m * 2 ^ q :=
      Nat.mul_le_mul_right _ (Nat.lt_of_le_of_ne h.le_fullMantissa (Ne.symm hne))
    rw [Nat.succ_mul, ← Nat.pow_add] at hsucc
    omega
  obtain rfl := h.eq_one hs
  have hquarter := hn.lowest hs
  rw [hs, ← Nat.pow_add] at hquarter
  cases q with
  | zero => omega
  | succ r =>
    have he : e = r + 53 := by
      have hone : Nat.log2 1 = 0 := by decide
      omega
    have hunit := Nat.two_pow_pos r
    have hpow : 2 ^ (52 + (r + 1)) = 2 * 2 ^ (52 + r) := by ring
    have hstored : 2 ^ (52 + (r + 1)) = 2 ^ 53 * 2 ^ r := by ring
    rw [Nat.pow_succ] at hquarter
    have hwide : 2 ^ r ≤ 2 ^ (52 + r) := Nat.pow_le_pow_right (by decide) (by omega)
    have hne : n ≠ 0 := by omega
    have hdigits : n.log2 = 52 + r := (Nat.log2_eq_iff hne).mpr ⟨by omega, by
      rw [show 52 + r + 1 = 52 + (r + 1) by omega]
      exact hlt⟩
    have hlast : (n.log2 : Int) - 52 = (r : Nat) := by omega
    have hround : divRound (scaleDown n 1 (r : Nat)).1 (scaleDown n 1 (r : Nat)).2 = 2 ^ 53 := by
      rw [scaleDown_natural]
      exact divRound_eq hunit (by omega) (by omega) fun hodd => absurd hodd (by decide)
    have hbounded : ¬ 1024 ≤ ((2 ^ 53 : Nat).log2 : Int) + (r : Nat) := by
      have := h.bounded
      rw [Nat.log2_two_pow]
      omega
    rw [nearest_natural hne, hlast]
    dsimp only
    rw [hround, if_neg hbounded, ← Nat.one_mul (2 ^ 53), normal_mul_pow h.odd, he]
    rfl

/-- Every natural of the interval rounds to the double. -/
theorem nearest_of_contains (h : IsWholeDouble m e) {n : Nat}
    (hn : (interval m e).contains n 1 = true) : nearest false n 1 = .finite false m e := by
  rcases Nat.lt_or_ge (m.log2 + e) 52 with hfine | hcoarse
  · rw [eq_of_contains h hfine hn]
    exact nearest_self h hfine
  · obtain ⟨q, hq⟩ := Nat.exists_eq_add_of_le hcoarse
    have hnear := near_of_contains h hq hn
    rcases Nat.lt_or_ge n (2 ^ (52 + q)) with hlt | hle
    · exact hnear.nearest_of_lt h hq hlt
    · exact hnear.nearest_of_le h hq hle

end BuildMatrix.Number
