import Mathlib.Data.List.TakeDrop
import BuildMatrix.Json.Read
import BuildMatrix.Proofs.Json.Spelling
import BuildMatrix.Proofs.Number.Decimal

/-!
# Texts of whole numbers are read back

The reader of numbers takes digits up to what follows them (`readNumber_digits`), so it gives the
value of a decimal text and of one with an exponent (`read?_decimal`, `read?_scientific`).  The text
of a whole double is of one of these kinds, and the double is what is read in it
(`IsWholeDouble.written`).
-/

namespace BuildMatrix

/-! ## Reading numbers -/

namespace Json

open Number (IsDecimal)

theorem spanDigits_append {ds tail : List Char} (hds : ∀ c ∈ ds, c.isDigit = true)
    (htail : ∀ c ∈ tail.head?, c.isDigit = false) : spanDigits (ds ++ tail) = (ds, tail) := by
  have hstop : tail.takeWhile Char.isDigit = [] ∧ tail.dropWhile Char.isDigit = tail := by
    cases tail with
    | nil => exact ⟨rfl, rfl⟩
    | cons c tail =>
      have hc : ¬ c.isDigit = true := by simp [htail c rfl]
      exact ⟨List.takeWhile_cons_of_neg hc, List.dropWhile_cons_of_neg hc⟩
  rw [spanDigits, List.span_eq_takeWhile_dropWhile, List.takeWhile_append_of_pos hds,
    List.dropWhile_append_of_pos hds, hstop.1, hstop.2, List.append_nil]

/-- Digits are read up to what follows them. -/
theorem readNumber_digits {first : Char} {rest tail : List Char} (h : IsDecimal (first :: rest))
    (htail : ∀ c ∈ tail.head?, c.isDigit = false) :
    readNumber (first :: rest ++ tail) =
      match readFraction tail with
      | .error fault => .error fault
      | .ok (fraction, after) =>
        (readExponent after).map fun exponent =>
          Number.ofDecimal false (digitsValue (first :: rest ++ fraction))
            (exponent - fraction.length) := by
  have hzero : first ≠ '0' := fun hfirst => h.start (congrArg some hfirst)
  have hminus : first ≠ '-' := by
    rintro rfl
    exact absurd (h.digits '-' (List.mem_cons_self ..)) (by decide)
  have hspan := spanDigits_append h.digits htail
  rw [List.cons_append] at hspan ⊢
  unfold readNumber
  split
  rename_i negative digits hsign
  split at hsign
  · rename_i heq
    exact absurd (List.cons.inj heq).1 hminus
  · obtain ⟨rfl, rfl⟩ := Prod.mk.inj hsign
    rw [hspan]
    split
    · rename_i heq
      cases heq
    · rename_i heq
      exact absurd (List.cons.inj (Prod.mk.inj heq).1).1 hzero
    · rename_i heq
      obtain ⟨rfl, rfl⟩ := Prod.mk.inj heq
      rfl

/-- A text that starts with a digit is read as a number. -/
theorem read?_of_readNumber {first : Char} {rest : List Char} {n : Number}
    (hfirst : first.isDigit = true) (h : readNumber (first :: rest) = .ok (n, [])) :
    read? (.ofList (first :: rest)) = some (.number n) := by
  have hne : ∀ c : Char, c.isDigit = false → first ≠ c := by
    rintro c hc rfl
    rw [hfirst] at hc
    cases hc
  have hgap : isGapChar first = false := by
    simp only [isGapChar, Bool.or_eq_false_iff, beq_eq_false_iff_ne]
    exact ⟨⟨⟨hne ' ' (by decide), hne '\n' (by decide)⟩, hne '\r' (by decide)⟩,
      hne '\t' (by decide)⟩
  have hvalue : ∀ fuel, readValue (fuel + 1) (first :: rest) = .ok (.number n, []) := by
    intro fuel
    rw [readValue, skipBlanks_cons hgap]
    split
    case h_7 => rw [h]; rfl
    all_goals
      rename_i heq
      exact absurd (List.cons.inj heq).1 (hne _ (by decide))
  unfold read? read
  dsimp only
  rw [String.toList_ofList, hvalue]
  rfl

theorem readExponent_plus {ds : List Char} (h : IsDecimal ds) :
    readExponent ('e' :: '+' :: ds) = .ok ((digitsValue ds : Int), []) := by
  have hspan : spanDigits (ds ++ []) = (ds, []) := spanDigits_append h.digits (by simp)
  rw [List.append_nil] at hspan
  obtain ⟨d, rest, rfl⟩ := List.exists_cons_of_ne_nil h.ne_nil
  simp only [readExponent, true_or, if_true, hspan]
  rfl

/-- A decimal text is read as the double nearest to its digits. -/
theorem read?_decimal {cs : List Char} (h : IsDecimal cs) :
    read? (.ofList cs) = some (.number (Number.ofDecimal false (digitsValue cs) 0)) := by
  cases cs with
  | nil => exact absurd rfl h.ne_nil
  | cons first rest =>
    refine read?_of_readNumber (h.digits first (List.mem_cons_self ..)) ?_
    rw [← List.append_nil (first :: rest), readNumber_digits h (by simp)]
    simp only [readFraction, readExponent, Reading.map, List.append_nil, List.length_nil]
    rfl

/-- So is a text with an exponent, which counts from the point. -/
theorem read?_scientific {first : Char} {rest exponent : List Char} (h : IsDecimal (first :: rest))
    (hexponent : IsDecimal exponent) :
    read? (.ofList (first :: (if rest = [] then [] else '.' :: rest) ++ 'e' :: '+' :: exponent)) =
      some (.number (Number.ofDecimal false (digitsValue (first :: rest))
        (digitsValue exponent - rest.length))) := by
  have hmark : ∀ c ∈ ('e' :: '+' :: exponent).head?, c.isDigit = false := by simp
  have hexp := readExponent_plus hexponent
  have hread : readNumber (first :: (if rest = [] then [] else '.' :: rest) ++
      'e' :: '+' :: exponent) =
        .ok (Number.ofDecimal false (digitsValue (first :: rest))
          (digitsValue exponent - rest.length), []) := by
    cases rest with
    | nil =>
      rw [if_pos rfl, readNumber_digits h hmark, readFraction]
      · simp only [hexp, Reading.map]
        rfl
      · simp
    | cons second rest =>
      have hfraction : readFraction ('.' :: (second :: rest ++ 'e' :: '+' :: exponent)) =
          .ok (second :: rest, 'e' :: '+' :: exponent) := by
        rw [readFraction,
          spanDigits_append (fun c hc => h.digits c (List.mem_cons_of_mem _ hc)) hmark]
      have hwhole : IsDecimal [first] :=
        ⟨List.cons_ne_nil _ _, h.start,
          List.forall_mem_singleton.mpr (h.digits first (List.mem_cons_self ..))⟩
      have hpoint : ∀ c ∈ ('.' :: (second :: rest ++ 'e' :: '+' :: exponent)).head?,
          c.isDigit = false := by simp
      rw [if_neg (List.cons_ne_nil _ _)]
      refine (readNumber_digits hwhole hpoint).trans ?_
      rw [hfraction]
      simp only [hexp, Reading.map]
      rfl
  exact read?_of_readNumber (h.digits first (List.mem_cons_self ..)) hread

theorem digitsValue_toDigits (n : Nat) : digitsValue (Nat.toDigits 10 n) = n := by
  have hvalue := Nat.ofDigitChars_ten_toDigits (n := n)
  rwa [Nat.ofDigitChars_eq_foldl] at hvalue

end Json

/-! ## The text of a whole double -/

namespace Number

variable {m e : Nat}

/-- What has a whole double as its nearest is below `2 ^ 1024`. -/
theorem lt_of_contains (h : IsWholeDouble m e) {n : Nat}
    (hn : (interval m e).contains n 1 = true) : n < 2 ^ 1024 := by
  have hvalue : m * 2 ^ e < 2 ^ 1024 := by
    rw [← Nat.log2_lt h.value_pos.ne', h.log2_value]
    exact h.bounded
  by_contra hge
  have htop := nearest_of_contains h
    (Interval.contains_between (contains_self h) hn hvalue.le (Nat.le_of_not_lt hge))
  have hinfinite : nearest false (2 ^ 1024) 1 = .infinite false := by decide +kernel
  rw [hinfinite] at htop
  cases htop

/-- Digits with a power of ten that is not too large are read as the double nearest to their
product. -/
theorem ofDecimal_natural {k p : Nat} (hk : 0 < k) (hp : p ≤ 400) :
    ofDecimal false k p = nearest false (k * 10 ^ p) 1 := by
  have hne : k ≠ 0 := hk.ne'
  have hlarge : ¬ 400 < (p : Int) := by omega
  have hsmall : ¬ (k.log2 : Int) + p < -400 := by omega
  rw [ofDecimal, if_neg hne, if_neg hlarge, if_neg hsmall, if_pos (by omega), Int.toNat_natCast]
  rfl

/-- A whole positive double is written with decimal digits alone as long as it is below `10 ^ 21`,
and with an exponent from there on; it is what is read in its text. -/
theorem IsWholeDouble.written (h : IsWholeDouble m e) :
    Json.read? (.ofList (magnitudeChars m e)) = some (.number (.finite false m e)) ∧
      (m * 2 ^ e < 10 ^ 21 → IsDecimal (magnitudeChars m e)) ∧
      (10 ^ 21 ≤ m * 2 ^ e → IsScientific (magnitudeChars m e)) := by
  obtain ⟨k, p, hshortest, hk, hin⟩ := shortest_natural h
  have hpos : 0 < k * 10 ^ p := Nat.mul_pos hk (Nat.pow_pos (by decide))
  have hp : p ≤ 400 := by
    have hlt : 10 ^ p < 10 ^ 400 :=
      calc 10 ^ p ≤ k * 10 ^ p := Nat.le_mul_of_pos_left _ hk
        _ < 2 ^ 1024 := lt_of_contains h hin
        _ < 10 ^ 400 := by decide +kernel
    exact ((Nat.pow_lt_pow_iff_right (by decide)).mp hlt).le
  have hnearest := nearest_of_contains h hin
  have hchars : magnitudeChars m e = plainLayout.render (Nat.toDigits 10 k) p := by
    rw [magnitudeChars, Layout.magnitude, if_neg h.ne_zero, hshortest]
  rw [hchars]
  rcases Nat.lt_or_ge (k * 10 ^ p) (10 ^ 21) with hlt | hge
  · have hvalue := (lt_bound_iff h hshortest hin).mp hlt
    rw [render_plain hk hlt]
    refine ⟨?_, fun _ => isDecimal_toDigits hpos, fun hle => absurd hvalue (Nat.not_lt.mpr hle)⟩
    have hwhole := ofDecimal_natural (p := 0) hpos (by decide)
    rw [Nat.pow_zero, Nat.mul_one, hnearest] at hwhole
    rw [Json.read?_decimal (isDecimal_toDigits hpos), Json.digitsValue_toDigits, ← hwhole]
    rfl
  · have hvalue := (lt_bound_iff h hshortest hin).not.mp (Nat.not_lt.mpr hge)
    obtain ⟨first, rest, hcs, hlead, hrender⟩ := render_scientific hk hge
    have hexponent := isDecimal_toDigits hlead
    have hdigits : IsDecimal (first :: rest) := hcs ▸ isDecimal_toDigits hk
    have hdecimal : ofDecimal false (Json.digitsValue (first :: rest))
        (Json.digitsValue (Nat.toDigits 10 (p + rest.length)) - rest.length) =
          .finite false m e := by
      have hpoint : ((p + rest.length : Nat) : Int) - rest.length = p := by omega
      rw [← hcs, Json.digitsValue_toDigits, Json.digitsValue_toDigits, hpoint,
        ofDecimal_natural hk hp, hnearest]
    rw [hrender, Json.read?_scientific hdigits hexponent, hdecimal]
    exact ⟨rfl, fun hlt => absurd hlt hvalue, fun _ => ⟨_, _, _, rfl, hdigits, hexponent⟩⟩

end Number

end BuildMatrix
