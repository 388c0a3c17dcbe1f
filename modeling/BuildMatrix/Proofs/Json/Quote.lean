import BuildMatrix.Json.Read

/-!
# Quoted texts read back

The reader of quoted texts undoes the escape of each character (`readQuoted_escape`), so a quoted
text is read back up to its closing quote, whatever follows (`readQuoted_quote`).  A quoted text
holds no control character (`le_toNat_of_mem_quote`).
-/

namespace BuildMatrix.Json

/-! ## Hexadecimal digits -/

theorem hexValue?_digitChar {d : Nat} (h : d < 16) : hexValue? (Nat.digitChar d) = some d := by
  have key : ∀ d : Fin 16, hexValue? (Nat.digitChar d) = some d.val := by decide
  exact key ⟨d, h⟩

theorem le_toNat_digitChar {d : Nat} (h : d < 16) : 32 ≤ (Nat.digitChar d).toNat := by
  have key : ∀ d : Fin 16, 32 ≤ (Nat.digitChar d).toNat := by decide
  exact key ⟨d, h⟩

/-- The digits of a control character have its number as their value. -/
theorem hexValue4?_hexDigits {n : Nat} (h : n < 32) :
    hexValue4? (Nat.digitChar 0) (Nat.digitChar 0) (Nat.digitChar (n / 16 % 16))
      (Nat.digitChar (n % 16)) = some n := by
  have h₁ : n / 16 % 16 < 16 := Nat.mod_lt _ (by decide)
  have h₂ : n % 16 < 16 := Nat.mod_lt _ (by decide)
  simp only [hexValue4?, hexValue?_digitChar h₁, hexValue?_digitChar h₂,
    hexValue?_digitChar (show 0 < 16 by decide), Option.bind_eq_bind, Option.bind_some,
    Option.pure_def, Option.some.injEq]
  omega

/-! ## One character -/

/-- A character that needs no escape stands for itself. -/
theorem readQuoted_cons {c : Char} (hq : c ≠ '"') (hb : c ≠ '\\') (hc : 32 ≤ c.toNat)
    (rest : List Char) : readQuoted (c :: rest) = (readQuoted rest).map (c :: ·) := by
  have hplain : ¬(c.toNat < 32 ∨ c = '\\') := by
    rintro (hlow | rfl)
    · omega
    · exact hb rfl
  rw [readQuoted, if_neg hplain]
  · exact hq
  · exact fun _ _ _ _ _ hslash => absurd hslash hb
  · exact fun _ _ hslash => absurd hslash hb

/-- Reading undoes the escape of a character. -/
theorem readQuoted_escape (c : Char) (rest : List Char) :
    readQuoted (escape c ++ rest) = (readQuoted rest).map (c :: ·) := by
  unfold escape
  split
  · simp [readQuoted, unescape?]
  · simp [readQuoted, unescape?]
  · simp [readQuoted, unescape?]
  · simp [readQuoted, unescape?]
  · simp [readQuoted, unescape?]
  · simp [readQuoted, unescape?]
  · simp [readQuoted, unescape?]
  · rename_i hquote hslash _ _ _ _ _
    split
    · rename_i hcontrol
      have hunit : unitChar? c.toNat = some c := by
        rw [unitChar?, if_neg (by omega), Char.ofNat_toNat]
      simp only [hexDigits, List.map_cons, List.map_nil, List.cons_append, List.nil_append]
      rw [readQuoted]
      simp only [hexValue4?_hexDigits hcontrol, hunit]
    · exact readQuoted_cons hquote hslash (by omega) rest

/-- An escaped character holds no control character. -/
theorem le_toNat_of_mem_escape {c x : Char} (h : x ∈ escape c) : 32 ≤ x.toNat := by
  have pair : ∀ y : Char, 32 ≤ y.toNat → x ∈ ['\\', y] → 32 ≤ x.toNat := by
    intro y hy hx
    rcases List.mem_cons.mp hx with rfl | hx
    · decide
    · rwa [List.mem_singleton.mp hx]
  unfold escape at h
  split at h
  · exact pair _ (by decide) h
  · exact pair _ (by decide) h
  · exact pair _ (by decide) h
  · exact pair _ (by decide) h
  · exact pair _ (by decide) h
  · exact pair _ (by decide) h
  · exact pair _ (by decide) h
  · split at h
    · simp only [hexDigits, List.map_cons, List.map_nil, List.mem_cons, List.not_mem_nil,
        or_false] at h
      rcases h with rfl | rfl | rfl | rfl | rfl | rfl
      · decide
      · decide
      · decide
      · decide
      · exact le_toNat_digitChar (Nat.mod_lt _ (by decide))
      · exact le_toNat_digitChar (Nat.mod_lt _ (by decide))
    · rw [List.mem_singleton.mp h]
      omega

/-! ## Whole texts -/

/-- Escaped characters are read back up to the closing quote. -/
theorem readQuoted_flatMap_escape (cs rest : List Char) :
    readQuoted (cs.flatMap escape ++ '"' :: rest) = .ok (cs, rest) := by
  induction cs with
  | nil => simp [readQuoted]
  | cons c cs ih =>
    rw [List.flatMap_cons, List.append_assoc, readQuoted_escape, ih]
    rfl

/-- A quoted text is a quote and characters that read back as the text. -/
theorem readQuoted_quote (s : String) :
    ∃ body, quote s = '"' :: body ∧
      ∀ rest, readQuoted (body ++ rest) = .ok (s.toList, rest) := by
  refine ⟨s.toList.flatMap escape ++ ['"'], rfl, fun rest => ?_⟩
  rw [List.append_assoc]
  exact readQuoted_flatMap_escape s.toList rest

/-- A quoted text holds no control character. -/
theorem le_toNat_of_mem_quote {s : String} {x : Char} (h : x ∈ quote s) : 32 ≤ x.toNat := by
  simp only [quote, List.cons_append, List.mem_cons, List.mem_append, List.mem_flatMap,
    List.not_mem_nil, or_false] at h
  rcases h with rfl | ⟨c, -, hx⟩ | rfl
  · decide
  · exact le_toNat_of_mem_escape hx
  · decide

end BuildMatrix.Json
