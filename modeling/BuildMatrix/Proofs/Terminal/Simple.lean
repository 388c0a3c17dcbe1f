import BuildMatrix.Proofs.Text.Trim
import BuildMatrix.Terminal.Width
import BuildMatrix.Text.Split
import BuildMatrix.Text.Units

/-!
# Characters that take one column

The printable characters of ASCII, and the dot between the parts of a title, take one column by
every measure, and nothing is done to them on the way to the terminal (`IsSimple`).  A text of such
characters is as wide as it is long, is one line, and can be trimmed and filled up with spaces again
without a difference (`AreSimple.rightpad_dropBlanksEnd`).
-/

namespace BuildMatrix.Terminal

/-! ## One character -/

/-- The printable characters of ASCII. -/
def isPrintable (c : Char) : Bool := 0x20 ≤ c.toNat && c.toNat ≤ 0x7E

/-- The characters of titles: the printable ones and the middle dot. -/
def isLegible (c : Char) : Bool := isPrintable c || c == '·'

/-- A character that takes one column, one cell and one unit, neither ends a line nor starts a
control sequence, and is no blank other than the space. -/
structure IsSimple (c : Char) : Prop where
  width : width c = 1
  isDouble : isDouble c = false
  unit : Text.width c = 1
  ne_newline : c ≠ '\n'
  ne_escape : c ≠ '\x1b'
  eq_space : Text.isBlank c = true → c = ' '

/-- A code point before all ranges lies in none of them. -/
theorem inRanges_eq_false {ranges : List (Nat × Nat)} {n : Nat} (bound : Nat)
    (hranges : ∀ range ∈ ranges, bound ≤ range.1) (hn : n < bound) : inRanges ranges n = false := by
  rw [inRanges, List.any_eq_false]
  intro range hrange hmem
  have hlower := hranges range hrange
  simp only [Bool.and_eq_true, decide_eq_true_eq] at hmem
  omega

/-- Everything wide comes after the first 4352 code points. -/
theorem isSimple_of_toNat {c : Char}
    (h : (0x20 ≤ c.toNat ∧ c.toNat ≤ 0x7E) ∨ c.toNat = 0xB7) : IsSimple c where
  width := by
    have hweight : inRanges weightless c.toNat = false := by
      simp [inRanges, weightless]
      omega
    have hasian : inRanges eastAsianWide c.toNat = false :=
      inRanges_eq_false 0x1100 (by decide) (by omega)
    have hemoji : inRanges emoji c.toNat = false :=
      inRanges_eq_false 0x1100 (by decide) (by omega)
    simp [Terminal.width, hweight, hasian, hemoji]
  isDouble := by
    have hfull : inRanges fullWidth c.toNat = false :=
      inRanges_eq_false 0x1100 (by decide) (by omega)
    simp only [Terminal.isDouble, hfull, Bool.or_false, decide_eq_false_iff_not]
    omega
  unit := by rw [Text.width, if_pos (by omega)]
  ne_newline := by
    rintro rfl
    revert h
    decide
  ne_escape := by
    rintro rfl
    revert h
    decide
  eq_space := by
    intro hblank
    simp only [Text.isBlank, Bool.or_eq_true, Bool.and_eq_true, decide_eq_true_eq,
      beq_iff_eq] at hblank
    refine Char.toNat_inj.mp (?_ : c.toNat = 0x20)
    omega

theorem isSimple_of_isPrintable {c : Char} (h : isPrintable c = true) : IsSimple c := by
  simp only [isPrintable, Bool.and_eq_true, decide_eq_true_eq] at h
  exact isSimple_of_toNat (.inl h)

/-- The dot in titles is as simple as the printable characters. -/
theorem isSimple_of_isLegible {c : Char} (h : isLegible c = true) : IsSimple c := by
  rcases Bool.or_eq_true_iff.mp h with hprintable | hdot
  · exact isSimple_of_isPrintable hprintable
  · rw [beq_iff_eq.mp hdot]
    exact isSimple_of_toNat (.inr rfl)

/-! ## A text -/

/-- A run of simple characters. -/
abbrev AreSimple (cs : List Char) : Prop := ∀ c ∈ cs, IsSimple c

namespace AreSimple

variable {cs ds : List Char}

theorem append (h : AreSimple cs) (h' : AreSimple ds) : AreSimple (cs ++ ds) :=
  List.forall_mem_append.mpr ⟨h, h'⟩

theorem of_isLegible (h : cs.all isLegible = true) : AreSimple cs := fun c hc =>
  isSimple_of_isLegible (List.all_eq_true.mp h c hc)

theorem dropBlanksEnd (h : AreSimple cs) : AreSimple (Text.dropBlanksEnd cs) := by
  obtain ⟨back, -, hcs⟩ := Text.exists_dropBlanksEnd cs
  rw [hcs] at h
  exact fun c hc => h c (List.mem_append_left back hc)

/-- The decimal digits of a number are simple. -/
theorem digits (n : Nat) : AreSimple (toString n).toList := by
  intro c hc
  rw [Nat.toString_eq_repr, Nat.toList_repr] at hc
  have hdigit := Nat.isDigit_of_mem_toDigits (by decide) (by decide) hc
  obtain ⟨hlower, hupper⟩ := Char.isDigit_iff_toNat.mp hdigit
  exact isSimple_of_toNat (.inl ⟨Nat.le_trans (by decide) hlower, hupper.trans (by decide)⟩)

theorem intercalate {pieces : List (List Char)} (hcs : AreSimple cs)
    (h : ∀ piece ∈ pieces, AreSimple piece) : AreSimple (cs.intercalate pieces) := by
  induction pieces with
  | nil => exact List.forall_mem_nil _
  | cons piece rest ih =>
    obtain ⟨hpiece, hrest⟩ := List.forall_mem_cons.mp h
    cases rest with
    | nil =>
      rw [List.intercalate_singleton]
      exact hpiece
    | cons next rest =>
      rw [List.intercalate_cons_cons]
      exact (hpiece.append hcs).append (ih hrest)

theorem widthOf (h : AreSimple cs) : widthOf cs = cs.length := by
  induction cs with
  | nil => rfl
  | cons c rest ih =>
    obtain ⟨hc, hrest⟩ := List.forall_mem_cons.mp h
    rw [Terminal.widthOf, hc.width, ih hrest, List.length_cons, Nat.add_comm]

theorem units (h : AreSimple cs) : Text.widthOf cs = cs.length :=
  Text.widthOf_eq_length fun c hc => (h c hc).unit

/-- A simple text is one line. -/
theorem splitAt_newline (h : AreSimple cs) : Text.splitAt '\n' cs = [cs] := by
  induction cs with
  | nil => rfl
  | cons c rest ih =>
    obtain ⟨hc, hrest⟩ := List.forall_mem_cons.mp h
    rw [Text.splitAt, if_neg hc.ne_newline, ih hrest]

/-- The blanks at the end of a simple text are spaces, so filling it up with spaces undoes
trimming. -/
theorem rightpad_dropBlanksEnd (h : AreSimple cs) {n : Nat} (hn : cs.length ≤ n) :
    (Text.dropBlanksEnd cs).rightpad n ' ' = cs.rightpad n ' ' := by
  obtain ⟨back, hback, hcs⟩ := Text.exists_dropBlanksEnd cs
  have hspaces : back = List.replicate back.length ' ' := by
    refine List.eq_replicate_iff.mpr ⟨rfl, fun c hc => ?_⟩
    have hmem : c ∈ cs := by
      rw [hcs]
      exact List.mem_append_right _ hc
    exact (h c hmem).eq_space (hback c hc)
  have hlength : cs.length = (Text.dropBlanksEnd cs).length + back.length := by
    rw [← List.length_append, ← hcs]
  calc (Text.dropBlanksEnd cs).rightpad n ' '
      = Text.dropBlanksEnd cs ++
          (List.replicate back.length ' ' ++ List.replicate (n - cs.length) ' ') := by
        -- there is room for as many spaces as blanks were taken off
        rw [List.rightpad, List.replicate_append_replicate]
        congr 2
        omega
    _ = cs.rightpad n ' ' := by
        rw [← hspaces, ← List.append_assoc, ← hcs, List.rightpad]

end AreSimple

/-! ## Padding -/

/-- Spaces are some spaces and the rest of them. -/
theorem spaces_eq_append {k n : Nat} (h : k ≤ n) :
    List.replicate n ' ' = List.replicate k ' ' ++ List.replicate (n - k) ' ' := by
  rw [List.replicate_append_replicate, Nat.add_sub_cancel' h]

section Padding

variable {s : String} {n : Nat}

/-- A simple text has no more characters than units. -/
theorem AreSimple.length_le (h : AreSimple s.toList) (hn : Text.length s ≤ n) :
    s.toList.length ≤ n := by
  rw [← h.units]
  exact hn

/-- Padding is counted in characters when the text is simple. -/
theorem toList_padEnd (h : AreSimple s.toList) (n : Nat) :
    (Text.padEnd s n).toList = s.toList.rightpad n ' ' := by
  rw [Text.padEnd, String.toList_append, String.toList_ofList, Text.length, h.units, List.rightpad]

theorem length_padEnd (h : AreSimple s.toList) (hn : Text.length s ≤ n) :
    (Text.padEnd s n).toList.length = n := by
  rw [toList_padEnd h, List.length_rightpad, Nat.max_eq_left (h.length_le hn)]

end Padding

end BuildMatrix.Terminal
