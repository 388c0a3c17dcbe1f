/-!
# Length and order of text in 16-bit units

A character is one unit, or two beyond the basic plane (`length_units`). The length of a text is the
number of its units, and texts are ordered by their units, which is not the order by code points.
-/

namespace BuildMatrix.Text

/-- The 16-bit units that write a character: itself, or a pair of surrogates beyond the
basic plane. -/
def units (c : Char) : List Nat :=
  if c.toNat < 0x10000 then [c.toNat]
  else
    let offset := c.toNat - 0x10000
    [0xD800 + offset / 0x400, 0xDC00 + offset % 0x400]

/-- The units of a whole text. -/
def unitsOf (s : String) : List Nat := s.toList.flatMap units

/-- How many units a character takes. -/
def width (c : Char) : Nat := if c.toNat < 0x10000 then 1 else 2

/-- The number of units in a run of characters. -/
def widthOf : List Char → Nat
  | [] => 0
  | c :: rest => width c + widthOf rest

/-- The length of a text, counted in units. -/
def length (s : String) : Nat := widthOf s.toList

theorem length_units (c : Char) : (units c).length = width c := by
  unfold units width; split <;> rfl

theorem width_pos (c : Char) : 0 < width c := by
  unfold width; split <;> decide

theorem width_le_two (c : Char) : width c ≤ 2 := by
  unfold width; split <;> decide

@[simp] theorem widthOf_append (xs ys : List Char) :
    widthOf (xs ++ ys) = widthOf xs + widthOf ys := by
  induction xs with
  | nil => simp [widthOf]
  | cons c rest ih => simp [widthOf, ih]; omega

theorem widthOf_eq_length {cs : List Char} (h : ∀ c ∈ cs, width c = 1) :
    widthOf cs = cs.length := by
  induction cs with
  | nil => rfl
  | cons c rest ih =>
    obtain ⟨hc, hrest⟩ := List.forall_mem_cons.mp h
    rw [widthOf, hc, ih hrest, List.length_cons, Nat.add_comm]

/-- One text comes before another when its units do, lexicographically. -/
def before (a b : String) : Bool := decide (unitsOf a < unitsOf b)

/-- The non-strict order, in the form that sorting takes. -/
def notAfter (a b : String) : Bool := !before b a

/-- Fills a text with spaces on the right up to a length in units. -/
def padEnd (s : String) (total : Nat) : String :=
  s ++ String.ofList (List.replicate (total - length s) ' ')

end BuildMatrix.Text
