import Mathlib.Algebra.Field.Rat
import Mathlib.Algebra.Order.Ring.Rat
import BuildMatrix.Value
import BuildMatrix.Config.Issue
import BuildMatrix.Proofs.Record.Lookup

/-!
# The grammar of values

A shape says what a value has to be and which shapes its parts have to have (`Shape`,
`Shape.parts`).  A value fits a shape if it and all that it is made of are as they have to be
(`Shape.Fits`); a node that is not violates the shape (`Shape.Violates`), and the parts of a node of
the wrong kind have no shape that they could violate.  `Shape.violations` lists the places of the
nodes that do, in the order in which a value is gone through: the parts of a node one after the
other, and then the node itself.  The list has exactly those places (`Shape.mem_violations_iff`),
and is empty exactly for the values that fit (`Shape.violations_eq_nil_iff`).
-/

namespace BuildMatrix

/-- The way from a value to one of its parts. -/
abbrev Address := List PathStep

/-- What a value has to be. -/
inductive Shape where
  | text
  | flag
  /-- A positive whole number. -/
  | count
  /-- An object with any names. -/
  | record (entry : Shape)
  | list (item : Shape)
  /-- An object with some of the given names and no others. -/
  | object (known : List (String × Shape))

/-- A part of a value: the step that leads to it, and the shape that it has to have. -/
structure Part where
  step : PathStep
  shape : Shape
  value : Value

namespace Shape

/-! ## Nodes and their parts -/

/-- Whether a value is what a shape asks for, regardless of its parts. A number `± m · 2 ^ e` has an
odd `m` or is zero, so it is whole if `e` is not negative (`suits_count_iff`). -/
def suits : Shape → Value → Bool
  | .text, .string _ => true
  | .flag, .bool _ => true
  | .count, .number (.finite false m e) => 0 < m && 0 ≤ e
  | .record _, .object _ => true
  | .list _, .array _ => true
  | .object known, .object fields =>
    (Record.names fields).all ((Record.names known).contains ·)
  | _, _ => false

/-- A finite number other than zero is a count exactly if its value is a natural number. -/
theorem suits_count_iff {negative : Bool} {m : Nat} {e : Int} (hm : m % 2 = 1) :
    count.suits (.number (.finite negative m e)) = true ↔
      negative = false ∧ ∃ k : Nat, (m : ℚ) * 2 ^ e = k := by
  cases negative with
  | true => simp [suits]
  | false =>
    have hpos : 0 < m := by omega
    simp only [suits, hpos, decide_true, Bool.true_and, decide_eq_true_eq, true_and]
    constructor
    · intro he
      obtain ⟨n, rfl⟩ := Int.eq_ofNat_of_zero_le he
      exact ⟨m * 2 ^ n, by push_cast; rfl⟩
    · rintro ⟨k, hk⟩
      by_contra he
      -- With a negative exponent, `m` would be `k` times a power of two, and so even.
      obtain ⟨n, rfl⟩ : ∃ n : Nat, e = -(n + 1 : Nat) := ⟨(-e).toNat - 1, by omega⟩
      rw [zpow_neg, zpow_natCast, ← div_eq_mul_inv, div_eq_iff (pow_ne_zero _ two_ne_zero)] at hk
      have hmul : m = k * 2 ^ (n + 1) := by exact_mod_cast hk
      rw [pow_succ, ← mul_assoc] at hmul
      omega

/-- The part of an object under a known name, if the object has it. -/
def fieldPart? (fields : List (String × Value)) (field : String × Shape) : Option Part :=
  (Record.get? fields field.1).map (⟨.key field.1, field.2, ·⟩)

/-- The parts of a value that a shape speaks of, in order: entries and items as they stand, known
fields as the shape lists them. -/
def parts : Shape → Value → List Part
  | .record entry, .object fields => fields.map fun field => ⟨.key field.1, entry, field.2⟩
  | .list item, .array items => items.zipIdx.map fun (v, index) => ⟨.index index, item, v⟩
  | .object known, .object fields => known.filterMap (fieldPart? fields)
  | _, _ => []

theorem sizeOf_lt_of_mem_parts {shape : Shape} {v : Value} {part : Part}
    (h : part ∈ shape.parts v) : sizeOf part.shape < sizeOf shape := by
  unfold parts at h
  split at h
  · obtain ⟨entry, -, rfl⟩ := List.mem_map.mp h
    simp
  · obtain ⟨item, -, rfl⟩ := List.mem_map.mp h
    simp
  · obtain ⟨⟨name, shape⟩, hknown, hpart⟩ := List.mem_filterMap.mp h
    obtain ⟨w, -, rfl⟩ := Option.map_eq_some_iff.mp hpart
    have hsize := List.sizeOf_lt_of_mem hknown
    simp only [Prod.mk.sizeOf_spec, object.sizeOf_spec] at hsize ⊢
    omega
  · exact absurd h List.not_mem_nil

/-- What holds of a shape if it holds of the shapes of all parts holds of every shape. -/
theorem induction_parts {P : Shape → Prop}
    (step : ∀ shape, (∀ v, ∀ part ∈ shape.parts v, P part.shape) → P shape) (shape : Shape) :
    P shape :=
  step shape fun _ part hpart =>
    have _hlt := sizeOf_lt_of_mem_parts hpart
    induction_parts step part.shape
termination_by sizeOf shape

/-! ## Values that fit, and nodes that do not -/

/-- A value and all that it is made of are what a shape asks for. -/
inductive Fits : Shape → Value → Prop
  | intro {shape : Shape} {v : Value} :
      shape.suits v = true → (∀ part ∈ shape.parts v, part.shape.Fits part.value) → Fits shape v

/-- The node at an address is not what a shape asks for there. -/
inductive Violates : Shape → Value → Address → Prop
  | here {shape : Shape} {v : Value} : shape.suits v = false → Violates shape v []
  | inside {shape : Shape} {v : Value} {part : Part} {address : Address} :
      part ∈ shape.parts v → Violates part.shape part.value address →
      Violates shape v (part.step :: address)

/-- A value fits if no node violates its shape. -/
theorem fits_iff {shape : Shape} {v : Value} :
    shape.Fits v ↔ ∀ address, ¬ shape.Violates v address := by
  constructor
  · intro h
    induction h with
    | intro hsuits _ ih =>
      intro address hviolates
      cases hviolates with
      | here hnot => simp [hsuits] at hnot
      | inside hpart hbelow => exact ih _ hpart _ hbelow
  · intro h
    induction shape using induction_parts generalizing v with
    | step shape ih =>
      refine .intro ?_ fun part hpart => ih v part hpart fun address hbelow => ?_
      · exact (Bool.eq_false_or_eq_true _).resolve_right fun hnot => h [] (.here hnot)
      · exact h _ (.inside hpart hbelow)

/-- Nothing that a shape asks for is `null`. -/
theorem not_fits_null (shape : Shape) : ¬ shape.Fits .null := by
  rintro ⟨hsuits, -⟩
  cases shape <;> cases hsuits

/-! ## The list of violations -/

/-- The address of a node itself, if it is not what its shape asks for. -/
def ownViolation (shape : Shape) (v : Value) : List Address := if shape.suits v then [] else [[]]

mutual

/-- The addresses of the nodes that violate a shape, in the order in which the value is gone
through. -/
def violations : Shape → Value → List Address
  | .record entry, .object fields =>
    fields.flatMap fun field => (entry.violations field.2).map (.key field.1 :: ·)
  | .list item, .array items =>
    items.zipIdx.flatMap fun (v, index) => (item.violations v).map (.index index :: ·)
  | .object known, .object fields =>
    violationsOfFields known fields ++ ownViolation (.object known) (.object fields)
  | shape, v => ownViolation shape v

/-- The addresses below the known fields that an object has. -/
def violationsOfFields : List (String × Shape) → List (String × Value) → List Address
  | [], _ => []
  | (name, shape) :: rest, fields =>
    (match Record.get? fields name with
      | none => []
      | some v => (shape.violations v).map (.key name :: ·)) ++ violationsOfFields rest fields

end

/-- The addresses of the nodes in a part that violate its shape. -/
def partViolations (part : Part) : List Address :=
  (part.shape.violations part.value).map (part.step :: ·)

theorem violationsOfFields_eq (known : List (String × Shape)) (fields : List (String × Value)) :
    violationsOfFields known fields =
      ((object known).parts (.object fields)).flatMap partViolations := by
  induction known with
  | nil => rfl
  | cons field rest ih =>
    obtain ⟨name, shape⟩ := field
    rw [violationsOfFields, ih, parts, parts, List.filterMap_cons, fieldPart?]
    cases Record.get? fields name <;> rfl

theorem violationsOfFields_append (known known' : List (String × Shape))
    (fields : List (String × Value)) :
    violationsOfFields (known ++ known') fields =
      violationsOfFields known fields ++ violationsOfFields known' fields := by
  simp only [violationsOfFields_eq, parts, List.filterMap_append, List.flatMap_append]

/-- A value is gone through part by part, and the node itself comes last. -/
theorem violations_eq (shape : Shape) (v : Value) :
    shape.violations v = (shape.parts v).flatMap partViolations ++ shape.ownViolation v := by
  unfold violations
  split
  · simp [parts, partViolations, ownViolation, suits, List.flatMap_map]
  · simp [parts, partViolations, ownViolation, suits, List.flatMap_map]
  · rw [violationsOfFields_eq]
  · unfold parts
    split <;> simp_all

theorem mem_ownViolation_iff {shape : Shape} {v : Value} {address : Address} :
    address ∈ shape.ownViolation v ↔ shape.suits v = false ∧ address = [] := by
  unfold ownViolation
  split <;> simp_all

/-- The list has the addresses of all nodes that violate the shape, and no others. -/
theorem mem_violations_iff {shape : Shape} {v : Value} {address : Address} :
    address ∈ shape.violations v ↔ shape.Violates v address := by
  induction shape using induction_parts generalizing v address with
  | step shape ih =>
    rw [violations_eq, List.mem_append, List.mem_flatMap, mem_ownViolation_iff]
    constructor
    · rintro (⟨part, hpart, hbelow⟩ | ⟨hnot, rfl⟩)
      · obtain ⟨rest, hrest, rfl⟩ := List.mem_map.mp hbelow
        exact .inside hpart ((ih v part hpart).mp hrest)
      · exact .here hnot
    · intro h
      cases h with
      | here hnot => exact .inr ⟨hnot, rfl⟩
      | inside hpart hbelow =>
        exact .inl ⟨_, hpart, List.mem_map.mpr ⟨_, (ih v _ hpart).mpr hbelow, rfl⟩⟩

theorem violations_eq_nil_iff {shape : Shape} {v : Value} :
    shape.violations v = [] ↔ shape.Fits v := by
  rw [fits_iff, List.eq_nil_iff_forall_not_mem]
  simp only [mem_violations_iff]

end Shape

end BuildMatrix
