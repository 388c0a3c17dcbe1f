import BuildMatrix.Json.Pretty
import BuildMatrix.Proofs.Json.Spelling

/-!
# Printed texts are spellings

A plain value holds no number, and the fields of its objects are in reading order (`IsPlain`).  Its
compact text and its indented text are spellings of it (`spells_chars`, `spells_prettyChars`), so
both are read back.  The compact text is free of control characters (`le_toNat_of_mem_chars`),
whatever stands in the texts of the value.
-/

namespace BuildMatrix.Json

/-! ## Plain values -/

mutual

/-- A value without numbers whose fields are in reading order at every depth. -/
def IsPlain : Json → Prop
  | .number _ => False
  | .array items => IsPlainItems items
  | .object fields => Record.Ordered fields ∧ IsPlainFields fields
  | _ => True

/-- All items are plain. -/
def IsPlainItems : List Json → Prop
  | [] => True
  | v :: rest => v.IsPlain ∧ IsPlainItems rest

/-- The values of all fields are plain. -/
def IsPlainFields : List (String × Json) → Prop
  | [] => True
  | (_, v) :: rest => v.IsPlain ∧ IsPlainFields rest

end

theorem isPlainItems_iff {items : List Json} :
    IsPlainItems items ↔ ∀ v ∈ items, v.IsPlain := by
  induction items with
  | nil => simp [IsPlainItems]
  | cons v rest ih => simp [IsPlainItems, ih]

theorem isPlainFields_iff {fields : List (String × Json)} :
    IsPlainFields fields ↔ ∀ f ∈ fields, f.2.IsPlain := by
  induction fields with
  | nil => simp [IsPlainFields]
  | cons f rest ih => simp [IsPlainFields, ih]

/-- The object of a record of texts is plain. -/
theorem isPlain_ofRecord {r : Record String} (h : r.Ordered) : (ofRecord r).IsPlain := by
  refine ⟨(Record.ordered_iff_of_names_eq ?_).mpr h, isPlainFields_iff.mpr fun f hf => ?_⟩
  · simp [Record.names]
  · obtain ⟨entry, -, rfl⟩ := List.mem_map.mp hf
    trivial

/-! ## The compact text -/

mutual

/-- The compact text of a plain value spells it. -/
theorem spells_chars : ∀ {v : Json}, v.IsPlain → Spells v (chars v)
  | .null, _ => .null
  | .bool true, _ => .yes
  | .bool false, _ => .no
  | .string s, _ => .string s
  | .array [], _ => .emptyArray
  | .array (_ :: _), h => .array (spells_itemsChars h (by simp))
  | .object [], _ => .emptyObject
  | .object (_ :: _), h => .object h.1 (spells_fieldsChars h.2 (by simp))

/-- The compact text of plain items spells them. -/
theorem spells_itemsChars : ∀ {items : List Json}, IsPlainItems items → items ≠ [] →
    SpellsItems items (itemsChars items)
  | [v], h, _ => by
    have hv := SpellsItems.last gap_nil (spells_chars h.1) gap_nil
    simpa [itemsChars] using hv
  | _ :: w :: rest, h, _ => by
    have hrest : SpellsItems (w :: rest) _ := spells_itemsChars h.2 (by simp)
    exact .more gap_nil (spells_chars h.1) hrest

/-- The compact text of plain fields spells them. -/
theorem spells_fieldsChars : ∀ {fields : List (String × Json)}, IsPlainFields fields →
    fields ≠ [] → SpellsFields fields (fieldsChars fields)
  | [(name, v)], h, _ => by
    have hv : SpellsFields [(name, v)] _ := .last gap_nil gap_nil (spells_chars h.1) gap_nil
    simpa [fieldsChars] using hv
  | (name, v) :: f :: rest, h, _ => by
    have hrest : SpellsFields (f :: rest) _ := spells_fieldsChars h.2 (by simp)
    have hv : SpellsFields ((name, v) :: f :: rest) _ :=
      .more gap_nil gap_nil (spells_chars h.1) hrest
    simpa [fieldsChars] using hv

end

/-! ## The indented text -/

theorem gap_newline (depth : Nat) : Gap (newline depth) := by
  intro c hc
  rcases List.mem_cons.mp hc with rfl | hc
  · exact .inr (.inl rfl)
  · exact .inl (List.eq_of_mem_replicate hc)

theorem gap_space : Gap [' '] := by simp [Gap]

/-- Blanks before the first item are part of a spelling of items. -/
theorem SpellsItems.blanks {items : List Json} {body blanks : List Char}
    (h : SpellsItems items body) (hb : Gap blanks) : SpellsItems items (blanks ++ body) := by
  have hgap : ∀ {before : List Char}, Gap before → Gap (blanks ++ before) := fun hbefore c hc =>
    (List.mem_append.mp hc).elim (hb c) (hbefore c)
  cases h with
  | last hbefore hv hafter => simpa using SpellsItems.last (hgap hbefore) hv hafter
  | more hbefore hv hrest => simpa using SpellsItems.more (hgap hbefore) hv hrest

/-- Blanks before the first field are part of a spelling of fields. -/
theorem SpellsFields.blanks {fields : List (String × Json)} {body blanks : List Char}
    (h : SpellsFields fields body) (hb : Gap blanks) : SpellsFields fields (blanks ++ body) := by
  have hgap : ∀ {before : List Char}, Gap before → Gap (blanks ++ before) := fun hbefore c hc =>
    (List.mem_append.mp hc).elim (hb c) (hbefore c)
  cases h with
  | last hbefore hg hv hafter => simpa using SpellsFields.last (hgap hbefore) hg hv hafter
  | more hbefore hg hv hrest => simpa using SpellsFields.more (hgap hbefore) hg hv hrest

mutual

/-- The indented text of a plain value spells it. -/
theorem spells_prettyChars (depth : Nat) : ∀ {v : Json}, v.IsPlain → Spells v (prettyChars depth v)
  | .null, _ => .null
  | .bool true, _ => .yes
  | .bool false, _ => .no
  | .string s, _ => .string s
  | .array [], _ => .emptyArray
  | .array (v :: rest), h => by
    have hbody := (spells_prettyItems (depth + 1) (gap_newline depth) h (by simp)).blanks
      (gap_newline (depth + 1))
    simpa [prettyChars] using Spells.array hbody
  | .object [], _ => .emptyObject
  | .object (f :: rest), h => by
    have hbody := (spells_prettyFields (depth + 1) (gap_newline depth) h.2 (by simp)).blanks
      (gap_newline (depth + 1))
    simpa [prettyChars] using Spells.object h.1 hbody

/-- The indented text of plain items, with blanks behind them, spells them. -/
theorem spells_prettyItems (depth : Nat) {after : List Char} (ha : Gap after) :
    ∀ {items : List Json}, IsPlainItems items → items ≠ [] →
      SpellsItems items (prettyItems depth items ++ after)
  | [v], h, _ => by
    simpa [prettyItems] using SpellsItems.last gap_nil (spells_prettyChars depth h.1) ha
  | v :: w :: rest, h, _ => by
    have hrest : SpellsItems (w :: rest) _ := spells_prettyItems depth ha h.2 (by simp)
    have hbody := SpellsItems.more gap_nil (spells_prettyChars depth h.1)
      (hrest.blanks (gap_newline depth))
    simpa [prettyItems] using hbody

/-- The indented text of plain fields, with blanks behind them, spells them. -/
theorem spells_prettyFields (depth : Nat) {after : List Char} (ha : Gap after) :
    ∀ {fields : List (String × Json)}, IsPlainFields fields → fields ≠ [] →
      SpellsFields fields (prettyFields depth fields ++ after)
  | [(name, v)], h, _ => by
    have hbody : SpellsFields [(name, v)] _ :=
      .last gap_nil gap_space (spells_prettyChars depth h.1) ha
    simpa [prettyFields] using hbody
  | (name, v) :: f :: rest, h, _ => by
    have hrest : SpellsFields (f :: rest) _ := spells_prettyFields depth ha h.2 (by simp)
    have hbody : SpellsFields ((name, v) :: f :: rest) _ :=
      .more gap_nil gap_space (spells_prettyChars depth h.1) (hrest.blanks (gap_newline depth))
    simpa [prettyFields] using hbody

end

/-! ## Control characters -/

theorem le_toNat_of_all {cs : List Char} (h : cs.all (32 ≤ ·.toNat) = true) :
    ∀ c ∈ cs, 32 ≤ c.toNat := by
  simpa using h

mutual

/-- The compact text of a plain value holds no control character. -/
theorem le_toNat_of_mem_chars : ∀ {v : Json}, v.IsPlain → ∀ c ∈ chars v, 32 ≤ c.toNat
  | .null, _ | .bool true, _ | .bool false, _ => le_toNat_of_all (by decide)
  | .string s, _ => fun c hc => le_toNat_of_mem_quote hc
  | .array items, h => by
    intro c hc
    simp only [chars, List.cons_append, List.mem_cons, List.mem_append, List.not_mem_nil,
      or_false] at hc
    rcases hc with rfl | hc | rfl
    · decide
    · exact le_toNat_of_mem_itemsChars h c hc
    · decide
  | .object fields, h => by
    intro c hc
    simp only [chars, List.cons_append, List.mem_cons, List.mem_append, List.not_mem_nil,
      or_false] at hc
    rcases hc with rfl | hc | rfl
    · decide
    · exact le_toNat_of_mem_fieldsChars h.2 c hc
    · decide

/-- The compact text of plain items holds no control character. -/
theorem le_toNat_of_mem_itemsChars : ∀ {items : List Json}, IsPlainItems items →
    ∀ c ∈ itemsChars items, 32 ≤ c.toNat
  | [], _ => by simp [itemsChars]
  | [v], h => le_toNat_of_mem_chars h.1
  | v :: w :: rest, h => by
    intro c hc
    simp only [itemsChars, List.mem_append, List.mem_cons] at hc
    rcases hc with hc | rfl | hc
    · exact le_toNat_of_mem_chars h.1 c hc
    · decide
    · exact le_toNat_of_mem_itemsChars h.2 c hc

/-- The compact text of plain fields holds no control character. -/
theorem le_toNat_of_mem_fieldsChars : ∀ {fields : List (String × Json)}, IsPlainFields fields →
    ∀ c ∈ fieldsChars fields, 32 ≤ c.toNat
  | [], _ => by simp [fieldsChars]
  | [(name, v)], h => by
    intro c hc
    simp only [fieldsChars, List.mem_append, List.mem_cons] at hc
    rcases hc with hc | rfl | hc
    · exact le_toNat_of_mem_quote hc
    · decide
    · exact le_toNat_of_mem_chars h.1 c hc
  | (name, v) :: f :: rest, h => by
    intro c hc
    simp only [fieldsChars, List.cons_append, List.append_assoc, List.mem_append,
      List.mem_cons] at hc
    rcases hc with hc | rfl | hc | rfl | hc
    · exact le_toNat_of_mem_quote hc
    · decide
    · exact le_toNat_of_mem_chars h.1 c hc
    · decide
    · exact le_toNat_of_mem_fieldsChars h.2 c hc

end

end BuildMatrix.Json
