import BuildMatrix.Proofs.Json.Quote
import BuildMatrix.Proofs.Record.Order

/-!
# Spellings of JSON values

A text spells a value if it is a compact text of the value with blanks between the tokens
(`Spells`).  Numbers have no spelling here.  The reader gives the value of every spelling and stops
just behind it (`readValue_spells`, `read_of_spells`), so no text spells two values
(`Spells.unique`).
-/

namespace BuildMatrix.Json

/-! ## The grammar -/

/-- Blanks between tokens. -/
def Gap (cs : List Char) : Prop := ∀ c ∈ cs, c = ' ' ∨ c = '\n' ∨ c = '\r' ∨ c = '\t'

mutual

/-- A text spells a value: the tokens of the value in order, with blanks between them.  The fields
of an object are in reading order. -/
inductive Spells : Json → List Char → Prop
  | null : Spells .null "null".toList
  | yes : Spells (.bool true) "true".toList
  | no : Spells (.bool false) "false".toList
  | string (s : String) : Spells (.string s) (quote s)
  | emptyArray : Spells (.array []) ['[', ']']
  | array {items : List Json} {body : List Char} :
      SpellsItems items body → Spells (.array items) ('[' :: body ++ [']'])
  | emptyObject : Spells (.object []) ['\x7b', '\x7d']
  | object {fields : List (String × Json)} {body : List Char} :
      Record.Ordered fields → SpellsFields fields body →
        Spells (.object fields) ('\x7b' :: body ++ ['\x7d'])

/-- A text spells items with commas between them. -/
inductive SpellsItems : List Json → List Char → Prop
  | last {v : Json} {before cs after : List Char} :
      Gap before → Spells v cs → Gap after → SpellsItems [v] (before ++ cs ++ after)
  | more {v : Json} {rest : List Json} {before cs body : List Char} :
      Gap before → Spells v cs → SpellsItems rest body →
        SpellsItems (v :: rest) (before ++ cs ++ ',' :: body)

/-- A text spells fields with commas between them. -/
inductive SpellsFields : List (String × Json) → List Char → Prop
  | last {name : String} {v : Json} {before gap cs after : List Char} :
      Gap before → Gap gap → Spells v cs → Gap after →
        SpellsFields [(name, v)] (before ++ quote name ++ ':' :: gap ++ cs ++ after)
  | more {name : String} {v : Json} {rest : List (String × Json)}
      {before gap cs body : List Char} :
      Gap before → Gap gap → Spells v cs → SpellsFields rest body →
        SpellsFields ((name, v) :: rest)
          (before ++ quote name ++ ':' :: gap ++ cs ++ ',' :: body)

end

/-! ## Blanks -/

theorem gap_nil : Gap [] := by simp [Gap]

/-- Whether blanks go on with a character. -/
def isGapChar (c : Char) : Bool := c == ' ' || c == '\n' || c == '\r' || c == '\t'

theorem skipBlanks_gap {before : List Char} (h : Gap before) (cs : List Char) :
    skipBlanks (before ++ cs) = skipBlanks cs := by
  refine List.dropWhile_append_of_pos fun c hc => ?_
  rcases h c hc with rfl | rfl | rfl | rfl <;> rfl

theorem skipBlanks_cons {c : Char} (h : isGapChar c = false) (cs : List Char) :
    skipBlanks (c :: cs) = c :: cs :=
  List.dropWhile_cons_of_neg (by simpa [isGapChar] using h)

theorem skipBlanks_idem (cs : List Char) : skipBlanks (skipBlanks cs) = skipBlanks cs := by
  induction cs with
  | nil => rfl
  | cons c cs ih =>
    cases hc : isGapChar c with
    | true => rw [show skipBlanks (c :: cs) = skipBlanks cs from List.dropWhile_cons_of_pos hc, ih]
    | false => rw [skipBlanks_cons hc, skipBlanks_cons hc]

/-- Blanks before a token, then the token. -/
theorem skipBlanks_gap_cons {before : List Char} (h : Gap before) {c : Char}
    (hc : isGapChar c = false) (cs : List Char) :
    skipBlanks (before ++ c :: cs) = c :: cs := by
  rw [skipBlanks_gap h, skipBlanks_cons hc]

theorem readValue_skipBlanks (n : Nat) (cs : List Char) :
    readValue (n + 1) (skipBlanks cs) = readValue (n + 1) cs := by
  rw [readValue, readValue, skipBlanks_idem]

theorem readItems_skipBlanks (n : Nat) (cs : List Char) :
    readItems (n + 2) (skipBlanks cs) = readItems (n + 2) cs := by
  rw [readItems, readItems, readValue_skipBlanks]

theorem readFields_skipBlanks (n : Nat) (cs : List Char) :
    readFields (n + 1) (skipBlanks cs) = readFields (n + 1) cs := by
  rw [readFields, readFields, skipBlanks_idem]

/-! ## How spellings start -/

/-- The characters that a spelling can start with. -/
def startsValue (c : Char) : Bool :=
  c == 'n' || c == 't' || c == 'f' || c == '"' || c == '[' || c == '\x7b'

theorem isGapChar_of_startsValue {c : Char} (h : startsValue c = true) : isGapChar c = false := by
  simp only [startsValue, Bool.or_eq_true, beq_iff_eq] at h
  rcases h with ((((rfl | rfl) | rfl) | rfl) | rfl) | rfl <;> rfl

theorem Spells.start {v : Json} {cs : List Char} (h : Spells v cs) :
    ∃ c tail, cs = c :: tail ∧ startsValue c = true := by
  cases h with
  | null => exact ⟨'n', "ull".toList, rfl, rfl⟩
  | yes => exact ⟨'t', "rue".toList, rfl, rfl⟩
  | no => exact ⟨'f', "alse".toList, rfl, rfl⟩
  | string s => exact ⟨'"', s.toList.flatMap escape ++ ['"'], rfl, rfl⟩
  | emptyArray => exact ⟨'[', [']'], rfl, rfl⟩
  | array _ => exact ⟨'[', _, rfl, rfl⟩
  | emptyObject => exact ⟨'\x7b', ['\x7d'], rfl, rfl⟩
  | object _ _ => exact ⟨'\x7b', _, rfl, rfl⟩

theorem SpellsItems.length_pos {items : List Json} {body : List Char}
    (h : SpellsItems items body) : 0 < body.length := by
  cases h with
  | last _ hv _ | more _ hv _ =>
    obtain ⟨c, tail, rfl, -⟩ := hv.start
    simp only [List.length_append, List.length_cons]
    omega

theorem SpellsFields.length_pos {fields : List (String × Json)} {body : List Char}
    (h : SpellsFields fields body) : 0 < body.length := by
  cases h <;> simp only [List.length_append, List.length_cons] <;> omega

/-- After its blanks, a spelling of items starts with the one of a value. -/
theorem SpellsItems.start {items : List Json} {body : List Char} (h : SpellsItems items body)
    (rest : List Char) :
    ∃ c tail, skipBlanks (body ++ rest) = c :: tail ∧ startsValue c = true := by
  cases h with
  | last hbefore hv _ | more hbefore hv _ =>
    obtain ⟨c, tail, rfl, hc⟩ := hv.start
    rw [List.append_assoc, List.append_assoc, skipBlanks_gap hbefore, List.cons_append,
      skipBlanks_cons (isGapChar_of_startsValue hc)]
    exact ⟨c, _, rfl, hc⟩

/-- After its blanks, a spelling of fields starts with a quote. -/
theorem SpellsFields.start {fields : List (String × Json)} {body : List Char}
    (h : SpellsFields fields body) (rest : List Char) :
    ∃ tail, skipBlanks (body ++ rest) = '"' :: tail := by
  cases h with
  | last hbefore _ _ _ | more hbefore _ _ _ =>
    simp only [List.append_assoc, quote, List.cons_append]
    rw [skipBlanks_gap hbefore, skipBlanks_cons (by decide)]
    exact ⟨_, rfl⟩

/-! ## Reading a spelling -/

/-- An array that is not empty is read item by item. -/
theorem readValue_array {n : Nat} {before rest : List Char} (hb : Gap before) {c : Char}
    {tail : List Char} (hskip : skipBlanks rest = c :: tail) (hc : c ≠ ']') :
    readValue (n + 1) (before ++ '[' :: rest) = (readItems n (skipBlanks rest)).map .array := by
  rw [readValue, skipBlanks_gap_cons hb (by decide)]
  simp only [hskip]
  split
  · rename_i heq
    exact absurd (List.cons.inj heq).1 hc
  · rfl

/-- An object that is not empty is read field by field. -/
theorem readValue_object {n : Nat} {before rest : List Char} (hb : Gap before) {c : Char}
    {tail : List Char} (hskip : skipBlanks rest = c :: tail) (hc : c ≠ '\x7d') :
    readValue (n + 1) (before ++ '\x7b' :: rest) =
      (readFields n (skipBlanks rest)).map fun fields => .object (Record.ofList fields) := by
  rw [readValue, skipBlanks_gap_cons hb (by decide)]
  simp only [hskip]
  split
  · rename_i heq
    exact absurd (List.cons.inj heq).1 hc
  · rfl

mutual

/-- Reading a spelling after blanks gives its value and stops behind it. -/
theorem readValue_spells {v : Json} {cs : List Char} (h : Spells v cs) (n : Nat)
    (hn : cs.length ≤ n) {before : List Char} (hb : Gap before) (rest : List Char) :
    readValue n (before ++ cs ++ rest) = .ok (v, rest) := by
  obtain ⟨n, rfl⟩ : ∃ k, n = k + 1 := by
    obtain ⟨c, tail, rfl, -⟩ := h.start
    exact ⟨n - 1, by simp at hn; omega⟩
  rw [List.append_assoc]
  cases h with
  | null => rw [readValue, skipBlanks_gap hb]; rfl
  | yes => rw [readValue, skipBlanks_gap hb]; rfl
  | no => rw [readValue, skipBlanks_gap hb]; rfl
  | string s =>
    obtain ⟨body, hq, hread⟩ := readQuoted_quote s
    rw [readValue, hq, List.cons_append, skipBlanks_gap_cons hb (by decide)]
    simp only [hread, Reading.map, String.ofList_toList]
  | emptyArray =>
    rw [readValue, List.cons_append, skipBlanks_gap_cons hb (by decide)]
    simp only [List.cons_append, List.nil_append, skipBlanks_cons (c := ']') (by decide)]
  | @array items body hitems =>
    simp only [List.length_append, List.length_cons] at hn
    obtain ⟨k, rfl⟩ : ∃ k, n = k + 2 := ⟨n - 2, by have := hitems.length_pos; omega⟩
    obtain ⟨c, tail, hskip, hc⟩ := hitems.start (']' :: rest)
    have hread := readItems_spells hitems (k + 2) (by omega) rest
    simp only [List.cons_append, List.append_assoc, List.nil_append]
    rw [readValue_array hb hskip (by rintro rfl; simp [startsValue] at hc), readItems_skipBlanks,
      hread]
    rfl
  | emptyObject =>
    rw [readValue, List.cons_append, skipBlanks_gap_cons hb (by decide)]
    simp only [List.cons_append, List.nil_append, skipBlanks_cons (c := '\x7d') (by decide)]
  | @object fields body hord hfields =>
    simp only [List.length_append, List.length_cons] at hn
    obtain ⟨k, rfl⟩ : ∃ k, n = k + 1 := ⟨n - 1, by have := hfields.length_pos; omega⟩
    obtain ⟨tail, hskip⟩ := hfields.start ('\x7d' :: rest)
    have hread := readFields_spells hfields (k + 1) (by omega) rest
    simp only [List.cons_append, List.append_assoc, List.nil_append]
    rw [readValue_object hb hskip (by decide), readFields_skipBlanks, hread]
    simp only [Reading.map, Record.ofList_eq_self hord]

/-- Reading a spelling of items gives them, up to and with the closing bracket. -/
theorem readItems_spells {items : List Json} {body : List Char} (h : SpellsItems items body)
    (n : Nat) (hn : body.length < n) (rest : List Char) :
    readItems n (body ++ ']' :: rest) = .ok (items, rest) := by
  obtain ⟨n, rfl⟩ : ∃ k, n = k + 1 := ⟨n - 1, by omega⟩
  rw [readItems]
  cases h with
  | @last v before cs after hbefore hv hafter =>
    simp only [List.length_append] at hn
    have hread := readValue_spells hv n (by omega) hbefore (after ++ ']' :: rest)
    rw [List.append_assoc, hread]
    simp only [skipBlanks_gap_cons hafter (c := ']') (by decide)]
  | @more v items before cs body hbefore hv hrest =>
    simp only [List.length_append, List.length_cons] at hn
    have hread := readValue_spells hv n (by omega) hbefore (',' :: (body ++ ']' :: rest))
    have hmore := readItems_spells hrest n (by omega) rest
    rw [List.append_assoc, List.cons_append, hread]
    simp only [skipBlanks_cons (c := ',') (by decide), hmore]
    rfl

/-- Reading a spelling of fields gives them, up to and with the closing brace. -/
theorem readFields_spells {fields : List (String × Json)} {body : List Char}
    (h : SpellsFields fields body) (n : Nat) (hn : body.length < n) (rest : List Char) :
    readFields n (body ++ '\x7d' :: rest) = .ok (fields, rest) := by
  obtain ⟨n, rfl⟩ : ∃ k, n = k + 1 := ⟨n - 1, by omega⟩
  rw [readFields]
  cases h with
  | @last name v before gap cs after hbefore hgap hv hafter =>
    obtain ⟨body, hq, hname⟩ := readQuoted_quote name
    simp only [hq, List.length_append, List.length_cons] at hn
    have hread := readValue_spells hv n (by omega) hgap (after ++ '\x7d' :: rest)
    simp only [hq, List.append_assoc, List.cons_append] at hread ⊢
    rw [skipBlanks_gap_cons hbefore (by decide)]
    simp only [hname, skipBlanks_cons (c := ':') (by decide), hread, String.ofList_toList,
      skipBlanks_gap_cons hafter (c := '\x7d') (by decide)]
  | @more name v fields before gap cs body' hbefore hgap hv hrest =>
    obtain ⟨body, hq, hname⟩ := readQuoted_quote name
    simp only [hq, List.length_append, List.length_cons] at hn
    have hread := readValue_spells hv n (by omega) hgap (',' :: (body' ++ '\x7d' :: rest))
    have hmore := readFields_spells hrest n (by omega) rest
    simp only [hq, List.append_assoc, List.cons_append] at hread ⊢
    rw [skipBlanks_gap_cons hbefore (by decide)]
    simp only [hname, skipBlanks_cons (c := ':') (by decide), hread, String.ofList_toList,
      skipBlanks_cons (c := ',') (by decide), hmore, Reading.map]

end

/-- Reading a whole text gives the value that it spells. -/
theorem read_of_spells {v : Json} {text : String} (h : Spells v text.toList) :
    read text = .ok v := by
  have hread := readValue_spells h (2 * text.toList.length + 2) (by omega) gap_nil []
  rw [List.nil_append, List.append_nil] at hread
  unfold read
  simp only [hread]
  rfl

/-- No text spells two values. -/
theorem Spells.unique {v w : Json} {cs : List Char} (hv : Spells v cs) (hw : Spells w cs) :
    v = w := by
  have hv' : read (.ofList cs) = .ok v := read_of_spells (by rwa [String.toList_ofList])
  have hw' : read (.ofList cs) = .ok w := read_of_spells (by rwa [String.toList_ofList])
  exact Except.ok.inj (hv'.symm.trans hw')

end BuildMatrix.Json
