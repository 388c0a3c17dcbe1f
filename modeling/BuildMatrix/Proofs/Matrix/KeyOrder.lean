import BuildMatrix.Proofs.Json.KeyOrder
import BuildMatrix.Proofs.Matrix.Document
import BuildMatrix.Proofs.Record.Lookup

/-!
# The order of the keys in the indented text

The keys of the indented text are sorted by their units before they are set, and names that are
array indexes move to the front when they are set.  No name that the matrix itself gives is an array
index (`Job.keepsUnits_fields`), so it depends on the environments of the jobs alone whether the
keys of every object stand in the order of their units (`Matrix.pretty_keys`).  They do not where an
environment names the indexes 9 and 10 (`Matrix.pretty_keys_numerical`).
-/

namespace BuildMatrix

/-- No name of a field of a job is an array index. -/
theorem Job.keepsUnits_fields (job : Job) : Record.KeepsUnits (Record.names job.fields) := by
  have hall : ∀ name ∈ fieldNames, Record.index? name = none := by decide
  intro a ha b _ hover
  rw [Record.overtakes_of_index?_eq_none (hall a ((names_fields_sublist job).mem ha))] at hover
  cases hover

theorem Json.eachObject_ofRecord_iff {P : List String → Prop} {r : Record String} :
    (Json.ofRecord r).EachObject P ↔ P (Record.names r) := by
  have hnames : Record.names (r.map fun entry => (entry.1, Json.string entry.2)) =
      Record.names r := by
    simp [Record.names]
  have hvalues : EachObjectOfFields P (r.map fun entry => (entry.1, Json.string entry.2)) := by
    refine eachObjectOfFields_iff.mpr fun f hf => ?_
    obtain ⟨entry, -, rfl⟩ := List.mem_map.mp hf
    trivial
  rw [ofRecord, EachObject, hnames]
  exact and_iff_left hvalues

/-- In the record of a job only the environment can have a name out of place. -/
theorem Job.eachObject_record_iff {job : Job} :
    job.record.EachObject Record.KeepsUnits ↔ Record.KeepsUnits (Record.names job.env) := by
  have hoptional : ∀ name value, Json.EachObjectOfFields Record.KeepsUnits
      (optionalField name value) := by
    intro name value
    cases value with
    | none => trivial
    | some value => exact ⟨trivial, trivial⟩
  rw [record_eq, Json.EachObject, and_iff_right job.keepsUnits_fields,
    ← Json.eachObject_ofRecord_iff (P := Record.KeepsUnits), Json.eachObjectOfFields_iff]
  constructor
  · intro h
    exact h ("env", .ofRecord job.env) (by simp [fields])
  · intro henv f hf
    simp only [fields, List.mem_append, List.mem_cons, List.not_mem_nil, or_false] at hf
    rcases hf with (((hf | rfl | rfl | rfl) | hf) | hf) | rfl | rfl | rfl
    · exact Json.eachObjectOfFields_iff.mp (hoptional _ _) f hf
    · exact henv
    · trivial
    · trivial
    · exact Json.eachObjectOfFields_iff.mp (hoptional _ _) f hf
    · exact Json.eachObjectOfFields_iff.mp (hoptional _ _) f hf
    · trivial
    · trivial
    · trivial

namespace Matrix

variable {m : Matrix}

theorem eachObject_document_iff :
    m.document.EachObject Record.KeepsUnits ↔
      ∀ job ∈ m.jobs, Record.KeepsUnits (Record.names job.env) := by
  have hinclude : Record.KeepsUnits ["include"] := by
    intro a ha b hb hover
    rw [List.mem_singleton.mp ha, List.mem_singleton.mp hb, Record.overtakes_self] at hover
    cases hover
  have hitems : m.document.EachObject Record.KeepsUnits ↔
      Json.EachObjectOfItems Record.KeepsUnits (m.jobs.map Job.record) :=
    (and_iff_right hinclude).trans (and_iff_left trivial)
  rw [hitems, Json.eachObjectOfItems_iff, List.forall_mem_map]
  exact forall₂_congr fun job _ => Job.eachObject_record_iff

/-- The indented text spells one value.  In each of its objects the keys that are array indexes come
first, by their numbers, and the others follow by their units.  So the keys of every object ascend
by their units exactly if in no environment a name overtakes another one that comes before it by
units. -/
theorem pretty_keys (h : m.Reachable) :
    ∃ v : Json, (∀ w : Json, w.Spells m.pretty.toList ↔ w = v) ∧
      v.EachObject (·.Pairwise Record.Precedes) ∧
      (v.EachObject (·.Pairwise fun a b => Text.before a b = true) ↔
        ∀ job ∈ m.jobs, ∀ a ∈ Record.names job.env, ∀ b ∈ Record.names job.env,
          Record.overtakes a b = true → Text.before a b = true) := by
  have hplain := h.isPlain_document
  refine ⟨m.document.sortKeys, fun w => ⟨fun hw => hw.unique h.spells_pretty, ?_⟩,
    Json.eachObject_precedes hplain, ?_⟩
  · rintro rfl
    exact h.spells_pretty
  · rw [Json.eachObject_before_iff hplain]
    exact eachObject_document_iff

/-- Without array indexes in its environments, a matrix has ascending keys. -/
theorem pretty_keys_ascending :
    let m := (Matrix.empty (some "refs/tags/v1") {}).add
      { env := some [("b", "1"), ("_", "2"), ("B", "3"), ("01", "4"), ("-1", "5")] }
    m.Reachable ∧ ∃ v : Json, v.Spells m.pretty.toList ∧
      v.EachObject (·.Pairwise fun a b => Text.before a b = true) := by
  intro m
  have h : m.Reachable := .add (.empty _ _) fun env henv => by
    obtain rfl := Option.some.inj henv
    decide
  obtain ⟨v, hspells, -, hascends⟩ := pretty_keys h
  exact ⟨h, v, (hspells v).mpr rfl, hascends.mpr (by decide)⟩

/-- Two array indexes stand in the order of their numbers, which is not that of their units. -/
theorem pretty_keys_numerical :
    let m := (Matrix.empty none {}).add { env := some [("9", "b"), ("10", "a")] }
    m.Reachable ∧ ∃ v : Json, v.Spells m.pretty.toList ∧
      ¬ v.EachObject (·.Pairwise fun a b => Text.before a b = true) := by
  intro m
  have h : m.Reachable := .add (.empty _ _) fun env henv => by
    obtain rfl := Option.some.inj henv
    decide
  refine ⟨h, m.document.sortKeys, h.spells_pretty, fun hascends => ?_⟩
  rw [Json.eachObject_before_iff h.isPlain_document, eachObject_document_iff] at hascends
  exact absurd (hascends _ List.mem_cons_self "9" (by decide) "10" (by decide)) (by decide)

end Matrix

end BuildMatrix
