import BuildMatrix.Config.Load
import BuildMatrix.Proofs.Config.Checked
import BuildMatrix.Proofs.Matrix.Reachable

/-!
# Configurations that are read are proper

The objects that a text holds are records at every depth, since their fields are set one after the
other (`Value.IsOrdered`, `read_isOrdered`).  The check of an environment keeps the order of its
entries (`ordered_of_checkEnv`), so the builds of every configuration that is read have records as
their environments (`Config.isProper_of_read`), and the matrix of a configuration that is loaded is
reachable (`Config.Loaded.reachable_matrix`).
-/

namespace BuildMatrix

/-! ## Values whose objects are records -/

namespace Value

mutual

/-- The fields of every object are in reading order, at every depth. -/
def IsOrdered : Value → Prop
  | .array items => ItemsOrdered items
  | .object fields => Record.Ordered fields ∧ FieldsOrdered fields
  | _ => True

/-- All items have objects that are records. -/
def ItemsOrdered : List Value → Prop
  | [] => True
  | v :: rest => v.IsOrdered ∧ ItemsOrdered rest

/-- The values of all fields have objects that are records. -/
def FieldsOrdered : List (String × Value) → Prop
  | [] => True
  | (_, v) :: rest => v.IsOrdered ∧ FieldsOrdered rest

end

theorem itemsOrdered_iff {items : List Value} :
    ItemsOrdered items ↔ ∀ v ∈ items, v.IsOrdered := by
  induction items with
  | nil => simp [ItemsOrdered]
  | cons v rest ih => simp [ItemsOrdered, ih]

theorem fieldsOrdered_iff {fields : List (String × Value)} :
    FieldsOrdered fields ↔ ∀ f ∈ fields, f.2.IsOrdered := by
  induction fields with
  | nil => simp [FieldsOrdered]
  | cons f rest ih => simp [FieldsOrdered, ih]

/-- Setting a field of an object whose values are fine. -/
theorem IsOrdered.set {fields : List (String × Value)} {v : Value}
    (h : (Value.object fields).IsOrdered) (hv : v.IsOrdered) (name : String) :
    (Value.object (Record.set fields name v)).IsOrdered := by
  obtain ⟨hord, hvalues⟩ := h
  refine ⟨hord.set name v, fieldsOrdered_iff.mpr fun f hf => ?_⟩
  rcases List.mem_cons.mp ((Record.set_perm hord.nodup_names name v).mem_iff.mp hf) with rfl | hf
  · exact hv
  · exact fieldsOrdered_iff.mp hvalues f (List.mem_of_mem_filter hf)

theorem isOrdered_empty : (Value.object []).IsOrdered := ⟨Record.ordered_nil, trivial⟩

end Value

/-! ## Values that are read from text -/

namespace Yaml

open Value

theorem Scalar.isOrdered_toValue (s : Scalar) : s.toValue.IsOrdered := by
  cases s with
  | bytes octets =>
    refine ⟨Record.ordered_mapIdx octets fun _ octet => Value.number (.ofNat octet), ?_⟩
    refine fieldsOrdered_iff.mpr fun f hf => ?_
    obtain ⟨i, hi, rfl⟩ := List.mem_iff_getElem.mp hf
    rw [List.getElem_mapIdx]
    trivial
  | _ => trivial

/-- Merging fields that are fine into an object. -/
theorem isOrdered_mergeFields {fields more : List (String × Value)}
    (h : (Value.object fields).IsOrdered) (hmore : FieldsOrdered more) :
    (Value.object (mergeFields fields more)).IsOrdered := by
  unfold mergeFields
  induction more generalizing fields with
  | nil => exact h
  | cons f rest ih =>
    refine ih ?_ hmore.2
    dsimp only
    split
    · exact h
    · exact h.set hmore.1 f.1

namespace Node

/-- What anchored nodes stand for is fine. -/
def KnownOrdered (known : List Expansion) : Prop :=
  ∀ e ∈ known, e.value.IsOrdered ∧ (Value.object e.fields).IsOrdered

variable {anchors : List Anchored} {known : List Expansion}

theorem mem_of_expansion? {name : String} {offset : Nat} {e : Expansion}
    (h : expansion? anchors known name offset = some e) : e ∈ known := by
  obtain ⟨a, -, ha⟩ := Option.bind_eq_some_iff.mp h
  exact List.mem_of_find?_eq_some ha

mutual

/-- The value of a node has objects that are records. -/
theorem isOrdered_value (hk : KnownOrdered known) :
    ∀ n : Node, (n.value anchors known).IsOrdered
  | .scalar _ v _ _ => v.isOrdered_toValue
  | .alias info name => by
    rw [Node.value]
    cases h : expansion? anchors known name info.span.start with
    | none => trivial
    | some e => exact (hk e (mem_of_expansion? h)).1
  | .map _ .plain pairs => isOrdered_fieldsOf hk isOrdered_empty pairs
  | .map _ .ordered _ => trivial
  | .map _ .set _ => trivial
  | .seq _ items => itemsOrdered_valuesOf hk items

/-- So have the values of items. -/
theorem itemsOrdered_valuesOf (hk : KnownOrdered known) :
    ∀ items : List Node, ItemsOrdered (valuesOf anchors known items)
  | [] => trivial
  | n :: rest => ⟨isOrdered_value hk n, itemsOrdered_valuesOf hk rest⟩

/-- Pairs add fields to an object one after the other. -/
theorem isOrdered_fieldsOf (hk : KnownOrdered known) {fields : List (String × Value)}
    (h : (Value.object fields).IsOrdered) : ∀ pairs : List (Node × Option Node),
      (Value.object (fieldsOf anchors known fields pairs)).IsOrdered
  | [] => h
  | (key, none) :: rest => isOrdered_fieldsOf hk (h.set (v := .null) trivial _) rest
  | (key, some v) :: rest => by
    rw [fieldsOf]
    split
    · exact isOrdered_fieldsOf hk (isOrdered_mergeFields h (isOrdered_mergedFields hk v).2) rest
    · exact isOrdered_fieldsOf hk (h.set (isOrdered_value hk v) _) rest

/-- The fields that a node gives to a map form an object. -/
theorem isOrdered_mergedFields (hk : KnownOrdered known) :
    ∀ n : Node, (Value.object (n.mergedFields anchors known)).IsOrdered
  | .scalar _ _ _ _ => isOrdered_empty
  | .alias info name => by
    rw [mergedFields]
    cases h : expansion? anchors known name info.span.start with
    | none => exact isOrdered_empty
    | some e => exact (hk e (mem_of_expansion? h)).2
  | .map _ _ pairs => isOrdered_fieldsOf hk isOrdered_empty pairs
  | .seq _ items => isOrdered_mergedFieldsOfItems hk isOrdered_empty items

/-- The fields that items give form an object. -/
theorem isOrdered_mergedFieldsOfItems (hk : KnownOrdered known) {fields : List (String × Value)}
    (h : (Value.object fields).IsOrdered) : ∀ items : List Node,
      (Value.object (mergedFieldsOfItems anchors known fields items)).IsOrdered
  | [] => h
  | n :: rest => isOrdered_mergedFieldsOfItems hk
      (isOrdered_mergeFields h (isOrdered_mergedFields hk n).2) rest

end

/-- However often aliases are followed, what they stand for is fine. -/
theorem knownOrdered_expansions (anchors : List Anchored) :
    ∀ n : Nat, KnownOrdered (expansions anchors n)
  | 0 => by simp [expansions, KnownOrdered]
  | n + 1 => by
    intro e he
    obtain ⟨a, -, rfl⟩ := List.mem_map.mp he
    have hk := knownOrdered_expansions anchors n
    exact ⟨isOrdered_value hk a.node, isOrdered_mergedFields hk a.node⟩

/-- The value of a document has objects that are records. -/
theorem isOrdered_of_toValue {n : Node} {v : Value} (h : n.toValue = .ok v) : v.IsOrdered := by
  simp only [toValue] at h
  split at h
  · contradiction
  · obtain rfl := Except.ok.inj h
    exact isOrdered_value (knownOrdered_expansions _ _) n

end Node

/-- The value that a text holds has objects that are records. -/
theorem isOrdered_of_read {text : String} {v : Value} (h : read text = .ok v) : v.IsOrdered := by
  simp only [read] at h
  split at h
  · contradiction
  · obtain rfl := Except.ok.inj h
    trivial
  · split at h
    · rename_i hv
      obtain rfl := Except.ok.inj h
      exact Node.isOrdered_of_toValue hv
    · contradiction

end Yaml

/-! ## The check keeps the order of entries -/

namespace Config

/-- The entries that the check of an environment keeps stand in the order of its fields. -/
theorem names_checkEntries_sublist {fields : List (String × Value)} {env : Record String}
    (h : checkEntries fields = .ok env) : (Record.names env).Sublist (Record.names fields) := by
  induction fields generalizing env with
  | nil =>
    obtain rfl := Except.ok.inj h
    exact .refl _
  | cons f rest ih =>
    obtain ⟨s, entries, -, hrest, rfl⟩ := entry_of_checkEntries h
    split
    · exact (ih hrest).trans (List.sublist_cons_self _ _)
    · exact (ih hrest).cons_cons _

/-- An environment that passes the check is a record. -/
theorem ordered_of_checkEnv {v : Value} {env : Record String} (hv : v.IsOrdered)
    (h : checkEnv v = .ok env) : env.Ordered := by
  cases v with
  | object fields =>
    have hnames : (Record.names fields).Pairwise
        fun a b => a ≠ b ∧ Record.overtakes b a = false :=
      List.pairwise_map.mpr hv.1
    exact List.pairwise_map.mp (hnames.sublist (names_checkEntries_sublist h))
  | _ => cases h

/-- A field that the check gives back has a value that passes its check. -/
theorem get?_of_checkField {α : Type} {check : Value → Checked α} {fields : List (String × Value)}
    {name : String} {a : α} (h : checkField check fields name = .ok (some a)) :
    ∃ v, (name, v) ∈ fields ∧ check v = .ok a := by
  rcases checkField_eq_ok h with ⟨-, hnone⟩ | ⟨v, b, hv, hcheck, hsome⟩
  · cases hnone
  · obtain rfl := Option.some.inj hsome
    obtain ⟨before, after, hsplit, -⟩ := List.lookup_eq_some_iff.mp hv
    exact ⟨v, hsplit ▸ by simp, hcheck⟩

/-- The options of a build that passes the check are proper. -/
theorem isProper_of_checkBuild {v : Value} {build : BuildOptions} (hv : v.IsOrdered)
    (h : checkBuild v = .ok build) : build.IsProper := by
  obtain ⟨fields, rfl, hfields⟩ := fields_of_checkBuild h
  intro entries hentries
  obtain ⟨w, hw, hcheck⟩ := get?_of_checkField (hentries ▸ hfields.env)
  exact ordered_of_checkEnv (Value.fieldsOrdered_iff.mp hv.2 _ hw) hcheck

/-- So are the options of all builds of a list that passes the check. -/
theorem isProper_of_checkBuilds {v : Value} {builds : List BuildOptions} (hv : v.IsOrdered)
    (h : checkBuilds v = .ok builds) : ∀ b ∈ builds, b.IsProper := by
  intro b hb
  obtain ⟨items, item, rfl, hitem, hcheck⟩ := exists_of_mem_checkBuilds h hb
  exact isProper_of_checkBuild (Value.itemsOrdered_iff.mp hv item hitem) hcheck

/-- The settings under `defaults` leave the builds alone. -/
theorem builds_of_checkDefaults {v : Value} {change : Config → Config}
    (h : checkDefaults v = .ok change) (config : Config) :
    (change config).builds = config.builds := by
  obtain ⟨fields, image, args, jobs, -, -, -, -, rfl⟩ := fields_of_checkDefaults h
  rfl

/-- The builds of a configuration that passes the check are proper. -/
theorem isProper_of_check {v : Value} {config : Config} (hv : v.IsOrdered)
    (h : check v = .ok config) : ∀ b ∈ config.builds, b.IsProper := by
  obtain ⟨fields, checker, defaults, builds, rfl, -, hdefaults, hbuilds, rfl⟩ := fields_of_check h
  have hproper : ∀ b ∈ builds.getD [], b.IsProper := by
    cases builds with
    | none => simp
    | some items =>
      obtain ⟨w, hw, hcheck⟩ := get?_of_checkField hbuilds
      exact isProper_of_checkBuilds (Value.fieldsOrdered_iff.mp hv.2 _ hw) hcheck
  cases defaults with
  | none => exact hproper
  | some change =>
    obtain ⟨w, -, hcheck⟩ := get?_of_checkField hdefaults
    dsimp only [Option.getD_some]
    rw [builds_of_checkDefaults hcheck]
    exact hproper

/-- The builds of a configuration that is read are proper. -/
theorem isProper_of_read {text : String} {config : Config} (h : read text = .ok config) :
    ∀ b ∈ config.builds, b.IsProper := by
  simp only [read] at h
  split at h
  · cases h
  · rename_i v hv
    have hord := Yaml.isOrdered_of_read hv
    split at h
    · rename_i hcheck
      obtain rfl := Except.ok.inj h
      refine isProper_of_check ?_ hcheck
      split
      · exact Value.isOrdered_empty
      · exact hord
    · cases h

/-- The builds of a configuration that is loaded are proper. -/
theorem isProper_of_load {files : Files} {package directory : Path} {named : Option String}
    {loaded : Loaded} (h : load files package directory named = .ok loaded) :
    ∀ b ∈ loaded.config.builds, b.IsProper := by
  obtain ⟨config, hread, rfl⟩ := map_eq_ok h
  simp only [readFile] at hread
  split at hread
  · cases hread
  · rename_i text htext
    cases htext : read text with
    | error e => rw [htext] at hread; cases hread
    | ok config' =>
      rw [htext] at hread
      obtain rfl := Except.ok.inj hread
      exact isProper_of_read htext

/-- The matrix of a configuration with proper builds is reachable. -/
theorem reachable_matrix {config : Config} (h : ∀ b ∈ config.builds, b.IsProper)
    (ref : Option String) : (config.matrix ref).Reachable :=
  (Matrix.Reachable.empty ref config.defaults).addAll h

end Config

end BuildMatrix
