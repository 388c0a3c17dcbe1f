import BuildMatrix.Proofs.Config.Checked
import BuildMatrix.Proofs.Config.Grammar

/-!
# Configurations are checked against a grammar

The check of a configuration accepts the values that fit its grammar, and finds in every other value
one or more issues at each node that violates it, node after node (`check_grammar`).  The grammar is
written down as a shape (`Config.grammar`).  Each check is put together from checks of parts as the
shape is from the shapes of the parts, so it is shown check by check that the issues are where the
shape is violated (`Shape.Governs`), with one lemma for each way to put checks together.
-/

namespace BuildMatrix

/-- Issues at the given places: one or more at each of them, place after place. -/
def Located (found : List Issue) (places : List Address) : Prop :=
  ∃ groups : List (List Issue), found = groups.flatten ∧
    List.Forall₂ (fun group place => group ≠ [] ∧ ∀ issue ∈ group, issue.path = place) groups places

namespace Located

theorem nil : Located [] [] := ⟨[], rfl, .nil⟩

/-- Any number of issues about a value itself. -/
theorem here {found : List Issue} (h : found ≠ []) (hpath : ∀ issue ∈ found, issue.path = []) :
    Located found [[]] :=
  ⟨[found], by simp, .cons ⟨h, hpath⟩ .nil⟩

theorem append {found found' : List Issue} {places places' : List Address}
    (h : Located found places) (h' : Located found' places') :
    Located (found ++ found') (places ++ places') := by
  obtain ⟨groups, rfl, hgroups⟩ := h
  obtain ⟨groups', rfl, hgroups'⟩ := h'
  exact ⟨groups ++ groups', List.flatten_append.symm, List.rel_append hgroups hgroups'⟩

/-- Seen from a larger value, issues and places are a step further away. -/
theorem under {found : List Issue} {places : List Address} (h : Located found places)
    (step : PathStep) : Located (found.map (.under step)) (places.map (step :: ·)) := by
  obtain ⟨groups, rfl, hgroups⟩ := h
  refine ⟨groups.map (List.map (.under step)), List.map_flatten, ?_⟩
  rw [List.forall₂_map_left_iff, List.forall₂_map_right_iff]
  refine hgroups.imp fun group place ⟨hne, hpath⟩ => ⟨by simpa using hne, fun issue hissue => ?_⟩
  obtain ⟨inner, hinner, rfl⟩ := List.mem_map.mp hissue
  rw [Issue.under, hpath inner hinner]

/-- The paths of such issues are these places. -/
theorem mem_map_path_iff {found : List Issue} {places : List Address} (h : Located found places)
    (address : Address) : address ∈ found.map Issue.path ↔ address ∈ places := by
  obtain ⟨groups, rfl, hgroups⟩ := h
  induction hgroups with
  | nil => simp
  | cons hgroup _ ih =>
    obtain ⟨hne, hpath⟩ := hgroup
    rw [List.flatten_cons, List.map_append, List.mem_append, ih, List.mem_cons,
      List.map_congr_left hpath, List.map_const', List.mem_replicate]
    simp [hne]

end Located

namespace Checked

variable {α β : Type} {places places' : List Address}

/-- A check finds issues at the given places, and gives a value if there are none. -/
structure FaultyAt (x : Checked α) (places : List Address) : Prop where
  located : Located x.issues places
  isFine : x.IsFine ↔ places = []

namespace FaultyAt

theorem ok (a : α) : FaultyAt (.ok a) [] := ⟨.nil, by simp⟩

/-- A value that is not what it has to be. -/
theorem error {found : List Issue} (h : found ≠ []) (hpath : ∀ issue ∈ found, issue.path = []) :
    FaultyAt (.error found : Checked α) [[]] :=
  ⟨.here h hpath, by simp⟩

theorem fault (f : Fault) : FaultyAt (Checked.fault f : Checked α) [[]] :=
  .error (by simp) (by simp)

theorem map {x : Checked α} (h : x.FaultyAt places) (f : α → β) : FaultyAt (x.map f) places :=
  ⟨by rw [issues_map]; exact h.located, isFine_map.trans h.isFine⟩

theorem under {x : Checked α} (h : x.FaultyAt places) (step : PathStep) :
    (x.under step).FaultyAt (places.map (step :: ·)) :=
  ⟨by rw [issues_under]; exact h.located.under step,
    isFine_under.trans (h.isFine.trans List.map_eq_nil_iff.symm)⟩

theorem app {f : Checked (α → β)} {x : Checked α} (hf : f.FaultyAt places)
    (hx : x.FaultyAt places') : (app f x).FaultyAt (places ++ places') :=
  ⟨by rw [issues_app]; exact hf.located.append hx.located, by
    rw [isFine_app, hf.isFine, hx.isFine, List.append_eq_nil_iff]⟩

theorem also {x : Checked α} {y : Checked Unit} (hx : x.FaultyAt places)
    (hy : y.FaultyAt places') : (also x y).FaultyAt (places ++ places') :=
  (hx.map _).app hy

end FaultyAt

end Checked

open Checked

/-- A check finds issues where a shape is violated. -/
def Shape.Governs {α : Type} (shape : Shape) (check : Value → Checked α) : Prop :=
  ∀ v, (check v).FaultyAt (shape.violations v)

namespace Config

/-! ## The grammar -/

/-- The options of a build. -/
def buildFields : List (String × Shape) :=
  [("name", .text), ("image", .text), ("args", .text), ("jobs", .count), ("env", .record .text),
    ("coverage", .flag), ("platform", .text), ("commandArgs", .text)]

/-- The settings under `defaults`. -/
def defaultFields : List (String × Shape) := [("image", .text), ("args", .text), ("jobs", .count)]

/-- The parts of a configuration. -/
def configFields : List (String × Shape) :=
  [("checker", .text), ("defaults", .object defaultFields),
    ("builds", .list (.object buildFields))]

/-- What a configuration has to be. -/
def grammar : Shape := .object configFields

/-! ## Checks of single values -/

theorem governs_text : Shape.text.Governs checkText := by
  intro v
  cases v with
  | string s => exact .ok s
  | _ => exact .fault _

theorem governs_flag : Shape.flag.Governs checkFlag := by
  intro v
  cases v with
  | bool b => exact .ok b
  | _ => exact .fault _

/-- A count is a number that is whole and positive. -/
theorem suits_count (n : Number) :
    Shape.count.suits (.number n) = (n.isWhole && n.isPositive) := by
  cases n with
  | finite negative m e =>
    cases negative <;> cases m <;> simp [Shape.suits, Number.isWhole, Number.isPositive]
  | _ => rfl

theorem violations_count (n : Number) :
    Shape.count.violations (.number n) = if n.isWhole && n.isPositive then [] else [[]] := by
  rw [← suits_count]
  rfl

theorem governs_count : Shape.count.Governs checkCount := by
  intro v
  cases v with
  | number n =>
    rw [violations_count]
    rcases checkCount_number n with ⟨hcount, hok⟩ | ⟨hcount, found, herror, hne, hpath⟩
    · rw [hcount, hok]
      exact .ok n
    · rw [hcount, herror]
      exact .error hne hpath
  | _ => exact .fault _

/-! ## Checks of objects and lists -/

section

variable {α β : Type} {shape : Shape} {check : Value → Checked α} {fields : List (String × Value)}
  {known : List (String × Shape)}

/-- The check of one field of an object. -/
theorem faultyAt_checkField (h : shape.Governs check) (name : String) :
    (checkField check fields name).FaultyAt
      (Shape.violationsOfFields [(name, shape)] fields) := by
  rw [Shape.violationsOfFields, Shape.violationsOfFields, List.append_nil]
  cases hv : Record.get? fields name with
  | none =>
    rw [checkField_of_get?_eq_none hv]
    exact .ok none
  | some v =>
    rw [checkField_of_get? hv]
    exact ((h v).under _).map _

/-- The check of one more field of an object. -/
theorem faultyAt_app_checkField {f : Checked (Option α → β)}
    (hf : f.FaultyAt (Shape.violationsOfFields known fields)) (h : shape.Governs check)
    (name : String) :
    (app f (checkField check fields name)).FaultyAt
      (Shape.violationsOfFields (known ++ [(name, shape)]) fields) := by
  rw [Shape.violationsOfFields_append]
  exact hf.app (faultyAt_checkField h name)

/-- The checks of three fields of an object. -/
theorem faultyAt_threeFields {α₁ α₂ α₃ : Type} {shape₁ shape₂ shape₃ : Shape}
    {check₁ : Value → Checked α₁} {check₂ : Value → Checked α₂} {check₃ : Value → Checked α₃}
    (fields : List (String × Value)) (f : Option α₁ → Option α₂ → Option α₃ → β)
    (h₁ : shape₁.Governs check₁) (h₂ : shape₂.Governs check₂) (h₃ : shape₃.Governs check₃)
    (name₁ name₂ name₃ : String) :
    (app (app ((checkField check₁ fields name₁).map f) (checkField check₂ fields name₂))
      (checkField check₃ fields name₃)).FaultyAt
      (Shape.violationsOfFields [(name₁, shape₁), (name₂, shape₂), (name₃, shape₃)] fields) :=
  have hfirst := (faultyAt_checkField h₁ name₁).map f
  have hsecond := faultyAt_app_checkField hfirst h₂ name₂
  faultyAt_app_checkField hsecond h₃ name₃

/-- Names that are not known are an issue of the object that has them. -/
theorem faultyAt_checkKnown (known : List (String × Shape)) (fields : List (String × Value)) :
    (checkKnown (Record.names known) fields).FaultyAt
      (Shape.ownViolation (.object known) (.object fields)) := by
  have hempty : ((Record.names fields).filter (!(Record.names known).contains ·)).isEmpty =
      Shape.suits (.object known) (.object fields) := by
    rw [Bool.eq_iff_iff, List.isEmpty_iff, List.filter_eq_nil_iff, Shape.suits, List.all_eq_true]
    simp
  simp only [checkKnown, hempty, Shape.ownViolation]
  split
  · exact .ok ()
  · exact .fault _

/-- The checks of all known fields of an object, and that of its other names. -/
theorem faultyAt_also_checkKnown (known : List (String × Shape)) {x : Checked α}
    (h : x.FaultyAt (Shape.violationsOfFields known fields)) :
    (also x (checkKnown (Record.names known) fields)).FaultyAt
      ((Shape.object known).violations (.object fields)) := by
  rw [Shape.violations]
  exact h.also (faultyAt_checkKnown known fields)

theorem faultyAt_checkEntries (fields : List (String × Value)) :
    (checkEntries fields).FaultyAt ((Shape.record .text).violations (.object fields)) := by
  rw [Shape.violations]
  induction fields with
  | nil => exact .ok []
  | cons field rest ih => exact (((governs_text field.2).under _).map _).app ih

theorem governs_env : (Shape.record .text).Governs checkEnv := by
  intro v
  cases v with
  | object fields => exact faultyAt_checkEntries fields
  | _ => exact .fault _

theorem governs_build : (Shape.object buildFields).Governs checkBuild := by
  intro v
  cases v with
  | object fields =>
    have hargs := faultyAt_threeFields fields BuildOptions.mk governs_text governs_text governs_text
      "name" "image" "args"
    have hjobs := faultyAt_app_checkField hargs governs_count "jobs"
    have henv := faultyAt_app_checkField hjobs governs_env "env"
    have hcoverage := faultyAt_app_checkField henv governs_flag "coverage"
    have hplatform := faultyAt_app_checkField hcoverage governs_text "platform"
    have hcommandArgs := faultyAt_app_checkField hplatform governs_text "commandArgs"
    exact faultyAt_also_checkKnown buildFields hcommandArgs
  | _ => exact .fault _

theorem faultyAt_checkBuildsFrom (index : Nat) (items : List Value) :
    (checkBuildsFrom index items).FaultyAt
      ((items.zipIdx index).flatMap fun (v, i) =>
        ((Shape.object buildFields).violations v).map (.index i :: ·)) := by
  induction items generalizing index with
  | nil => exact .ok []
  | cons v rest ih => exact (((governs_build v).under _).map _).app (ih (index + 1))

theorem governs_builds : (Shape.list (.object buildFields)).Governs checkBuilds := by
  intro v
  cases v with
  | array items => exact faultyAt_checkBuildsFrom 0 items
  | _ => exact .fault _

theorem governs_defaults : (Shape.object defaultFields).Governs checkDefaults := by
  intro v
  cases v with
  | object fields =>
    exact faultyAt_also_checkKnown defaultFields
      (faultyAt_threeFields fields _ governs_text governs_text governs_count "image" "args" "jobs")
  | _ => exact .fault _

theorem governs_config : grammar.Governs Config.check := by
  intro v
  cases v with
  | object fields =>
    exact faultyAt_also_checkKnown configFields
      (faultyAt_threeFields fields _ governs_text governs_defaults governs_builds
        "checker" "defaults" "builds")
  | _ => exact .fault _

end

/-! ## The check and the grammar -/

/-- A value is accepted as a configuration exactly if it fits the grammar, which `null` does
nowhere.  The issues of a value that is rejected have the paths of the nodes that violate the
grammar, and no others; there are one or more for each of them, in the order in which the grammar
goes through them. -/
theorem check_grammar (v : Value) :
    ((∃ config, check v = .ok config) ↔ grammar.Fits v) ∧
      (∀ found, check v = .error found →
        Located found (grammar.violations v) ∧
        ∀ address, address ∈ found.map Issue.path ↔ grammar.Violates v address) ∧
      ∀ shape : Shape, ¬ shape.Fits .null := by
  obtain ⟨hlocated, hfine⟩ := governs_config v
  refine ⟨?_, fun found herror => ?_, Shape.not_fits_null⟩
  · calc (∃ config, check v = .ok config)
        ↔ grammar.violations v = [] := hfine
      _ ↔ grammar.Fits v := Shape.violations_eq_nil_iff
  · rw [herror] at hlocated
    exact ⟨hlocated, fun address =>
      (hlocated.mem_map_path_iff address).trans Shape.mem_violations_iff⟩

/-- A number that is neither whole nor positive has two issues at one place, an object of the wrong
parts is gone through before its unknown name is told, and a value of the wrong kind is not gone
through at all. -/
theorem check_grammar_mixed :
    let v : Value := .object
      [("extra", .bool true),
        ("builds", .array
          [.object
            [("nme", .string "a"), ("env", .object [("7", .null), ("K", .string "x")]),
              ("jobs", .number (.finite true 3 (-1)))],
            .array [.null],
            .object []]),
        ("defaults", .object [("jobs", .number 0), ("image", .null)]),
        ("checker", .string "")]
    let places : List Address :=
      [[.key "defaults", .key "image"], [.key "defaults", .key "jobs"],
        [.key "builds", .index 0, .key "jobs"], [.key "builds", .index 0, .key "env", .key "7"],
        [.key "builds", .index 0], [.key "builds", .index 1], []]
    ¬ grammar.Fits v ∧
      ∃ found, check v = .error found ∧ found.length = 8 ∧ Located found places := by
  intro v places
  obtain ⟨hfits, hlocated, -⟩ := check_grammar v
  have herror : check v = .error (issues (check v)) := by decide
  refine ⟨fun h => ?_, issues (check v), herror, by decide, ?_⟩
  · obtain ⟨config, hok⟩ := hfits.mpr h
    rw [herror] at hok
    cases hok
  · have hplaces : grammar.violations v = places := by decide
    exact hplaces ▸ (hlocated _ herror).1

end Config

end BuildMatrix
