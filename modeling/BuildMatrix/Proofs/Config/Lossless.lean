import BuildMatrix.Proofs.Config.Direct
import BuildMatrix.Proofs.Config.Keeping

/-!
# The check of a configuration loses nothing

What the check makes of a value is a value again (`Config.value`, `Config.buildValue`).  The fields
of a build are those of the value that was checked (`Config.exists_buildFields`), and the settings of
a configuration are those of the value or else the stock ones (`Config.ConfigOf`).  So the result
keeps all that the value has (`Config.keeps_build`, `Config.keeps_value`), and it is left as it is
when it is checked again (`Config.check_lossless`).
-/

namespace BuildMatrix

/-! ## Values of JSON -/

namespace Value

theorem ofFields_eq_map (fields : List (String × Json)) :
    ofFields fields = fields.map fun field => (field.1, ofJson field.2) := by
  induction fields with
  | nil => rfl
  | cons field rest ih =>
    obtain ⟨name, v⟩ := field
    rw [ofFields, ih, List.map_cons]

theorem ofItems_eq_map (items : List Json) : ofItems items = items.map ofJson := by
  induction items with
  | nil => rfl
  | cons v rest ih => rw [ofItems, ih, List.map_cons]

end Value

namespace Config

open Checked
open Value (Keeps Dropped)

/-- A configuration as a value. -/
def value (config : Config) : Value := .ofJson config.json

/-- The options of a build as a value. -/
def buildValue (build : BuildOptions) : Value := .ofJson (buildJson build)

/-! ## The fields of an object that passes its check -/

section

variable {α : Type} {check : Value → Checked α} {fields : List (String × Value)} {name : String}
  {known : List String}

/-- Nothing unknown stands in an object that passes its check. -/
theorem checkKnown_eq_ok_iff :
    checkKnown known fields = .ok () ↔ ∀ name ∈ Record.names fields, name ∈ known := by
  simp only [checkKnown]
  split
  · rename_i hempty
    rw [List.isEmpty_iff, List.filter_eq_nil_iff] at hempty
    simpa using hempty
  · rename_i hempty
    rw [List.isEmpty_iff, List.filter_eq_nil_iff] at hempty
    simpa [fault] using hempty

theorem also_eq_ok_iff {x : Checked α} {y : Checked Unit} {a : α} :
    also x y = .ok a ↔ x = .ok a ∧ y = .ok () := by
  cases x <;> cases y <;> simp [also, app, Except.map]

/-- Names that are not known are not found. -/
theorem get?_eq_none_of_checkKnown (h : checkKnown known fields = .ok ()) (hname : name ∉ known) :
    Record.get? fields name = none :=
  Record.get?_eq_none_of_notMem fun hfound => hname (checkKnown_eq_ok_iff.mp h name hfound)

/-- A checked value goes back to what is kept of the value that was checked. -/
def Restores (check : Value → Checked α) (toJson : α → Json) (kept : Value → Value) : Prop :=
  ∀ v a, check v = .ok a → Value.ofJson (toJson a) = kept v

variable {toJson : α → Json} {kept : Value → Value}

theorem Restores.field (h : Restores check toJson kept) {a : Option α}
    (hfield : checkField check fields name = .ok a) :
    a.map (fun b => Value.ofJson (toJson b)) = (Record.get? fields name).map kept := by
  rcases checkField_eq_ok hfield with ⟨hnone, rfl⟩ | ⟨v, b, hsome, hcheck, rfl⟩
  · rw [hnone]
    rfl
  · rw [hsome, Option.map_some, Option.map_some, h v b hcheck]

end

theorem restores_text : Restores checkText .string id := by
  intro v s h
  cases v with
  | string t =>
    obtain rfl := Except.ok.inj h
    rfl
  | _ => cases h

theorem restores_flag : Restores checkFlag .bool id := by
  intro v b h
  cases v with
  | bool c =>
    obtain rfl := Except.ok.inj h
    rfl
  | _ => cases h

theorem restores_count : Restores checkCount .number id := by
  intro v n h
  have hread := gives_count v n h
  cases v with
  | number m =>
    obtain rfl := Option.some.inj hread
    rfl
  | _ => cases hread

/-- The check of an environment drops one name. -/
theorem restores_env : Restores checkEnv .ofRecord (·.without "__proto__") := by
  intro v env h
  cases v with
  | object fields =>
    refine congrArg Value.object ?_
    induction fields generalizing env with
    | nil =>
      obtain rfl := Except.ok.inj h
      rfl
    | cons field rest ih =>
      obtain ⟨name, v⟩ := field
      obtain ⟨s, entries, hs, hrest, rfl⟩ := entry_of_checkEntries h
      by_cases hname : name = "__proto__"
      · rw [if_pos hname, hname, Record.without_cons_self]
        exact ih entries hrest
      · rw [if_neg hname, Record.without_cons_of_ne hname, ← ih entries hrest]
        obtain rfl : Value.string s = v := restores_text v s hs
        rfl
  | _ => cases h

/-- An environment without that name has the same entries. -/
theorem checkEnv_without {v : Value} {env : Record String} (h : checkEnv v = .ok env) :
    checkEnv (v.without "__proto__") = .ok env := by
  cases v with
  | object fields =>
    show checkEntries (Record.without fields "__proto__") = .ok env
    replace h : checkEntries fields = .ok env := h
    induction fields generalizing env with
    | nil => exact h
    | cons field rest ih =>
      obtain ⟨name, v⟩ := field
      obtain ⟨s, entries, hs, hrest, rfl⟩ := entry_of_checkEntries h
      by_cases hname : name = "__proto__"
      · rw [if_pos hname, hname, Record.without_cons_self]
        exact ih hrest
      · rw [Record.without_cons_of_ne hname, checkEntries, hs, ih hrest]
        rfl
  | _ => cases h

/-! ## Builds -/

/-- What a check keeps of the value of a field. -/
def keptAt (name : String) (v : Value) : Value :=
  if name = "env" then v.without "__proto__" else v

theorem keptAt_env : keptAt "env" = (·.without "__proto__") :=
  funext fun _ => if_pos rfl

theorem keptAt_of_ne {name : String} (h : name ≠ "env") : keptAt name = id :=
  funext fun _ => if_neg h

theorem ofFields_append (fields fields' : List (String × Json)) :
    Value.ofFields (fields ++ fields') = Value.ofFields fields ++ Value.ofFields fields' := by
  simp only [Value.ofFields_eq_map, List.map_append]

theorem ofFields_field? {α : Type} (name : String) (toJson : α → Json) (value : Option α) :
    Value.ofFields (field? name toJson value) =
      ((value.map fun a => Value.ofJson (toJson a)).map (name, ·)).toList := by
  cases value <;> rfl

/-- The options of a build have the fields that they were read from, in a fixed order. -/
theorem buildValue_eq {fields : List (String × Value)} {build : BuildOptions}
    (h : BuildOf fields build) :
    buildValue build = .object (buildKeys.filterMap fun key =>
      ((Record.get? fields key).map (keptAt key)).map (key, ·)) := by
  -- each field that is written is there exactly if the field that was read is
  rw [List.filterMap_eq_flatMap_toList]
  show Value.object (Value.ofFields _) = _
  simp only [ofFields_append, ofFields_field?, restores_text.field h.name,
    restores_text.field h.image, restores_text.field h.args, restores_count.field h.jobs,
    restores_env.field h.env, restores_flag.field h.coverage, restores_text.field h.platform,
    restores_text.field h.commandArgs]
  simp only [buildKeys, List.flatMap_cons, List.flatMap_nil, List.append_nil, List.append_assoc]
  rfl

/-- A build that passes its check has the fields that were checked, and no others. -/
theorem exists_buildFields {fields : List (String × Value)} {build : BuildOptions}
    (h : checkBuild (.object fields) = .ok build) :
    ∃ fields', buildValue build = .object fields' ∧ checkKnown buildKeys fields' = .ok () ∧
      ∀ name, Record.get? fields' name = (Record.get? fields name).map (keptAt name) := by
  have hknown : checkKnown buildKeys fields = .ok () := (also_eq_ok_iff.mp h).2
  obtain ⟨_, ⟨rfl⟩, hfields⟩ := fields_of_checkBuild h
  refine ⟨_, buildValue_eq hfields, checkKnown_eq_ok_iff.mpr fun name hname => ?_, fun name => ?_⟩
  · rw [Record.mem_names_iff_get?, Record.get?_filterMap] at hname
    by_contra hnot
    exact hname (if_neg hnot)
  · rw [Record.get?_filterMap]
    split
    · rfl
    · rename_i hnot
      rw [get?_eq_none_of_checkKnown hknown hnot]
      rfl

/-- A field that is kept as it is has the same check. -/
theorem checkField_kept {α : Type} {check : Value → Checked α} {kept : Value → Value}
    (hkept : ∀ v a, check v = .ok a → check (kept v) = .ok a)
    {fields fields' : List (String × Value)} {name : String} {a : Option α}
    (hget : Record.get? fields' name = (Record.get? fields name).map kept)
    (h : checkField check fields name = .ok a) : checkField check fields' name = .ok a := by
  rcases checkField_eq_ok h with ⟨hnone, rfl⟩ | ⟨v, b, hsome, hcheck, rfl⟩
  · rw [hnone] at hget
    exact checkField_of_get?_eq_none hget
  · rw [hsome] at hget
    rw [checkField_of_get? hget, hkept v b hcheck]
    rfl

/-- The options of a build that passes its check are what they are checked to. -/
theorem checkBuild_buildValue {v : Value} {build : BuildOptions} (h : checkBuild v = .ok build) :
    checkBuild (buildValue build) = .ok build := by
  obtain ⟨fields, rfl, hfields⟩ := fields_of_checkBuild h
  obtain ⟨fields', hvalue, hknown, hget⟩ := exists_buildFields h
  have hsame : ∀ {α : Type} {check : Value → Checked α} {name : String} {a : Option α},
      name ≠ "env" → checkField check fields name = .ok a →
        checkField check fields' name = .ok a := by
    intro α check name a hname hfield
    have hkept : Record.get? fields' name = (Record.get? fields name).map id := by
      rw [hget, keptAt_of_ne hname]
    exact checkField_kept (fun _ _ hcheck => hcheck) hkept hfield
  have henv : checkField checkEnv fields' "env" = .ok build.env :=
    checkField_kept (fun _ _ => checkEnv_without) (hget "env") hfields.env
  rw [hvalue, checkBuild, also_eq_ok_iff]
  refine ⟨?_, hknown⟩
  simp only [hsame (by decide) hfields.name, hsame (by decide) hfields.image,
    hsame (by decide) hfields.args, hsame (by decide) hfields.jobs, henv,
    hsame (by decide) hfields.coverage, hsame (by decide) hfields.platform,
    hsame (by decide) hfields.commandArgs]
  rfl

/-- The options of a build have all that they were read from, and nothing else. -/
theorem keeps_build {v : Value} {build : BuildOptions} (h : checkBuild v = .ok build) :
    Keeps (· = [.key "env"]) none (some v) (some (buildValue build)) := by
  obtain ⟨fields, rfl, -⟩ := fields_of_checkBuild h
  obtain ⟨fields', hvalue, -, hget⟩ := exists_buildFields h
  rw [hvalue]
  refine .parts rfl (by simp) fun step => ?_
  cases step with
  | index i => exact .nothing
  | key name =>
    show Keeps _ none (Record.get? fields name) (Record.get? fields' name)
    rw [hget]
    by_cases hname : name = "env"
    · subst hname
      rw [keptAt_env]
      exact .env (by simp) _
    · rw [keptAt_of_ne hname, Option.map_id]
      exact .given (by simp [hname]) _

/-- The builds of a list are kept one by one. -/
theorem keeps_builds {items : List Value} {builds : List BuildOptions}
    (h : List.Forall₂ (fun v build => checkBuild v = .ok build) items builds) :
    Keeps (fun e => ∃ i, e = [.index i, .key "env"]) (some (.array [])) (some (.array items))
      (some (.array (builds.map buildValue))) := by
  obtain ⟨hlength, hget⟩ := List.forall₂_iff_get.mp h
  refine .parts ?_ (by simp) fun step => ?_
  · rw [Value.node, Value.node, List.length_map, hlength]
  cases step with
  | key name => exact .nothing
  | index i =>
    show Keeps _ none items[i]? (builds.map buildValue)[i]?
    by_cases hi : i < items.length
    · rw [List.getElem?_eq_getElem hi, List.getElem?_map, List.getElem?_eq_getElem (hlength ▸ hi)]
      exact (keeps_build (hget i hi (hlength ▸ hi))).congr (by simp)
    · rw [List.getElem?_eq_none (by omega), List.getElem?_eq_none (by simp; omega)]
      exact .nothing

/-! ## Whole configurations -/

/-- A configuration comes from the fields of an object and from those under its `defaults`, of which
there are none if it has no `defaults`. -/
structure ConfigOf (fields settings : List (String × Value)) (given : GivenDefaults)
    (builds : Option (List BuildOptions)) : Prop where
  place : Record.get? fields "defaults" = none ∧ settings = [] ∨
    Record.get? fields "defaults" = some (.object settings)
  known : checkKnown defaultKeys settings = .ok ()
  checker : checkField checkText fields "checker" = .ok given.checker
  image : checkField checkText settings "image" = .ok given.image
  args : checkField checkText settings "args" = .ok given.args
  jobs : checkField checkCount settings "jobs" = .ok given.jobs
  builds : checkField checkBuilds fields "builds" = .ok builds

theorem configOf_of_check {v : Value} {config : Config} (h : check v = .ok config) :
    ∃ fields settings given builds, v = .object fields ∧ checkKnown configKeys fields = .ok () ∧
      ConfigOf fields settings given builds ∧
      config = { given.fill with builds := builds.getD [] } := by
  obtain ⟨fields, checker, defaults, builds, rfl, hchecker, hdefaults, hbuilds, rfl⟩ :=
    fields_of_check h
  have hknown : checkKnown configKeys fields = .ok () := (also_eq_ok_iff.mp h).2
  rcases checkField_eq_ok hdefaults with ⟨hnone, rfl⟩ | ⟨w, change, hsome, hchange, rfl⟩
  -- without `defaults` nothing is given there, as in an object without fields
  · exact ⟨fields, [], ⟨checker, none, none, none⟩, builds, rfl, hknown,
      ⟨.inl ⟨hnone, rfl⟩, rfl, hchecker, rfl, rfl, rfl, hbuilds⟩, rfl⟩
  · obtain ⟨settings, image, args, jobs, rfl, himage, hargs, hjobs, rfl⟩ :=
      fields_of_checkDefaults hchange
    exact ⟨fields, settings, ⟨checker, image, args, jobs⟩, builds, rfl, hknown,
      ⟨.inr hsome, (also_eq_ok_iff.mp hchange).2, hchecker, himage, hargs, hjobs, hbuilds⟩, rfl⟩

/-- The settings under `defaults` as a value. -/
def defaultsValue (defaults : Defaults) : Value :=
  .object [("image", .string defaults.image), ("args", .string defaults.args),
    ("jobs", .number defaults.jobs)]

/-- The fields of a configuration as a value. -/
def valueFields (config : Config) : List (String × Value) :=
  [("checker", .string config.checker), ("defaults", defaultsValue config.defaults),
    ("builds", .array (config.builds.map buildValue))]

theorem value_eq (config : Config) : config.value = .object (valueFields config) := by
  rw [value, json, valueFields, defaultsValue]
  simp only [Value.ofJson, Value.ofFields, Value.ofItems_eq_map, List.map_map]
  rfl

/-- An object whose names are all known is kept field by field. -/
theorem keeps_object {known : List String} {fields stock result : List (String × Value)}
    {isEnv : Address → Prop} (hknown : checkKnown known fields = .ok ())
    (hstock : Record.names stock = known) (hresult : Record.names result = known)
    (henv : ¬ isEnv [])
    (h : ∀ name ∈ known, Keeps (fun e => isEnv (.key name :: e)) (Record.get? stock name)
      (Record.get? fields name) (Record.get? result name)) :
    Keeps isEnv (some (.object stock)) (some (.object fields)) (some (.object result)) := by
  refine .parts rfl henv fun step => ?_
  cases step with
  | index i => exact .nothing
  | key name =>
    by_cases hname : name ∈ known
    · exact h name hname
    · show Keeps _ (Record.get? stock name) (Record.get? fields name) (Record.get? result name)
      rw [get?_eq_none_of_checkKnown hknown hname,
        Record.get?_eq_none_of_notMem (hstock.symm ▸ hname),
        Record.get?_eq_none_of_notMem (hresult.symm ▸ hname)]
      exact .nothing

/-- A field that has a stock value is the one that is given, or else the stock one. -/
theorem Restores.keeps {α : Type} {check : Value → Checked α} {toJson : α → Json}
    (h : Restores check toJson id) {fields : List (String × Value)} {name : String} {a : Option α}
    (hfield : checkField check fields name = .ok a) {isEnv : Address → Prop}
    (henv : ∀ e, ¬ isEnv e) {d : α}
    (hleaf : (Value.ofJson (toJson d)).node = .leaf (Value.ofJson (toJson d))) :
    Keeps isEnv (some (Value.ofJson (toJson d))) (Record.get? fields name)
      (some (Value.ofJson (toJson (a.getD d)))) := by
  have hgiven := h.field hfield
  rw [Option.map_id, id] at hgiven
  have hvalue : Value.ofJson (toJson (a.getD d)) =
      (Record.get? fields name).getD (Value.ofJson (toJson d)) := by
    rw [← hgiven]
    cases a <;> rfl
  rw [hvalue]
  exact .orStock henv hleaf _

namespace ConfigOf

variable {fields settings : List (String × Value)} {given : GivenDefaults}
  {builds : Option (List BuildOptions)}

/-- The settings under `defaults` are those that are given, and the stock ones for the others. -/
theorem keeps_defaults (h : ConfigOf fields settings given builds) {isEnv : Address → Prop}
    (henv : ∀ e, ¬ isEnv e) :
    Keeps isEnv (some (defaultsValue {})) (Record.get? fields "defaults")
      (some (defaultsValue given.fill)) := by
  rcases h.place with ⟨hnone, rfl⟩ | hsome
  · have himage : given.image = none := (Except.ok.inj h.image).symm
    have hargs : given.args = none := (Except.ok.inj h.args).symm
    have hjobs : given.jobs = none := (Except.ok.inj h.jobs).symm
    rw [hnone, GivenDefaults.fill, himage, hargs, hjobs]
    exact .standIn fun e he => absurd he (henv e)
  rw [hsome]
  refine keeps_object h.known rfl rfl (henv []) fun name hname => ?_
  have henv' : ∀ e, ¬ isEnv (.key name :: e) := fun e => henv (.key name :: e)
  simp only [defaultKeys, List.mem_cons, List.not_mem_nil, or_false] at hname
  rcases hname with rfl | rfl | rfl
  · exact restores_text.keeps h.image henv' rfl
  · exact restores_text.keeps h.args henv' rfl
  · exact restores_count.keeps h.jobs henv' rfl

/-- The builds are those that are given; without any, there are none. -/
theorem keeps_builds (h : ConfigOf fields settings given builds) :
    Keeps (fun e => ∃ i, e = [.index i, .key "env"]) (some (.array []))
      (Record.get? fields "builds") (some (.array ((builds.getD []).map buildValue))) := by
  rcases checkField_eq_ok h.builds with ⟨hnone, rfl⟩ | ⟨w, builds, hsome, hbuilds, rfl⟩
  · rw [hnone]
    refine .standIn ?_
    rintro _ ⟨i, rfl⟩
    rfl
  · obtain ⟨items, rfl, hitems⟩ := items_of_checkBuilds hbuilds
    rw [hsome]
    exact Config.keeps_builds hitems

/-- The number of jobs is a count, given or not. -/
theorem checkCount_jobs (h : ConfigOf fields settings given builds) :
    checkCount (.number given.fill.jobs) = .ok given.fill.jobs := by
  rw [GivenDefaults.fill]
  rcases checkField_eq_ok h.jobs with ⟨-, hnone⟩ | ⟨v, jobs, -, hcheck, hsome⟩
  · rw [hnone]
    rfl
  · obtain rfl : Value.number jobs = v := restores_count v jobs hcheck
    rw [hsome]
    exact hcheck

/-- The builds are what they are checked to. -/
theorem checkBuilds_value (h : ConfigOf fields settings given builds) :
    checkBuilds (.array ((builds.getD []).map buildValue)) = .ok (builds.getD []) := by
  refine checkBuildsFrom_eq_ok_iff.mpr ?_
  rcases checkField_eq_ok h.builds with ⟨-, rfl⟩ | ⟨w, builds, -, hbuilds, rfl⟩
  · exact .nil
  · obtain ⟨items, -, hitems⟩ := items_of_checkBuilds hbuilds
    clear h hbuilds
    induction hitems with
    | nil => exact .nil
    | cons hitem _ ih => exact .cons (checkBuild_buildValue hitem) ih

end ConfigOf

/-- What the fields of an object give is put together. -/
theorem check_object {fields : List (String × Value)} {checker : Option String}
    {change : Option (Config → Config)} {builds : Option (List BuildOptions)}
    (hknown : checkKnown configKeys fields = .ok ())
    (hchecker : checkField checkText fields "checker" = .ok checker)
    (hdefaults : checkField checkDefaults fields "defaults" = .ok change)
    (hbuilds : checkField checkBuilds fields "builds" = .ok builds) :
    check (.object fields) = .ok (change.getD id
      { checker := checker.getD ({} : Config).checker, builds := builds.getD [] }) := by
  rw [check, also_eq_ok_iff, hchecker, hdefaults, hbuilds]
  exact ⟨rfl, hknown⟩

theorem checkDefaults_defaultsValue {defaults : Defaults}
    (h : checkCount (.number defaults.jobs) = .ok defaults.jobs) :
    checkDefaults (defaultsValue defaults) = .ok fun config => { config with
      image := defaults.image
      args := defaults.args
      jobs := defaults.jobs } := by
  have hjobs : checkField checkCount [("image", .string defaults.image),
      ("args", .string defaults.args), ("jobs", .number defaults.jobs)] "jobs" =
        .ok (some defaults.jobs) := by
    rw [checkField_of_get? rfl, h]
    rfl
  rw [defaultsValue, checkDefaults, hjobs]
  rfl

/-- A configuration that passes its check is what it is checked to. -/
theorem check_value {v : Value} {config : Config} (h : check v = .ok config) :
    check config.value = .ok config := by
  obtain ⟨fields, settings, given, builds, rfl, -, hof, rfl⟩ := configOf_of_check h
  generalize hconfig : ({ given.fill with builds := builds.getD [] } : Config) = config
  have hchecker : checkField checkText (valueFields config) "checker" =
      .ok (some config.checker) := rfl
  have hdefaults : checkField checkDefaults (valueFields config) "defaults" =
      .ok (some fun other => { other with
        image := config.image, args := config.args, jobs := config.jobs }) := by
    rw [checkField_of_get? rfl, checkDefaults_defaultsValue (hconfig ▸ hof.checkCount_jobs)]
    rfl
  have hbuilds : checkField checkBuilds (valueFields config) "builds" =
      .ok (some config.builds) := by
    rw [checkField_of_get? rfl, ← hconfig, hof.checkBuilds_value]
    rfl
  rw [value_eq, check_object rfl hchecker hdefaults hbuilds]
  rfl

/-- Where the environments of a configuration are. -/
def IsEnvironment (a : Address) : Prop := ∃ i, a = [.key "builds", .index i, .key "env"]

/-- A configuration has all that it was read from, and the stock settings for what is missing. -/
theorem keeps_value {v : Value} {config : Config} (h : check v = .ok config) :
    Keeps IsEnvironment (some ({} : Config).value) (some v) (some config.value) := by
  obtain ⟨fields, settings, given, builds, rfl, hknown, hof, rfl⟩ := configOf_of_check h
  rw [value_eq, value_eq]
  refine keeps_object hknown rfl rfl (by simp [IsEnvironment]) fun name hname => ?_
  simp only [configKeys, List.mem_cons, List.not_mem_nil, or_false] at hname
  rcases hname with rfl | rfl | rfl
  · exact restores_text.keeps hof.checker (by simp [IsEnvironment]) rfl
  · exact hof.keeps_defaults (by simp [IsEnvironment])
  · exact hof.keeps_builds.congr (by simp [IsEnvironment])

/-! ## The check loses nothing -/

/-- The check of a configuration leaves its result as it is, and the result has all that the value
has, at every address and in the same order: only the entries `__proto__` of the environments are
gone, and only stock settings have come to it, in places where the value has nothing.  The check of
the options of a build is the same, and adds nothing at all. -/
theorem check_lossless :
    (∀ v config, check v = .ok config →
      check config.value = .ok config ∧
        Keeps IsEnvironment (some ({} : Config).value) (some v) (some config.value)) ∧
      ∀ v build, checkBuild v = .ok build →
        checkBuild (buildValue build) = .ok build ∧
          Keeps (· = [.key "env"]) none (some v) (some (buildValue build)) :=
  ⟨fun _ _ h => ⟨check_value h, keeps_value h⟩,
    fun _ _ h => ⟨checkBuild_buildValue h, keeps_build h⟩⟩

/-- A build with the entry that is dropped, and settings of which only one is given. -/
theorem check_lossless_partly :
    let env : Value := .object
      [("2", .string "x"), ("__proto__", .string "y"), ("K", .string "")]
    let item : Value := .object [("env", env), ("name", .string "a")]
    let v : Value := .object
      [("builds", .array [item]), ("defaults", .object [("args", .string "")])]
    let kept : Value := .object [("2", .string "x"), ("K", .string "")]
    (∃ config, check v = .ok config ∧ check config.value = .ok config ∧
      config.value.at? [.key "builds", .index 0, .key "env"] = some kept ∧
      (config.value.at? [.key "builds"]).map Value.node = some (.list 1) ∧
      (config.value.at? [.key "defaults", .key "args"]).map Value.node =
        some (.leaf (.string "")) ∧
      (config.value.at? [.key "defaults", .key "image"]).map Value.node =
        some (.leaf (.string "bookworm"))) ∧
    ∃ build, checkBuild item = .ok build ∧ checkBuild (buildValue build) = .ok build ∧
      (buildValue build).at? [.key "env"] = some kept ∧
      (buildValue build).at? [.key "env", .key "__proto__"] = none := by
  intro env item v kept
  have hok : (check v).isOk = true := by decide
  have hitem : (checkBuild item).isOk = true := by decide
  cases h : check v with
  | error found =>
    rw [h] at hok
    cases hok
  | ok config =>
    cases hb : checkBuild item with
    | error found =>
      rw [hb] at hitem
      cases hitem
    | ok build =>
      obtain ⟨hagain, hkeeps⟩ := check_lossless.1 v config h
      obtain ⟨hbuild, hkeepsBuild⟩ := check_lossless.2 item build hb
      have hshort : ∀ a : Address, a.length < 4 → ¬ Dropped IsEnvironment a := by
        rintro a ha ⟨_, ⟨i, rfl⟩, hprefix⟩
        have hlength := hprefix.length_le
        simp only [List.length_append, List.length_cons, List.length_nil] at hlength
        omega
      refine ⟨⟨config, rfl, hagain, hkeeps.entries _ ⟨0, rfl⟩, ?_, ?_, ?_⟩,
        build, rfl, hbuild, hkeepsBuild.entries _ rfl, ?_⟩
      · exact hkeeps.same [.key "builds"] (hshort _ (by decide))
      · exact hkeeps.same [.key "defaults", .key "args"] (hshort _ (by decide))
      · exact hkeeps.same [.key "defaults", .key "image"] (hshort _ (by decide))
      · exact hkeepsBuild.gone [.key "env", .key "__proto__"] ⟨_, rfl, List.prefix_rfl⟩

end Config

end BuildMatrix
