import BuildMatrix.Proofs.Config.Checked

/-!
# The builds of a configuration are checked one by one

A list of builds is fine exactly if each build is (`isFine_checkBuildsFrom`), and then it holds what
the builds give.  Otherwise its issues are those of the builds, in order, each with the index of its
build before its path (`issues_checkBuildsFrom`).  The issues of an object are those of its fields,
each below its own name, so no other field of a configuration plays a part in this
(`filter_issues_check`, `check_builds_elementwise`).
-/

namespace BuildMatrix

/-- An issue of the build at an index, seen from the configuration. -/
def Issue.ofBuild (index : Nat) (issue : Issue) : Issue :=
  { issue with path := .key "builds" :: .index index :: issue.path }

/-- Whether an issue is about something that a given step leads to. -/
def Issue.isBelow (step : PathStep) (issue : Issue) : Bool := issue.path.head? == some step

namespace Config

open Checked

/-- The issues of a list of builds, build after build, seen from the configuration. -/
def buildIssues (items : List Value) : List Issue :=
  items.zipIdx.flatMap fun (v, index) => (issues (checkBuild v)).map (.ofBuild index)

/-! ## Lists of builds -/

/-- A list of builds is fine if each of its builds is. -/
theorem isFine_checkBuildsFrom {items : List Value} {index : Nat} :
    IsFine (checkBuildsFrom index items) ↔ ∀ v ∈ items, IsFine (checkBuild v) := by
  induction items generalizing index with
  | nil => simp [checkBuildsFrom]
  | cons v rest ih => simp [checkBuildsFrom, ih]

/-- The issues of a list of builds are those of its builds, each below its index. -/
theorem issues_checkBuildsFrom (index : Nat) (items : List Value) :
    issues (checkBuildsFrom index items) =
      (items.zipIdx index).flatMap fun (v, i) =>
        (issues (checkBuild v)).map (.under (.index i)) := by
  induction items generalizing index with
  | nil => rfl
  | cons v rest ih =>
    rw [checkBuildsFrom, issues_app, issues_map, issues_under, ih, List.zipIdx_cons,
      List.flatMap_cons]

theorem map_under_issues_checkBuilds (items : List Value) :
    (issues (checkBuilds (.array items))).map (.under (.key "builds")) = buildIssues items := by
  rw [checkBuilds, issues_checkBuildsFrom, buildIssues, List.map_flatMap]
  simp only [List.map_map]
  rfl

/-! ## The issues below a field -/

section

variable {α : Type} {check : Value → Checked α} {fields : List (String × Value)} {name : String}

/-- The issues of a field are below its name. -/
theorem isBelow_of_mem_checkField {issue : Issue}
    (h : issue ∈ issues (checkField check fields name)) : issue.isBelow (.key name) = true := by
  cases hv : Record.get? fields name with
  | none =>
    rw [checkField_of_get?_eq_none hv] at h
    exact absurd h (List.not_mem_nil)
  | some v =>
    rw [checkField_of_get? hv, issues_map, issues_under] at h
    obtain ⟨inner, -, rfl⟩ := List.mem_map.mp h
    simp [Issue.isBelow, Issue.under]

theorem filter_issues_checkField_self :
    (issues (checkField check fields name)).filter (·.isBelow (.key name)) =
      issues (checkField check fields name) :=
  List.filter_eq_self.mpr fun _ h => isBelow_of_mem_checkField h

theorem filter_issues_checkField_of_ne {other : String} (h : name ≠ other) :
    (issues (checkField check fields name)).filter (·.isBelow (.key other)) = [] := by
  refine List.filter_eq_nil_iff.mpr fun issue hissue hother => ?_
  have hname := isBelow_of_mem_checkField hissue
  simp only [Issue.isBelow, beq_iff_eq] at hname hother
  rw [hname, Option.some.injEq, PathStep.key.injEq] at hother
  exact h hother

/-- The issue of unknown names is about the object itself. -/
theorem filter_issues_checkKnown (known : List String) (step : PathStep) :
    (issues (checkKnown known fields)).filter (·.isBelow step) = [] := by
  simp only [checkKnown]
  split
  · rfl
  · simp [fault, Issue.isBelow]

end

theorem issues_check (fields : List (String × Value)) :
    issues (Config.check (.object fields)) =
      issues (checkField checkText fields "checker") ++
        issues (checkField checkDefaults fields "defaults") ++
        issues (checkField checkBuilds fields "builds") ++
        issues (checkKnown configKeys fields) := by
  simp only [Config.check, issues_also, issues_app, issues_map]

/-- The issues below `builds` are those of that field alone. -/
theorem filter_issues_check (fields : List (String × Value)) :
    (issues (Config.check (.object fields))).filter (·.isBelow (.key "builds")) =
      issues (checkField checkBuilds fields "builds") := by
  rw [issues_check, List.filter_append, List.filter_append, List.filter_append,
    filter_issues_checkField_of_ne (by decide), filter_issues_checkField_of_ne (by decide),
    filter_issues_checkField_self, filter_issues_checkKnown, List.nil_append, List.nil_append,
    List.append_nil]

/-! ## Builds in a configuration -/

/-- A configuration that says nothing but its builds has the defaults for all else. -/
theorem check_builds_alone (items : List Value) :
    check (.object [("builds", .array items)]) =
      ((checkBuilds (.array items)).under (.key "builds")).map fun builds => { builds } := by
  have hchecker : Record.get? [("builds", Value.array items)] "checker" = none := rfl
  have hdefaults : Record.get? [("builds", Value.array items)] "defaults" = none := rfl
  have hbuilds : Record.get? [("builds", Value.array items)] "builds" = some (.array items) := rfl
  rw [check, checkField_of_get?_eq_none hchecker, checkField_of_get?_eq_none hdefaults,
    checkField_of_get? hbuilds]
  cases checkBuilds (.array items) <;> rfl

/-- The issues below `builds` are those of the builds, whatever else a configuration says. -/
theorem filter_issues_of_builds {fields : List (String × Value)} {items : List Value}
    (h : Record.get? fields "builds" = some (.array items)) :
    (issues (check (.object fields))).filter (·.isBelow (.key "builds")) = buildIssues items := by
  rw [filter_issues_check, checkField_of_get? h, issues_map, issues_under,
    map_under_issues_checkBuilds]

/-- A configuration that says nothing but its builds is accepted exactly if each build is.  Then it
has what the builds give, in order; otherwise its issues are those of the builds, in order, each
seen through `builds` and the index of its build.  In any configuration with these builds, they are
the issues below `builds`: the other fields neither change them nor add to them. -/
theorem check_builds_elementwise (items : List Value) :
    let alone := check (.object [("builds", .array items)])
    (IsFine alone ↔ ∀ v ∈ items, IsFine (checkBuild v)) ∧
      (∀ config, alone = .ok config →
        List.Forall₂ (fun v build => checkBuild v = .ok build) items config.builds) ∧
      (∀ found, alone = .error found → found = buildIssues items) ∧
      ∀ fields, Record.get? fields "builds" = some (.array items) →
        (issues (check (.object fields))).filter (·.isBelow (.key "builds")) = buildIssues items ∧
        ∀ fields', Record.get? fields' "builds" = Record.get? fields "builds" →
          (issues (check (.object fields'))).filter (·.isBelow (.key "builds")) =
            (issues (check (.object fields))).filter (·.isBelow (.key "builds")) := by
  intro alone
  have halone : alone = _ := check_builds_alone items
  refine ⟨?_, fun config hok => ?_, fun found herror => ?_, fun fields hfields => ?_⟩
  · rw [halone, isFine_map, isFine_under]
    exact isFine_checkBuildsFrom
  · rw [halone, checkBuilds] at hok
    obtain ⟨builds, hbuilds, rfl⟩ := map_eq_ok hok
    exact checkBuildsFrom_eq_ok_iff.mp (under_eq_ok hbuilds)
  · calc found = issues alone := by rw [herror, issues_error]
      _ = (issues (checkBuilds (.array items))).map (.under (.key "builds")) := by
        rw [halone, issues_map, issues_under]
      _ = buildIssues items := map_under_issues_checkBuilds items
  · refine ⟨filter_issues_of_builds hfields, fun fields' hsame => ?_⟩
    rw [filter_issues_check, filter_issues_check, checkField, checkField, hsame]

/-- Two bad builds after a good one, in a configuration that has other issues before and after
theirs. -/
theorem check_builds_elementwise_mixed :
    let items : List Value :=
      [.object [("name", .string "a")],
        .object
          [("jobs", .number (.finite true 1 (-1))), ("nme", .null),
            ("env", .object [("7", .null)])],
        .null]
    let fields : List (String × Value) :=
      [("builds", .array items), ("checker", .null), ("jobs", .number 2)]
    ¬ IsFine (check (.object [("builds", .array items)])) ∧
      (issues (check (.object fields))).length = 7 ∧
      ((issues (check (.object fields))).filter (·.isBelow (.key "builds"))).map Issue.place =
        ["builds.1.jobs", "builds.1.jobs", "builds.1.env.7", "builds.1", "builds.2"] := by
  intro items fields
  obtain ⟨hfine, -, -, hbelow⟩ := check_builds_elementwise items
  refine ⟨fun h => ?_, by decide, ?_⟩
  · exact not_isFine_fault _ (hfine.mp h .null (by simp [items]))
  · rw [(hbelow fields rfl).1]
    decide

end Config

end BuildMatrix
