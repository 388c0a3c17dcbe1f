import Mathlib.Data.List.Forall2
import BuildMatrix.Config

/-!
# Checks that are put together

A check that is put together from others finds the issues of all of them, in order
(`Checked.issues_app`), and gives a value exactly if all of them do (`Checked.isFine_app`,
`Checked.app_eq_ok`).  So a check that succeeds is taken apart once for each kind of value: into the
fields that the options of a build, the settings under `defaults` and a whole configuration come
from (`Config.fields_of_checkBuild`, `Config.fields_of_checkDefaults`,
`Config.fields_of_check`), and into the builds of a list
(`Config.checkBuildsFrom_eq_ok_iff`).
-/

namespace BuildMatrix

/-- A result that was changed comes from a result. -/
theorem map_eq_ok {ε α β : Type} {f : α → β} {x : Except ε α} {b : β} (h : x.map f = .ok b) :
    ∃ a, x = .ok a ∧ f a = b := by
  cases x with
  | error e => cases h
  | ok a => exact ⟨a, rfl, Except.ok.inj h⟩

namespace Checked

variable {α β : Type}

/-! ## The issues of a check -/

/-- The issues that a check has found. -/
def issues : Checked α → List Issue
  | .ok _ => []
  | .error found => found

@[simp] theorem issues_error (found : List Issue) :
    issues (.error found : Checked α) = found := rfl

@[simp] theorem issues_map (f : α → β) (x : Checked α) : issues (x.map f) = issues x := by
  cases x <;> rfl

@[simp] theorem issues_under (step : PathStep) (x : Checked α) :
    issues (under step x) = (issues x).map (.under step) := by
  cases x <;> rfl

/-- No issue is lost when two checks are put together. -/
@[simp] theorem issues_app (f : Checked (α → β)) (x : Checked α) :
    issues (app f x) = issues f ++ issues x := by
  cases f <;> cases x <;> simp [app, issues]

@[simp] theorem issues_also (x : Checked α) (y : Checked Unit) :
    issues (also x y) = issues x ++ issues y := by
  rw [also, issues_app, issues_map]

/-! ## Checks that give a value -/

/-- The check has given a value. -/
def IsFine (x : Checked α) : Prop := ∃ a, x = .ok a

@[simp] theorem isFine_ok (a : α) : IsFine (.ok a) := ⟨a, rfl⟩

@[simp] theorem not_isFine_error (found : List Issue) :
    ¬ IsFine (.error found : Checked α) := fun ⟨_, h⟩ => nomatch h

@[simp] theorem not_isFine_fault (f : Fault) : ¬ IsFine (fault f : Checked α) :=
  not_isFine_error _

@[simp] theorem isFine_map {f : α → β} {x : Checked α} : IsFine (x.map f) ↔ IsFine x := by
  cases x <;> simp [Except.map]

@[simp] theorem isFine_under {step : PathStep} {x : Checked α} :
    IsFine (under step x) ↔ IsFine x := by
  cases x <;> simp [under]

/-- Two checks that are put together give a value if each of them does. -/
@[simp] theorem isFine_app {f : Checked (α → β)} {x : Checked α} :
    IsFine (app f x) ↔ IsFine f ∧ IsFine x := by
  cases f <;> cases x <;> simp [app]

/-- The value is what the one gives at what the other gives. -/
theorem app_eq_ok {f : Checked (α → β)} {x : Checked α} {b : β} (h : app f x = .ok b) :
    ∃ g a, f = .ok g ∧ x = .ok a ∧ g a = b := by
  cases f <;> cases x <;> simp_all [app]

theorem also_eq_ok {x : Checked α} {y : Checked Unit} {a : α} (h : also x y = .ok a) :
    x = .ok a := by
  obtain ⟨g, u, hg, -, rfl⟩ := app_eq_ok h
  obtain ⟨a, hx, rfl⟩ := map_eq_ok hg
  exact hx

theorem under_eq_ok {step : PathStep} {x : Checked α} {a : α} (h : under step x = .ok a) :
    x = .ok a := by
  cases x with
  | error issues => cases h
  | ok a' => exact h

end Checked

namespace Config

open Checked

/-! ## Numbers and fields -/

/-- A number that is whole and positive is a count; any other one has issues of its own. -/
theorem checkCount_number (n : Number) :
    (n.isWhole && n.isPositive) = true ∧ checkCount (.number n) = .ok n ∨
      (n.isWhole && n.isPositive) = false ∧ ∃ found, checkCount (.number n) = .error found ∧
        found ≠ [] ∧ ∀ issue ∈ found, issue.path = [] := by
  by_cases hn : n = .nan
  · subst hn
    exact .inr ⟨rfl, _, rfl, by simp, by simp⟩
  rw [checkCount]
  · cases n.isWhole <;> cases n.isPositive
    · exact .inr ⟨rfl, _, rfl, by simp, by simp⟩
    · exact .inr ⟨rfl, _, rfl, by simp, by simp⟩
    · exact .inr ⟨rfl, _, rfl, by simp, by simp⟩
    · exact .inl ⟨rfl, rfl⟩
  · exact hn

section

variable {α : Type} {check : Value → Checked α} {fields : List (String × Value)} {name : String}

/-- A field that is there is checked where it stands. -/
theorem checkField_of_get? {v : Value} (h : Record.get? fields name = some v) :
    checkField check fields name = ((check v).under (.key name)).map some := by
  rw [checkField, h]

/-- A field that is not there is fine. -/
theorem checkField_of_get?_eq_none (h : Record.get? fields name = none) :
    checkField check fields name = .ok none := by
  rw [checkField, h]

/-- What the check of a field gives is the value of the field, checked, if it is there. -/
theorem checkField_eq_ok {a : Option α} (h : checkField check fields name = .ok a) :
    Record.get? fields name = none ∧ a = none ∨
      ∃ v b, Record.get? fields name = some v ∧ check v = .ok b ∧ a = some b := by
  cases hv : Record.get? fields name with
  | none =>
    rw [checkField_of_get?_eq_none hv] at h
    exact .inl ⟨rfl, (Except.ok.inj h).symm⟩
  | some v =>
    rw [checkField_of_get? hv] at h
    obtain ⟨b, hb, rfl⟩ := map_eq_ok h
    exact .inr ⟨v, b, rfl, under_eq_ok hb, rfl⟩

end

/-! ## What a check that succeeds has found -/

/-- The first entry of an environment is kept before the others, but for one name. -/
theorem entry_of_checkEntries {name : String} {v : Value} {rest : List (String × Value)}
    {env : Record String} (h : checkEntries ((name, v) :: rest) = .ok env) :
    ∃ s entries, checkText v = .ok s ∧ checkEntries rest = .ok entries ∧
      env = if name = "__proto__" then entries else (name, s) :: entries := by
  obtain ⟨g, entries, hg, hrest, rfl⟩ := app_eq_ok h
  obtain ⟨s, hs, rfl⟩ := map_eq_ok hg
  exact ⟨s, entries, under_eq_ok hs, hrest, rfl⟩

/-- The options of a build are what the fields of an object give. -/
structure BuildOf (fields : List (String × Value)) (build : BuildOptions) : Prop where
  name : checkField checkText fields "name" = .ok build.name
  image : checkField checkText fields "image" = .ok build.image
  args : checkField checkText fields "args" = .ok build.args
  jobs : checkField checkCount fields "jobs" = .ok build.jobs
  env : checkField checkEnv fields "env" = .ok build.env
  coverage : checkField checkFlag fields "coverage" = .ok build.coverage
  platform : checkField checkText fields "platform" = .ok build.platform
  commandArgs : checkField checkText fields "commandArgs" = .ok build.commandArgs

theorem fields_of_checkBuild {v : Value} {build : BuildOptions} (h : checkBuild v = .ok build) :
    ∃ fields, v = .object fields ∧ BuildOf fields build := by
  cases v with
  | object fields =>
    have hall := also_eq_ok h
    obtain ⟨_, commandArgs, h₇, hcommandArgs, rfl⟩ := app_eq_ok hall
    obtain ⟨_, platform, h₆, hplatform, rfl⟩ := app_eq_ok h₇
    obtain ⟨_, coverage, h₅, hcoverage, rfl⟩ := app_eq_ok h₆
    obtain ⟨_, env, h₄, henv, rfl⟩ := app_eq_ok h₅
    obtain ⟨_, jobs, h₃, hjobs, rfl⟩ := app_eq_ok h₄
    obtain ⟨_, args, h₂, hargs, rfl⟩ := app_eq_ok h₃
    obtain ⟨_, image, h₁, himage, rfl⟩ := app_eq_ok h₂
    obtain ⟨name, hname, rfl⟩ := map_eq_ok h₁
    exact ⟨fields, rfl, ⟨hname, himage, hargs, hjobs, henv, hcoverage, hplatform, hcommandArgs⟩⟩
  | _ => cases h

/-- A list of builds gives what its builds give. -/
theorem checkBuildsFrom_eq_ok_iff {items : List Value} {builds : List BuildOptions} {index : Nat} :
    checkBuildsFrom index items = .ok builds ↔
      List.Forall₂ (fun v build => checkBuild v = .ok build) items builds := by
  induction items generalizing builds index with
  | nil => simp [checkBuildsFrom, eq_comm]
  | cons v rest ih =>
    rw [List.forall₂_cons_left_iff, checkBuildsFrom]
    simp only [← @ih _ (index + 1)]
    cases hv : checkBuild v <;> cases hrest : checkBuildsFrom (index + 1) rest <;>
      simp [under, app, Except.map, eq_comm]

theorem items_of_checkBuilds {v : Value} {builds : List BuildOptions}
    (h : checkBuilds v = .ok builds) :
    ∃ items, v = .array items ∧
      List.Forall₂ (fun item build => checkBuild item = .ok build) items builds := by
  cases v with
  | array items => exact ⟨items, rfl, checkBuildsFrom_eq_ok_iff.mp h⟩
  | _ => cases h

/-- Each build of a list comes from one of its items. -/
theorem exists_of_mem_checkBuilds {v : Value} {builds : List BuildOptions}
    (h : checkBuilds v = .ok builds) {b : BuildOptions} (hb : b ∈ builds) :
    ∃ items item, v = .array items ∧ item ∈ items ∧ checkBuild item = .ok b := by
  obtain ⟨items, rfl, hitems⟩ := items_of_checkBuilds h
  clear h
  refine ⟨items, ?_⟩
  induction hitems with
  | nil => cases hb
  | @cons item _ _ _ hbuild _ ih =>
    rcases List.mem_cons.mp hb with rfl | hb
    · exact ⟨item, rfl, List.mem_cons_self, hbuild⟩
    · obtain ⟨item, -, hitem, hcheck⟩ := ih hb
      exact ⟨item, rfl, List.mem_cons_of_mem _ hitem, hcheck⟩

/-- The settings under `defaults` take the place of those that a configuration has. -/
theorem fields_of_checkDefaults {v : Value} {change : Config → Config}
    (h : checkDefaults v = .ok change) :
    ∃ fields image args jobs, v = .object fields ∧
      checkField checkText fields "image" = .ok image ∧
      checkField checkText fields "args" = .ok args ∧
      checkField checkCount fields "jobs" = .ok jobs ∧
      change = fun config => { config with
        image := image.getD config.image
        args := args.getD config.args
        jobs := jobs.getD config.jobs } := by
  cases v with
  | object fields =>
    have hall := also_eq_ok h
    obtain ⟨_, jobs, h₂, hjobs, rfl⟩ := app_eq_ok hall
    obtain ⟨_, args, h₁, hargs, rfl⟩ := app_eq_ok h₂
    obtain ⟨image, himage, rfl⟩ := map_eq_ok h₁
    exact ⟨fields, image, args, jobs, rfl, himage, hargs, hjobs, rfl⟩
  | _ => cases h

/-- The settings under `defaults` are put into the configuration that the other fields give. -/
theorem fields_of_check {v : Value} {config : Config} (h : check v = .ok config) :
    ∃ fields checker defaults builds, v = .object fields ∧
      checkField checkText fields "checker" = .ok checker ∧
      checkField checkDefaults fields "defaults" = .ok defaults ∧
      checkField checkBuilds fields "builds" = .ok builds ∧
      config = defaults.getD id
        { checker := checker.getD ({} : Config).checker, builds := builds.getD [] } := by
  cases v with
  | object fields =>
    have hall := also_eq_ok h
    obtain ⟨_, builds, h₂, hbuilds, rfl⟩ := app_eq_ok hall
    obtain ⟨_, defaults, h₁, hdefaults, rfl⟩ := app_eq_ok h₂
    obtain ⟨checker, hchecker, rfl⟩ := map_eq_ok h₁
    exact ⟨fields, checker, defaults, builds, rfl, hchecker, hdefaults, hbuilds, rfl⟩
  | _ => cases h

end Config

end BuildMatrix
