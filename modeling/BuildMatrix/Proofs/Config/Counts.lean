import BuildMatrix.Proofs.Config.Proper
import BuildMatrix.Proofs.Job.Command
import BuildMatrix.Proofs.Matrix.History
import BuildMatrix.Proofs.Number.Double
import BuildMatrix.Proofs.Number.ReadBack

/-!
# The numbers of jobs in the commands

The check accepts whole positive numbers as numbers of jobs, and bounds them from below alone
(`isCount_of_checkCount`).  Every job of a configuration has such a number, its own or the one under
`defaults` (`isCount_of_check`).  Its command says it in a piece of its own, with decimal digits
below `10 ^ 21` and with an exponent from there on (`Config.counts_written`).
-/

namespace BuildMatrix

/-! ## Values whose numbers are doubles -/

namespace Value

mutual

/-- Every number is a double, at every depth. -/
def HasDoubles : Value → Prop
  | .number n => n.IsDouble
  | .array items => ItemsHaveDoubles items
  | .object fields => FieldsHaveDoubles fields
  | _ => True

/-- The numbers of all items are doubles. -/
def ItemsHaveDoubles : List Value → Prop
  | [] => True
  | v :: rest => v.HasDoubles ∧ ItemsHaveDoubles rest

/-- The numbers of all fields are doubles. -/
def FieldsHaveDoubles : List (String × Value) → Prop
  | [] => True
  | (_, v) :: rest => v.HasDoubles ∧ FieldsHaveDoubles rest

end

theorem itemsHaveDoubles_iff {items : List Value} :
    ItemsHaveDoubles items ↔ ∀ v ∈ items, v.HasDoubles := by
  induction items with
  | nil => simp [ItemsHaveDoubles]
  | cons v rest ih => simp [ItemsHaveDoubles, ih]

theorem fieldsHaveDoubles_iff {fields : List (String × Value)} :
    FieldsHaveDoubles fields ↔ ∀ f ∈ fields, f.2.HasDoubles := by
  induction fields with
  | nil => simp [FieldsHaveDoubles]
  | cons f rest ih => simp [FieldsHaveDoubles, ih]

end Value

/-! ## Counts -/

namespace Number

/-- A whole positive double. -/
def IsCount (n : Number) : Prop := ∃ m e : Nat, n = .finite false m e ∧ IsWholeDouble m e

/-- How a whole number is written: with its decimal digits below `10 ^ 21`, and with an exponent
from there on, so that it is what is read in the text. -/
def IsWritten (n : Number) (text : String) : Prop :=
  ∃ m e : Nat, n = .finite false m e ∧ Json.read? text = some (.number n) ∧
    (m * 2 ^ e < 10 ^ 21 → IsDecimal text.toList) ∧
    (10 ^ 21 ≤ m * 2 ^ e → IsScientific text.toList)

theorem IsCount.isWritten {n : Number} (h : n.IsCount) : n.IsWritten n.toText := by
  obtain ⟨m, e, rfl, hwhole⟩ := h
  have htext : toText (.finite false m e) = .ofList (magnitudeChars m e) := rfl
  rw [htext]
  refine ⟨m, e, rfl, ?_⟩
  rw [String.toList_ofList]
  exact hwhole.written

end Number

namespace Config

/-- The check of a number of jobs accepts whole positive numbers alone. -/
theorem isCount_of_checkCount {v : Value} {n : Number} (hv : v.HasDoubles)
    (h : checkCount v = .ok n) : n.IsCount := by
  cases v with
  | number n' =>
    rcases checkCount_number n' with ⟨hcount, hok⟩ | ⟨-, found, herror, -⟩
    · obtain rfl := Except.ok.inj (hok.symm.trans h)
      obtain ⟨hwhole, hpositive⟩ := Bool.and_eq_true_iff.mp hcount
      exact Number.IsDouble.isWholeDouble hv hwhole hpositive
    · rw [herror] at h
      cases h
  | _ => cases h

/-- So a number of jobs that is given is a count. -/
theorem isCount_of_checkField {fields : List (String × Value)} {name : String} {n : Number}
    (hv : (Value.object fields).HasDoubles)
    (h : checkField checkCount fields name = .ok (some n)) : n.IsCount := by
  obtain ⟨w, hw, hcheck⟩ := get?_of_checkField h
  exact isCount_of_checkCount (Value.fieldsHaveDoubles_iff.mp hv _ hw) hcheck

theorem isCount_default : ({} : Config).jobs.IsCount :=
  ⟨1, 1, by decide, by decide, by decide, by decide⟩

/-- The numbers of jobs that builds give are counts. -/
theorem isCount_of_checkBuilds {v : Value} {builds : List BuildOptions} (hv : v.HasDoubles)
    (h : checkBuilds v = .ok builds) : ∀ b ∈ builds, ∀ n ∈ b.jobs, n.IsCount := by
  intro b hb n hn
  obtain ⟨items, item, rfl, hitem, hcheck⟩ := exists_of_mem_checkBuilds h hb
  obtain ⟨fields, rfl, hfields⟩ := fields_of_checkBuild hcheck
  have hbuild := Value.itemsHaveDoubles_iff.mp hv _ hitem
  exact isCount_of_checkField hbuild (hfields.jobs.trans (congrArg _ hn))

/-- The number of jobs that is left under `defaults` is a count if it was one before. -/
theorem isCount_of_checkDefaults {v : Value} {change : Config → Config} (hv : v.HasDoubles)
    (h : checkDefaults v = .ok change) {config : Config} (hconfig : config.jobs.IsCount) :
    (change config).jobs.IsCount := by
  obtain ⟨fields, image, args, jobs, rfl, -, -, hjobs, rfl⟩ := fields_of_checkDefaults h
  cases jobs with
  | none => exact hconfig
  | some n => exact isCount_of_checkField hv hjobs

/-- A configuration that passes the check has counts as its numbers of jobs. -/
theorem isCount_of_check {v : Value} {config : Config} (hv : v.HasDoubles)
    (h : check v = .ok config) :
    config.jobs.IsCount ∧ ∀ b ∈ config.builds, ∀ n ∈ b.jobs, n.IsCount := by
  obtain ⟨fields, checker, defaults, builds, rfl, -, hdefaults, hbuilds, rfl⟩ := fields_of_check h
  have hfields := Value.fieldsHaveDoubles_iff.mp hv
  have hgiven : ∀ b ∈ builds.getD [], ∀ n ∈ b.jobs, n.IsCount := by
    cases builds with
    | none => simp
    | some items =>
      obtain ⟨w, hw, hcheck⟩ := get?_of_checkField hbuilds
      exact isCount_of_checkBuilds (hfields _ hw) hcheck
  cases defaults with
  | none => exact ⟨isCount_default, hgiven⟩
  | some change =>
    obtain ⟨w, hw, hcheck⟩ := get?_of_checkField hdefaults
    dsimp only [Option.getD_some]
    rw [builds_of_checkDefaults hcheck]
    exact ⟨isCount_of_checkDefaults (hfields _ hw) hcheck isCount_default, hgiven⟩

/-- The number of jobs of a build, or that under `defaults`, is a count. -/
theorem isCount_getD {v : Value} {config : Config} (hv : v.HasDoubles) (h : check v = .ok config)
    {b : BuildOptions} (hb : b ∈ config.builds) : (b.jobs.getD config.jobs).IsCount := by
  obtain ⟨hjobs, hgiven⟩ := isCount_of_check hv h
  cases hn : b.jobs with
  | none => exact hjobs
  | some n => exact hgiven b hb n hn

/-- In every matrix of a configuration that passes the check, the command of each job has a piece
for the number of jobs, just behind the checker.  It is `-j` and a text in which that number is
read, the one of the build if it has one and the one under `defaults` if not.  The text is made of
decimal digits without a leading zero as long as the number is below `10 ^ 21`, and has an exponent
from there on. -/
theorem counts_written {v : Value} {config : Config} (hv : v.HasDoubles)
    (h : check v = .ok config) (ref : Option String) :
    List.Forall₂ (fun build job => ∃ text back,
        job.command = " ".intercalate
          ([Text.trim config.checker].filter (· != "") ++ ("-j" ++ text) :: back) ∧
        (build.jobs.getD config.jobs).IsWritten text)
      config.builds (config.matrix ref).jobs := by
  have hjobs : (config.matrix ref).jobs =
      config.builds.map (Job.ofOptions (.ofRef ref) config.defaults) :=
    Matrix.jobs_addAll _ _
  rw [hjobs, List.forall₂_map_right_iff, List.forall₂_same]
  intro build hbuild
  let parts : CommandParts :=
    { checker := config.checker
      jobs := build.jobs.getD config.jobs
      image := build.image.getD config.image
      args := some (build.args.getD config.args)
      commandArgs := build.commandArgs
      platform := build.platform }
  obtain ⟨back, hshown⟩ := parts.exists_shown_eq
  refine ⟨parts.jobs.toText, back, ?_, (isCount_getD hv h hbuild).isWritten⟩
  exact congrArg " ".intercalate hshown

/-- A number above `2 ^ 53` that a build gives, and one under `defaults`. -/
theorem counts_written_large :
    let v : Value := .object
      [("checker", .string " "), ("defaults", .object [("args", .string ""), ("jobs", .number 7)]),
        ("builds", .array [.object [("jobs", .number 12345678901234567890)], .object []])]
    v.HasDoubles ∧ ∃ config, check v = .ok config ∧
      (config.matrix none).jobs.map Job.command =
        ["-j12345678901234567000 --image=bookworm", "-j7 --image=bookworm"] ∧
      List.Forall₂ (fun build job => ∃ text back,
          job.command = " ".intercalate (("-j" ++ text) :: back) ∧
          (build.jobs.getD config.jobs).IsWritten text)
        config.builds (config.matrix none).jobs := by
  intro v
  have hv : v.HasDoubles :=
    ⟨trivial, ⟨trivial, Number.isDouble_ofNat 7, trivial⟩,
      ⟨⟨Number.isDouble_ofNat 12345678901234567890, trivial⟩, trivial, trivial⟩, trivial⟩
  have hok : (check v).toOption =
      some { checker := " ", args := "", jobs := 7,
             builds := [{ jobs := some 12345678901234567890 }, {}] } := by decide +kernel
  cases h : check v with
  | error found =>
    rw [h] at hok
    cases hok
  | ok config =>
    rw [h] at hok
    obtain rfl := Option.some.inj hok
    exact ⟨hv, _, rfl, by decide +kernel, counts_written hv h none⟩

/-- From `10 ^ 21` on, the piece for the number of jobs is not made of digits alone. -/
theorem counts_written_exponent :
    let v : Value := .object
      [("checker", .string "c"), ("defaults", .object [("args", .string "")]),
        ("builds", .array [.object [("jobs", .number 1000000000000000000000)]])]
    v.HasDoubles ∧ ∃ config job, check v = .ok config ∧ (config.matrix none).jobs = [job] ∧
      job.command = "c -j1e+21 --image=bookworm" ∧
      ∀ word ∈ Text.wordsOf job.command, ∀ text, word = "-j" ++ text →
        ¬ Number.IsDecimal text.toList := by
  intro v
  have hv : v.HasDoubles :=
    ⟨trivial, ⟨trivial, trivial⟩,
      ⟨⟨Number.isDouble_ofNat 1000000000000000000000, trivial⟩, trivial⟩, trivial⟩
  have hok : (check v).toOption =
      some { checker := "c", args := "", builds := [{ jobs := some 1000000000000000000000 }] } := by
    decide +kernel
  cases h : check v with
  | error found =>
    rw [h] at hok
    cases hok
  | ok config =>
    rw [h] at hok
    obtain rfl := Option.some.inj hok
    refine ⟨hv, _, _, rfl, rfl, by decide +kernel, ?_⟩
    have hwords : Text.wordsOf (Job.ofOptions (.ofRef none) { checker := "c", args := "" }
        { jobs := some 1000000000000000000000 }).command =
          ["c", "-j1e+21", "--image=bookworm"] := by decide +kernel
    intro word hword text htext hdecimal
    have hmem : word ∈ ["c", "-j1e+21", "--image=bookworm"] := hwords ▸ hword
    have hchars : word.toList = '-' :: 'j' :: text.toList := by
      rw [htext, String.toList_append]
      rfl
    simp only [List.mem_cons, List.not_mem_nil, or_false] at hmem
    rcases hmem with rfl | rfl | rfl
    · exact absurd (List.cons.inj hchars).1 (by decide)
    · have htext : ['1', 'e', '+', '2', '1'] = text.toList :=
        (List.cons.inj (List.cons.inj hchars).2).2
      exact absurd (hdecimal.digits 'e' (htext ▸ by decide)) (by decide)
    · exact absurd (List.cons.inj (List.cons.inj hchars).2).1 (by decide)

end Config

end BuildMatrix
