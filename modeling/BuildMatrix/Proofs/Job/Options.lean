import BuildMatrix.Proofs.Job.Command
import BuildMatrix.Proofs.Job.Descriptor

/-!
# What each option of a job changes

A platform puts one more piece at the end of the command line (`CommandParts.compose_platform`).
Coverage puts one entry into the environment and leaves the others as they are
(`CoverageNoted.get?_of_ne`), so it does not decide whether a job makes a release
(`Job.isReleaseBuild_withCoverage`).  Nothing else in a job changes with the two, and the other
options leave alone what is not made from them (`Matrix.job_frame`).
-/

namespace BuildMatrix

/-! ## A platform in the command line -/

namespace Text

/-- Behind text that does not end in a blank only the rest loses blanks. -/
theorem dropBlanksEnd_append {xs : List Char} (h : ∀ c ∈ xs.getLast?, isBlank c = false)
    (ys : List Char) : dropBlanksEnd (xs ++ ys) = xs ++ dropBlanksEnd ys := by
  obtain ⟨back, hback, hys⟩ := exists_dropBlanksEnd ys
  have hlast : ∀ c ∈ (xs ++ dropBlanksEnd ys).getLast?, isBlank c = false := by
    intro c hc
    rw [List.getLast?_append, Option.mem_def, Option.or_eq_some_iff] at hc
    rcases hc with hc | ⟨-, hc⟩
    · exact getLast?_dropBlanksEnd ys c hc
    · exact h c hc
  calc dropBlanksEnd (xs ++ ys)
      = dropBlanksEnd (xs ++ dropBlanksEnd ys ++ back) := by rw [List.append_assoc, ← hys]
    _ = dropBlanksEnd (xs ++ dropBlanksEnd ys) := dropBlanksEnd_append_blanks hback
    _ = xs ++ dropBlanksEnd ys := dropBlanksEnd_eq_self hlast

/-- Behind a tight text only the end of the rest is trimmed. -/
theorem trim_append {s : String} (h : IsTight s.toList) (hne : s ≠ "") (t : String) :
    trim (s ++ t) = s ++ trimEnd t := by
  have hhead : ∀ c ∈ (s.toList ++ t.toList).head?, isBlank c = false := by
    rw [List.head?_append_of_ne_nil _ (String.toList_eq_nil_iff.not.mpr hne)]
    exact h.head
  rw [← String.toList_inj, trim, trimEnd, String.toList_ofList, String.toList_append,
    dropBlanks_eq_self hhead, dropBlanksEnd_append h.last, String.toList_append,
    String.toList_ofList]

end Text

namespace CommandParts

open Text

/-- What is shown of the platform comes after what is shown of the other pieces. -/
theorem shown_withPlatform (parts : CommandParts) (platform : Option String) :
    shown { parts with platform } =
      shown { parts with platform := none } ++
        [trim (platformOption { parts with platform })].filter (· != "") := by
  have hlast : ∀ p : Option String,
      shown { parts with platform := p } =
        ([parts.checker, "-j" ++ parts.jobs.toText, "--image=" ++ parts.image,
            parts.args.getD "", parts.commandArgs.getD ""].map trim).filter (· != "") ++
          [trim (platformOption { parts with platform := p })].filter (· != "") := by
    intro p
    rw [← List.filter_append]
    rfl
  rw [hlast platform, hlast none]
  have hnone : [trim (platformOption { parts with platform := none })].filter (· != "") = [] := rfl
  rw [hnone, List.append_nil]

theorem isTight_platformFlag : IsTight "--platform=".toList := by
  have hall : "--platform=".toList.all (!isBlank ·) = true := by decide
  exact isTight_of_forall fun c hc => by simpa using List.all_eq_true.mp hall c hc

/-- A platform adds one option at the end of the command line. -/
theorem compose_platform (parts : CommandParts) {platform : String} (h : platform ≠ "") :
    compose { parts with platform := some platform } =
      compose { parts with platform := none } ++ " --platform=" ++ trimEnd platform := by
  have htrim : trim ("--platform=" ++ platform) = "--platform=" ++ trimEnd platform :=
    trim_append isTight_platformFlag (by decide) platform
  have hoption : [trim (platformOption { parts with platform := some platform })].filter (· != "") =
      ["--platform=" ++ trimEnd platform] := by
    rw [platformOption]
    dsimp only
    rw [if_neg h, htrim]
    exact List.filter_cons_of_pos (by simp [← String.toList_inj])
  have hne : shown { parts with platform := none } ≠ [] :=
    List.ne_nil_of_mem (jobs_mem_shown { parts with platform := none })
  calc compose { parts with platform := some platform }
      = " ".intercalate (shown { parts with platform := none } ++
          ["--platform=" ++ trimEnd platform]) := by
        rw [← hoption, ← shown_withPlatform]
        rfl
    _ = compose { parts with platform := none } ++ " " ++ ("--platform=" ++ trimEnd platform) := by
        rw [String.intercalate_append_of_ne_nil hne (List.cons_ne_nil _ _),
          String.intercalate_singleton]
        rfl
    _ = compose { parts with platform := none } ++ " --platform=" ++ trimEnd platform := by
        have hsplit : " --platform=" = " " ++ "--platform=" := by decide
        rw [hsplit]
        simp only [String.append_assoc]

end CommandParts

/-! ## Coverage in the environment -/

/-- Where coverage is noted, the entries of all other names are as they were. -/
theorem CoverageNoted.get?_of_ne {env env' : Record String} (h : CoverageNoted env env')
    {name : String} (hname : name ≠ "COVERAGE") : env'.get? name = env.get? name := by
  have hne : (name == "COVERAGE") = false := by simpa using hname
  cases h with
  | inPlace => simp only [Record.get?, List.lookup_append, List.lookup_cons, hne]
  | atEnd => simp [Record.get?, List.lookup_append, List.lookup_cons, hne]

namespace Job

/-- Coverage neither adds nor removes a distribution check. -/
theorem isReleaseBuild_withCoverage (tag : Option String) (env : Record String) (coverage : Bool) :
    isReleaseBuild tag (withCoverage env coverage) = isReleaseBuild tag env := by
  cases coverage with
  | false => rfl
  | true =>
    have hne : "DISTCHECK" ≠ "COVERAGE" := by decide
    have hkept := (coverageNoted_set env).get?_of_ne hne
    rw [Bool.eq_iff_iff, isReleaseBuild_iff, isReleaseBuild_iff, Record.mem_names_iff_get?,
      Record.mem_names_iff_get?, withCoverage, if_pos rfl, hkept]

variable (context : RunContext) (defaults : Defaults) (options : BuildOptions)

/-- A platform changes the command line and asks for the extended builder. -/
theorem ofOptions_platform {platform : String} (h : platform ≠ "") :
    ofOptions context defaults { options with platform := some platform } =
      let job := ofOptions context defaults { options with platform := none }
      { job with
        needsBuildx := true
        command := job.command ++ " --platform=" ++ Text.trimEnd platform } := by
  have hbuildx : BuildMatrix.needsBuildx (some platform) = true :=
    needsBuildx_iff.mpr ⟨platform, rfl, h⟩
  let parts : CommandParts :=
    { checker := defaults.checker
      jobs := options.jobs.getD defaults.jobs
      image := options.image.getD defaults.image
      args := some (options.args.getD defaults.args)
      commandArgs := options.commandArgs }
  let job := ofOptions context defaults { options with platform := none }
  calc ofOptions context defaults { options with platform := some platform }
      = { job with
          needsBuildx := BuildMatrix.needsBuildx (some platform)
          command := CommandParts.compose { parts with platform := some platform } } := rfl
    _ = { job with
          needsBuildx := true
          command := parts.compose ++ " --platform=" ++ Text.trimEnd platform } := by
        rw [hbuildx, CommandParts.compose_platform parts h]

/-- An empty platform is as good as none. -/
theorem ofOptions_platform_empty :
    ofOptions context defaults { options with platform := some "" } =
      ofOptions context defaults { options with platform := none } := rfl

/-- Coverage is noted in the environment, and nothing else changes. -/
theorem ofOptions_coverage (h : options.coverage ≠ some true) :
    let job := ofOptions context defaults options
    ∃ env, CoverageNoted job.env env ∧
      ofOptions context defaults { options with coverage := some true } =
        { job with coverage := true, env } := by
  have hcoverage : options.coverage.getD false = false := by
    cases hgiven : options.coverage with
    | none => rfl
    | some coverage => simpa [hgiven] using h
  refine ⟨_, coverageNoted_set _, ?_⟩
  simp only [ofOptions, hcoverage, isReleaseBuild_withCoverage]
  rfl

/-- Whether a job makes a release is decided by its run and the environment of the caller. -/
theorem ofOptions_createRelease :
    (ofOptions context defaults options).createRelease =
      isReleaseBuild context.tag (options.env.getD []) :=
  isReleaseBuild_withCoverage _ _ _

end Job

/-! ## All options -/

/-- Each option moves only its own fields of a job, in every matrix.  A platform that is not empty
adds one option at the end of the command line and asks for the extended builder, and an empty one
does nothing.  Coverage changes one entry of the environment and the field of its name.  A name and
an environment never touch the command line, the image or the builder, and no other option touches
the name, the tag, the branch or whether the job makes a release. -/
theorem Matrix.job_frame (m : Matrix) (o : BuildOptions) :
    (o.platform = none →
      (∀ platform, platform ≠ "" →
        m.job { o with platform := some platform } =
          { m.job o with
            needsBuildx := true
            command := (m.job o).command ++ " --platform=" ++ Text.trimEnd platform }) ∧
      m.job { o with platform := some "" } = m.job o) ∧
    (o.coverage ≠ some true →
      ∃ env, m.job { o with coverage := some true } = { m.job o with coverage := true, env } ∧
        CoverageNoted (m.job o).env env ∧
        ∀ name, name ≠ "COVERAGE" → env.get? name = Record.get? (m.job o).env name) ∧
    (∀ name env,
      let job := m.job { o with name, env }
      job.command = (m.job o).command ∧ job.image = (m.job o).image ∧
        job.needsBuildx = (m.job o).needsBuildx) ∧
    ∀ image args jobs commandArgs platform coverage,
      let job := m.job { o with image, args, jobs, commandArgs, platform, coverage }
      job.createRelease = (m.job o).createRelease ∧ job.tag = (m.job o).tag ∧
        job.branch = (m.job o).branch ∧ job.name = (m.job o).name := by
  refine ⟨fun hplatform => ?_, fun hcoverage => ?_, fun name env => ⟨rfl, rfl, rfl⟩, ?_⟩
  · have hbare : { o with platform := none } = o := by rw [← hplatform]
    have hplain : m.job o = Job.ofOptions m.context m.defaults { o with platform := none } := by
      rw [hbare]
      rfl
    rw [hplain]
    exact ⟨fun platform hne => Job.ofOptions_platform _ _ o hne, Job.ofOptions_platform_empty _ _ o⟩
  · obtain ⟨env, hnoted, hjob⟩ := Job.ofOptions_coverage m.context m.defaults o hcoverage
    exact ⟨env, hjob, hnoted, fun name hname => hnoted.get?_of_ne hname⟩
  · intro image args jobs commandArgs platform coverage job
    have hrelease : job.createRelease = (m.job o).createRelease := by
      rw [Matrix.job, Job.ofOptions_createRelease]
      exact Job.ofOptions_createRelease _ _ _
    exact ⟨hrelease, rfl, rfl, rfl⟩

/-- A job that makes a release goes on to do so with coverage and any other image, and a platform
between blanks keeps those in front of it. -/
theorem Matrix.job_frame_release :
    let m := Matrix.empty (some "refs/tags/v1") { checker := "c", args := "" }
    let o : BuildOptions := { env := some [("COVERAGE", "no"), ("DISTCHECK", "")] }
    let platform := " p\u00a0"
    o.platform = none ∧ o.coverage ≠ some true ∧ platform ≠ "" ∧
      (m.job o).command = "c -j2 --image=bookworm" ∧
      (m.job { o with platform := some platform }).command =
        "c -j2 --image=bookworm --platform= p" ∧
      (∃ env, m.job { o with coverage := some true } = { m.job o with coverage := true, env } ∧
        env.get? "DISTCHECK" = some "") ∧
      (m.job { o with image := some "i", coverage := some true }).createRelease = true := by
  intro m o platform
  have hbare : o.platform = none := rfl
  have huncovered : o.coverage ≠ some true := by decide
  have hne : platform ≠ "" := by decide
  have hcommand : (m.job o).command = "c -j2 --image=bookworm" := by decide +kernel
  obtain ⟨hplatform, hcoverage, -, hothers⟩ := job_frame m o
  obtain ⟨env, hjob, -, hkept⟩ := hcoverage huncovered
  refine ⟨hbare, huncovered, hne, hcommand, ?_, ⟨env, hjob, hkept "DISTCHECK" (by decide)⟩, ?_⟩
  · rw [(hplatform hbare).1 platform hne, hcommand]
    decide
  · exact (hothers (some "i") none none none none (some true)).1.trans (by decide)

end BuildMatrix
