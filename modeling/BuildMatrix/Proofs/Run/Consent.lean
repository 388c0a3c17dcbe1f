import BuildMatrix.Proofs.Files.Writing
import BuildMatrix.Proofs.Prompt.Submission
import BuildMatrix.Proofs.Run.Course

/-!
# No file is overwritten without consent

The only file that a run writes is the configuration file of its directory, and it writes it only
when it sets the directory up and nothing stands in the way: the name is free, the caller insists,
or the question whether to overwrite has been answered with yes (`MayWrite`).  `IsConsiderate`
collects what this means for one run; every run has it (`isConsiderate`), whatever the arguments,
the files and the answers are, and whatever becomes of the text that is stored.  Over any number of
runs, whatever has become of a place goes back to a run that was allowed to write there, or to an
append that kept the text that was there (`starterFile_consent`).

A run does not always say so when it changes that file: outputs may be handed over in it, and the
system may break a write off (`starterFile_changed_silently`).
-/

namespace BuildMatrix

/-- The arguments ask for a directory to be set up. -/
structure Arguments.SetsUp (args : Arguments) : Prop extends args.Proceeds where
  command : args.command = .init

/-- The arguments ask for a matrix, and for handing it to later steps of the workflow. -/
structure Arguments.Appends (args : Arguments) : Prop extends args.Proceeds where
  command : args.command = .generate
  githubOutput : args.githubOutput = true

/-- The run says that it has written the starter file. -/
def Outcome.SaysWrote (o : Outcome) : Prop :=
  o.out = ["Wrote .ci-matrix.yml.\n"] ∨ o.closing = some "Wrote .ci-matrix.yml."

/-- The run has tried to write the starter file: it says that it has written it, or ends with an
error. -/
def Outcome.TriedToWrite (o : Outcome) : Prop := o.SaysWrote ∨ ∃ e, o.ending = .failed e

namespace Run

/-- Nothing keeps the starter file for an image from being written.  Without a terminal, the image
is the default one, and the name has to be free unless the caller insists.  On a terminal, it is
the trimmed text that the first question is answered with, and consent may also be given as the
answer to the second one. -/
def MayWrite (s : Surroundings) (files : Files) (args : Arguments) (image : String) : Prop :=
  match s.terminal with
  | none => image = "bookworm" ∧ IsClear s files args.force
  | some t =>
    (∃ k text, TextAnswer.Submits "bookworm" t.answers.image k text ∧ image = Text.trim text) ∧
      (IsClear s files args.force ∨ t.answers.overwrite = .yes)

/-- The text that the run was to store has been broken off after some bytes, and the error has ended
the run. -/
def BreaksOffAt (s : Surroundings) (o : Outcome) (bytes : Nat) : Prop :=
  ∃ message, s.storage = .cut bytes message ∧ o.ending = .failed (.refused message)

/-- The run has written the starter file for an image at a place, with leave to do so: it says that
it has written it, or the write has been broken off. -/
structure WritesAt (s : Surroundings) (files : Files) (args : Arguments) (o : Outcome)
    (p : Path) : Prop where
  place : p = Config.fileIn s.directory.place
  asked : args.SetsUp
  write : ∃ image, MayWrite s files args image ∧
    (o.SaysWrote ∧ o.files.text? p = some (Starter.render image) ∨
      ∃ bytes, BreaksOffAt s o bytes ∧
        o.files.text? p = some (Text.start bytes (Starter.render image)))

/-- The run has added a text to the file for outputs, which keeps what it held: the text is recorded
as appended, or it has been broken off. -/
structure AppendsAt (s : Surroundings) (files : Files) (args : Arguments) (o : Outcome)
    (p : Path) : Prop where
  asked : args.Appends
  sink : s.sink = .files
  append : ∃ name added, s.outputFile = some name ∧ p = s.directory.resolve name ∧
    o.files.text? p = some ((files.text? p).getD "" ++ added) ∧
    (o.appended = [(name, added)] ∨ o.appended = [] ∧ ∃ bytes, BreaksOffAt s o bytes)

/-- What a run does to files, and why. -/
structure IsConsiderate (s : Surroundings) (files : Files) (args : Arguments) (o : Outcome) :
    Prop where
  /-- A place changes by a write of the starter file or by an append. -/
  change : ∀ p, o.files.get? p ≠ files.get? p →
    WritesAt s files args o p ∨ AppendsAt s files args o p
  /-- Appends are for handing a matrix to later steps. -/
  append : o.appended ≠ [] → args.Appends
  /-- The starter file is written, or the write fails, exactly if it may be written. -/
  attempt : args.SetsUp → (o.TriedToWrite ↔ ∃ image, MayWrite s files args image)
  /-- The write is that of the starter file for the image, and the run ends as it does. -/
  write : args.SetsUp → ∀ image, MayWrite s files args image →
    (∀ after,
      files.write (Config.fileIn s.directory) (Starter.render image) s.storage = .ok after →
      o.SaysWrote ∧ o.files = after) ∧
    ∀ failure,
      files.write (Config.fileIn s.directory) (Starter.render image) s.storage = .error failure →
      ¬ o.SaysWrote ∧ o.ending = .failed failure.error ∧ o.files = failure.files
  /-- After the write, the file holds the starter file for the image. -/
  content : args.SetsUp → o.SaysWrote → ∀ image, MayWrite s files args image →
    o.files.text? (Config.fileIn s.directory.place) = some (Starter.render image)
  /-- A cancel at the first question. -/
  cancelImage : args.SetsUp → ∀ t k, s.terminal = some t →
    TextAnswer.Cancels "bookworm" t.answers.image k →
    o.ending = .code 130 ∧ o.files = files
  /-- A cancel at the second question. -/
  cancelConsent : args.SetsUp → ∀ t k text, s.terminal = some t →
    TextAnswer.Submits "bookworm" t.answers.image k text → ¬ IsClear s files args.force →
    t.answers.overwrite = .cancel → o.ending = .code 130 ∧ o.files = files
  /-- The second question is answered with no. -/
  decline : args.SetsUp → ∀ t k text, s.terminal = some t →
    TextAnswer.Submits "bookworm" t.answers.image k text → ¬ IsClear s files args.force →
    t.answers.overwrite = .no ∨ t.answers.overwrite = .enter →
    o.ending = .code 0 ∧ o.files = files
  /-- A run that ends with an error changes nothing unless a text has been broken off. -/
  failure : ∀ e, o.ending = .failed e → o.files = files ∨ ∃ bytes, BreaksOffAt s o bytes

variable {s : Surroundings} {files : Files} {args : Arguments} {o : Outcome}

/-! ## What may be written -/

theorem given_eq_true_iff {consent : Consent} : consent.given = some true ↔ consent = .yes := by
  cases consent <;> simp [Consent.given]

theorem mayWrite_plain (hs : s.terminal = none) {image : String} :
    MayWrite s files args image ↔ image = "bookworm" ∧ IsClear s files args.force := by
  rw [MayWrite, hs]

theorem mayWrite_asking {t : Terminal} (hs : s.terminal = some t) {image : String} :
    MayWrite s files args image ↔
      (∃ text, TextAnswer.submitted "bookworm" t.answers.image = some text ∧
        image = Text.trim text) ∧
        (IsClear s files args.force ∨ t.answers.overwrite.given = some true) := by
  have hsubmits : (∃ k text, TextAnswer.Submits "bookworm" t.answers.image k text ∧
      image = Text.trim text) ↔
      ∃ text, TextAnswer.submitted "bookworm" t.answers.image = some text ∧
        image = Text.trim text := by
    simp only [TextAnswer.submitted_eq_some_iff]
    constructor
    · rintro ⟨k, text, hk, himage⟩
      exact ⟨text, ⟨k, hk⟩, himage⟩
    · rintro ⟨text, ⟨k, hk⟩, himage⟩
      exact ⟨k, text, hk, himage⟩
  rw [given_eq_true_iff, ← hsubmits, MayWrite, hs]

/-- There is at most one image for which a starter file may be written. -/
theorem MayWrite.unique {image image' : String} (h : MayWrite s files args image)
    (h' : MayWrite s files args image') : image = image' := by
  cases hs : s.terminal with
  | none => exact ((mayWrite_plain hs).mp h).1.trans ((mayWrite_plain hs).mp h').1.symm
  | some t =>
    obtain ⟨⟨text, htext, rfl⟩, -⟩ := (mayWrite_asking hs).mp h
    obtain ⟨⟨text', htext', rfl⟩, -⟩ := (mayWrite_asking hs).mp h'
    rw [htext] at htext'
    rw [Option.some.inj htext']

/-! ## Setting a directory up -/

/-- What has become of the starter file: it has been written with leave, it could not be written, or
there was no leave to write it. -/
inductive Attempt (s : Surroundings) (files : Files) (args : Arguments) (o : Outcome) : Prop
  | written {image : String} (hmay : MayWrite s files args image) (htold : o.SaysWrote)
      (hended : ∀ e, o.ending ≠ .failed e)
      (hwrite : files.write (Config.fileIn s.directory) (Starter.render image) s.storage =
        .ok o.files)
  | failed {image : String} {e : FileError} (hmay : MayWrite s files args image)
      (htold : ¬ o.SaysWrote) (hended : o.ending = .failed e)
      (hwrite : files.write (Config.fileIn s.directory) (Starter.render image) s.storage =
        .error ⟨e, o.files⟩)
  | withheld (hmay : ∀ image, ¬ MayWrite s files args image) (htold : ¬ o.SaysWrote)
      (hended : ∀ e, o.ending ≠ .failed e) (hfiles : o.files = files)

/-- Setting a directory up writes the starter file, fails to do so, or has no leave to try. -/
theorem SetUp.attempt (h : SetUp s files args.force o) : Attempt s files args o := by
  cases h with
  | refused hs hclear =>
    refine .withheld (fun image hm => ?_) (by simp [Outcome.SaysWrote]) (by simp) rfl
    exact hclear ((mayWrite_plain hs).mp hm).2
  | written hs hclear hwrite =>
    exact .written ((mayWrite_plain hs).mpr ⟨rfl, hclear⟩) (.inl rfl) (by simp) hwrite
  | failed hs hclear hwrite =>
    exact .failed ((mayWrite_plain hs).mpr ⟨rfl, hclear⟩) (by simp [Outcome.SaysWrote]) rfl hwrite
  | unnamed hs himage =>
    refine .withheld (fun image hm => ?_) (by simp [Outcome.SaysWrote, canceled])
      (by simp [canceled]) rfl
    obtain ⟨⟨text, htext, -⟩, -⟩ := (mayWrite_asking hs).mp hm
    exact absurd (himage.symm.trans htext) (by simp)
  | unanswered hs himage hclear hconsent =>
    refine .withheld (fun image hm => ?_) (by simp [Outcome.SaysWrote, canceled])
      (by simp [canceled]) rfl
    obtain ⟨-, hleave | hyes⟩ := (mayWrite_asking hs).mp hm
    · exact hclear hleave
    · exact absurd (hconsent.symm.trans hyes) (by simp)
  | declined hs himage hclear hconsent =>
    refine .withheld (fun image hm => ?_) (by simp [Outcome.SaysWrote]) (by simp) rfl
    obtain ⟨-, hleave | hyes⟩ := (mayWrite_asking hs).mp hm
    · exact hclear hleave
    · exact absurd (hconsent.symm.trans hyes) (by simp)
  | writtenFor hs himage hclear hwrite =>
    exact .written ((mayWrite_asking hs).mpr ⟨⟨_, himage, rfl⟩, hclear⟩) (.inr rfl) (by simp) hwrite
  | failedFor hs himage hclear hwrite =>
    exact .failed ((mayWrite_asking hs).mpr ⟨⟨_, himage, rfl⟩, hclear⟩)
      (by simp [Outcome.SaysWrote]) rfl hwrite

/-- A directory is not set up when the first question is cancelled. -/
theorem SetUp.of_cancels {force : Bool} (h : SetUp s files force o) {t : Terminal} {k : Nat}
    (hs : s.terminal = some t) (hcancel : TextAnswer.Cancels "bookworm" t.answers.image k) :
    o.ending = .code 130 ∧ o.files = files := by
  have hnone := TextAnswer.submitted_of_cancels hcancel
  cases h with
  | refused hs' | written hs' | failed hs' => simp [hs] at hs'
  | unnamed => exact ⟨rfl, rfl⟩
  | unanswered hs' himage | declined hs' himage | writtenFor hs' himage | failedFor hs' himage =>
    obtain rfl := Option.some.inj (hs.symm.trans hs')
    exact absurd (hnone.symm.trans himage) (by simp)

/-- Once the first question is answered, the answer to the second one decides if it is put. -/
theorem SetUp.of_not_isClear {force : Bool} (h : SetUp s files force o) {t : Terminal} {k : Nat}
    {text : String} (hs : s.terminal = some t)
    (hsubmits : TextAnswer.Submits "bookworm" t.answers.image k text)
    (hclear : ¬ IsClear s files force) :
    (t.answers.overwrite.given = none → o.ending = .code 130 ∧ o.files = files) ∧
      (t.answers.overwrite.given = some false → o.ending = .code 0 ∧ o.files = files) := by
  have hsome := TextAnswer.submitted_eq_some_iff.mpr ⟨k, hsubmits⟩
  cases h with
  | refused hs' | written hs' | failed hs' => simp [hs] at hs'
  | unnamed hs' himage =>
    obtain rfl := Option.some.inj (hs.symm.trans hs')
    exact absurd (himage.symm.trans hsome) (by simp)
  | unanswered hs' _ _ hconsent =>
    obtain rfl := Option.some.inj (hs.symm.trans hs')
    exact ⟨fun _ => ⟨rfl, rfl⟩, fun hgiven => absurd (hconsent.symm.trans hgiven) (by simp)⟩
  | declined hs' _ _ hconsent =>
    obtain rfl := Option.some.inj (hs.symm.trans hs')
    exact ⟨fun hgiven => absurd (hconsent.symm.trans hgiven) (by simp), fun _ => ⟨rfl, rfl⟩⟩
  | writtenFor hs' _ hleave | failedFor hs' _ hleave =>
    obtain rfl := Option.some.inj (hs.symm.trans hs')
    have hyes := hleave.resolve_left hclear
    simp [hyes]

/-- An attempt changes the configuration file of the directory and nothing else, and leaves the
starter file there or, broken off, the start of it. -/
theorem Attempt.writesAt_of_ne (hargs : args.SetsUp) (h : Attempt s files args o) {p : Path}
    (hp : o.files.get? p ≠ files.get? p) : WritesAt s files args o p := by
  -- an attempt that changes anything has filled the place of the file, so `p` is this place
  have hplace : ∀ text, o.files = files.fill (Config.fileIn s.directory).place text →
      p = Config.fileIn s.directory.place ∧ o.files.text? p = some text := by
    intro text hfill
    rw [hfill] at hp ⊢
    rw [Files.eq_of_fill_ne hp, Files.text?_fill, Config.place_fileIn]
    exact ⟨rfl, rfl⟩
  cases h with
  | written hmay htold _ hwrite =>
    obtain ⟨heq, htext⟩ := hplace _ (Files.eq_fill_of_write hwrite)
    exact ⟨heq, hargs, _, hmay, .inl ⟨htold, htext⟩⟩
  | failed hmay _ hended hwrite =>
    rcases Files.left_of_write hwrite with hsame | ⟨bytes, message, hcut, hleft⟩
    · exact absurd (congrArg (Files.get? · p) hsame) hp
    · obtain ⟨rfl, hfiles⟩ := WriteFailure.mk.inj hleft
      obtain ⟨heq, htext⟩ := hplace _ hfiles
      exact ⟨heq, hargs, _, hmay, .inr ⟨bytes, ⟨message, hcut, hended⟩, htext⟩⟩
  | withheld _ _ _ hfiles => exact absurd (congrArg (Files.get? · p) hfiles) hp

/-- An error of an attempt leaves the files as they were unless the text has been broken off. -/
theorem Attempt.of_failed (h : Attempt s files args o) {e : FileError}
    (he : o.ending = .failed e) : o.files = files ∨ ∃ bytes, BreaksOffAt s o bytes := by
  cases h with
  | written _ _ hended => exact absurd he (hended e)
  | failed _ _ hended hwrite =>
    rcases Files.left_of_write hwrite with hsame | ⟨bytes, message, hcut, hleft⟩
    · exact .inl hsame
    · obtain ⟨rfl, -⟩ := WriteFailure.mk.inj hleft
      exact .inr ⟨bytes, message, hcut, hended⟩
  | withheld _ _ _ hfiles => exact .inl hfiles

theorem Attempt.triedToWrite_iff (h : Attempt s files args o) :
    o.TriedToWrite ↔ ∃ image, MayWrite s files args image := by
  cases h with
  | written hmay htold => exact iff_of_true (.inl htold) ⟨_, hmay⟩
  | failed hmay _ hended => exact iff_of_true (.inr ⟨_, hended⟩) ⟨_, hmay⟩
  | withheld hmay htold hended =>
    refine iff_of_false ?_ (not_exists.mpr hmay)
    rintro (h | ⟨e, he⟩)
    · exact htold h
    · exact hended e he

theorem SetUp.isConsiderate (hargs : args.SetsUp) (h : SetUp s files args.force o) :
    IsConsiderate s files args o where
  change _ hp := .inl (h.attempt.writesAt_of_ne hargs hp)
  append hne := absurd h.appended_eq_nil hne
  attempt _ := h.attempt.triedToWrite_iff
  write _ image hmay := by
    cases h.attempt with
    | written hmay' htold _ hwrite =>
      rw [hmay.unique hmay', hwrite]
      exact ⟨fun _ hok => ⟨htold, Except.ok.inj hok⟩, fun _ herror => absurd herror (by simp)⟩
    | failed hmay' htold hended hwrite =>
      rw [hmay.unique hmay', hwrite]
      refine ⟨fun _ hok => absurd hok (by simp), fun _ herror => ?_⟩
      obtain rfl := Except.error.inj herror
      exact ⟨htold, hended, rfl⟩
    | withheld hnot => exact absurd hmay (hnot image)
  content _ htold image hmay := by
    cases h.attempt with
    | written hmay' _ _ hwrite =>
      rw [Files.eq_fill_of_write hwrite, hmay.unique hmay', ← Config.place_fileIn]
      exact Files.text?_fill files _ _
    | failed _ hnot => exact absurd htold hnot
    | withheld _ hnot => exact absurd htold hnot
  cancelImage _ _ _ hs hcancel := h.of_cancels hs hcancel
  cancelConsent _ _ _ _ hs hsubmits hclear hconsent := by
    refine (h.of_not_isClear hs hsubmits hclear).1 ?_
    rw [hconsent]
    rfl
  decline _ _ _ _ hs hsubmits hclear hconsent := by
    refine (h.of_not_isClear hs hsubmits hclear).2 ?_
    rcases hconsent with hconsent | hconsent <;> rw [hconsent] <;> rfl
  failure _ he := h.attempt.of_failed he

/-! ## Whole runs -/

/-- A run that does not set a directory up has only its appends to answer for. -/
theorem isConsiderate_of_not_setsUp (hargs : ¬ args.SetsUp)
    (hchange : ∀ p, o.files.get? p ≠ files.get? p → AppendsAt s files args o p)
    (happend : o.appended ≠ [] → args.Appends)
    (hfailure : ∀ e, o.ending = .failed e → o.files = files ∨ ∃ bytes, BreaksOffAt s o bytes) :
    IsConsiderate s files args o where
  change p hp := .inr (hchange p hp)
  append := happend
  attempt h := absurd h hargs
  write h := absurd h hargs
  content h := absurd h hargs
  cancelImage h := absurd h hargs
  cancelConsent h := absurd h hargs
  decline h := absurd h hargs
  failure := hfailure

theorem isConsiderate_of_unchanged (hargs : ¬ args.SetsUp) (hfiles : o.files = files)
    (happended : o.appended = []) : IsConsiderate s files args o := by
  refine isConsiderate_of_not_setsUp hargs (fun p hp => ?_) (absurd happended) fun _ _ =>
    .inl hfiles
  rw [hfiles] at hp
  exact absurd rfl hp

/-- An append that fills the file for outputs changes nothing else. -/
theorem appendsAt_of_ne {name added : String} (hargs : args.Appends) (hsink : s.sink = .files)
    (hname : s.outputFile = some name)
    (hfill : o.files = files.fill (s.directory.resolve name)
      ((files.text? (s.directory.resolve name)).getD "" ++ added))
    (hended : o.appended = [(name, added)] ∨ o.appended = [] ∧ ∃ bytes, BreaksOffAt s o bytes)
    {p : Path} (hp : o.files.get? p ≠ files.get? p) : AppendsAt s files args o p := by
  have hplace : p = s.directory.resolve name := by
    rw [hfill] at hp
    exact Files.eq_of_fill_ne hp
  refine ⟨hargs, hsink, name, added, hname, hplace, ?_, hended⟩
  rw [hfill, hplace]
  exact Files.text?_fill files _ _

theorem HandOver.isConsiderate {matrix : Matrix} {lines : List String} (hargs : args.Proceeds)
    (hcommand : args.command = .generate) (h : HandOver s files matrix args o) :
    IsConsiderate s files args (o.noting lines) := by
  have hnot : ¬ args.SetsUp := by
    intro h
    exact absurd (hcommand.symm.trans h.command) (by simp)
  cases h with
  | printed | homeless | refused => exact isConsiderate_of_unchanged hnot rfl rfl
  | noted houtput =>
    exact isConsiderate_of_not_setsUp hnot (fun p hp => absurd rfl hp)
      (fun _ => ⟨hargs, hcommand, houtput⟩) fun _ _ => .inl rfl
  | appended houtput hname hsink happend =>
    refine isConsiderate_of_not_setsUp hnot (fun p hp => ?_)
      (fun _ => ⟨hargs, hcommand, houtput⟩) fun _ he => by simp at he
    exact appendsAt_of_ne ⟨hargs, hcommand, houtput⟩ hsink hname (Files.eq_fill_of_append happend)
      (.inl rfl) hp
  | failed houtput hname hsink happend =>
    rcases Files.left_of_append happend with hsame | ⟨bytes, message, hcut, rfl⟩
    · exact isConsiderate_of_unchanged hnot hsame rfl
    · refine isConsiderate_of_not_setsUp hnot (fun p hp => ?_) (absurd rfl) fun _ _ =>
        .inr ⟨bytes, message, hcut, rfl⟩
      exact appendsAt_of_ne ⟨hargs, hcommand, houtput⟩ hsink hname rfl
        (.inr ⟨rfl, bytes, message, hcut, rfl⟩) hp

theorem Course.isConsiderate (h : Course s files args o) : IsConsiderate s files args o := by
  cases h with
  | help hhelp =>
    exact isConsiderate_of_unchanged (fun h => absurd (hhelp.symm.trans h.help) (by simp)) rfl rfl
  | version _ hversion | untold _ hversion =>
    exact isConsiderate_of_unchanged (fun h => absurd (hversion.symm.trans h.version) (by simp))
      rfl rfl
  | unknown _ _ hunknown =>
    exact isConsiderate_of_unchanged (fun h => hunknown h.unknown) rfl rfl
  | misused _ _ _ herrors =>
    exact isConsiderate_of_unchanged (fun h => herrors h.errors) rfl rfl
  | setUp hargs hcommand h => exact h.isConsiderate ⟨hargs, hcommand⟩
  | unconfigured _ hcommand =>
    exact isConsiderate_of_unchanged (fun h => hcommand h.command) rfl rfl
  | shown _ hcommand =>
    refine isConsiderate_of_unchanged (fun h => ?_) ?_ ?_
    · exact absurd (hcommand.symm.trans h.command) (by simp)
    · unfold «show»
      cases s.terminal <;> rfl
    · unfold «show»
      cases s.terminal <;> rfl
  | handedOver hargs hcommand _ h => exact h.isConsiderate hargs hcommand

/-- Every run changes files only as it may. -/
theorem isConsiderate (s : Surroundings) (files : Files) (argv : List String) :
    IsConsiderate s files (Arguments.read argv) (run s files argv) :=
  (course_run s files argv).isConsiderate

/-! ## Runs one after the other -/

/-- The files after some runs, each in its own surroundings and with its own arguments. -/
def filesAfter (files : Files) (calls : List (Surroundings × List String)) : Files :=
  calls.foldl (fun files call => (run call.1 files call.2).files) files

/-- A run that changed a place: it wrote a starter file there with leave to do so, or appended. -/
structure Changed (s : Surroundings) (files : Files) (argv : List String) (p : Path) : Prop where
  change : (run s files argv).files.get? p ≠ files.get? p
  reason : WritesAt s files (Arguments.read argv) (run s files argv) p ∨
    AppendsAt s files (Arguments.read argv) (run s files argv) p

/-- What stands at a place after some runs stood there before, or was left there by the last run
that changed the place. -/
theorem exists_changed {calls : List (Surroundings × List String)} {p : Path}
    (h : (filesAfter files calls).get? p ≠ files.get? p) :
    ∃ earlier s argv later, calls = earlier ++ (s, argv) :: later ∧
      Changed s (filesAfter files earlier) argv p ∧
      (filesAfter files calls).get? p = (run s (filesAfter files earlier) argv).files.get? p := by
  induction calls generalizing files with
  | nil => exact absurd rfl h
  | cons call rest ih =>
    obtain ⟨s, argv⟩ := call
    by_cases hrest : (filesAfter files ((s, argv) :: rest)).get? p =
        (run s files argv).files.get? p
    · rw [hrest] at h
      exact ⟨[], s, argv, rest, rfl, ⟨h, (isConsiderate s files argv).change p h⟩, hrest⟩
    · obtain ⟨earlier, s', argv', later, rfl, hchanged, hlast⟩ := ih hrest
      exact ⟨(s, argv) :: earlier, s', argv', later, rfl, hchanged, hlast⟩

end Run

/-- In any sequence of runs, each run writes the configuration file of its directory and nothing
else, and that only with leave; every other change is an append, which keeps what was there.  So
whatever stands at a place after all the runs has stood there before them, or goes back to the last
run that changed the place, and that run had leave to write it or appended to it.  The change is the
whole of the text unless the system has broken it off, and then that run ended with the error. -/
theorem starterFile_consent (files : Files) (calls : List (Surroundings × List String)) :
    (∀ earlier s argv later, calls = earlier ++ (s, argv) :: later →
      Run.IsConsiderate s (Run.filesAfter files earlier) (Arguments.read argv)
        (run s (Run.filesAfter files earlier) argv)) ∧
    ∀ p, (Run.filesAfter files calls).get? p = files.get? p ∨
      ∃ earlier s argv later, calls = earlier ++ (s, argv) :: later ∧
        Run.Changed s (Run.filesAfter files earlier) argv p ∧
        (Run.filesAfter files calls).get? p =
          (run s (Run.filesAfter files earlier) argv).files.get? p := by
  refine ⟨fun earlier s argv later _ => Run.isConsiderate s _ argv, fun p => ?_⟩
  by_cases h : (Run.filesAfter files calls).get? p = files.get? p
  · exact .inl h
  · exact .inr (Run.exists_changed h)

/-- On a terminal, a file is there, and the image is given at the second attempt.  In a first run
the second question is answered with no, in another one with yes. -/
theorem starterFile_consent_given :
    let s (consent : Consent) : Surroundings :=
      { directory := ["w"]
        package := ["p"]
        terminal := some
          { answers := { image := [.typed " ", .typed " el9 "], overwrite := consent } } }
    let files : Files := ⟨fun path =>
      if path = ["w", ".ci-matrix.yml"] then some (.file "builds: []\n")
      else if path = [] ∨ path = ["w"] then some .directory
      else none⟩
    let calls := [(s .no, ["init"]), (s .yes, ["init"])]
    Run.filesAfter files [(s .no, ["init"])] = files ∧
      (Run.filesAfter files calls).text? ["w", ".ci-matrix.yml"] =
        some (Starter.render "el9") := by
  intro s files calls
  have hargs : (Arguments.read ["init"]).SetsUp := by
    refine ⟨⟨?_, ?_, ?_, ?_⟩, ?_⟩ <;> decide
  have hsubmits : TextAnswer.Submits "bookworm" [.typed " ", .typed " el9 "] 1 " el9 " := by
    refine ⟨?_, ⟨.typed " el9 ", rfl, by simp⟩, by decide, by decide⟩
    intro j hj
    obtain rfl : j = 0 := by omega
    decide
  have hclear : ∀ consent, ¬ Run.IsClear (s consent) files false := by
    intro consent
    rw [Run.IsClear]
    cases consent <;> decide
  obtain ⟨hruns, -⟩ := starterFile_consent files calls
  have hfirst : Run.filesAfter files [(s .no, ["init"])] = files :=
    ((hruns [] (s .no) ["init"] [(s .yes, ["init"])] rfl).decline hargs _ _ _ rfl hsubmits
      (hclear .no) (.inl rfl)).2
  have hsecond := hruns [(s .no, ["init"])] (s .yes) ["init"] [] rfl
  rw [hfirst] at hsecond
  have hmay : Run.MayWrite (s .yes) files (Arguments.read ["init"]) "el9" :=
    ⟨⟨1, " el9 ", hsubmits, by decide⟩, .inr rfl⟩
  have hlast : Run.filesAfter files calls = (run (s .yes) files ["init"]).files := by
    rw [← congrArg (fun files => (run (s .yes) files ["init"]).files) hfirst]
    rfl
  refine ⟨hfirst, ?_⟩
  rw [hlast]
  exact hsecond.content hargs (.inr (by decide +kernel)) "el9" hmay

/-- Two runs that change the configuration file of their directory and do not say that they have
written it.  One does not set the directory up at all: its matrix is handed over in that file.  The
other is to overwrite the file, and the disk is full once the file has been emptied. -/
theorem starterFile_changed_silently :
    let place : Path := ["w", ".ci-matrix.yml"]
    let files : Files := ⟨fun path =>
      if path = place then some (.file "builds:\n- name: a\n")
      else if path = [] ∨ path = ["w"] then some .directory
      else none⟩
    let s : Surroundings :=
      { directory := ["w"], package := ["p"], environment := [("GITHUB_OUTPUT", ".ci-matrix.yml")] }
    let full : Surroundings := { s with storage := .cut 0 "ENOSPC" }
    let handed := run s files ["generate", "--github-output"]
    let cut := run full files ["init", "--force"]
    ((Arguments.read ["generate", "--github-output"]).command ≠ .init ∧
        handed.files.text? place ≠ files.text? place ∧ ¬ handed.SaysWrote) ∧
      (cut.ending = .failed (.refused "ENOSPC") ∧ cut.files.text? place = some "" ∧
        ¬ cut.SaysWrote) := by
  intro place files s full handed cut
  have htold : ∀ o : Outcome, o.out ≠ ["Wrote .ci-matrix.yml.\n"] →
      o.closing ≠ some "Wrote .ci-matrix.yml." → ¬ o.SaysWrote := by
    rintro o hout hclosing (h | h)
    · exact hout h
    · exact hclosing h
  refine ⟨⟨by decide, by decide +kernel, htold _ ?_ ?_⟩, by decide +kernel, by decide +kernel,
    htold _ ?_ ?_⟩
  all_goals decide +kernel

end BuildMatrix
