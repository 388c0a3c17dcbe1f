import BuildMatrix.Config.Load

/-!
# What writing and appending leave alone

A path is followed through the directories on the way, and where it leads does not depend on them:
it is the place that its steps lead to on paper (`follow_eq_ok`).  Writing and appending fill this
place and change nothing else: with the whole text if they succeed (`eq_fill_of_write`,
`eq_fill_of_append`), and if they fail, with the start of a text that was broken off, or not at all
(`left_of_write`, `left_of_append`).  Appending keeps the text that was there.
-/

namespace BuildMatrix

/-- A text that is to be stored is broken off, after the file has been opened. -/
def Storage.BreaksOff (storage : Storage) : Prop :=
  ∃ bytes message, storage = .cut bytes message

/-- The place that a path leads to, its steps taken on paper from the root. -/
def Path.place (path : Path) : Path := path.foldl step []

/-- The configuration file of a directory stands in the place of the directory. -/
theorem Config.place_fileIn (directory : Path) :
    (Config.fileIn directory).place = Config.fileIn directory.place := by
  have hname : ∀ here : Path, here.step Config.fileName = here ++ [Config.fileName] := by
    intro here
    simp [Path.step, Config.fileName]
  rw [Path.place, Config.fileIn, List.foldl_append, List.foldl_cons, List.foldl_nil, hname]
  rfl

namespace Files

variable {files after : Files}

/-- A path that can be followed leads where its steps lead on paper. -/
theorem follow_eq_ok {written : String} {here p : Path} {steps : List String}
    (h : files.follow written here steps = .ok p) : p = steps.foldl Path.step here := by
  induction steps generalizing here with
  | nil => exact (Except.ok.inj h).symm
  | cons name rest ih =>
    rw [follow] at h
    split at h
    · cases h
    · cases h
    · cases h
    · split at h
      · cases h
      · exact ih h

/-- Two file systems hold the same at all places but one. -/
def SameBut (place : Path) (files after : Files) : Prop :=
  ∀ p, p ≠ place → after.get? p = files.get? p

theorem sameBut_fill (place : Path) (text : String) : SameBut place files (files.fill place text) :=
  fun _ hp => get?_put_of_ne files _ hp

/-- Where filling a place shows, is this place. -/
theorem eq_of_fill_ne {place p : Path} {text : String}
    (h : (files.fill place text).get? p ≠ files.get? p) : p = place :=
  Decidable.byContradiction fun hne => h (sameBut_fill place text p hne)

section

variable {written text : String} {keep : Bool} {storage : Storage} {failure : WriteFailure}
  {found : Except FileError Path}

/-- A text that is stored fills the place that the path has led to. -/
theorem eq_fill_of_save (h : files.save written keep text storage found = .ok after) :
    ∃ place, found = .ok place ∧ after = files.fill place (files.kept keep place ++ text) := by
  cases found with
  | error e => cases h
  | ok place =>
    refine ⟨place, rfl, ?_⟩
    simp only [save] at h
    split at h
    · cases h
    · cases storage with
      | whole => exact (Except.ok.inj h).symm
      | closed message => cases h
      | cut bytes message => cases h

/-- A text that is not stored has left its start if it was broken off, and nothing otherwise. -/
theorem left_of_save (h : files.save written keep text storage found = .error failure) :
    failure.files = files ∨ ∃ place bytes message, found = .ok place ∧
      storage = .cut bytes message ∧
      failure =
        ⟨.refused message, files.fill place (files.kept keep place ++ Text.start bytes text)⟩ := by
  cases found with
  | error e => exact .inl (congrArg WriteFailure.files (Except.error.inj h)).symm
  | ok place =>
    simp only [save] at h
    split at h
    · exact .inl (congrArg WriteFailure.files (Except.error.inj h)).symm
    · cases storage with
      | whole => cases h
      | closed message => exact .inl (congrArg WriteFailure.files (Except.error.inj h)).symm
      | cut bytes message =>
        exact .inr ⟨place, bytes, message, rfl, rfl, (Except.error.inj h).symm⟩

theorem eq_fill_of_write {path : Path} (h : files.write path text storage = .ok after) :
    after = files.fill path.place text := by
  obtain ⟨place, hplace, rfl⟩ := eq_fill_of_save h
  rw [follow_eq_ok hplace, kept, if_neg Bool.false_ne_true, String.empty_append]
  rfl

theorem left_of_write {path : Path} (h : files.write path text storage = .error failure) :
    failure.files = files ∨ ∃ bytes message, storage = .cut bytes message ∧
      failure = ⟨.refused message, files.fill path.place (Text.start bytes text)⟩ := by
  rcases left_of_save h with hfiles | ⟨place, bytes, message, hplace, hstorage, rfl⟩
  · exact .inl hfiles
  · refine .inr ⟨bytes, message, hstorage, ?_⟩
    rw [follow_eq_ok hplace, kept, if_neg Bool.false_ne_true, String.empty_append]
    rfl

/-- A write that fails changes nothing unless it is broken off. -/
theorem eq_of_write_error {path : Path} (h : files.write path text storage = .error failure)
    (hstorage : ¬ storage.BreaksOff) : failure.files = files :=
  (left_of_write h).resolve_right fun ⟨bytes, message, hcut, _⟩ => hstorage ⟨bytes, message, hcut⟩

variable {here : Path}

/-- Appending keeps the text that a place holds. -/
theorem eq_fill_of_append (h : files.append here written text storage = .ok after) :
    after = files.fill (here.resolve written)
      ((files.text? (here.resolve written)).getD "" ++ text) := by
  obtain ⟨place, hplace, rfl⟩ := eq_fill_of_save h
  rw [follow_eq_ok hplace]
  rfl

theorem left_of_append (h : files.append here written text storage = .error failure) :
    failure.files = files ∨ ∃ bytes message, storage = .cut bytes message ∧
      failure = ⟨.refused message, files.fill (here.resolve written)
        ((files.text? (here.resolve written)).getD "" ++ Text.start bytes text)⟩ := by
  rcases left_of_save h with hfiles | ⟨place, bytes, message, hplace, hstorage, rfl⟩
  · exact .inl hfiles
  · refine .inr ⟨bytes, message, hstorage, ?_⟩
    rw [follow_eq_ok hplace]
    rfl

theorem eq_of_append_error (h : files.append here written text storage = .error failure)
    (hstorage : ¬ storage.BreaksOff) : failure.files = files :=
  (left_of_append h).resolve_right fun ⟨bytes, message, hcut, _⟩ => hstorage ⟨bytes, message, hcut⟩

end

end Files

end BuildMatrix
