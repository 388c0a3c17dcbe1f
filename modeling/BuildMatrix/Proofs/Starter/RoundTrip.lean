import BuildMatrix.Proofs.Starter.Spelling

/-!
# Reading the starter file back

The starter file for an image is meant to stand for the configuration with that image
(`Starter.config`).  It does not for every image: a line of spaces in a block is taken for
indentation when the file is read (`read_render_blank_line`).  Of the texts that fit (`Fits`) these
are the only ones that are lost (`read_render_iff`).

Three kinds of text do not fit: a text that is broken in double quotes and not singly spaced, a text
that is folded in a block and has a line that starts with white space, and a text of nothing but
white space with a space before a tab.  Of each kind some come back and some do not.  `" \t\n"`
comes back without its space, a long text that is folded and starts with a space comes back with
line feeds in other places, and a space that stands alone between two line feeds of a text that is
broken in double quotes comes back as a backslash.  Nothing is said about them here.
-/

namespace BuildMatrix.Starter

open Yaml ScalarText

/-- The configuration that the starter file for an image is meant to hold. -/
def config (image : String) : Config :=
  { image, builds := [{ name := some image }, { name := some "coverage", coverage := some true }] }

/-! ## The text of the file -/

theorem field_checker : field "" "checker" ({} : Defaults).checker =
    "checker: src/test/docker/docker-run-checks.sh\n".toList := by
  decide +kernel

theorem field_args : field "  " "args" ({} : Defaults).args =
    "  args: ".toList ++ (Spelling.plain brokenArgs.toList).chars := by
  decide +kernel

theorem field_coverage : field "  - " "name" "coverage" = "  - name: coverage\n".toList := by
  decide +kernel

theorem toText_jobs : ({} : Defaults).jobs.toText.toList = ['2'] := by
  decide +kernel

/-- Where the image is written as the default image. -/
def imageSlot : Yaml.Slot := { indent := 4, column := 7 }

/-- Where the image is written as the name of the first build. -/
def nameSlot : Yaml.Slot := { indent := 6, column := 6 }

theorem isValueSlot_imageSlot : IsValueSlot imageSlot 2 := ⟨rfl, by decide, rfl, rfl, by decide⟩

theorem isValueSlot_nameSlot : IsValueSlot nameSlot 4 := ⟨rfl, by decide, rfl, rfl, by decide⟩

theorem render_eq {image : String} {s t : Spelling}
    (hs : s.chars = scalarChars imageSlot image.toList ++ ['\n'])
    (ht : t.chars = scalarChars nameSlot image.toList ++ ['\n']) :
    render image = .ofList (fileChars s t) := by
  have hchecker : field "" "checker" ({ image } : Defaults).checker =
      "checker: src/test/docker/docker-run-checks.sh\n".toList := field_checker
  have hargs : field "  " "args" ({ image } : Defaults).args =
      "  args: ".toList ++ (Spelling.plain brokenArgs.toList).chars := field_args
  have hjobs : ({ image } : Defaults).jobs.toText.toList = ['2'] := toText_jobs
  have himage : field "  " "image" image =
      "  image: ".toList ++ (scalarChars imageSlot image.toList ++ ['\n']) := by
    have hslot : ({ indent := "  ".length + 2, column := "image".length + 2 } : Yaml.Slot) =
        imageSlot := rfl
    rw [field, hslot]
    simp
  have hname : field "  - " "name" image =
      "  - name: ".toList ++ (scalarChars nameSlot image.toList ++ ['\n']) := by
    have hslot : ({ indent := "  - ".length + 2, column := "name".length + 2 } : Yaml.Slot) =
        nameSlot := rfl
    rw [field, hslot]
    simp
  rw [render]
  dsimp only
  rw [fileChars, hchecker, hargs, hjobs, field_coverage, himage, hname, ← hs, ← ht]
  generalize (Spelling.plain brokenArgs.toList).chars = args
  simp [headText, middleText, lastText]

/-- What is written for the image in both places decides what is read. -/
theorem read_render_of_writes {image : String} {s t : Spelling} {cs : List Char}
    (hs : s.Writes imageSlot 2 image.toList cs) (ht : t.Writes nameSlot 4 image.toList cs) :
    Config.read (render image) = .ok (config (.ofList cs)) := by
  rw [render_eq hs.chars ht.chars]
  exact read_fileChars hs.cut hs.read ht.cut ht.read

/-! ## What is read -/

/-- A text of nothing but spaces and line feeds that ends with a line feed and has a space. -/
def LosesSpaces (cs : List Char) : Prop :=
  (∀ c ∈ cs, c = ' ' ∨ c = '\n') ∧ ' ' ∈ cs ∧ cs.getLast? = some '\n'

/-- What is read for an image. -/
def readBack (cs : List Char) : List Char :=
  if '\n' ∈ cs ∧ isDoubleQuoted cs = false then blockText cs else cs

/-- A text that is singly spaced if it is broken in double quotes, that has no line that starts with
white space if it is folded in a block, and that has no space before a tab if it is all white
space. -/
structure Fits (slot : Yaml.Slot) (cs : List Char) : Prop where
  double : isDoubleQuoted cs = true → '\n' ∉ scalarChars slot cs ∨ IsSinglySpaced cs
  folded : (scalarChars slot cs).head? = some '>' → IsFlush cs
  blank : (∀ c ∈ cs, isGap c = true) → '\t' ∈ cs → IsUnspaced cs

/-- The one way in which each text that fits is written. -/
theorem Fits.exists_writes {slot : Yaml.Slot} {indent : Nat} {cs : List Char} (h : Fits slot cs)
    (hslot : IsValueSlot slot indent) : ∃ s : Spelling, s.Writes slot indent cs (readBack cs) := by
  cases hquotes : isDoubleQuoted cs with
  | true =>
    rw [readBack, if_neg (by simp [hquotes])]
    exact writes_double hslot hquotes (h.double hquotes)
  | false =>
    by_cases hfeed : '\n' ∈ cs
    · rw [readBack, if_pos ⟨hfeed, hquotes⟩]
      exact writes_block hslot hfeed hquotes h.folded h.blank
    · rw [readBack, if_neg (fun h => hfeed h.1)]
      exact writes_line hslot hfeed hquotes

theorem endsBlank_of_getLast? {cs : List Char} (h : cs.getLast? = some '\n') :
    endsBlank cs = false := by
  obtain ⟨front, rfl⟩ := List.getLast?_eq_some_iff.mp h
  simp [endsBlank, ScalarText.isBlank]

/-- The spaces of a text are lost if nothing else but line feeds stands in it. -/
theorem readBack_eq_iff (cs : List Char) : readBack cs = cs ↔ ¬LosesSpaces cs := by
  constructor
  · rintro heq ⟨hblank, hspace, hlast⟩
    have hcontrol : cs.any isControl = false := by
      rw [List.any_eq_false]
      intro c hc
      obtain rfl | rfl := hblank c hc <;> decide
    have hquotes : isDoubleQuoted cs = false := by
      rw [isDoubleQuoted, hcontrol, if_pos (by simpa using List.mem_of_getLast? hlast),
        endsBlank_of_getLast? hlast]
      rfl
    rw [readBack, if_pos ⟨List.mem_of_getLast? hlast, hquotes⟩, blockText,
      if_pos (by simpa using hblank)] at heq
    rw [← heq] at hspace
    simp at hspace
  · intro hkeeps
    rw [readBack, blockText]
    split
    next h =>
      obtain ⟨hfeed, hquotes⟩ := h
      split
      next hblank =>
        have hcs : ∀ c ∈ cs, c = ' ' ∨ c = '\n' := by simpa using hblank
        rw [isDoubleQuoted, Bool.or_eq_false_iff, if_pos (by simpa using hfeed)] at hquotes
        have hlast : cs.getLast? = some '\n' := by
          have hends : endsBlank ([] ++ cs) = false := hquotes.2
          refine getLast?_tail hends (fun c hc => ?_) hfeed
          obtain rfl | rfl := hcs c hc <;> rfl
        have hspace : ' ' ∉ cs := fun hspace => hkeeps ⟨hcs, hspace, hlast⟩
        rw [List.filter_eq_self]
        intro c hc
        rw [beq_iff_eq]
        exact (hcs c hc).resolve_left fun heq => hspace (heq ▸ hc)
      next => rfl
    next => rfl

theorem config_injective {a b : String} (h : config a = config b) : a = b :=
  congrArg Config.image h

/-- What is read for an image that fits. -/
theorem read_render_of_fits {image : String} (himage : Fits imageSlot image.toList)
    (hname : Fits nameSlot image.toList) :
    Config.read (render image) = .ok (config (.ofList (readBack image.toList))) := by
  obtain ⟨s, hs⟩ := himage.exists_writes isValueSlot_imageSlot
  obtain ⟨t, ht⟩ := hname.exists_writes isValueSlot_nameSlot
  exact read_render_of_writes hs ht

/-- The starter file for an image that fits reads back as the configuration with the image, unless
the image loses its spaces. -/
theorem read_render_iff {image : String} (himage : Fits imageSlot image.toList)
    (hname : Fits nameSlot image.toList) :
    Config.read (render image) = .ok (config image) ↔ ¬LosesSpaces image.toList := by
  rw [read_render_of_fits himage hname, ← readBack_eq_iff]
  constructor
  · intro heq
    have hback := config_injective (Except.ok.inj heq)
    have htext := congrArg String.toList hback
    rwa [String.toList_ofList] at htext
  · intro heq
    rw [heq, String.ofList_toList]

/-- A text without tabs fits if it is neither double quoted nor folded. -/
theorem fits_of_not_mem {slot : Yaml.Slot} {cs : List Char} (hdouble : isDoubleQuoted cs = false)
    (hfolded : (scalarChars slot cs).head? ≠ some '>') (htab : '\t' ∉ cs) : Fits slot cs := by
  refine ⟨fun h => ?_, fun h => absurd h hfolded, fun _ h => absurd h htab⟩
  rw [hdouble] at h
  exact absurd h Bool.false_ne_true

/-- An image of several lines that starts with a blank line and a space. -/
theorem read_render_lines :
    Fits imageSlot "\n a: b\n\nc".toList ∧ Fits nameSlot "\n a: b\n\nc".toList ∧
      Config.read (render "\n a: b\n\nc") = .ok (config "\n a: b\n\nc") := by
  have hdouble : isDoubleQuoted "\n a: b\n\nc".toList = false := by decide +kernel
  have himage : Fits imageSlot "\n a: b\n\nc".toList :=
    fits_of_not_mem hdouble (by decide +kernel) (by decide)
  have hname : Fits nameSlot "\n a: b\n\nc".toList :=
    fits_of_not_mem hdouble (by decide +kernel) (by decide)
  refine ⟨himage, hname, (read_render_iff himage hname).mpr ?_⟩
  rintro ⟨hcs, -⟩
  exact absurd (hcs 'a' (by decide)) (by decide)

/-- An image that is a space and a line feed loses its space. -/
theorem read_render_blank_line :
    ∃ c, Config.read (render " \n") = .ok c ∧ c = config "\n" ∧ c ≠ config " \n" := by
  have hdouble : isDoubleQuoted " \n".toList = false := by decide +kernel
  have himage : Fits imageSlot " \n".toList :=
    fits_of_not_mem hdouble (by decide +kernel) (by decide)
  have hname : Fits nameSlot " \n".toList :=
    fits_of_not_mem hdouble (by decide +kernel) (by decide)
  have hback : readBack " \n".toList = "\n".toList := by decide +kernel
  refine ⟨_, read_render_of_fits himage hname, ?_, ?_⟩
  · rw [hback, String.ofList_toList]
  · rw [hback, String.ofList_toList]
    exact fun h => absurd (config_injective h) (by decide)

end BuildMatrix.Starter
