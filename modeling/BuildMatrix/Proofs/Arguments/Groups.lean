import BuildMatrix.Proofs.Arguments.Insertion
import BuildMatrix.Run

/-!
# Options in any order

A well-formed command line is a command, or none, and options one after the other: flags, and
options with their values (`OptionGroup`).  Such a line is read group by group (`read_line`), so
what is read can be told from the groups that stand in it (`has_line_iff`, `given_line_iff`), as
long as no value is given twice.  Hence the order of the groups makes no difference, and neither
does a flag that is repeated (`run_rearranged`).
-/

namespace BuildMatrix

/-- An option as it is typed: a flag in one of its spellings, or an option with a value. -/
inductive OptionGroup where
  | alone (flag : Flag) (spelling : String) (isSpelling : spelling ∈ flag.spellings)
  | valued (option : ValueOption) (value : String)
      (isValue : value ≠ "" ∧ ¬ "--".toList <+: value.toList)
deriving DecidableEq

namespace OptionGroup

/-- The tokens of an option. -/
def tokens : OptionGroup → List String
  | .alone _ spelling _ => [spelling]
  | .valued option value _ => [option.text, value]

/-- The flag that an option is. -/
def flag? : OptionGroup → Option Flag
  | .alone flag _ _ => some flag
  | .valued _ _ _ => none

/-- The option with a value that an option is. -/
def option? : OptionGroup → Option ValueOption
  | .alone _ _ _ => none
  | .valued option _ _ => some option

/-- The first token of an option starts with a hyphen. -/
theorem tokens_start (g : OptionGroup) :
    ∃ token rest, g.tokens = token :: rest ∧ token.toList.head? = some '-' := by
  cases g with
  | alone flag spelling hspelling =>
    have hall : ∀ token ∈ flag.spellings, token.toList.head? = some '-' := by
      cases flag <;> decide
    exact ⟨spelling, [], rfl, hall spelling hspelling⟩
  | valued option value hvalue => exact ⟨option.text, [value], rfl, by cases option <;> rfl⟩

/-- No option with a value is given twice. -/
def AtMostOnce (groups : List OptionGroup) : Prop := (groups.filterMap option?).Nodup

instance (groups : List OptionGroup) : Decidable (AtMostOnce groups) :=
  inferInstanceAs (Decidable (groups.filterMap option?).Nodup)

/-- The groups are put into another order, and flags that are among them are repeated, each time in
any of their spellings. -/
def Rearranges (groups groups' : List OptionGroup) : Prop :=
  ∃ again : List OptionGroup, groups'.Perm (groups ++ again) ∧
    ∀ g ∈ again, ∃ flag, g.flag? = some flag ∧ ∃ g' ∈ groups, g'.flag? = some flag

variable {groups groups' : List OptionGroup} {g : OptionGroup} {option : ValueOption}

theorem valued_of_option? (h : g.option? = some option) :
    ∃ value hvalue, g = .valued option value hvalue := by
  cases g with
  | alone flag spelling hspelling => cases h
  | valued other value hvalue =>
    obtain rfl := Option.some.inj h
    exact ⟨value, hvalue, rfl⟩

theorem AtMostOnce.of_cons (h : AtMostOnce (g :: groups)) : AtMostOnce groups :=
  h.sublist ((List.sublist_cons_self g groups).filterMap option?)

theorem AtMostOnce.not_again {value : String}
    {hvalue : value ≠ "" ∧ ¬ "--".toList <+: value.toList}
    (h : AtMostOnce (.valued option value hvalue :: groups)) :
    ∀ g ∈ groups, g.option? ≠ some option := by
  intro g hg hoption
  exact (List.nodup_cons.mp h).1 (List.mem_filterMap.mpr ⟨g, hg, hoption⟩)

/-- Flags that are repeated are no options with values. -/
theorem Rearranges.mem_valued_iff (h : Rearranges groups groups') {value : String}
    {hvalue : value ≠ "" ∧ ¬ "--".toList <+: value.toList} :
    .valued option value hvalue ∈ groups' ↔ .valued option value hvalue ∈ groups := by
  obtain ⟨again, hperm, hagain⟩ := h
  rw [hperm.mem_iff, List.mem_append, or_iff_left]
  intro hmem
  obtain ⟨flag, hflag, -⟩ := hagain _ hmem
  cases hflag

/-- Flags that are repeated are there already. -/
theorem Rearranges.flag?_iff (h : Rearranges groups groups') (flag : Flag) :
    (∃ g ∈ groups', g.flag? = some flag) ↔ ∃ g ∈ groups, g.flag? = some flag := by
  obtain ⟨again, hperm, hagain⟩ := h
  constructor
  · rintro ⟨g, hg, hflag⟩
    rcases List.mem_append.mp (hperm.mem_iff.mp hg) with hg | hg
    · exact ⟨g, hg, hflag⟩
    · obtain ⟨flag', hflag', hfirst⟩ := hagain g hg
      rwa [← hflag, hflag'] at *
  · rintro ⟨g, hg, hflag⟩
    exact ⟨g, hperm.mem_iff.mpr (List.mem_append_left _ hg), hflag⟩

theorem Rearranges.atMostOnce (h : Rearranges groups groups') (honce : AtMostOnce groups) :
    AtMostOnce groups' := by
  obtain ⟨again, hperm, hagain⟩ := h
  have hnone : again.filterMap option? = [] := by
    refine List.filterMap_eq_nil_iff.mpr fun g hg => ?_
    obtain ⟨flag, hflag, -⟩ := hagain g hg
    cases g with
    | alone flag spelling hspelling => rfl
    | valued option value hvalue => cases hflag
  refine (hperm.filterMap option?).nodup_iff.mpr ?_
  rw [List.filterMap_append, hnone, List.append_nil]
  exact honce

end OptionGroup

namespace Arguments

open OptionGroup

variable {command : Option Command} {groups groups' : List OptionGroup}

/-- A command line of a command, if one is given, and options. -/
def line (command : Option Command) (groups : List OptionGroup) : List String :=
  (command.map Command.word).toList ++ groups.flatMap tokens

/-- The value of an option. -/
def given (args : Arguments) : ValueOption → Option String
  | .config => args.config
  | .ref => args.ref

/-- Takes one option. -/
def takeGroup (args : Arguments) : OptionGroup → Arguments
  | .alone flag _ _ => args.raise flag
  | .valued option value _ => args.setValue option (some value)

/-! ## Reading group by group -/

theorem readOptions_tokens (args : Arguments) (g : OptionGroup) (rest : List String) :
    readOptions args (g.tokens ++ rest) = readOptions (args.takeGroup g) rest := by
  cases g with
  | alone flag spelling hspelling =>
    exact (readOptions_flag args (ofText?_of_mem_spellings hspelling) rest).trans
      (congrArg (readOptions · rest) (takeFlag_of_mem_spellings args hspelling))
  | valued option value hvalue =>
    exact readOptions_given args (ofText?_eq_some.mpr rfl) (isValue_iff.mpr hvalue) rest

theorem readOptions_groups (args : Arguments) (groups : List OptionGroup) :
    readOptions args (groups.flatMap tokens) = groups.foldl takeGroup args := by
  induction groups generalizing args with
  | nil => rfl
  | cons g rest ih => rw [List.flatMap_cons, readOptions_tokens, ih, List.foldl_cons]

/-- A command line is read group by group. -/
theorem read_line (command : Option Command) (groups : List OptionGroup) :
    read (line command groups) = groups.foldl takeGroup { command := command.getD .generate } := by
  have hcommand : read (command.map Command.word).toList =
      { command := command.getD .generate } := by
    cases command with
    | none => rfl
    | some command => cases command <;> rfl
  have hfree : IsFree (command.map Command.word).toList.getLast? (groups.flatMap tokens) := by
    cases command with
    | some command => exact isFree_of_ofText? (by cases command <;> rfl) _
    | none =>
      -- the first token is an option, so it is not taken for the command
      intro token htoken
      cases groups with
      | nil => cases htoken
      | cons g rest =>
        obtain ⟨first, others, htokens, hhead⟩ := g.tokens_start
        rw [List.flatMap_cons, htokens] at htoken
        obtain rfl := Option.some.inj htoken
        exact if_pos (.inr hhead)
  rw [line, read_append hfree, hcommand, readOptions_groups]

/-! ## What is read -/

/-- Options do not change the command, and nothing is wrong with them. -/
theorem foldl_takeGroup_rest (args : Arguments) (groups : List OptionGroup) :
    (groups.foldl takeGroup args).command = args.command ∧
      (groups.foldl takeGroup args).unknown = args.unknown ∧
      (groups.foldl takeGroup args).errors = args.errors := by
  have hstep : ∀ (args : Arguments) (g : OptionGroup),
      (args.takeGroup g).command = args.command ∧ (args.takeGroup g).unknown = args.unknown ∧
        (args.takeGroup g).errors = args.errors := by
    intro args g
    cases g with
    | alone flag _ _ => cases flag <;> exact ⟨rfl, rfl, rfl⟩
    | valued option _ _ => cases option <;> exact ⟨rfl, rfl, rfl⟩
  induction groups generalizing args with
  | nil => exact ⟨rfl, rfl, rfl⟩
  | cons g rest ih =>
    obtain ⟨hcommand, hunknown, herrors⟩ := hstep args g
    rw [List.foldl_cons, ← hcommand, ← hunknown, ← herrors]
    exact ih (args.takeGroup g)

theorem has_takeGroup (args : Arguments) (g : OptionGroup) (flag : Flag) :
    (args.takeGroup g).has flag = true ↔ g.flag? = some flag ∨ args.has flag = true := by
  cases g with
  | alone raised _ _ => cases raised <;> cases flag <;> simp [takeGroup, raise, has, flag?]
  | valued option _ _ => cases option <;> cases flag <;> simp [takeGroup, setValue, has, flag?]

theorem has_foldl_takeGroup (args : Arguments) (groups : List OptionGroup) (flag : Flag) :
    (groups.foldl takeGroup args).has flag = true ↔
      (∃ g ∈ groups, g.flag? = some flag) ∨ args.has flag = true := by
  induction groups generalizing args with
  | nil => simp
  | cons g rest ih =>
    rw [List.foldl_cons, ih, has_takeGroup, List.exists_mem_cons_iff]
    exact or_left_comm.trans or_assoc.symm

theorem given_takeGroup_valued (args : Arguments) (option : ValueOption) (value : String)
    (hvalue : value ≠ "" ∧ ¬ "--".toList <+: value.toList) :
    (args.takeGroup (.valued option value hvalue)).given option = some value := by
  cases option <;> rfl

theorem given_takeGroup_of_ne (args : Arguments) {g : OptionGroup} {option : ValueOption}
    (h : g.option? ≠ some option) : (args.takeGroup g).given option = args.given option := by
  cases g with
  | alone flag _ _ => cases flag <;> cases option <;> rfl
  | valued other _ _ => cases other <;> cases option <;> first | rfl | exact absurd rfl h

/-- Options that do not give a value leave it as it is. -/
theorem given_foldl_of_forall_ne (args : Arguments) {option : ValueOption}
    (h : ∀ g ∈ groups, g.option? ≠ some option) :
    (groups.foldl takeGroup args).given option = args.given option := by
  induction groups generalizing args with
  | nil => rfl
  | cons g rest ih =>
    obtain ⟨hg, hrest⟩ := List.forall_mem_cons.mp h
    rw [List.foldl_cons, ih _ hrest, given_takeGroup_of_ne args hg]

theorem given_foldl_takeGroup (args : Arguments) (h : AtMostOnce groups) (option : ValueOption)
    (value : String) :
    (groups.foldl takeGroup args).given option = some value ↔
      (∃ hvalue, .valued option value hvalue ∈ groups) ∨
        (∀ g ∈ groups, g.option? ≠ some option) ∧ args.given option = some value := by
  induction groups generalizing args with
  | nil => simp
  | cons g rest ih =>
    have hrest : AtMostOnce rest := h.of_cons
    rw [List.foldl_cons]
    by_cases hg : g.option? = some option
    · -- the option is given here, and not once more behind it
      obtain ⟨given, hgiven, rfl⟩ := valued_of_option? hg
      have hnone : ∀ g' ∈ rest, g'.option? ≠ some option := h.not_again
      rw [given_foldl_of_forall_ne _ hnone, given_takeGroup_valued, Option.some.injEq]
      constructor
      · rintro rfl
        exact .inl ⟨hgiven, List.mem_cons_self⟩
      · rintro (⟨hvalue, hmem⟩ | ⟨hall, -⟩)
        · rcases List.mem_cons.mp hmem with heq | hmem
          · cases heq
            rfl
          · exact absurd rfl (hnone _ hmem)
        · exact absurd rfl (hall _ List.mem_cons_self)
    · have hmem : ∀ hvalue, OptionGroup.valued option value hvalue ∈ g :: rest ↔
          .valued option value hvalue ∈ rest := by
        intro hvalue
        rw [List.mem_cons, or_iff_right]
        rintro rfl
        exact hg rfl
      rw [ih _ hrest, given_takeGroup_of_ne args hg, List.forall_mem_cons]
      simp only [hmem, Ne, hg, not_false_eq_true, true_and]

/-- A flag is set if it stands among the options. -/
theorem has_line_iff (command : Option Command) (groups : List OptionGroup) (flag : Flag) :
    (read (line command groups)).has flag = true ↔ ∃ g ∈ groups, g.flag? = some flag := by
  have hunset : has { command := command.getD .generate } flag = false := by cases flag <;> rfl
  rw [read_line, has_foldl_takeGroup, hunset]
  simp

/-- An option has the value that it is given among the options. -/
theorem given_line_iff (command : Option Command) (h : AtMostOnce groups) (option : ValueOption)
    (value : String) :
    (read (line command groups)).given option = some value ↔
      ∃ hvalue, .valued option value hvalue ∈ groups := by
  have hunset : given { command := command.getD .generate } option = none := by
    cases option <;> rfl
  rw [read_line, given_foldl_takeGroup _ h, hunset]
  simp

/-- Arguments are equal if nothing that they tell differs. -/
theorem eq_of_tells {args args' : Arguments} (hcommand : args.command = args'.command)
    (hunknown : args.unknown = args'.unknown) (herrors : args.errors = args'.errors)
    (hhas : ∀ flag, args.has flag = args'.has flag)
    (hgiven : ∀ option, args.given option = args'.given option) : args = args' := by
  cases args
  cases args'
  simp only [mk.injEq]
  exact ⟨hcommand, hgiven .config, hgiven .ref, hhas .pretty, hhas .githubOutput, hhas .force,
    hhas .verbose, hhas .help, hhas .version, hunknown, herrors⟩

/-- What is read does not depend on the order of the options, or on flags that are repeated. -/
theorem read_line_rearranged (command : Option Command) (h : AtMostOnce groups)
    (hgroups : Rearranges groups groups') :
    read (line command groups') = read (line command groups) := by
  have h' : AtMostOnce groups' := hgroups.atMostOnce h
  have hrest := foldl_takeGroup_rest { command := command.getD .generate } groups
  have hrest' := foldl_takeGroup_rest { command := command.getD .generate } groups'
  rw [← read_line] at hrest hrest'
  refine eq_of_tells (hrest'.1.trans hrest.1.symm) (hrest'.2.1.trans hrest.2.1.symm)
    (hrest'.2.2.trans hrest.2.2.symm) (fun flag => ?_) (fun option => ?_)
  · rw [Bool.eq_iff_iff, has_line_iff, has_line_iff]
    exact hgroups.flag?_iff flag
  · refine Option.ext fun value => ?_
    rw [given_line_iff command h', given_line_iff command h]
    exact exists_congr fun hvalue => hgroups.mem_valued_iff

end Arguments

open OptionGroup in
/-- A command line of a command, or none, and options no value of which is given twice is read
without complaint, and what is read is what stands in it: the command, the flags and the values, as
they are.  In another order, and with flags repeated, the options are read as the same, so the run
is the same as well. -/
theorem run_rearranged (command : Option Command) {groups : List OptionGroup}
    (h : AtMostOnce groups) :
    let argv := Arguments.line command groups
    let args := Arguments.read argv
    args.unknown = [] ∧ args.errors = [] ∧ args.command = command.getD .generate ∧
    (∀ flag, args.has flag = true ↔ ∃ g ∈ groups, g.flag? = some flag) ∧
    (∀ value, args.config = some value ↔ ∃ hvalue, .valued .config value hvalue ∈ groups) ∧
    (∀ value, args.ref = some value ↔ ∃ hvalue, .valued .ref value hvalue ∈ groups) ∧
    ∀ groups', Rearranges groups groups' →
      Arguments.read (Arguments.line command groups') = args ∧
      ∀ (s : Surroundings) (files : Files),
        run s files (Arguments.line command groups') = run s files argv := by
  intro argv args
  have hrest := Arguments.foldl_takeGroup_rest { command := command.getD .generate } groups
  rw [← Arguments.read_line] at hrest
  obtain ⟨hcommand, hunknown, herrors⟩ := hrest
  refine ⟨hunknown, herrors, hcommand, Arguments.has_line_iff command groups,
    Arguments.given_line_iff command h .config, Arguments.given_line_iff command h .ref,
    fun groups' hgroups => ?_⟩
  have hread := Arguments.read_line_rearranged command h hgroups
  exact ⟨hread, fun s files => congrArg (Run.perform s files) hread⟩

open OptionGroup in
/-- What looks like a flag or a command is a value behind an option that takes one, wherever the
option stands, the first place included. -/
theorem run_rearranged_values :
    let groups : List OptionGroup :=
      [.valued .ref "show" (by decide), .valued .config "-h" (by decide),
        .alone .pretty "--pretty" (by decide)]
    let groups' : List OptionGroup :=
      [.alone .pretty "--pretty" (by decide), .valued .config "-h" (by decide),
        .alone .pretty "--pretty" (by decide), .valued .ref "show" (by decide)]
    let argv := ["--ref", "show", "--config", "-h", "--pretty"]
    let argv' := ["--pretty", "--config", "-h", "--pretty", "--ref", "show"]
    AtMostOnce groups ∧ Rearranges groups groups' ∧
      Arguments.line none groups = argv ∧ Arguments.line none groups' = argv' ∧
      Arguments.read argv' = { config := some "-h", ref := some "show", pretty := true } ∧
      ∀ (s : Surroundings) (files : Files), run s files argv' = run s files argv := by
  intro groups groups' argv argv'
  have honce : AtMostOnce groups := by decide
  have hrearranges : Rearranges groups groups' := by
    refine ⟨[.alone .pretty "--pretty" (by decide)], by decide, fun g hg => ?_⟩
    rw [List.mem_singleton.mp hg]
    exact ⟨.pretty, rfl, .alone .pretty "--pretty" (by decide), by decide, rfl⟩
  obtain ⟨-, -, -, -, -, -, hsame⟩ := run_rearranged none honce
  exact ⟨honce, hrearranges, rfl, rfl, by decide, (hsame groups' hrearranges).2⟩

end BuildMatrix
