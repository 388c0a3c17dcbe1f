import Mathlib.Data.List.Basic
import BuildMatrix.Arguments

/-!
# A command line is read place by place

The reader of the arguments goes through the tokens from left to right and takes a value off the
rest when an option asks for one.  What it makes of a token can be told without such a walk, from
the token and the two beside it: this is its `Role`.  Every field of the arguments is a sum over
the places of the command line and their roles (`read_positional`).

The proof follows the walk.  Reading on from arguments that are read already is `extend`, which
takes places one after the other (`extend_append`), and one step of the walk takes the place of its
token (`extend_cons`).  What carries the induction is that the next token is free, that is, neither
the command nor a value (`IsFree`).
-/

namespace BuildMatrix

/-- An option that stands alone. -/
inductive Flag where
  | help
  | version
  | pretty
  | githubOutput
  | force
  | verbose
deriving DecidableEq, Repr

namespace Flag

/-- The ways to type an option. -/
def spellings : Flag → List String
  | .help => ["--help", "-h"]
  | .version => ["--version", "-v"]
  | .pretty => ["--pretty"]
  | .githubOutput => ["--github-output"]
  | .force => ["--force"]
  | .verbose => ["--verbose"]

/-- The option that a token is. -/
def ofText? (token : String) : Option Flag :=
  [Flag.help, .version, .pretty, .githubOutput, .force, .verbose].find? (token ∈ ·.spellings)

end Flag

namespace Arguments

/-- Whether an option that stands alone is set. -/
def has (args : Arguments) : Flag → Bool
  | .help => args.help
  | .version => args.version
  | .pretty => args.pretty
  | .githubOutput => args.githubOutput
  | .force => args.force
  | .verbose => args.verbose

/-! ## Places and roles -/

/-- What a token of a command line is taken for. -/
inductive Role where
  | blank
  | command
  | value (option : ValueOption)
  | flag (flag : Flag)
  | valued (option : ValueOption)
  | unknown
deriving DecidableEq, Repr

/-- What a token is taken for where an option may stand. -/
def optionRole (token : String) : Role :=
  if token = "" then .blank
  else
    match ValueOption.ofText? token with
    | some option => .valued option
    | none => ((Flag.ofText? token).map Role.flag).getD .unknown

/-- What a token is taken for after another one, or at the start. -/
def roleAfter (before : Option String) (token : String) : Role :=
  match before with
  | none =>
    if token = "" ∨ token.toList.head? = some '-' then optionRole token else .command
  | some before =>
    match ValueOption.ofText? before with
    | none => optionRole token
    | some option => if isValue token then .value option else optionRole token

/-- A token of a command line with the tokens beside it. -/
structure Place where
  before : Option String
  token : String
  after : Option String
deriving DecidableEq, Repr

namespace Place

/-- What the token at a place is taken for. -/
def role (p : Place) : Role := roleAfter p.before p.token

/-- The value that follows a place. -/
def value? (p : Place) : Option String := p.after.filter isValue

/-- The command that is asked for at a place. -/
def command? (p : Place) : Option Command :=
  if p.role = .command then Command.ofWord? p.token else none

/-- What a place tells about the value of an option: nothing unless the option stands there, and
then the value that follows, if one does. -/
def setting? (option : ValueOption) (p : Place) : Option (Option String) :=
  if p.role = .valued option then some p.value? else none

/-- The token at a place that is not understood. -/
def unknown? (p : Place) : Option String :=
  if p.role = .unknown then some p.token else none

/-- What is wrong at a place. -/
def error? (p : Place) : Option ArgumentError :=
  match p.role with
  | .command => if Command.ofWord? p.token = none then some (.unknownCommand p.token) else none
  | .valued option => if p.value? = none then some (.missingValue option.text) else none
  | _ => none

end Place

/-- The place of a token. -/
def placeAt (argv : List String) (i : Fin argv.length) : Place where
  before := if (i : Nat) = 0 then none else argv[(i : Nat) - 1]?
  token := argv[i]
  after := argv[(i : Nat) + 1]?

/-- The places of a command line, in its order. -/
def places (argv : List String) : List Place := List.ofFn (placeAt argv)

/-- What the places tell about something: the last one that tells anything decides. -/
def lastOf {α : Type} (told : Place → Option α) (otherwise : α) (ps : List Place) : α :=
  ((ps.filterMap told).getLast?).getD otherwise

/-! ## Places along the walk -/

/-- The places of the tokens that follow a token. -/
def placesFrom (before : Option String) : List String → List Place
  | [] => []
  | token :: rest => ⟨before, token, rest.head?⟩ :: placesFrom (some token) rest

theorem getElem?_placesFrom (before : Option String) (tokens : List String) (i : Nat) :
    (placesFrom before tokens)[i]? = tokens[i]?.map fun token =>
      ⟨if i = 0 then before else tokens[i - 1]?, token, tokens[i + 1]?⟩ := by
  induction tokens generalizing before i with
  | nil => simp [placesFrom]
  | cons token rest ih =>
    cases i with
    | zero => simp [placesFrom, List.head?_eq_getElem?]
    | succ i =>
      rw [placesFrom, List.getElem?_cons_succ, ih]
      cases i <;> simp

theorem places_eq_placesFrom (argv : List String) : places argv = placesFrom none argv := by
  apply List.ext_getElem?
  intro i
  rw [getElem?_placesFrom, places, List.getElem?_ofFn]
  by_cases hi : i < argv.length
  · simp [hi, placeAt]
  · simp [hi]

/-! ## Reading on -/

/-- The arguments after the tokens at some places have been read as well. -/
def extend (args : Arguments) (ps : List Place) : Arguments where
  command := lastOf Place.command? args.command ps
  config := lastOf (Place.setting? .config) args.config ps
  ref := lastOf (Place.setting? .ref) args.ref ps
  pretty := args.pretty || ps.any (·.role = .flag .pretty)
  githubOutput := args.githubOutput || ps.any (·.role = .flag .githubOutput)
  force := args.force || ps.any (·.role = .flag .force)
  verbose := args.verbose || ps.any (·.role = .flag .verbose)
  help := args.help || ps.any (·.role = .flag .help)
  version := args.version || ps.any (·.role = .flag .version)
  unknown := args.unknown ++ ps.filterMap Place.unknown?
  errors := args.errors ++ ps.filterMap Place.error?

theorem lastOf_append {α : Type} (told : Place → Option α) (otherwise : α) (ps qs : List Place) :
    lastOf told otherwise (ps ++ qs) = lastOf told (lastOf told otherwise ps) qs := by
  simp only [lastOf, List.filterMap_append, List.getLast?_append]
  cases (qs.filterMap told).getLast? <;> rfl

theorem extend_nil (args : Arguments) : args.extend [] = args := by
  simp [extend, lastOf]

/-- Places are read one after the other. -/
theorem extend_append (args : Arguments) (ps qs : List Place) :
    args.extend (ps ++ qs) = (args.extend ps).extend qs := by
  simp only [extend, lastOf_append, List.any_append, List.filterMap_append, Bool.or_assoc,
    List.append_assoc]

theorem has_extend (args : Arguments) (ps : List Place) (flag : Flag) :
    (args.extend ps).has flag = (args.has flag || ps.any (·.role = .flag flag)) := by
  cases flag <;> rfl

/-- Sets an option that stands alone. -/
def raise (args : Arguments) : Flag → Arguments
  | .help => { args with help := true }
  | .version => { args with version := true }
  | .pretty => { args with pretty := true }
  | .githubOutput => { args with githubOutput := true }
  | .force => { args with force := true }
  | .verbose => { args with verbose := true }

/-- Takes the token at one place for what it is. -/
def take (args : Arguments) (p : Place) : Arguments :=
  match p.role with
  | .blank | .value _ => args
  | .command =>
    match Command.ofWord? p.token with
    | some command => { args with command }
    | none => { args with errors := args.errors ++ [.unknownCommand p.token] }
  | .flag flag => args.raise flag
  | .valued option =>
    match p.value? with
    | some value => args.setValue option (some value)
    | none => args.missValue option
  | .unknown => { args with unknown := args.unknown ++ [p.token] }

/-- Reading one place on is taking the token there for what it is. -/
theorem extend_singleton (args : Arguments) (p : Place) : args.extend [p] = args.take p := by
  have hcommand : Place.command? p = if p.role = .command then Command.ofWord? p.token else none :=
    rfl
  simp only [extend, lastOf, take, List.filterMap_cons, List.filterMap_nil, List.any_cons,
    List.any_nil, Place.setting?, Place.unknown?, Place.error?, hcommand]
  cases hrole : p.role with
  | blank => simp
  | value option => simp
  | command => cases hword : Command.ofWord? p.token <;> simp
  | flag flag => cases flag <;> simp [raise]
  | valued option => cases option <;> cases hvalue : p.value? <;> simp [setValue, missValue]
  | unknown => simp

theorem extend_cons (args : Arguments) (p : Place) (ps : List Place) :
    args.extend (p :: ps) = (args.take p).extend ps := by
  rw [← List.singleton_append, extend_append, extend_singleton]

/-! ## The walk -/

/-- A token that stands alone is nothing, an option that is known, or not understood. -/
theorem takeFlag_eq (args : Arguments) (token : String) :
    args.takeFlag token =
      if token = "" then args
      else
        match Flag.ofText? token with
        | some flag => args.raise flag
        | none => { args with unknown := args.unknown ++ [token] } := by
  unfold takeFlag
  split
  case h_10 =>
    have hnone : Flag.ofText? token = none := by simp_all [Flag.ofText?, Flag.spellings]
    simp_all
  all_goals rfl

/-- Where an option may stand, a token that asks for no value is taken for what it is. -/
theorem takeFlag_eq_take (args : Arguments) {p : Place} (hrole : p.role = optionRole p.token)
    (hoption : ValueOption.ofText? p.token = none) : args.takeFlag p.token = args.take p := by
  simp only [takeFlag_eq, take, hrole, optionRole, hoption]
  by_cases hblank : p.token = ""
  · simp [hblank]
  · cases hflag : Flag.ofText? p.token <;> simp [hblank]

theorem ofText?_eq_some {token : String} {option : ValueOption} :
    ValueOption.ofText? token = some option ↔ token = option.text := by
  constructor
  · unfold ValueOption.ofText?
    split
    · rintro ⟨⟩
      rfl
    · rintro ⟨⟩
      rfl
    · rintro ⟨⟩
  · rintro rfl
    cases option <;> rfl

/-- An option with a value is not a value. -/
theorem ofText?_of_isValue {token : String} (h : isValue token = true) :
    ValueOption.ofText? token = none := by
  cases hoption : ValueOption.ofText? token with
  | none => rfl
  | some option =>
    rw [ofText?_eq_some.mp hoption] at h
    cases option <;> exact absurd h (by decide)

theorem optionRole_of_ofText? {token : String} {option : ValueOption}
    (h : ValueOption.ofText? token = some option) : optionRole token = .valued option := by
  obtain rfl := ofText?_eq_some.mp h
  cases option <;> rfl

theorem take_valued (args : Arguments) {before after : Option String} {token : String}
    {option : ValueOption} (h : roleAfter before token = .valued option) :
    args.take ⟨before, token, after⟩ = match after.filter isValue with
      | some value => args.setValue option (some value)
      | none => args.missValue option := by
  simp only [take, Place.role, h]
  rfl

theorem take_of_value (args : Arguments) {p : Place} {option : ValueOption}
    (h : p.role = .value option) : args.take p = args := by
  rw [take, h]

/-- The next token is neither the command nor the value of an option. -/
def IsFree (before : Option String) (tokens : List String) : Prop :=
  ∀ token ∈ tokens.head?, roleAfter before token = optionRole token

theorem isFree_of_ofText? {before : String} (h : ValueOption.ofText? before = none)
    (tokens : List String) : IsFree (some before) tokens := by
  intro token _
  rw [roleAfter, h]

/-- The walk takes every token for what it is at its place. -/
theorem readOptions_eq_extend (args : Arguments) (before : Option String) (tokens : List String)
    (h : IsFree before tokens) :
    readOptions args tokens = args.extend (placesFrom before tokens) := by
  fun_induction readOptions args tokens generalizing before with
  | case1 args => rw [placesFrom, extend_nil]
  | case2 args token rest hoption ih =>
    -- a token without a value: the one after it is free
    have hrole : roleAfter before token = optionRole token := h token rfl
    rw [placesFrom, extend_cons, ih _ (isFree_of_ofText? hoption rest)]
    exact congrArg (extend · _)
      (takeFlag_eq_take args (p := ⟨before, token, rest.head?⟩) hrole hoption)
  | case3 args token option hoption =>
    have hrole := (h token rfl).trans (optionRole_of_ofText? hoption)
    rw [placesFrom, placesFrom, extend_singleton, take_valued args hrole]
    rfl
  | case4 args token option hoption value tail hvalue ih =>
    have hrole := (h token rfl).trans (optionRole_of_ofText? hoption)
    have hused : Place.role ⟨some token, value, tail.head?⟩ = .value option := by
      rw [Place.role, roleAfter, hoption]
      exact if_pos hvalue
    have hgiven : Option.filter isValue (some value) = some value := Option.filter_some_pos hvalue
    rw [placesFrom, placesFrom, extend_cons, extend_cons, List.head?_cons, take_valued args hrole,
      hgiven, take_of_value _ hused]
    exact ih _ (isFree_of_ofText? (ofText?_of_isValue hvalue) tail)
  | case5 args token option hoption value tail hvalue ih =>
    -- the token stays where it is, and is free although it follows an option with a value
    have hrole := (h token rfl).trans (optionRole_of_ofText? hoption)
    have hfree : IsFree (some token) (value :: tail) := by
      rintro _ ⟨⟩
      rw [roleAfter, hoption]
      exact if_neg hvalue
    have hmissing : Option.filter isValue (some value) = none :=
      Option.filter_some_neg (by simpa using hvalue)
    rw [placesFrom, extend_cons, List.head?_cons, take_valued args hrole, hmissing]
    exact ih _ hfree

/-! ## Whole command lines -/

theorem ofText?_of_isWord {token : String} (h : token.toList.head? ≠ some '-') :
    ValueOption.ofText? token = none := by
  cases hoption : ValueOption.ofText? token with
  | none => rfl
  | some option =>
    rw [ofText?_eq_some.mp hoption] at h
    cases option <;> exact absurd rfl h

/-- Reading a command line is taking every token for what it is at its place. -/
theorem read_eq_extend (argv : List String) : read argv = extend {} (places argv) := by
  rw [places_eq_placesFrom]
  cases argv with
  | nil => rfl
  | cons first rest =>
    rw [read]
    split
    · rename_i hoption
      refine readOptions_eq_extend {} none _ ?_
      rintro _ ⟨⟩
      exact if_pos hoption
    · rename_i hword
      have hrole : roleAfter none first = .command := if_neg hword
      obtain ⟨-, hhead⟩ := not_or.mp hword
      have hfree : IsFree (some first) rest := isFree_of_ofText? (ofText?_of_isWord hhead) rest
      rw [placesFrom, extend_cons, take]
      simp only [Place.role, hrole]
      cases hcommand : Command.ofWord? first with
      | none => exact readOptions_eq_extend _ _ _ hfree
      | some command => exact readOptions_eq_extend _ _ _ hfree

/-! ## Roles, told from the tokens -/

theorem isValue_iff {token : String} :
    isValue token = true ↔ token ≠ "" ∧ ¬ "--".toList <+: token.toList := by
  rw [isValue, Bool.and_eq_true, bne_iff_ne, Bool.not_eq_true', ← Bool.not_eq_true,
    List.isPrefixOf_iff_prefix]

theorem mem_spellings_iff {token : String} {flag : Flag} :
    token ∈ flag.spellings ↔ Flag.ofText? token = some flag := by
  have hall : ∀ spelling ∈ flag.spellings, Flag.ofText? spelling = some flag := by
    cases flag <;> decide
  refine ⟨hall token, fun h => ?_⟩
  simpa using List.find?_some h

/-- The ways in which a token is taken where an option may stand. -/
theorem optionRole_cases (token : String) :
    (token = "" ∧ optionRole token = .blank) ∨
    (∃ option, token = option.text ∧ optionRole token = .valued option) ∨
    (∃ flag, token ∈ flag.spellings ∧ optionRole token = .flag flag) ∨
    (token ≠ "" ∧ (∀ option, token ≠ ValueOption.text option) ∧
      (∀ flag, token ∉ Flag.spellings flag) ∧
      optionRole token = .unknown) := by
  by_cases hblank : token = ""
  · exact .inl ⟨hblank, if_pos hblank⟩
  cases hoption : ValueOption.ofText? token with
  | some option =>
    exact .inr (.inl ⟨option, ofText?_eq_some.mp hoption, optionRole_of_ofText? hoption⟩)
  | none =>
    have hvalued : ∀ option : ValueOption, token ≠ option.text := by
      intro option htext
      rw [ofText?_eq_some.mpr htext] at hoption
      cases hoption
    cases hflag : Flag.ofText? token with
    | some flag =>
      refine .inr (.inr (.inl ⟨flag, mem_spellings_iff.mpr hflag, ?_⟩))
      simp [optionRole, hblank, hoption, hflag]
    | none =>
      refine .inr (.inr (.inr ⟨hblank, hvalued, fun flag hmem => ?_, ?_⟩))
      · rw [mem_spellings_iff.mp hmem] at hflag
        cases hflag
      · simp [optionRole, hblank, hoption, hflag]

section

variable (argv : List String) (i : Fin argv.length)

/-- The token at a place asks for a command: it comes first and is no option. -/
def IsCommandAt : Prop :=
  (i : ℕ) = 0 ∧ argv[i] ≠ "" ∧ argv[i].toList.head? ≠ some '-'

/-- The token at a place is the value of the option before it. -/
def IsValueAt (option : ValueOption) : Prop :=
  (∃ j, j + 1 = (i : ℕ) ∧ argv[j]? = some option.text) ∧
    argv[i] ≠ "" ∧ ¬ "--".toList <+: argv[i].toList

/-- The token at a place is an option: it is not blank, not the command and not a value. -/
def IsOptionAt : Prop :=
  argv[i] ≠ "" ∧ ¬ IsCommandAt argv i ∧ ∀ option, ¬ IsValueAt argv i option

/-- The token at a place is the command, a value, or taken as where an option may stand. -/
theorem role_placeAt_cases :
    (IsCommandAt argv i ∧ (placeAt argv i).role = .command) ∨
    (∃ option, IsValueAt argv i option ∧ (placeAt argv i).role = .value option) ∨
    (¬ IsCommandAt argv i ∧ (∀ option, ¬ IsValueAt argv i option) ∧
      (placeAt argv i).role = optionRole argv[i]) := by
  by_cases hi : (i : ℕ) = 0
  · have hvalue : ∀ option, ¬ IsValueAt argv i option := by
      rintro option ⟨⟨j, hj, -⟩, -⟩
      omega
    have hrole : (placeAt argv i).role =
        if argv[i] = "" ∨ argv[i].toList.head? = some '-' then optionRole argv[i]
        else .command := by
      simp only [Place.role, placeAt, roleAfter, hi, if_true]
    by_cases hoption : argv[i] = "" ∨ argv[i].toList.head? = some '-'
    · refine .inr (.inr ⟨?_, hvalue, hrole.trans (if_pos hoption)⟩)
      rintro ⟨-, hne, hhead⟩
      exact hoption.elim hne hhead
    · exact .inl ⟨⟨hi, not_or.mp hoption⟩, hrole.trans (if_neg hoption)⟩
  · obtain ⟨j, hj⟩ := Nat.exists_eq_succ_of_ne_zero hi
    have hlt : j < argv.length := by omega
    have hcommand : ¬ IsCommandAt argv i := fun h => hi h.1
    have hrole : (placeAt argv i).role = roleAfter (some argv[j]) argv[i] := by
      simp [Place.role, placeAt, hj, hlt]
    have hvalue : ∀ option, IsValueAt argv i option ↔
        ValueOption.ofText? argv[j] = some option ∧ isValue argv[i] = true := by
      intro option
      rw [isValue_iff, ofText?_eq_some, IsValueAt]
      refine and_congr_left fun _ => ⟨?_, fun h => ⟨j, hj.symm, by simp [hlt, h]⟩⟩
      rintro ⟨k, hk, htext⟩
      obtain rfl : k = j := by omega
      simpa [hlt] using htext
    cases hoption : ValueOption.ofText? argv[j] with
    | none =>
      refine .inr (.inr ⟨hcommand, fun option h => ?_, ?_⟩)
      · rw [((hvalue option).mp h).1] at hoption
        cases hoption
      · rw [hrole, roleAfter, hoption]
    | some option =>
      by_cases hv : isValue argv[i] = true
      · refine .inr (.inl ⟨option, (hvalue option).mpr ⟨hoption, hv⟩, ?_⟩)
        rw [hrole, roleAfter, hoption]
        exact if_pos hv
      · refine .inr (.inr ⟨hcommand, fun option' h => hv ((hvalue option').mp h).2, ?_⟩)
        rw [hrole, roleAfter, hoption]
        exact if_neg hv

/-- What it is for the token at a place to be taken for something. -/
def IsTakenFor : Role → Prop
  | .blank => argv[i] = ""
  | .command => IsCommandAt argv i
  | .value option => IsValueAt argv i option
  | .flag flag => IsOptionAt argv i ∧ argv[i] ∈ flag.spellings
  | .valued option => IsOptionAt argv i ∧ argv[i] = option.text
  | .unknown =>
    IsOptionAt argv i ∧ (∀ option : ValueOption, argv[i] ≠ option.text) ∧
      ∀ flag : Flag, argv[i] ∉ flag.spellings

theorem isTakenFor_role : IsTakenFor argv i (placeAt argv i).role := by
  rcases role_placeAt_cases argv i with ⟨h, hrole⟩ | ⟨option, h, hrole⟩ | ⟨hc, hv, hrole⟩
  · rw [hrole]
    exact h
  · rw [hrole]
    exact h
  · rcases optionRole_cases argv[i] with
      ⟨h, hr⟩ | ⟨option, h, hr⟩ | ⟨flag, h, hr⟩ | ⟨hne, hoption, hflag, hr⟩
    · rw [hrole, hr]
      exact h
    · rw [hrole, hr]
      refine ⟨⟨?_, hc, hv⟩, h⟩
      rw [h]
      cases option <;> decide
    · rw [hrole, hr]
      refine ⟨⟨?_, hc, hv⟩, h⟩
      rintro hblank
      rw [hblank] at h
      cases flag <;> exact absurd h (by decide)
    · rw [hrole, hr]
      exact ⟨⟨hne, hc, hv⟩, hoption, hflag⟩

theorem IsOptionAt.role_eq (h : IsOptionAt argv i) :
    (placeAt argv i).role = optionRole argv[i] := by
  rcases role_placeAt_cases argv i with ⟨hc, -⟩ | ⟨option, hv, -⟩ | ⟨-, -, hrole⟩
  · exact absurd hc h.2.1
  · exact absurd hv (h.2.2 option)
  · exact hrole

/-- The token at a place is taken for one thing only. -/
theorem IsTakenFor.role_eq {role : Role} (h : IsTakenFor argv i role) :
    (placeAt argv i).role = role := by
  cases role with
  | blank =>
    rcases role_placeAt_cases argv i with ⟨hc, -⟩ | ⟨option, hv, -⟩ | ⟨-, -, hrole⟩
    · exact absurd h hc.2.1
    · exact absurd h hv.2.1
    · exact hrole.trans (if_pos h)
  | command =>
    rcases role_placeAt_cases argv i with ⟨-, hrole⟩ | ⟨option, ⟨⟨j, hj, -⟩, -⟩, -⟩ | ⟨hc, -⟩
    · exact hrole
    · exact absurd h.1 (by omega)
    · exact absurd h hc
  | value option =>
    rcases role_placeAt_cases argv i with ⟨hc, -⟩ | ⟨option', hv, hrole⟩ | ⟨-, hv, -⟩
    · obtain ⟨⟨j, hj, -⟩, -⟩ := h
      exact absurd hc.1 (by omega)
    · obtain ⟨⟨j, hj, htext⟩, -⟩ := h
      obtain ⟨⟨k, hk, htext'⟩, -⟩ := hv
      obtain rfl : j = k := by omega
      rw [htext] at htext'
      have hsame := ofText?_eq_some.mpr (Option.some.inj htext')
      rw [ofText?_eq_some.mpr rfl] at hsame
      rw [hrole, Option.some.inj hsame]
    · exact absurd h (hv option)
  | valued option =>
    rw [IsOptionAt.role_eq argv i h.1]
    exact optionRole_of_ofText? (ofText?_eq_some.mpr h.2)
  | flag flag =>
    have hall : ∀ spelling ∈ flag.spellings, optionRole spelling = .flag flag := by
      cases flag <;> decide
    rw [IsOptionAt.role_eq argv i h.1]
    exact hall _ h.2
  | unknown =>
    rw [IsOptionAt.role_eq argv i h.1]
    rcases optionRole_cases argv[i] with
      ⟨hblank, -⟩ | ⟨option, hoption, -⟩ | ⟨flag, hflag, -⟩ | ⟨-, -, -, hrole⟩
    · exact absurd hblank h.1.1
    · exact absurd hoption (h.2.1 option)
    · exact absurd hflag (h.2.2 flag)
    · exact hrole

theorem role_eq_iff {role : Role} : (placeAt argv i).role = role ↔ IsTakenFor argv i role := by
  refine ⟨?_, IsTakenFor.role_eq argv i⟩
  rintro rfl
  exact isTakenFor_role argv i

end

/-- Where an option with a value is typed, it is taken for that option. -/
theorem role_of_text {argv : List String} {i : Fin argv.length} {option : ValueOption}
    (h : argv[i] = option.text) : (placeAt argv i).role = .valued option := by
  refine IsTakenFor.role_eq argv i ⟨⟨?_, ?_, ?_⟩, h⟩
  · rw [h]
    cases option <;> decide
  · rintro ⟨-, -, hhead⟩
    rw [h] at hhead
    cases option <;> exact hhead rfl
  · rintro option' ⟨-, -, hhyphens⟩
    rw [h] at hhyphens
    cases option <;> exact absurd hhyphens (by decide)

/-- The value that an option is given is the next token, and that is taken for its value. -/
theorem setting?_placeAt_iff (argv : List String) (i : Fin argv.length) (option : ValueOption)
    (value : String) :
    (placeAt argv i).setting? option = some (some value) ↔
      argv[i] = option.text ∧ ∃ k : Fin argv.length, (k : ℕ) = i + 1 ∧ argv[k] = value ∧
        (placeAt argv k).role = .value option := by
  have hvalue : (placeAt argv i).value? = some value ↔
      argv[(i : ℕ) + 1]? = some value ∧ isValue value = true := Option.filter_eq_some_iff
  have hsetting : (placeAt argv i).setting? option = some (some value) ↔
      (placeAt argv i).role = .valued option ∧ (placeAt argv i).value? = some value := by
    simp [Place.setting?]
  rw [hsetting, hvalue, isValue_iff]
  constructor
  · rintro ⟨hrole, hnext, hgood⟩
    obtain ⟨-, htext⟩ := (role_eq_iff argv i).mp hrole
    obtain ⟨hlt, hget⟩ := List.getElem?_eq_some_iff.mp hnext
    refine ⟨htext, ⟨i + 1, hlt⟩, rfl, hget, IsTakenFor.role_eq argv _ ⟨⟨i, rfl, ?_⟩, ?_⟩⟩
    · rw [← htext]
      exact List.getElem?_eq_getElem i.isLt
    · rw [← hget] at hgood
      exact hgood
  · rintro ⟨htext, k, hk, rfl, hrole⟩
    obtain ⟨-, hgood⟩ := (role_eq_iff argv k).mp hrole
    refine ⟨role_of_text htext, ?_, hgood⟩
    rw [← hk]
    exact List.getElem?_eq_getElem k.isLt

/-- The text of what is wrong at a place. -/
def Place.complaint? (p : Place) : Option String :=
  match p.role with
  | .command =>
    if p.token ∈ ["generate", "show", "init"] then none else some ("Unknown command: " ++ p.token)
  | .valued _ => if p.value? = none then some ("Missing value for " ++ p.token) else none
  | _ => none

theorem ofWord?_eq_none_iff {word : String} :
    Command.ofWord? word = none ↔ word ∉ ["generate", "show", "init"] := by
  rw [Command.ofWord?, List.find?_eq_none]
  simp [Command.word, @eq_comm _ word]

theorem map_message_error? (argv : List String) (i : Fin argv.length) :
    (placeAt argv i).error?.map ArgumentError.message = (placeAt argv i).complaint? := by
  have htaken := isTakenFor_role argv i
  unfold Place.error? Place.complaint?
  cases hrole : (placeAt argv i).role with
  | command =>
    simp only [ofWord?_eq_none_iff]
    by_cases hword : (placeAt argv i).token ∈ ["generate", "show", "init"]
    · rw [if_neg (not_not.mpr hword), if_pos hword]
      rfl
    · rw [if_pos hword, if_neg hword]
      rfl
  | valued option =>
    rw [hrole] at htaken
    have htext : (placeAt argv i).token = option.text := htaken.2
    by_cases hvalue : (placeAt argv i).value? = none
    · simp only [hvalue, if_true, htext]
      rfl
    · simp only [hvalue, if_false]
      rfl
  | blank => rfl
  | value option => rfl
  | flag flag => rfl
  | unknown => rfl

/-- Every token of a command line is taken for one thing, which is decided by the token and the
one before it, and what is read is what the places tell one by one. -/
theorem read_positional (argv : List String) :
    (places argv).map Place.token = argv ∧
    (∀ i : Fin argv.length, (places argv)[(i : ℕ)]? = some (placeAt argv i) ∧
      (∀ role, (placeAt argv i).role = role ↔ IsTakenFor argv i role) ∧
      ∀ option value, (placeAt argv i).setting? option = some (some value) ↔
        argv[i] = option.text ∧ ∃ k : Fin argv.length, (k : ℕ) = i + 1 ∧ argv[k] = value ∧
          (placeAt argv k).role = .value option) ∧
    (read argv).command = lastOf Place.command? .generate (places argv) ∧
    (∀ flag, (read argv).has flag = true ↔ ∃ p ∈ places argv, p.role = .flag flag) ∧
    (read argv).config = lastOf (Place.setting? .config) none (places argv) ∧
    (read argv).ref = lastOf (Place.setting? .ref) none (places argv) ∧
    (read argv).unknown = (places argv).filterMap Place.unknown? ∧
    (read argv).errors = (places argv).filterMap Place.error? ∧
    (read argv).errors.map ArgumentError.message = (places argv).filterMap Place.complaint? := by
  have hmessages : ∀ p ∈ places argv, p.error?.map ArgumentError.message = p.complaint? := by
    intro p hp
    obtain ⟨i, rfl⟩ := List.mem_ofFn.mp hp
    exact map_message_error? argv i
  refine ⟨?_, fun i => ⟨?_, fun role => role_eq_iff argv i, setting?_placeAt_iff argv i⟩, ?_⟩
  · simp [places, List.map_ofFn, Function.comp_def, placeAt]
  · simp [places]
  rw [read_eq_extend]
  refine ⟨rfl, fun flag => ?_, rfl, rfl, rfl, rfl, ?_⟩
  · have hunset : has {} flag = false := by cases flag <;> rfl
    rw [has_extend, hunset, Bool.false_or, List.any_eq_true]
    simp
  · have herrors : (extend {} (places argv)).errors = (places argv).filterMap Place.error? := rfl
    rw [herrors, List.map_filterMap]
    exact List.filterMap_congr hmessages

/-- An option whose value is missing gives up its place, and a value may start with one hyphen. -/
example : (places ["show", "--config", "--ref", "-x", "", "-v"]).map Place.role =
    [.command, .valued .config, .valued .ref, .value .ref, .blank, .flag .version] := by
  decide

end Arguments

end BuildMatrix
