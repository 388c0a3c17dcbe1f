import BuildMatrix.Proofs.Arguments.Positional

/-!
# Options that are put into a command line

A new option may begin wherever the token that follows is neither the command nor a value
(`MayBegin`).  There a command line falls into two parts that are read one after the other
(`read_append`), and what the option sets first makes no difference to the tokens behind it: an
option that stands alone raises its flag and changes nothing else (`read_insertAt_flag`), and an
option with a value changes that value at most (`read_insertAt_valued`).
-/

namespace BuildMatrix.Arguments

variable {argv front back xs ys : List String} {i : Nat}

/-- A new option may begin at a place of a command line, or behind its end: the token there is
neither the command nor a value. -/
def MayBegin (argv : List String) (i : Nat) : Prop :=
  ∀ k : Fin argv.length, (k : ℕ) = i →
    ¬ IsCommandAt argv k ∧ ∀ option, ¬ IsValueAt argv k option

/-- A command line with tokens put in at a place. -/
def insertAt (argv : List String) (i : Nat) (tokens : List String) : List String :=
  argv.take i ++ (tokens ++ argv.drop i)

/-! ## Steps of the walk -/

section

variable (args : Arguments) {token : String} {option : ValueOption}

/-- A token that asks for no value is taken alone. -/
theorem readOptions_flag (h : ValueOption.ofText? token = none) (rest : List String) :
    readOptions args (token :: rest) = readOptions (args.takeFlag token) rest := by
  rw [readOptions, h]

/-- An option takes the value behind it. -/
theorem readOptions_given (h : ValueOption.ofText? token = some option) {value : String}
    (hvalue : isValue value = true) (tail : List String) :
    readOptions args (token :: value :: tail) =
      readOptions (args.setValue option (some value)) tail := by
  rw [readOptions, h]
  exact if_pos hvalue

/-- An option without a value behind it is noted. -/
theorem readOptions_missing (h : ValueOption.ofText? token = some option) {rest : List String}
    (hrest : ∀ value ∈ rest.head?, isValue value = false) :
    readOptions args (token :: rest) = readOptions (args.missValue option) rest := by
  rw [readOptions, h]
  cases rest with
  | nil => rfl
  | cons value tail =>
    refine if_neg ?_
    rw [hrest value rfl]
    exact Bool.false_ne_true

end

/-! ## Two parts of a command line -/

/-- No value stands at the front of the second part for an option at the end of the first one. -/
def AreApart (xs ys : List String) : Prop :=
  ∀ option : ValueOption, xs.getLast? = some option.text → ∀ value ∈ ys.head?, isValue value = false

theorem AreApart.of_cons {token : String} (h : AreApart (token :: xs) ys) : AreApart xs ys := by
  intro option hlast
  refine h option ?_
  rw [List.getLast?_cons, hlast]
  rfl

/-- The options of two parts that are apart are read one part after the other. -/
theorem readOptions_append (args : Arguments) (h : AreApart xs ys) :
    readOptions args (xs ++ ys) = readOptions (readOptions args xs) ys := by
  fun_induction readOptions args xs with
  | case1 args => rfl
  | case2 args token rest hoption ih =>
    rw [List.cons_append, readOptions_flag args hoption]
    exact ih h.of_cons
  | case3 args token option hoption =>
    have hlast : [token].getLast? = some option.text := congrArg some (ofText?_eq_some.mp hoption)
    exact readOptions_missing args hoption (h option hlast)
  | case4 args token option hoption value tail hvalue ih =>
    rw [List.cons_append, List.cons_append, readOptions_given args hoption hvalue]
    exact ih h.of_cons.of_cons
  | case5 args token option hoption value tail hvalue ih =>
    rw [List.cons_append, readOptions_missing args hoption (by simpa using hvalue)]
    exact ih h.of_cons

theorem optionRole_ne_value (token : String) (option : ValueOption) :
    optionRole token ≠ .value option := by
  rcases optionRole_cases token with ⟨-, h⟩ | ⟨_, -, h⟩ | ⟨_, -, h⟩ | ⟨-, -, -, h⟩ <;> simp [h]

theorem optionRole_ne_command (token : String) : optionRole token ≠ .command := by
  rcases optionRole_cases token with ⟨-, h⟩ | ⟨_, -, h⟩ | ⟨_, -, h⟩ | ⟨-, -, -, h⟩ <;> simp [h]

theorem IsFree.areApart (h : IsFree xs.getLast? ys) : AreApart xs ys := by
  intro option hlast value hvalue
  have hrole := h value hvalue
  rw [hlast, roleAfter, ofText?_eq_some.mpr rfl] at hrole
  by_contra hgood
  rw [Bool.not_eq_false] at hgood
  exact optionRole_ne_value value option (hrole.symm.trans (if_pos hgood))

/-- A command line is read one part after the other if the second one starts with a token that is
neither the command nor a value. -/
theorem read_append (h : IsFree front.getLast? back) :
    read (front ++ back) = readOptions (read front) back := by
  have hapart := h.areApart
  cases front with
  | nil =>
    cases back with
    | nil => rfl
    | cons token rest =>
      have hrole : roleAfter none token = optionRole token := h token rfl
      refine if_pos ?_
      by_contra hword
      rw [roleAfter, if_neg hword] at hrole
      exact optionRole_ne_command token hrole.symm
  | cons first rest =>
    rw [List.cons_append, read, read]
    split
    · exact readOptions_append {} hapart
    · cases Command.ofWord? first with
      | none => exact readOptions_append _ hapart.of_cons
      | some command => exact readOptions_append _ hapart.of_cons

/-- Tokens that start with two hyphens are free wherever they stand. -/
theorem isFree_of_hyphens {token : String} (h : "--".toList <+: token.toList)
    (before : Option String) (rest : List String) : IsFree before (token :: rest) := by
  rintro _ ⟨⟩
  cases before with
  | none =>
    obtain ⟨cs, hcs⟩ := h
    exact if_pos (.inr (by rw [← hcs]; rfl))
  | some before =>
    rw [roleAfter]
    cases ValueOption.ofText? before with
    | none => rfl
    | some option => exact if_neg fun hvalue => (isValue_iff.mp hvalue).2 h

theorem getLast?_take_placeAt (k : Fin argv.length) :
    (argv.take k).getLast? = (placeAt argv k).before := by
  rw [List.getLast?_take, placeAt]
  split
  · rfl
  · rw [List.getElem?_eq_getElem (by omega)]
    rfl

/-- An option may begin where the tokens on both sides say so. -/
theorem mayBegin_iff : MayBegin argv i ↔ IsFree (argv.take i).getLast? (argv.drop i) := by
  constructor
  · intro h token htoken
    rw [List.head?_drop] at htoken
    obtain ⟨hi, rfl⟩ := List.getElem?_eq_some_iff.mp htoken
    obtain ⟨hcommand, hvalue⟩ := h ⟨i, hi⟩ rfl
    rw [getLast?_take_placeAt ⟨i, hi⟩]
    rcases role_placeAt_cases argv ⟨i, hi⟩ with ⟨hc, -⟩ | ⟨option, hv, -⟩ | ⟨-, -, hrole⟩
    · exact absurd hc hcommand
    · exact absurd hv (hvalue option)
    · exact hrole
  · rintro h k rfl
    have hrole : (placeAt argv k).role = optionRole argv[k] := by
      have hnext := h argv[k] (by rw [List.head?_drop]; exact List.getElem?_eq_getElem k.isLt)
      rwa [getLast?_take_placeAt] at hnext
    refine ⟨fun hc => ?_, fun option hv => ?_⟩
    · exact optionRole_ne_command _ (hrole.symm.trans (IsTakenFor.role_eq argv k hc))
    · exact optionRole_ne_value _ option (hrole.symm.trans (IsTakenFor.role_eq argv k hv))

instance (before : Option String) (tokens : List String) : Decidable (IsFree before tokens) :=
  inferInstanceAs (Decidable (∀ token ∈ tokens.head?, _))

instance : Decidable (MayBegin argv i) := decidable_of_iff' _ mayBegin_iff

/-- What is put in is read between the two parts of the command line. -/
theorem read_insertAt (argv : List String) (i : Nat) {token : String}
    (hhyphens : "--".toList <+: token.toList) {rest : List String} :
    read (insertAt argv i (token :: rest)) =
      readOptions (read (argv.take i)) (token :: rest ++ argv.drop i) :=
  read_append (isFree_of_hyphens hhyphens _ _)

theorem read_eq_parts (h : MayBegin argv i) :
    read argv = readOptions (read (argv.take i)) (argv.drop i) := by
  rw [← read_append (mayBegin_iff.mp h), List.take_append_drop]

/-! ## An option that stands alone -/

theorem takeFlag_raise (args : Arguments) (flag : Flag) (token : String) :
    (args.raise flag).takeFlag token = (args.takeFlag token).raise flag := by
  simp only [takeFlag_eq]
  split
  · rfl
  · cases Flag.ofText? token with
    | none => cases flag <;> rfl
    | some other => cases flag <;> cases other <;> rfl

theorem setValue_raise (args : Arguments) (flag : Flag) (option : ValueOption)
    (value : Option String) :
    (args.raise flag).setValue option value = (args.setValue option value).raise flag := by
  cases flag <;> cases option <;> rfl

theorem missValue_raise (args : Arguments) (flag : Flag) (option : ValueOption) :
    (args.raise flag).missValue option = (args.missValue option).raise flag := by
  cases flag <;> cases option <;> rfl

/-- A flag that is set makes no difference to how the tokens behind it are read. -/
theorem readOptions_raise (args : Arguments) (flag : Flag) (tokens : List String) :
    readOptions (args.raise flag) tokens = (readOptions args tokens).raise flag := by
  fun_induction readOptions args tokens with
  | case1 args => rfl
  | case2 args token rest hoption ih => rw [readOptions_flag _ hoption, takeFlag_raise, ih]
  | case3 args token option hoption =>
    rw [readOptions_missing _ hoption (by simp), missValue_raise]
    rfl
  | case4 args token option hoption value tail hvalue ih =>
    rw [readOptions_given _ hoption hvalue, setValue_raise, ih]
  | case5 args token option hoption value tail hvalue ih =>
    rw [readOptions_missing _ hoption (by simpa using hvalue), missValue_raise, ih]

/-- A spelling of a flag raises it. -/
theorem takeFlag_of_mem_spellings (args : Arguments) {flag : Flag} {token : String}
    (h : token ∈ flag.spellings) : args.takeFlag token = args.raise flag := by
  have hne : token ≠ "" := by
    rintro rfl
    cases flag <;> exact absurd h (by decide)
  rw [takeFlag_eq, if_neg hne, mem_spellings_iff.mp h]

/-- A spelling of a flag asks for no value. -/
theorem ofText?_of_mem_spellings {flag : Flag} {token : String} (h : token ∈ flag.spellings) :
    ValueOption.ofText? token = none := by
  refine Option.eq_none_iff_forall_ne_some.mpr fun option hoption => ?_
  rw [ofText?_eq_some.mp hoption] at h
  cases option <;> cases flag <;> exact absurd h (by decide)

/-- An option that stands alone raises its flag and changes nothing else. -/
theorem read_insertAt_flag (h : MayBegin argv i) {flag : Flag} {token : String}
    (htoken : token ∈ flag.spellings) (hhyphens : "--".toList <+: token.toList) :
    read (insertAt argv i [token]) = (read argv).raise flag := by
  have htake := fun args : Arguments => takeFlag_of_mem_spellings args htoken
  have hoption := ofText?_of_mem_spellings htoken
  calc read (insertAt argv i [token])
      = readOptions (read (argv.take i)) (token :: argv.drop i) := read_insertAt argv i hhyphens
    _ = readOptions ((read (argv.take i)).raise flag) (argv.drop i) := by
      rw [readOptions_flag _ hoption, htake]
    _ = (read argv).raise flag := by rw [readOptions_raise, ← read_eq_parts h]

/-! ## An option with a value -/

/-- Arguments that differ in the value of an option at most. -/
def AlikeBut (option : ValueOption) (args args' : Arguments) : Prop :=
  args.setValue option none = args'.setValue option none

section

variable {option : ValueOption} {args args' : Arguments}

theorem alikeBut_setValue (args : Arguments) (option : ValueOption) (value : Option String) :
    AlikeBut option (args.setValue option value) args := by
  cases option <;> rfl

theorem AlikeBut.takeFlag (h : AlikeBut option args args') (token : String) :
    AlikeBut option (args.takeFlag token) (args'.takeFlag token) := by
  have hforget : ∀ a : Arguments,
      (a.takeFlag token).setValue option none = (a.setValue option none).takeFlag token := by
    intro a
    simp only [takeFlag_eq]
    split
    · rfl
    · cases Flag.ofText? token with
      | none => cases option <;> rfl
      | some flag => cases flag <;> cases option <;> rfl
  rw [AlikeBut, hforget, hforget, h]

theorem AlikeBut.setValue (h : AlikeBut option args args') (other : ValueOption)
    (value : Option String) : AlikeBut option (args.setValue other value)
      (args'.setValue other value) := by
  have hforget : ∀ a : Arguments, (a.setValue other value).setValue option none =
      ((a.setValue option none).setValue other value).setValue option none := by
    intro a
    cases option <;> cases other <;> rfl
  rw [AlikeBut, hforget, hforget args', h]

theorem AlikeBut.missValue (h : AlikeBut option args args') (other : ValueOption) :
    AlikeBut option (args.missValue other) (args'.missValue other) := by
  have hforget : ∀ a : Arguments, (a.missValue other).setValue option none =
      ((a.setValue option none).missValue other).setValue option none := by
    intro a
    cases option <;> cases other <;> rfl
  rw [AlikeBut, hforget, hforget args', h]

/-- The value of an option that is set makes no difference to how the tokens behind it are read, but
for that value. -/
theorem AlikeBut.readOptions (h : AlikeBut option args args') (tokens : List String) :
    AlikeBut option (args.readOptions tokens) (args'.readOptions tokens) := by
  fun_induction Arguments.readOptions args tokens generalizing args' with
  | case1 args => exact h
  | case2 args token rest hoption ih =>
    rw [readOptions_flag _ hoption]
    exact ih (h.takeFlag token)
  | case3 args token other hoption =>
    rw [readOptions_missing _ hoption (by simp)]
    exact h.missValue other
  | case4 args token other hoption value tail hvalue ih =>
    rw [readOptions_given _ hoption hvalue]
    exact ih (h.setValue other _)
  | case5 args token other hoption value tail hvalue ih =>
    rw [readOptions_missing _ hoption (by simpa using hvalue)]
    exact ih (h.missValue other)

end

/-- An option with a value changes that value at most. -/
theorem read_insertAt_valued (h : MayBegin argv i) (option : ValueOption) {value : String}
    (hvalue : isValue value = true) :
    AlikeBut option (read (insertAt argv i [option.text, value])) (read argv) := by
  have hhyphens : "--".toList <+: option.text.toList := by cases option <;> decide
  have hread : read (insertAt argv i [option.text, value]) =
      readOptions ((read (argv.take i)).setValue option (some value)) (argv.drop i) := by
    rw [read_insertAt argv i hhyphens]
    exact readOptions_given _ (ofText?_eq_some.mpr rfl) hvalue _
  rw [hread, read_eq_parts h]
  exact (alikeBut_setValue _ option _).readOptions _

end BuildMatrix.Arguments
