import BuildMatrix.Proofs.Yaml.Broken
import BuildMatrix.Yaml.Block
import BuildMatrix.Yaml.ScalarText
import Mathlib.Data.List.DropRight
import Mathlib.Data.List.Forall2

/-!
# Lines that are indented in a block

A block holds the lines of its text with spaces before them; empty lines may go without
(`Indented`).  What is written for a text is such a block, and its header says how the text starts
and ends (`block_eq_literal`).
-/

namespace BuildMatrix.Yaml

open ScalarText

/-! ## Lines -/

/-- Lines with line feeds between them. -/
def joinLines : List (List Char) → List Char
  | [] => []
  | [line] => line
  | line :: lines => line ++ '\n' :: joinLines lines

theorem joinLines_cons (line : List Char) {lines : List (List Char)} (h : lines ≠ []) :
    joinLines (line :: lines) = line ++ '\n' :: joinLines lines := by
  cases lines with
  | nil => exact absurd rfl h
  | cons second lines => rfl

theorem joinLines_append {front back : List (List Char)} (hfront : front ≠ []) (hback : back ≠ []) :
    joinLines (front ++ back) = joinLines front ++ '\n' :: joinLines back := by
  induction front with
  | nil => exact absurd rfl hfront
  | cons line front ih =>
    cases front with
    | nil => exact joinLines_cons line hback
    | cons second front =>
      rw [List.cons_append, joinLines_cons line (by simp), ih (List.cons_ne_nil _ _),
        joinLines_cons line (List.cons_ne_nil _ _), List.append_assoc, List.cons_append]

theorem mem_joinLines {lines : List (List Char)} {line : List Char} {c : Char} (hline : line ∈ lines)
    (hc : c ∈ line) : c ∈ joinLines lines := by
  induction lines with
  | nil => exact absurd hline List.not_mem_nil
  | cons first lines ih =>
    cases lines with
    | nil =>
      obtain rfl := List.mem_singleton.mp hline
      exact hc
    | cons second lines =>
      rw [joinLines_cons first (List.cons_ne_nil _ _), List.mem_append]
      obtain rfl | hline := List.mem_cons.mp hline
      · exact .inl hc
      · exact .inr (List.mem_cons_of_mem _ (ih hline))

theorem exists_of_mem_joinLines {lines : List (List Char)} {c : Char} (hc : c ∈ joinLines lines)
    (hfeed : c ≠ '\n') : ∃ line ∈ lines, c ∈ line := by
  induction lines with
  | nil => exact absurd hc List.not_mem_nil
  | cons line lines ih =>
    cases lines with
    | nil => exact ⟨line, List.mem_cons_self, hc⟩
    | cons second lines =>
      rw [joinLines_cons line (List.cons_ne_nil _ _), List.mem_append, List.mem_cons] at hc
      obtain hc | rfl | hc := hc
      · exact ⟨line, List.mem_cons_self, hc⟩
      · exact absurd rfl hfeed
      · obtain ⟨l, hl, hmem⟩ := ih hc
        exact ⟨l, List.mem_cons_of_mem _ hl, hmem⟩

theorem linesOf_cons {c : Char} (hc : c ≠ '\n') {rest line : List Char} {lines : List (List Char)}
    (h : linesOf rest = line :: lines) : linesOf (c :: rest) = (c :: line) :: lines := by
  rw [linesOf, h]
  exact hc

theorem joinLines_linesOf (cs : List Char) : joinLines (linesOf cs) = cs := by
  induction cs with
  | nil => rfl
  | cons c rest ih =>
    by_cases hc : c = '\n'
    · subst hc
      rw [linesOf, joinLines_cons _ (linesOf_ne_nil rest), ih]
      rfl
    · cases hrest : linesOf rest with
      | nil => exact absurd hrest (linesOf_ne_nil rest)
      | cons line lines =>
        rw [linesOf_cons hc hrest, ← ih, hrest]
        cases lines <;> rfl

theorem linesOf_append_feed (front back : List Char) :
    linesOf (front ++ '\n' :: back) = linesOf front ++ linesOf back := by
  induction front with
  | nil => rfl
  | cons c front ih =>
    by_cases hc : c = '\n'
    · subst hc
      rw [List.cons_append, linesOf, linesOf, ih]
      rfl
    · cases hfront : linesOf front with
      | nil => exact absurd hfront (linesOf_ne_nil front)
      | cons line lines =>
        rw [hfront, List.cons_append] at ih
        rw [List.cons_append, linesOf_cons hc ih, linesOf_cons hc hfront]
        rfl

theorem linesOf_append_line {line : List Char} (hline : '\n' ∉ line) {rest first : List Char}
    {lines : List (List Char)} (h : linesOf rest = first :: lines) :
    linesOf (line ++ rest) = (line ++ first) :: lines := by
  induction line with
  | nil => exact h
  | cons c line ih =>
    simp only [List.mem_cons, not_or] at hline
    exact linesOf_cons (Ne.symm hline.1) (ih hline.2)

theorem linesOf_replicate (n : Nat) : linesOf (List.replicate n '\n') = List.replicate (n + 1) [] := by
  induction n with
  | zero => rfl
  | succ n ih =>
    rw [List.replicate_succ, linesOf, ih]
    rfl

/-- The lines of a text hold no line feed. -/
theorem not_mem_of_mem_linesOf {cs line : List Char} (h : line ∈ linesOf cs) : '\n' ∉ line := by
  induction cs generalizing line with
  | nil =>
    rw [linesOf, List.mem_singleton] at h
    simp [h]
  | cons c rest ih =>
    by_cases hc : c = '\n'
    · subst hc
      rw [linesOf, List.mem_cons] at h
      obtain rfl | h := h
      · simp
      · exact ih h
    · cases hrest : linesOf rest with
      | nil => exact absurd hrest (linesOf_ne_nil rest)
      | cons first lines =>
        rw [linesOf_cons hc hrest, List.mem_cons] at h
        obtain rfl | h := h
        · have hmem : first ∈ linesOf rest := by simp [hrest]
          simp [Ne.symm hc, ih hmem]
        · exact ih (by simp [hrest, h])

/-! ## Indentation -/

/-- A line as it stands in a block. -/
inductive IndentedLine (n : Nat) : List Char → List Char → Prop
  | spaced (line : List Char) : IndentedLine n line (spaces n ++ line)
  | empty : IndentedLine n [] []

/-- Lines as they stand in a block. -/
abbrev Indented (n : Nat) : List (List Char) → List (List Char) → Prop :=
  List.Forall₂ (IndentedLine n)

/-- After each run of line feeds the next line is indented; the first line is left as it is. -/
theorem linesOf_indentRuns (n : Nat) (cs : List Char) :
    ∃ first lines out, linesOf cs = first :: lines ∧ linesOf (indentRuns n cs) = first :: out ∧
      Indented n lines out := by
  fun_induction indentRuns n cs with
  | case1 => exact ⟨[], [], [], rfl, rfl, .nil⟩
  | case2 =>
    refine ⟨[], [[]], [spaces n], rfl, ?_, ?_⟩
    · rw [linesOf, linesOf_of_not_mem (by simp [spaces])]
    · have := IndentedLine.spaced (n := n) []
      rw [List.append_nil] at this
      exact .cons this .nil
  | case3 rest ih =>
    obtain ⟨first, lines, out, hlines, hout, h⟩ := ih
    obtain rfl : first = [] := by
      rw [linesOf] at hlines
      exact (List.cons.inj hlines).1.symm
    exact ⟨[], [] :: lines, [] :: out, by rw [linesOf, hlines], by rw [linesOf, hout],
      .cons .empty h⟩
  | case4 rest hne hnext ih =>
    obtain ⟨first, lines, out, hlines, hout, h⟩ := ih
    refine ⟨[], first :: lines, (spaces n ++ first) :: out, by rw [linesOf, hlines], ?_,
      .cons (.spaced first) h⟩
    rw [List.cons_append, linesOf, linesOf_append_line (by simp [spaces]) hout]
  | case5 c rest hnil hnext hc ih =>
    obtain ⟨first, lines, out, hlines, hout, h⟩ := ih
    exact ⟨c :: first, lines, out, linesOf_cons hc hlines, linesOf_cons hc hout, h⟩

/-- The lines of a text, and line feeds after it, when the first line is indented as well. -/
theorem indented_indentRuns (n k : Nat) (cs : List Char) :
    Indented n (linesOf (cs ++ List.replicate k '\n'))
      (linesOf (spaces n ++ indentRuns n cs ++ List.replicate k '\n')) := by
  obtain ⟨first, lines, out, hlines, hout, h⟩ := linesOf_indentRuns n cs
  have hspaces : '\n' ∉ spaces n := by simp [spaces]
  have hfirst := linesOf_append_line hspaces hout
  cases k with
  | zero =>
    rw [List.replicate_zero, List.append_nil, List.append_nil, hlines, hfirst]
    exact .cons (.spaced first) h
  | succ k =>
    have hempty : Indented n (List.replicate (k + 1) []) (List.replicate (k + 1) []) := by
      induction k with
      | zero => exact .cons .empty .nil
      | succ k ih => exact .cons .empty ih
    rw [List.replicate_succ, linesOf_append_feed, linesOf_append_feed, linesOf_replicate, hlines,
      hfirst]
    exact .cons (.spaced first) (List.rel_append h hempty)

theorem indentRuns_append (n : Nat) {front back : List Char}
    (h : front.getLast? = some '\n' → back.head? ≠ some '\n') :
    indentRuns n (front ++ back) = indentRuns n front ++ indentRuns n back := by
  fun_induction indentRuns n front with
  | case1 => rfl
  | case2 =>
    have hhead := h rfl
    cases back with
    | nil => simp [indentRuns]
    | cons c back =>
      have hc : c ≠ '\n' := by simpa using hhead
      rw [List.singleton_append, indentRuns]
      · simp
      · simpa using hc
  | case3 rest ih =>
    rw [List.cons_append, List.cons_append, indentRuns, ← List.cons_append, ih]
    · rfl
    · intro hlast
      exact h (by rw [List.getLast?_cons_cons, hlast])
  | case4 rest hne hnext ih =>
    cases rest with
    | nil => exact absurd rfl hne
    | cons c rest =>
      have hc : c ≠ '\n' := by
        rintro rfl
        exact hnext rest rfl
      rw [List.cons_append, List.cons_append, indentRuns, ← List.cons_append, ih]
      · simp
      · intro hlast
        exact h (by rw [List.getLast?_cons_cons, hlast])
      · simp
      · simpa using hc
  | case5 c rest hnil hnext hc ih =>
    rw [List.cons_append, indentRuns, ih]
    · rfl
    · intro hlast
      exact h (by rw [List.getLast?_cons, hlast]; rfl)
    · exact fun hfeed => absurd hfeed hc
    · exact fun _ hfeed => absurd hfeed hc
    · exact hc

/-- A line that holds more than spaces. -/
def IsFilled (line : List Char) : Prop := ∃ c ∈ line, c ≠ ' '

theorem IndentedLine.isFilled_iff {n : Nat} {line out : List Char} (h : IndentedLine n line out) :
    IsFilled out ↔ IsFilled line := by
  cases h with
  | spaced line =>
    constructor
    · rintro ⟨c, hc, hne⟩
      obtain hc | hc := List.mem_append.mp hc
      · exact absurd (List.eq_of_mem_replicate hc) hne
      · exact ⟨c, hc, hne⟩
    · rintro ⟨c, hc, hne⟩
      exact ⟨c, List.mem_append_right _ hc, hne⟩
  | empty => rfl

/-- The first line of a block that is filled, if there is one. -/
theorem Indented.split {n : Nat} {lines out : List (List Char)} (h : Indented n lines out) :
    ((∀ line ∈ lines, ¬IsFilled line) ∧ ∀ line ∈ out, ¬IsFilled line) ∨
      ∃ before first after before' after', lines = before ++ first :: after ∧
        out = before' ++ (spaces n ++ first) :: after' ∧ Indented n before before' ∧
        Indented n after after' ∧ (∀ line ∈ before, ¬IsFilled line) ∧
        (∀ line ∈ before', ¬IsFilled line) ∧ IsFilled first := by
  induction h with
  | nil => exact .inl ⟨by simp, by simp⟩
  | @cons line line' lines out hline hlines ih =>
    by_cases hfilled : IsFilled line
    · cases hline with
      | spaced line =>
        exact .inr ⟨[], line, lines, [], out, rfl, rfl, .nil, hlines, by simp, by simp, hfilled⟩
      | empty =>
        obtain ⟨c, hc, -⟩ := hfilled
        exact absurd hc List.not_mem_nil
    · have hfilled' : ¬IsFilled line' := fun h => hfilled (hline.isFilled_iff.mp h)
      obtain ⟨hnone, hnone'⟩ | ⟨before, first, after, before', after', rfl, rfl, hbefore, hafter, hnone,
        hnone', hfirst⟩ := ih
      · exact .inl ⟨List.forall_mem_cons.mpr ⟨hfilled, hnone⟩, List.forall_mem_cons.mpr ⟨hfilled', hnone'⟩⟩
      · exact .inr ⟨line :: before, first, after, line' :: before', after', rfl, rfl,
          .cons hline hbefore, hafter, List.forall_mem_cons.mpr ⟨hfilled, hnone⟩,
          List.forall_mem_cons.mpr ⟨hfilled', hnone'⟩, hfirst⟩

theorem IndentedLine.not_mem {n : Nat} {line out : List Char} (h : IndentedLine n line out) {c : Char}
    (hc : c ≠ ' ') (hline : c ∉ line) : c ∉ out := by
  cases h with
  | spaced line =>
    rw [List.mem_append, not_or]
    exact ⟨fun hmem => hc (List.eq_of_mem_replicate hmem), hline⟩
  | empty => exact hline

/-- Each line of a block stands for a line of the text. -/
theorem Indented.exists_of_mem {n : Nat} {lines out : List (List Char)} (h : Indented n lines out) :
    ∀ line' ∈ out, ∃ line ∈ lines, IndentedLine n line line' := by
  induction h with
  | nil => simp
  | @cons line line' lines out hline hlines ih =>
    refine List.forall_mem_cons.mpr ⟨⟨line, List.mem_cons_self, hline⟩, fun last hlast => ?_⟩
    obtain ⟨first, hfirst, h⟩ := ih last hlast
    exact ⟨first, List.mem_cons_of_mem _ hfirst, h⟩

/-- The last line of a block stands for the last line of the text. -/
theorem Indented.getLast? {n : Nat} {lines out : List (List Char)} (h : Indented n lines out) :
    ∀ line' ∈ out.getLast?, ∃ line ∈ lines.getLast?, IndentedLine n line line' := by
  induction h with
  | nil => simp
  | @cons line line' lines out hline hlines ih =>
    cases hlines with
    | nil =>
      intro last hlast
      obtain rfl : line' = last := by simpa using hlast
      exact ⟨line, by simp, hline⟩
    | cons hsecond hlines =>
      rw [List.getLast?_cons_cons, List.getLast?_cons_cons]
      exact ih

/-! ## The parts of a block -/

theorem getLast?_dropWhile_reverse {p : Char → Bool} {cs : List Char} :
    ∀ c ∈ (cs.reverse.dropWhile p).reverse.getLast?, p c = false := by
  intro c hc
  rw [List.getLast?_reverse] at hc
  have := List.head?_dropWhile_not p cs.reverse
  rw [Option.mem_def.mp hc] at this
  simpa using this

/-- The white space at the end of a text. -/
theorem splitTail_spec (cs : List Char) :
    cs = (splitTail cs).1 ++ (splitTail cs).2 ∧ (∀ c ∈ (splitTail cs).2, isGap c = true) ∧
      ∀ c ∈ (splitTail cs).1.getLast?, isGap c = false := by
  have hsplit : (cs.reverse.dropWhile isGap).reverse ++ (cs.reverse.takeWhile isGap).reverse = cs :=
    List.rdropWhile_append_rtakeWhile
  have hfront : (splitTail cs).1 = (cs.reverse.dropWhile isGap).reverse := by
    have hlength := congrArg List.length hsplit
    rw [List.length_append] at hlength
    calc cs.take (cs.length - (cs.reverse.takeWhile isGap).reverse.length)
        = cs.take (cs.reverse.dropWhile isGap).reverse.length := by
          congr 1
          omega
      _ = ((cs.reverse.dropWhile isGap).reverse ++ (cs.reverse.takeWhile isGap).reverse).take
            (cs.reverse.dropWhile isGap).reverse.length := by rw [hsplit]
      _ = (cs.reverse.dropWhile isGap).reverse := List.take_left
  rw [hfront]
  refine ⟨hsplit.symm, fun c hc => ?_, getLast?_dropWhile_reverse⟩
  have := List.all_takeWhile (p := isGap) (l := cs.reverse)
  rw [List.all_eq_true] at this
  exact this c (by simpa [splitTail] using hc)

theorem endsBlank_append (front : List Char) {back : List Char} (hne : back ≠ [])
    (hblank : ∀ c ∈ back, isBlank c = true) : endsBlank (front ++ '\n' :: back) = true := by
  have htake : (front ++ '\n' :: back).reverse.takeWhile isBlank = back.reverse := by
    rw [List.reverse_append, List.reverse_cons, List.append_assoc,
      List.takeWhile_append_of_pos fun c hc => hblank c (List.mem_reverse.mp hc)]
    simp [isBlank]
  rw [endsBlank, htake]
  simp [hne]

/-- A text that does not end with a line of blanks ends with a line feed if there is one in the
white space at its end. -/
theorem getLast?_tail {front tail : List Char} (hends : endsBlank (front ++ tail) = false)
    (hgap : ∀ c ∈ tail, isGap c = true) (hfeed : '\n' ∈ tail) : tail.getLast? = some '\n' := by
  obtain ⟨as, bs, hsplit, hbs⟩ := List.eq_append_cons_of_mem (List.mem_reverse.mpr hfeed)
  obtain rfl : tail = bs.reverse ++ '\n' :: as.reverse := by
    rw [← List.reverse_reverse tail, hsplit]
    simp
  cases has : as.reverse with
  | nil => simp
  | cons c cs =>
    rw [← List.append_assoc, endsBlank_append (front ++ bs.reverse) (by simp [has])] at hends
    · exact absurd hends (by simp)
    · intro c hc
      have hc' := hgap c (by simp [List.mem_reverse.mp hc])
      have hne : c ≠ '\n' := by
        rintro rfl
        exact hbs (List.mem_reverse.mp hc)
      simpa [isGap, isBlank, hne] using hc'

/-- The white space at the end, its last line feed apart, as it is written. -/
theorem tailText_eq (n : Nat) (tail : List Char) :
    ∃ inner k, (if tail.getLast? = some '\n' then tail.dropLast else tail) =
        inner ++ List.replicate k '\n' ∧ inner.getLast? ≠ some '\n' ∧
      tailText n tail = indentRuns n inner ++ List.replicate k '\n' := by
  rw [tailText]
  generalize (if tail.getLast? = some '\n' then tail.dropLast else tail) = cs
  have hsplit : (cs.reverse.dropWhile (· == '\n')).reverse ++
      (cs.reverse.takeWhile (· == '\n')).reverse = cs :=
    List.rdropWhile_append_rtakeWhile
  have hfeeds : (cs.reverse.takeWhile (· == '\n')).reverse =
      List.replicate (cs.reverse.takeWhile (· == '\n')).reverse.length '\n' := by
    refine List.eq_replicate_of_mem fun c hc => ?_
    have := List.all_takeWhile (p := (· == '\n')) (l := cs.reverse)
    rw [List.all_eq_true] at this
    simpa using this c (List.mem_reverse.mp hc)
  refine ⟨(cs.reverse.dropWhile (· == '\n')).reverse, _, by rw [← hfeeds, hsplit], ?_, ?_⟩
  · intro hlast
    simpa using getLast?_dropWhile_reverse _ hlast
  · have hdrop : cs.drop (cs.reverse.dropWhile (· == '\n')).reverse.length =
        (cs.reverse.takeWhile (· == '\n')).reverse :=
      (congrArg (List.drop _) hsplit).symm.trans List.drop_left
    rw [hdrop, ← hfeeds]

/-- The line feeds at the start of a text, with the spaces between them, and what follows. -/
theorem headText_spec (body : List Char) :
    body = headText body ++ body.drop (headText body).length ∧
      (body.drop (headText body).length).head? ≠ some '\n' := by
  have hrest := List.head?_dropWhile_not (fun c => c == ' ' || c == '\n') body
  have hrun := List.takeWhile_append_dropWhile (p := fun c => c == ' ' || c == '\n') (l := body)
  rw [headText]
  generalize (body.dropWhile fun c => c == ' ' || c == '\n') = rest at hrest hrun
  generalize (body.takeWhile fun c => c == ' ' || c == '\n') = run at hrun ⊢
  have hsplit : (run.reverse.dropWhile (· != '\n')).reverse ++
      (run.reverse.takeWhile (· != '\n')).reverse = run :=
    List.rdropWhile_append_rtakeWhile
  have hspaces := List.all_takeWhile (p := (· != '\n')) (l := run.reverse)
  rw [List.all_eq_true] at hspaces
  rw [← hrun, ← hsplit, List.append_assoc, hsplit, List.drop_left]
  refine ⟨rfl, fun hfeed => ?_⟩
  rw [List.head?_append, Option.or_eq_some_iff] at hfeed
  obtain hfeed | ⟨-, hfeed⟩ := hfeed
  · have := hspaces _ (List.mem_reverse.mp (List.mem_of_head? hfeed))
    simp at this
  · rw [hfeed] at hrest
    simp at hrest

/-- Whether a text starts with line feeds and spaces, before its last character that is no white
space. -/
def startsWithSpace (cs : List Char) : Bool :=
  ((splitTail cs).1.takeWhile fun c => c == ' ' || c == '\n').contains ' '

/-- The sign for the indentation of a block that is given. -/
def hint (explicit : Bool) : List Char := if explicit then ['2'] else []

theorem block_eq {slot : Slot} {cs : List Char} (hends : endsBlank cs = false)
    (hfolded : (block slot cs).head? ≠ some '>') :
    ∃ inner k, (if (splitTail cs).2.getLast? = some '\n' then (splitTail cs).2.dropLast
        else (splitTail cs).2) = inner ++ List.replicate k '\n' ∧ inner.getLast? ≠ some '\n' ∧
      block slot cs = '|' :: (hint (startsWithSpace cs) ++
        chompSign (splitTail cs).1 (splitTail cs).2) ++ '\n' :: (spaces slot.indent ++
          indentRuns slot.indent ((splitTail cs).1 ++ inner) ++ List.replicate k '\n') := by
  obtain ⟨-, -, hlast⟩ := splitTail_spec cs
  obtain ⟨hbody, hhead⟩ := headText_spec (splitTail cs).1
  obtain ⟨inner, k, hinner, hfeed, htail⟩ := tailText_eq slot.indent (splitTail cs).2
  have hstart : indentRuns slot.indent (headText (splitTail cs).1) ++
      indentRuns slot.indent ((splitTail cs).1.drop (headText (splitTail cs).1).length) =
        indentRuns slot.indent (splitTail cs).1 := by
    rw [← indentRuns_append _ fun _ => hhead, ← hbody]
  have hstop : indentRuns slot.indent ((splitTail cs).1 ++ inner) =
      indentRuns slot.indent (splitTail cs).1 ++ indentRuns slot.indent inner := by
    refine indentRuns_append _ fun hbreak => ?_
    have := hlast _ hbreak
    simp [isGap] at this
  refine ⟨inner, k, hinner, hfeed, ?_⟩
  rw [block, hends, if_neg Bool.false_ne_true] at hfolded ⊢
  dsimp only at hfolded ⊢
  split at hfolded
  next => exact absurd rfl hfolded
  next hliteral =>
    rw [if_neg hliteral, hstop, htail, ← hstart, breakTo, hint, startsWithSpace, spaces]
    simp

/-- The sign for what becomes of the line feeds at the end. -/
def Chomp.sign : Chomp → List Char
  | .strip => ['-']
  | .clip => []
  | .keep => ['+']

/-- The line feed that ends the last line of a text. -/
def Chomp.ending : Chomp → List Char
  | .strip => []
  | .clip | .keep => ['\n']

/-- The last line of a text ends with what follows the last line feed. -/
theorem exists_getLast?_linesOf (front : List Char) {back : List Char} (hback : '\n' ∉ back) :
    ∃ line, (linesOf (front ++ back)).getLast? = some (line ++ back) := by
  induction front with
  | nil => exact ⟨[], by rw [List.nil_append, linesOf_of_not_mem hback]; rfl⟩
  | cons c front ih =>
    obtain ⟨line, hline⟩ := ih
    by_cases hc : c = '\n'
    · subst hc
      refine ⟨line, ?_⟩
      rw [List.cons_append, linesOf, List.getLast?_cons, hline]
      rfl
    · cases hlines : linesOf (front ++ back) with
      | nil => exact absurd hlines (linesOf_ne_nil _)
      | cons first lines =>
        rw [hlines] at hline
        rw [List.cons_append, linesOf_cons hc hlines]
        cases lines with
        | nil =>
          obtain rfl : first = line ++ back := by simpa using hline
          exact ⟨c :: line, rfl⟩
        | cons second lines => exact ⟨line, by simpa using hline⟩

/-- What is written for a text as a literal block. -/
structure Literal (n : Nat) (cs : List Char) (chomp : Chomp) (lines out : List (List Char)) : Prop where
  indented : Indented n lines out
  text : cs = joinLines lines ++ chomp.ending
  last : chomp ≠ .keep → ∀ line ∈ lines.getLast?, IsFilled line
  noFeed : ∀ line ∈ lines, '\n' ∉ line
  nonempty : lines ≠ []

section

variable {n : Nat} {cs : List Char} {chomp : Chomp} {lines out : List (List Char)} {c : Char}

theorem Literal.not_mem_lines (h : Literal n cs chomp lines out) (hcs : c ∉ cs) :
    ∀ line ∈ lines, c ∉ line := by
  intro line hline hmem
  rw [h.text] at hcs
  exact hcs (List.mem_append_left _ (mem_joinLines hline hmem))

theorem Literal.not_mem_out (h : Literal n cs chomp lines out) (hc : c ≠ ' ') (hcs : c ∉ cs) :
    ∀ line ∈ out, c ∉ line := by
  intro line' hline'
  obtain ⟨line, hline, hindented⟩ := h.indented.exists_of_mem line' hline'
  exact hindented.not_mem hc (h.not_mem_lines hcs line hline)

theorem Literal.noFeed_out (h : Literal n cs chomp lines out) : ∀ line ∈ out, '\n' ∉ line := by
  intro line' hline'
  obtain ⟨line, hline, hindented⟩ := h.indented.exists_of_mem line' hline'
  exact hindented.not_mem (by decide) (h.noFeed line hline)

theorem Literal.out_ne_nil (h : Literal n cs chomp lines out) : out ≠ [] := by
  rintro rfl
  exact h.nonempty (List.forall₂_nil_right_iff.mp h.indented)

/-- A block without a filled line is kept. -/
theorem Literal.eq_keep (h : Literal n cs chomp lines out) (hnone : ∀ line ∈ lines, ¬IsFilled line) :
    chomp = .keep := by
  refine of_not_not fun hne => ?_
  cases hlast : lines.getLast? with
  | none => exact h.nonempty (List.getLast?_eq_none_iff.mp hlast)
  | some line => exact hnone line (List.mem_of_getLast? hlast) (h.last hne line hlast)

end

/-- Where the only line feed of a text is its last character. -/
theorem not_mem_of_idxOf {front : List Char}
    (h : (front ++ ['\n']).idxOf '\n' + 1 = (front ++ ['\n']).length) : '\n' ∉ front := by
  intro hmem
  have hlt := List.idxOf_lt_length_of_mem hmem
  rw [List.idxOf_append, if_pos hmem, List.length_append, List.length_singleton] at h
  omega

/-- The last line of a text is filled if more than white space stands in it. -/
theorem isFilled_of_getLast? {body blanks : List Char} (hne : body ≠ [])
    (hlast : ∀ c ∈ body.getLast?, isGap c = false) (hblanks : '\n' ∉ blanks) :
    ∀ line ∈ (linesOf (body ++ blanks)).getLast?, IsFilled line := by
  obtain ⟨front, c, rfl⟩ := (List.eq_nil_or_concat' body).resolve_left hne
  have hc := hlast c (by simp)
  simp only [isGap, Bool.or_eq_false_iff, beq_eq_false_iff_ne] at hc
  intro line hline
  have hback : '\n' ∉ c :: blanks := by simp [Ne.symm hc.1.2, hblanks]
  obtain ⟨start, hstart⟩ := exists_getLast?_linesOf front hback
  rw [List.append_assoc, List.singleton_append, hstart] at hline
  obtain rfl : start ++ c :: blanks = line := by simpa using hline
  exact ⟨c, by simp, hc.1.1⟩

/-- The sign in the header tells how the white space at the end goes on behind what is written. -/
theorem exists_chomp {body tail inner : List Char} {k : Nat} (hfeed : '\n' ∈ body ++ tail)
    (hends : endsBlank (body ++ tail) = false) (hgap : ∀ c ∈ tail, isGap c = true)
    (hinner : (if tail.getLast? = some '\n' then tail.dropLast else tail) =
      inner ++ List.replicate k '\n') :
    ∃ chomp : Chomp, chompSign body tail = chomp.sign ∧
      tail = inner ++ List.replicate k '\n' ++ chomp.ending ∧
      (chomp ≠ .keep → body ≠ [] ∧ '\n' ∉ inner ++ List.replicate k '\n') := by
  by_cases hmem : '\n' ∈ tail
  · have hend := getLast?_tail hends hgap hmem
    rw [if_pos hend] at hinner
    have htail : tail = inner ++ List.replicate k '\n' ++ ['\n'] := by
      rw [← hinner, List.dropLast_append_getLast? _ hend]
    by_cases hkeep : (body.isEmpty || tail.idxOf '\n' + 1 != tail.length) = true
    · refine ⟨.keep, ?_, htail, fun hne => absurd rfl hne⟩
      rw [chompSign, if_neg (by simp [hmem]), if_pos hkeep]
      rfl
    · refine ⟨.clip, ?_, htail, fun _ => ?_⟩
      · rw [chompSign, if_neg (by simp [hmem]), if_neg hkeep]
        rfl
      · simp only [Bool.or_eq_true, List.isEmpty_iff, bne_iff_ne, ne_eq, not_or, not_not] at hkeep
        refine ⟨hkeep.1, not_mem_of_idxOf ?_⟩
        rw [← htail]
        exact hkeep.2
  · have hend : tail.getLast? ≠ some '\n' := fun hlast' => hmem (List.mem_of_getLast? hlast')
    rw [if_neg hend] at hinner
    refine ⟨.strip, ?_, by rw [hinner]; simp [Chomp.ending], fun _ => ⟨?_, hinner ▸ hmem⟩⟩
    · rw [chompSign, if_pos (by simp [hmem])]
      rfl
    · rintro rfl
      exact hmem (by simpa using hfeed)

/-- A block that is not folded is a literal block of the text. -/
theorem block_eq_literal {slot : Slot} {cs : List Char} (hfeed : '\n' ∈ cs)
    (hends : endsBlank cs = false) (hfolded : (block slot cs).head? ≠ some '>') :
    ∃ chomp lines out, Literal slot.indent cs chomp lines out ∧
      block slot cs = '|' :: (hint (startsWithSpace cs) ++ chomp.sign) ++ '\n' :: joinLines out := by
  obtain ⟨hsplit, hgap, hlast⟩ := splitTail_spec cs
  obtain ⟨inner, k, hinner, -, hblock⟩ := block_eq hends hfolded
  have hout := joinLines_linesOf (spaces slot.indent ++
    indentRuns slot.indent ((splitTail cs).1 ++ inner) ++ List.replicate k '\n')
  have hlines := joinLines_linesOf ((splitTail cs).1 ++ inner ++ List.replicate k '\n')
  rw [← hout] at hblock
  rw [hsplit] at hfeed hends
  obtain ⟨chomp, hsign, htail, hfilled⟩ := exists_chomp hfeed hends hgap hinner
  refine ⟨chomp, _, _, ⟨indented_indentRuns slot.indent k _, ?_, fun hkeep => ?_,
    fun line => not_mem_of_mem_linesOf, linesOf_ne_nil _⟩, by rw [hblock, hsign]⟩
  · rw [hlines, List.append_assoc _ inner, List.append_assoc, ← htail]
    exact hsplit
  · obtain ⟨hne, hmem⟩ := hfilled hkeep
    rw [List.append_assoc]
    exact isFilled_of_getLast? hne hlast hmem

end BuildMatrix.Yaml
