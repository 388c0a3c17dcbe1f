import BuildMatrix.Proofs.Yaml.Indented
import BuildMatrix.Yaml.Token.Lexer
import Mathlib.Data.List.DropRight
import Mathlib.Data.List.TakeDrop

/-!
# Reading a block

The lexer takes the lines of a block that stands for a text up to the first line that is indented
less (`Literal.cutBlock`, `moveDocumentNode_block`).
-/

namespace BuildMatrix.Yaml

open ScalarText Lexer

/-! ## Lines that keep their ends -/

/-- Lines, each with a line feed after it. -/
def endLines (lines : List (List Char)) : List Char := lines.flatMap (· ++ ['\n'])

theorem joinLines_feed {lines : List (List Char)} (h : lines ≠ []) :
    joinLines lines ++ ['\n'] = endLines lines := by
  induction lines with
  | nil => exact absurd rfl h
  | cons line lines ih =>
    cases lines with
    | nil => simp [joinLines, endLines]
    | cons second lines =>
      rw [joinLines_cons line (List.cons_ne_nil _ _), List.append_assoc, List.cons_append,
        ih (List.cons_ne_nil _ _)]
      simp [endLines]

theorem endLines_joinLines (front : List (List Char)) {back : List (List Char)} (h : back ≠ []) :
    endLines front ++ joinLines back = joinLines (front ++ back) := by
  cases front with
  | nil => rfl
  | cons line front =>
    rw [joinLines_append (List.cons_ne_nil line front) h, ← joinLines_feed (List.cons_ne_nil _ _),
      List.append_assoc]
    rfl

theorem joinLines_flatMap {front : List (List Char)} (h : front ≠ []) (back : List (List Char)) :
    joinLines front ++ back.flatMap ('\n' :: ·) = joinLines (front ++ back) := by
  induction back generalizing front with
  | nil => simp
  | cons line back ih =>
    have hline : joinLines (front ++ [line]) = joinLines front ++ '\n' :: line :=
      joinLines_append h (List.cons_ne_nil line [])
    rw [List.flatMap_cons, ← List.append_assoc, ← hline, ih (by simp), List.append_assoc,
      List.singleton_append]

theorem linesOf_joinLines {lines : List (List Char)} (hne : lines ≠ [])
    (h : ∀ line ∈ lines, '\n' ∉ line) : linesOf (joinLines lines) = lines := by
  induction lines with
  | nil => exact absurd rfl hne
  | cons line lines ih =>
    have hline := linesOf_of_not_mem (h line List.mem_cons_self)
    cases lines with
    | nil => exact hline
    | cons second lines =>
      rw [joinLines_cons line (List.cons_ne_nil _ _), linesOf_append_feed, hline,
        ih (List.cons_ne_nil _ _) fun l hl => h l (List.mem_cons_of_mem _ hl)]
      rfl

theorem linesOf_endLines {lines : List (List Char)} (hne : lines ≠ [])
    (h : ∀ line ∈ lines, '\n' ∉ line) : linesOf (endLines lines) = lines ++ [[]] := by
  rw [← joinLines_feed hne, linesOf_append_feed, linesOf_joinLines hne h]
  rfl

theorem splitLines_cons {c : Char} (hc : c ≠ '\n') (rest : List Char) :
    splitLines (c :: rest) = match splitLines rest with
      | [] => [[c]]
      | line :: lines => (c :: line) :: lines :=
  splitLines.eq_3 c rest hc

theorem splitLines_append_line {line : List Char} (h : '\n' ∉ line) (rest : List Char) :
    splitLines (line ++ '\n' :: rest) = (line ++ ['\n']) :: splitLines rest := by
  induction line with
  | nil => rfl
  | cons c line ih =>
    simp only [List.mem_cons, not_or] at h
    rw [List.cons_append, splitLines_cons (Ne.symm h.1), ih h.2]
    rfl

theorem splitLines_endLines {lines : List (List Char)} (h : ∀ line ∈ lines, '\n' ∉ line)
    (rest : List Char) :
    splitLines (endLines lines ++ rest) = lines.map (· ++ ['\n']) ++ splitLines rest := by
  induction lines with
  | nil => rfl
  | cons line lines ih =>
    rw [endLines, List.flatMap_cons, List.append_assoc, List.append_assoc, List.singleton_append,
      splitLines_append_line (h line List.mem_cons_self), ← endLines,
      ih fun l hl => h l (List.mem_cons_of_mem _ hl)]
    rfl

theorem flatten_splitLines (cs : List Char) : (splitLines cs).flatten = cs := by
  fun_induction splitLines cs with
  | case1 => rfl
  | case2 rest ih => simpa using ih
  | case3 c rest hc hnil ih =>
    rw [hnil] at ih
    simpa using ih
  | case4 c rest hc line lines hlines ih =>
    rw [hlines] at ih
    simpa using ih

/-- The first line of a text that starts with spaces and a character that is no line feed. -/
theorem exists_splitLines (k : Nat) {c : Char} (hc : c ≠ '\n') (rest : List Char) :
    ∃ line lines, splitLines (spaces k ++ c :: rest) = (spaces k ++ c :: line) :: lines := by
  induction k with
  | zero =>
    rw [spaces, List.replicate_zero, List.nil_append, splitLines_cons hc]
    cases splitLines rest with
    | nil => exact ⟨[], [], rfl⟩
    | cons line lines => exact ⟨line, lines, rfl⟩
  | succ k ih =>
    obtain ⟨line, lines, h⟩ := ih
    rw [spaces, List.replicate_succ, List.cons_append, splitLines_cons (by decide), ← spaces, h]
    exact ⟨line, lines, rfl⟩

/-! ## The lexer -/

theorem dropWhile_spaces (k : Nat) {c : Char} (hc : c ≠ ' ') (rest : List Char) :
    (spaces k ++ c :: rest).dropWhile (· == ' ') = c :: rest := by
  rw [List.dropWhile_append_of_pos (by simp [spaces])]
  simp [hc]

theorem takeWhile_spaces (k : Nat) {c : Char} (hc : c ≠ ' ') (rest : List Char) :
    (spaces k ++ c :: rest).takeWhile (· == ' ') = spaces k := by
  rw [List.takeWhile_append_of_pos (by simp [spaces])]
  simp [hc]

/-- A line that starts with spaces and a character that is no white space. -/
structure StartsAt (k : Nat) (line : List Char) : Prop where
  eq : ∃ c rest, line = spaces k ++ c :: rest ∧ c ≠ ' ' ∧ c ≠ '\n' ∧ c ≠ '\r'

theorem StartsAt.append {k : Nat} {line : List Char} (h : StartsAt k line) (rest : List Char) :
    StartsAt k (line ++ rest) := by
  obtain ⟨c, more, rfl, hc⟩ := h.eq
  exact ⟨c, more ++ rest, by simp, hc⟩

theorem StartsAt.isBlankLine {k : Nat} {line : List Char} (h : StartsAt k line) :
    isBlankLine line = false := by
  obtain ⟨c, rest, rfl, hspace, hfeed, hreturn⟩ := h.eq
  rw [Lexer.isBlankLine, dropWhile_spaces k hspace]
  split
  · rename_i heq
    exact absurd (List.cons.inj heq).1 hfeed
  · rename_i heq
    exact absurd (List.cons.inj heq).1 hreturn
  · rfl

theorem StartsAt.spacesAt {k : Nat} {line : List Char} (h : StartsAt k line) : spacesAt line = k := by
  obtain ⟨c, rest, rfl, hspace, -⟩ := h.eq
  rw [Lexer.spacesAt, takeWhile_spaces k hspace, spaces, List.length_replicate]

theorem StartsAt.isSlackLine {k : Nat} {line : List Char} (h : StartsAt k line) (indent : Nat) :
    isSlackLine indent line = false := by
  obtain ⟨c, rest, rfl, hspace, hfeed, hreturn⟩ := h.eq
  rw [Lexer.isSlackLine, dropWhile_spaces k hspace]
  split
  · rename_i heq
    exact absurd heq (List.cons_ne_nil _ _)
  · rename_i heq
    exact absurd (List.cons.inj heq).1 hfeed
  · rename_i heq
    exact absurd (List.cons.inj heq).1 hreturn
  · rename_i heq
    exact absurd (List.cons.inj heq).1 hreturn
  · rfl

theorem StartsAt.continues {k n : Nat} {line : List Char} (h : StartsAt k line) (hn : 0 < n) :
    continues n line = decide (n ≤ k) := by
  obtain ⟨c, rest, rfl, hspace, hfeed, hreturn⟩ := h.eq
  rw [Lexer.continues, if_neg (by omega), dropWhile_spaces k hspace, takeWhile_spaces k hspace, spaces,
    List.length_replicate]
  split
  · rename_i heq
    exact absurd (List.cons.inj heq).1 hfeed
  · rename_i heq
    exact absurd (List.cons.inj heq).1 hreturn
  · rfl

theorem isBlankLine_feed {line : List Char} (h : ¬IsFilled line) :
    isBlankLine (line ++ ['\n']) = true := by
  have hline : ∀ c ∈ line, (c == ' ') = true := by
    intro c hc
    rw [beq_iff_eq]
    exact of_not_not fun hne => h ⟨c, hc, hne⟩
  rw [isBlankLine, List.dropWhile_append_of_pos hline]
  rfl

theorem dropSlack_reverse {n : Nat} {lines : List (List Char)}
    (h : ∀ line ∈ lines.getLast?, isSlackLine n line = false) :
    (dropSlack n lines.reverse).reverse = lines := by
  obtain rfl | ⟨front, last, rfl⟩ := List.eq_nil_or_concat' lines
  · rfl
  · have hlast := h last (by simp)
    rw [List.reverse_concat]
    cases hfront : front.reverse with
    | nil =>
      rw [List.reverse_eq_nil_iff.mp hfront]
      rfl
    | cons second rest =>
      rw [dropSlack, hlast, if_neg Bool.false_ne_true, ← hfront]
      simp

/-- What a block ends at: a line that is indented by some spaces and starts with a character that is
no white space. -/
structure BlockEnd (k : Nat) (rest : List Char) : Prop where
  eq : ∃ c more, rest = spaces k ++ c :: more ∧ c ≠ ' ' ∧ c ≠ '\n' ∧ c ≠ '\r' ∧ c ≠ '\t'

theorem BlockEnd.splitLines {k : Nat} {rest : List Char} (h : BlockEnd k rest) :
    ∃ line lines, splitLines rest = line :: lines ∧ StartsAt k line := by
  obtain ⟨c, more, rfl, hspace, hfeed, hreturn, -⟩ := h.eq
  obtain ⟨line, lines, hlines⟩ := exists_splitLines k hfeed more
  exact ⟨_, lines, hlines, ⟨c, line, rfl, hspace, hfeed, hreturn⟩⟩

/-- No tab follows the spaces at the end of a block. -/
theorem BlockEnd.dropWhile {k : Nat} {rest : List Char} (h : BlockEnd k rest) :
    ∃ c more, rest.dropWhile (· == ' ') = c :: more ∧ c ≠ '\t' := by
  obtain ⟨c, more, rfl, hspace, -, -, htab⟩ := h.eq
  exact ⟨c, more, dropWhile_spaces k hspace more, htab⟩

variable {indentNext i k n : Nat} {explicit : Option Nat} {keep : Bool} {first rest : List Char}
  {blanks more : List (List Char)}

/-- A block in which a line is filled. -/
theorem cutBlock_filled (hfeed : ∀ line ∈ blanks ++ first :: more, '\n' ∉ line)
    (hblanks : ∀ line ∈ blanks, ¬IsFilled line) (hfirst : StartsAt i first)
    (hnext : 0 < indentNext) (hi : indentNext ≤ i)
    (hn : n = explicit.elim i (· + indentNext))
    (hmore : ∀ line ∈ first :: more, continues n (line ++ ['\n']) = true)
    (hlast : keep = false →
      ∀ line ∈ (first :: more).getLast?, isSlackLine i (line ++ ['\n']) = false)
    (hrest : BlockEnd k rest) (hk : k < n) :
    cutBlock indentNext explicit keep (endLines (blanks ++ first :: more) ++ rest) =
      (⟨.scalar, endLines (blanks ++ first :: more)⟩, rest, n) := by
  obtain ⟨line, lines, hlines, hline⟩ := hrest.splitLines
  obtain ⟨c, tail, hspaces, htab⟩ := hrest.dropWhile
  have hsplit : splitLines (endLines (blanks ++ first :: more) ++ rest) =
      blanks.map (· ++ ['\n']) ++
        ((first :: more).map (· ++ ['\n']) ++ line :: lines) := by
    rw [splitLines_endLines hfeed, List.map_append, List.append_assoc, hlines]
  have hisBlank : ∀ line ∈ blanks.map (· ++ ['\n']), isBlankLine line = true := by
    intro line hmem
    obtain ⟨blank, hblank, rfl⟩ := List.mem_map.mp hmem
    exact isBlankLine_feed (hblanks blank hblank)
  have hisFilled : isBlankLine (first ++ ['\n']) = false := (hfirst.append _).isBlankLine
  have hcontinues : ∀ line ∈ (first :: more).map (· ++ ['\n']), continues n line = true := by
    intro line hmem
    obtain ⟨l, hl, rfl⟩ := List.mem_map.mp hmem
    exact hmore l hl
  have hstop : continues n line = false := by
    rw [hline.continues (by omega)]
    simpa using hk
  have hflatten : ((blanks ++ first :: more).map (· ++ ['\n'])).flatten =
      endLines (blanks ++ first :: more) := List.flatMap_def.symm
  have hafter : (line :: lines).flatten = rest := by
    rw [← hlines, flatten_splitLines]
  have hkept : (if keep then ((blanks ++ first :: more).map (· ++ ['\n'])).flatten
      else (dropSlack i ((blanks ++ first :: more).map (· ++ ['\n'])).reverse).reverse.flatten) =
        endLines (blanks ++ first :: more) := by
    cases keep with
    | true => exact hflatten
    | false =>
      rw [if_neg Bool.false_ne_true, dropSlack_reverse, hflatten]
      intro last hmem
      rw [List.getLast?_map, List.getLast?_append_cons] at hmem
      obtain ⟨l, hl, rfl⟩ := Option.map_eq_some_iff.mp hmem
      exact hlast rfl l hl
  have hspacesAt : (((first :: more).map (· ++ ['\n']) ++ line :: lines).head?.map spacesAt).getD 0 = i := by
    rw [List.map_cons, List.cons_append, List.head?_cons, Option.map_some, Option.getD_some,
      (hfirst.append _).spacesAt]
  have htake : ((first :: more).map (· ++ ['\n']) ++ line :: lines).takeWhile isBlankLine = [] :=
    List.takeWhile_cons_of_neg (by simp [hisFilled])
  have hdrop : ((first :: more).map (· ++ ['\n']) ++ line :: lines).dropWhile isBlankLine =
      (first :: more).map (· ++ ['\n']) ++ line :: lines :=
    List.dropWhile_cons_of_neg (by simp [hisFilled])
  have hzero : (if indentNext = 0 then 1 else indentNext) = indentNext := if_neg (by omega)
  unfold cutBlock
  dsimp only
  rw [hsplit, List.takeWhile_append_of_pos hisBlank, List.dropWhile_append_of_pos hisBlank, htake, hdrop,
    List.append_nil, hspacesAt, if_neg (by omega), if_neg (by omega), hzero]
  -- the indentation is the one that the header asks for, or that of the first line
  cases explicit
  all_goals
    subst hn
    dsimp only [Option.elim] at hcontinues hstop hmore hk ⊢
    rw [List.takeWhile_append_of_pos hcontinues, List.takeWhile_cons_of_neg (by simp [hstop]),
      List.append_nil, List.drop_left, hafter, hspaces]
    split
    · rename_i heq
      exact absurd (List.cons.inj heq).1 htab
    · rw [← List.map_append, hkept, List.drop_left]

/-- A block of blank lines, which are kept. -/
theorem cutBlock_blank (hfeed : ∀ line ∈ blanks, '\n' ∉ line)
    (hblanks : ∀ line ∈ blanks, ¬IsFilled line) (hrest : BlockEnd k rest) (hk : k < indentNext) :
    cutBlock indentNext explicit true (endLines blanks ++ rest) =
      (⟨.scalar, endLines blanks⟩, rest, indentNext) := by
  obtain ⟨line, lines, hlines, hline⟩ := hrest.splitLines
  obtain ⟨c, tail, hspaces, htab⟩ := hrest.dropWhile
  have hsplit : splitLines (endLines blanks ++ rest) = blanks.map (· ++ ['\n']) ++ line :: lines := by
    rw [splitLines_endLines hfeed, hlines]
  have hisBlank : ∀ line ∈ blanks.map (· ++ ['\n']), isBlankLine line = true := by
    intro line hmem
    obtain ⟨blank, hblank, rfl⟩ := List.mem_map.mp hmem
    exact isBlankLine_feed (hblanks blank hblank)
  have hafter : (line :: lines).flatten = rest := by
    rw [← hlines, flatten_splitLines]
  unfold cutBlock
  dsimp only
  rw [hsplit, List.takeWhile_append_of_pos hisBlank, List.dropWhile_append_of_pos hisBlank,
    List.takeWhile_cons_of_neg (by simp [hline.isBlankLine]),
    List.dropWhile_cons_of_neg (by simp [hline.isBlankLine]), List.append_nil]
  have hspacesAt : ((line :: lines).head?.map spacesAt).getD 0 = k := by
    rw [List.head?_cons, Option.map_some, Option.getD_some, hline.spacesAt]
  simp only [hspacesAt]
  rw [if_pos hk, if_pos hk, List.length_nil, List.drop_zero, hafter, hspaces]
  split
  · rename_i heq
    exact absurd (List.cons.inj heq).1 htab
  · have hflatten : (blanks.map (· ++ ['\n'])).flatten = endLines blanks := List.flatMap_def.symm
    rw [if_pos trivial, List.append_nil, hflatten, List.drop_left]

/-- Before the first character that is neither a space nor a line feed, there is no space. -/
def IsUnspaced (cs : List Char) : Prop := ' ' ∉ cs.takeWhile fun c => c == ' ' || c == '\n'

theorem IsUnspaced.lines {before after : List (List Char)} {first tail : List Char}
    (h : IsUnspaced (joinLines (before ++ first :: after) ++ tail))
    (hbefore : ∀ line ∈ before, ¬IsFilled line) :
    (∀ line ∈ before, line = []) ∧ first.head? ≠ some ' ' := by
  have hspace : ∀ line ∈ before, ∀ c ∈ line, c = ' ' := by
    intro line hline c hc
    exact of_not_not fun hne => hbefore line hline ⟨c, hc, hne⟩
  have hlead : ∀ c ∈ endLines before, (c == ' ' || c == '\n') = true := by
    intro c hc
    obtain ⟨line, hline, hc⟩ := List.mem_flatMap.mp hc
    obtain hc | hc := List.mem_append.mp hc
    · simp [hspace line hline c hc]
    · simp [List.mem_singleton.mp hc]
  rw [IsUnspaced, ← endLines_joinLines before (List.cons_ne_nil first after), List.append_assoc,
    List.takeWhile_append_of_pos hlead, List.mem_append, not_or] at h
  constructor
  · intro line hline
    cases line with
    | nil => rfl
    | cons c line =>
      obtain rfl := hspace _ hline c List.mem_cons_self
      refine absurd ?_ h.1
      exact List.mem_flatMap.mpr ⟨_, hline, List.mem_append_left _ List.mem_cons_self⟩
  · intro hhead
    obtain ⟨line, rfl⟩ := List.head?_eq_some_iff.mp hhead
    have hjoin : ∃ rest, joinLines ((' ' :: line) :: after) = ' ' :: rest := by
      cases after with
      | nil => exact ⟨line, rfl⟩
      | cons second after => exact ⟨line ++ '\n' :: joinLines (second :: after), rfl⟩
    obtain ⟨rest, hrest⟩ := hjoin
    rw [hrest] at h
    exact h.2 (by simp)

/-- A line of a block that holds more than spaces. -/
theorem startsAt_of_isFilled {line : List Char} (n : Nat) (h : IsFilled line)
    (hfeed : '\n' ∉ line) (hreturn : '\r' ∉ line) :
    ∃ j, StartsAt (n + j) (spaces n ++ line) ∧ (line.head? ≠ some ' ' → j = 0) := by
  have hsplit := List.takeWhile_append_dropWhile (p := (· == ' ')) (l := line)
  have hspaces : line.takeWhile (· == ' ') = spaces (line.takeWhile (· == ' ')).length := by
    refine List.eq_replicate_of_mem fun c hc => ?_
    have := List.all_takeWhile (p := (· == ' ')) (l := line)
    rw [List.all_eq_true] at this
    simpa using this c hc
  have hhead := List.head?_dropWhile_not (· == ' ') line
  cases hrest : line.dropWhile (· == ' ') with
  | nil =>
    obtain ⟨c, hc, hne⟩ := h
    rw [hrest, List.append_nil] at hsplit
    rw [← hsplit, hspaces] at hc
    exact absurd (List.eq_of_mem_replicate hc) hne
  | cons c rest =>
    have hmem : c ∈ line := by
      rw [← hsplit, hrest]
      simp
    have hspace : c ≠ ' ' := by simpa [hrest] using hhead
    have hne (d : Char) (hd : d ∉ line) : c ≠ d := fun h => hd (h ▸ hmem)
    refine ⟨(line.takeWhile (· == ' ')).length,
      ⟨c, rest, ?_, hspace, hne _ hfeed, hne _ hreturn⟩, ?_⟩
    · conv_lhs => rw [← hsplit, hspaces, hrest]
      rw [← List.append_assoc, spaces, spaces, List.replicate_append_replicate]
      rfl
    · intro hne
      cases line with
      | nil => rfl
      | cons d line =>
        have hd : d ≠ ' ' := by simpa using hne
        simp [hd]

theorem continues_indentedLine {n : Nat} {line line' : List Char} (h : IndentedLine n line line')
    (hn : 0 < n) : continues n (line' ++ ['\n']) = true := by
  rw [continues, if_neg (by omega)]
  cases h with
  | empty => rfl
  | spaced line =>
    have hspaces : ∀ c ∈ spaces n, (c == ' ') = true := by simp [spaces]
    rw [List.append_assoc, List.takeWhile_append_of_pos hspaces]
    split
    · rfl
    · rfl
    · simp [spaces]

theorem takeWhile_append_stop {α : Type} {p : α → Bool} {x : α} (h : p x = false)
    (front back : List α) : (front ++ x :: back).takeWhile p = front.takeWhile p := by
  induction front with
  | nil => exact List.takeWhile_cons_of_neg (by simp [h])
  | cons y front ih =>
    rw [List.cons_append, List.takeWhile_cons, List.takeWhile_cons, ih]

/-- A text that starts with no space before other characters than white space. -/
theorem isUnspaced_of_startsWithSpace {cs : List Char} (h : startsWithSpace cs = false)
    (hcs : ∃ c ∈ cs, isGap c = false) : IsUnspaced cs := by
  obtain ⟨hsplit, hgap, hlast⟩ := splitTail_spec cs
  rw [startsWithSpace] at h
  generalize splitTail cs = parts at hsplit hgap hlast h
  obtain ⟨body, tail⟩ := parts
  dsimp only at *
  subst hsplit
  obtain rfl | ⟨front, c, rfl⟩ := List.eq_nil_or_concat' body
  · obtain ⟨c, hc, hfalse⟩ := hcs
    rw [hgap c (by simpa using hc)] at hfalse
    exact absurd hfalse (by simp)
  · have hc := hlast c (by simp)
    simp only [isGap, Bool.or_eq_false_iff] at hc
    have htake := takeWhile_append_stop (p := fun d => d == ' ' || d == '\n') (x := c) (by simp [hc])
    rw [htake] at h
    rw [IsUnspaced, List.append_assoc, List.singleton_append, htake]
    simpa using h

/-- The header of a block. -/
def blockHeader (folded hinted : Bool) (chomp : Chomp) : List Char :=
  (if folded then '>' else '|') :: (hint hinted ++ chomp.sign)

/-- The indentation that a header asks for, less one. -/
def hinted? (hinted : Bool) : Option Nat := if hinted then some 1 else none

theorem headerSettings_block (hinted : Bool) (chomp : Chomp) (rest : List Char) :
    headerSettings none false (hint hinted ++ chomp.sign ++ '\n' :: rest) =
      (hinted? hinted, chomp == .keep) := by
  cases hinted <;> cases chomp <;> rfl

theorem span_blockHeader (folded hinted : Bool) (chomp : Chomp) (rest : List Char) :
    (blockHeader folded hinted chomp ++ '\n' :: rest).span (fun c => !emptyAt [c] && c != '#') =
      (blockHeader folded hinted chomp, '\n' :: rest) := by
  cases folded <;> cases hinted <;> cases chomp <;> rfl

/-- The lines of a block are cut off what follows. -/
theorem Literal.cutBlock {cs : List Char} {chomp : Chomp} {lines out : List (List Char)}
    {hinted : Bool} (h : Literal (indentNext + 1) cs chomp lines out) (hreturn : '\r' ∉ cs)
    (hhint : hinted = false → (∃ line ∈ lines, IsFilled line) → IsUnspaced cs)
    (hrest : BlockEnd k rest) (hk : k < indentNext) :
    ∃ inner, indentNext ≤ inner ∧
      cutBlock indentNext (hinted? hinted) (chomp == .keep) (endLines out ++ rest) =
        (⟨.scalar, endLines out⟩, rest, inner) := by
  have hlines := h.not_mem_lines hreturn
  have hfeed := h.noFeed_out
  obtain ⟨hnone, hnone'⟩ | ⟨before, first, after, before', after', rfl, rfl, hbefore, hafter, hnone, hnone',
    hfirst⟩ := h.indented.split
  · rw [h.eq_keep hnone]
    exact ⟨indentNext, Nat.le_refl _, cutBlock_blank hfeed hnone' hrest hk⟩
  · have hmem : first ∈ before ++ first :: after := by simp
    obtain ⟨j, hstart, hj⟩ :=
      startsAt_of_isFilled (indentNext + 1) hfirst (h.noFeed _ hmem) (hlines _ hmem)
    have hrows : Indented (indentNext + 1) (first :: after) ((spaces (indentNext + 1) ++ first) :: after') :=
      .cons (.spaced first) hafter
    refine ⟨indentNext + 1, Nat.le_succ _, cutBlock_filled hfeed hnone' hstart (by omega) (by omega) ?_ ?_ ?_
      hrest (by omega)⟩
    · cases hinted with
      | true => exact Nat.add_comm _ _
      | false =>
        have hunspaced := hhint rfl ⟨first, by simp, hfirst⟩
        rw [h.text] at hunspaced
        have := hj (hunspaced.lines hnone).2
        simp [hinted?, this]
    · intro line' hline'
      obtain ⟨line, -, hindented⟩ := hrows.exists_of_mem line' hline'
      exact continues_indentedLine hindented (Nat.succ_pos _)
    · intro hkeep line' hline'
      obtain ⟨line, hline, hindented⟩ := hrows.getLast? line' hline'
      have hlast : line ∈ (before ++ first :: after).getLast? := by
        rwa [List.getLast?_append_cons]
      have hfilled := h.last (by simpa using hkeep) line hlast
      have hmem := List.mem_of_getLast? hlast
      cases hindented with
      | empty =>
        obtain ⟨c, hc, -⟩ := hfilled
        exact absurd hc List.not_mem_nil
      | spaced line =>
        obtain ⟨l, hl, -⟩ := startsAt_of_isFilled (indentNext + 1) hfilled (h.noFeed _ hmem) (hlines _ hmem)
        exact (hl.append _).isSlackLine _

/-- A block scalar is cut in one move. -/
theorem moveDocumentNode_block {m : Memory} (folded : Bool) {hinted : Bool} {chomp : Chomp}
    {text rest : List Char} {inner : Nat}
    (h : cutBlock m.indentNext (hinted? hinted) (chomp == .keep) (text ++ rest) =
      (⟨.scalar, text⟩, rest, inner)) :
    moveDocumentNode m (blockHeader folded hinted chomp ++ '\n' :: (text ++ rest)) =
      ⟨[⟨.blockHeader, blockHeader folded hinted chomp⟩, ⟨.newline, ['\n']⟩, ⟨.scalar, text⟩], .lineStart,
        { m with indentNext := inner }, rest⟩ := by
  have hspan := span_blockHeader folded hinted chomp (text ++ rest)
  have hsettings := headerSettings_block hinted chomp (text ++ rest)
  rw [blockHeader, List.cons_append] at hspan ⊢
  generalize hint hinted ++ chomp.sign = sign at hspan hsettings ⊢
  rw [List.span_eq_takeWhile_dropWhile] at hspan
  obtain ⟨hheader, hrest⟩ := Prod.mk.inj hspan
  cases folded
  all_goals
    simp only [if_true, Bool.false_eq_true, if_false] at hheader hrest ⊢
    simp [moveDocumentNode, cutProperty?, indicator?, lineEndAt, hsettings, hheader, hrest, cutBlanks,
      cutLine, cutNewline, Lexer.lexeme, Lexer.isBlank, h]

end BuildMatrix.Yaml
