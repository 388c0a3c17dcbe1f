import BuildMatrix.Proofs.Yaml.FoldedText

/-!
# How a folded block is written

The lines of a text are indented and broken at single spaces, and the line feeds at both ends are
left as they are.  If no line of the text starts with white space, there is nothing else in the block
(`block_eq_folded`).
-/

namespace BuildMatrix.Yaml

open ScalarText

/-! ## Indentation -/

/-- No line starts with white space, so that none is kept from being folded. -/
theorem keepIndented_eq_self (n : Nat) (atStart : Bool) {cs : List Char} (h : cs.IsChain FlushAfter)
    (hstart : atStart = true → ∀ c ∈ cs.head?, isBlank c = false) : keepIndented n atStart cs = cs := by
  induction n generalizing atStart cs with
  | zero => rfl
  | succ n ih =>
    cases cs with
    | nil => rfl
    | cons c rest =>
      obtain ⟨hhead, hrest⟩ := List.isChain_cons.mp h
      have hfirst : (atStart && isBlank c) = false := by
        cases atStart with
        | false => rfl
        | true => exact hstart rfl c rfl
      have hnext : (c == '\n' && rest.head?.any isBlank) = false := by
        rw [Bool.and_eq_false_imp, beq_iff_eq]
        intro hc
        rw [Option.any_eq_false]
        exact fun b hb => by simpa using hhead b hb hc
      rw [keepIndented, hfirst, hnext]
      exact congrArg (c :: ·) (ih false hrest (by simp))

theorem head?_indentRuns (n : Nat) (cs : List Char) : (indentRuns n cs).head? = cs.head? := by
  fun_cases indentRuns n cs <;> rfl

theorem indentRuns_feed (n : Nat) {rest : List Char} (h : rest.head? ≠ some '\n') :
    indentRuns n ('\n' :: rest) = '\n' :: spaces n ++ indentRuns n rest := by
  cases rest with
  | nil => simp [indentRuns]
  | cons c rest =>
    have hc : c ≠ '\n' := by simpa using h
    rw [indentRuns]
    · exact List.cons_ne_nil c rest
    · simp [hc]

theorem indentRuns_cons (n : Nat) {c : Char} (hc : c ≠ '\n') (rest : List Char) :
    indentRuns n (c :: rest) = c :: indentRuns n rest := by
  rw [indentRuns]
  · exact fun hfeed => absurd hfeed hc
  · exact fun _ hfeed => absurd hfeed hc
  · exact hc

/-- White space at the start of a text in which a space stands behind another character. -/
theorem exists_of_gaps_append (gaps : List Char) {more line rest : List Char}
    (h : '\n' :: gaps ++ more = line ++ ' ' :: rest) (hgaps : ∀ c ∈ gaps, isGap c = true)
    (hlast : ∀ c ∈ line.getLast?, isGap c = false) :
    ∃ line', line = '\n' :: gaps ++ line' ∧ line' ≠ [] ∧ (∀ c ∈ line'.getLast?, isGap c = false) ∧
      more = line' ++ ' ' :: rest := by
  have hline (hmem : ∀ c ∈ line, isGap c = true) : line = [] := by
    obtain rfl | ⟨line, c, rfl⟩ := List.eq_nil_or_concat' line
    · rfl
    · have hc := hlast c (by simp)
      rw [hmem c (by simp)] at hc
      exact Bool.noConfusion hc
  have hall : ∀ c ∈ '\n' :: gaps, isGap c = true := List.forall_mem_cons.mpr ⟨rfl, hgaps⟩
  obtain ⟨line', rfl, hmore⟩ | ⟨back, hback, hrest⟩ := List.append_eq_append_iff.mp h
  · refine ⟨line', rfl, ?_, fun c hc => hlast c ?_, hmore⟩
    · rintro rfl
      rw [List.append_nil] at hline
      exact List.cons_ne_nil _ _ (hline hall)
    · rw [Option.mem_def, List.getLast?_append, Option.mem_def.mp hc]
      rfl
  · obtain rfl := hline fun c hc => hall c (hback ▸ List.mem_append_left _ hc)
    rw [List.nil_append] at hback
    rw [← hback] at hrest
    exact absurd (List.cons.inj hrest).1 (by decide)

theorem isGap_spaces (n : Nat) : ∀ c ∈ spaces n, isGap c = true := by
  intro c hc
  rw [List.eq_of_mem_replicate hc]
  rfl

/-- A space in the indented text behind another character is a space of the text. -/
theorem exists_of_indentRuns_eq {n k : Nat} {cs line rest : List Char}
    (h : indentRuns n cs ++ List.replicate k '\n' = line ++ ' ' :: rest)
    (hlast : ∀ c ∈ line.getLast?, isGap c = false) :
    ∃ front back, cs = front ++ ' ' :: back ∧ indentRuns n front = line ∧
      indentRuns n back ++ List.replicate k '\n' = rest ∧ ∀ c ∈ front.getLast?, isGap c = false := by
  have hfeeds {line : List Char} (h : List.replicate k '\n' = line ++ ' ' :: rest) : False := by
    have hspace : ' ' ∈ List.replicate k '\n' := by simp [h]
    exact absurd (List.eq_of_mem_replicate hspace) (by decide)
  have hhead {c : Char} {cs front back : List Char} (hcs : c :: cs = front ++ ' ' :: back)
      (hne : front ≠ []) : front.head? = some c := by
    obtain ⟨a, front, rfl⟩ := List.exists_cons_of_ne_nil hne
    rw [(List.cons.inj hcs).1]
    rfl
  fun_induction indentRuns n cs generalizing line with
  | case1 => exact absurd (hfeeds h) id
  | case2 =>
    obtain ⟨line', -, -, -, hline⟩ := exists_of_gaps_append (spaces n) h (isGap_spaces n) hlast
    exact absurd (hfeeds hline) id
  | case3 more ih =>
    obtain ⟨line, rfl, hne, hlast', hline⟩ := exists_of_gaps_append [] h (by simp) hlast
    obtain ⟨front, back, hcs, rfl, hback, hfront⟩ := ih hline hlast'
    obtain ⟨front, rfl⟩ := List.head?_eq_some_iff.mp (hhead hcs (by rintro rfl; exact hne rfl))
    refine ⟨'\n' :: '\n' :: front, back, congrArg ('\n' :: ·) hcs, by rw [indentRuns]; rfl, hback, ?_⟩
    rwa [List.getLast?_cons_cons]
  | case4 more hmore hnext ih =>
    rw [List.append_assoc] at h
    obtain ⟨line, rfl, hne, hlast', hline⟩ := exists_of_gaps_append (spaces n) h (isGap_spaces n) hlast
    obtain ⟨front, back, hcs, rfl, hback, hfront⟩ := ih hline hlast'
    obtain ⟨a, front, rfl⟩ := List.exists_cons_of_ne_nil (show front ≠ [] by rintro rfl; exact hne rfl)
    refine ⟨'\n' :: a :: front, back, congrArg ('\n' :: ·) hcs, indentRuns_feed n ?_, hback, ?_⟩
    · intro hfeed
      obtain rfl : a = '\n' := by simpa using hfeed
      exact hnext _ hcs
    · rwa [List.getLast?_cons_cons]
  | case5 c more hnil hnext hc ih =>
    cases line with
    | nil =>
      obtain ⟨rfl, hrest⟩ := List.cons.inj h
      exact ⟨[], more, rfl, rfl, hrest, by simp⟩
    | cons a line =>
      obtain ⟨rfl, hline⟩ := List.cons.inj h
      have hlast' : ∀ b ∈ line.getLast?, isGap b = false := fun b hb => hlast b (by
        rw [Option.mem_def, List.getLast?_cons, Option.mem_def.mp hb]
        rfl)
      obtain ⟨front, back, rfl, rfl, hback, hfront⟩ := ih hline hlast'
      refine ⟨c :: front, back, rfl, indentRuns_cons n hc front, hback, ?_⟩
      cases front with
      | nil => exact hlast
      | cons a front => rwa [List.getLast?_cons_cons]

/-! ## Where the lines are broken -/

theorem StartsSolid.head?_ne {cs : List Char} (h : StartsSolid cs) : cs.head? ≠ some '\n' :=
  fun hfeed => absurd (h.head? '\n' hfeed) (by decide)

/-- Breaking an indented text at single spaces is indenting the text with line feeds there. -/
theorem AtSpaces.wraps {n k offset : Nat} {breaks : List Break} {cs : List Char}
    (h : AtSpaces offset breaks (indentRuns n cs ++ List.replicate k '\n')) :
    ∃ out, Wraps cs out ∧ applyBreaks n offset breaks (indentRuns n cs ++ List.replicate k '\n') =
      indentRuns n out ++ List.replicate k '\n' := by
  generalize htext : indentRuns n cs ++ List.replicate k '\n' = text at h
  induction h generalizing cs with
  | nil => exact ⟨cs, .whole cs, by rw [applyBreaks, htext]⟩
  | @cons offset line rest breaks hlast hhead h ih =>
    obtain ⟨front, back, rfl, rfl, rfl, hfront⟩ := exists_of_indentRuns_eq htext hlast
    have hback : StartsSolid back := by
      obtain ⟨c, hc, hgap⟩ := hhead
      rw [Option.mem_def, List.head?_append, head?_indentRuns, Option.or_eq_some_iff] at hc
      obtain hc | ⟨-, hc⟩ := hc
      · exact ⟨c, hc, hgap⟩
      · obtain rfl := List.eq_of_mem_replicate (List.mem_of_head? hc)
        exact absurd hgap (by decide)
    obtain ⟨out, hwraps, hout⟩ := ih rfl
    refine ⟨front ++ '\n' :: out, .broken hfront hback hwraps, ?_⟩
    rw [applyBreaks_space, hout, indentRuns_append n fun hfeed => ?_,
      indentRuns_feed n (hwraps.startsSolid hback).head?_ne]
    · simp [breakTo, spaces]
    · exact absurd (hfront '\n' hfeed) (by decide)

theorem moreIndented_spaces {n k : Nat} (hk : k ≤ n) {cs : List Char}
    (hcs : ∀ c ∈ cs.head?, isBlank c = false) :
    FoldScan.moreIndented n (spaces k ++ cs) = (0, 0) := by
  have hspaces : ∀ c ∈ spaces k, FoldScan.isBlank c = true := by
    intro c hc
    rw [List.eq_of_mem_replicate hc]
    rfl
  have hlength : (((spaces k ++ cs).take (n + 1)).takeWhile FoldScan.isBlank).length = k := by
    have hrest : ((cs.take (n + 1 - k)).takeWhile FoldScan.isBlank) = [] := by
      cases cs with
      | nil => simp
      | cons c cs =>
        obtain ⟨j, hj⟩ : ∃ j, n + 1 - k = j + 1 := ⟨n - k, by omega⟩
        rw [hj, List.take_succ_cons, List.takeWhile_cons_of_neg]
        exact Bool.eq_false_iff.mp (hcs c rfl)
    rw [List.take_append, List.take_of_length_le (by simp [spaces]; omega),
      List.takeWhile_append_of_pos hspaces]
    simp [spaces, hrest]
  rw [FoldScan.moreIndented, FoldScan.moreIndented.go, if_neg (by omega)]

theorem moreIndented_flush (n : Nat) {cs : List Char} (hcs : ∀ c ∈ cs.head?, isBlank c = false) :
    FoldScan.moreIndented n cs = (0, 0) :=
  moreIndented_spaces (Nat.zero_le n) hcs

theorem suffix_of_spaces {n : Nat} {rest cs : List Char} (h : '\n' :: rest <:+ spaces n ++ cs) :
    '\n' :: rest <:+ cs := by
  induction n with
  | zero => exact h
  | succ n ih =>
    obtain h | h := List.suffix_cons_iff.mp h
    · exact absurd (List.cons.inj h).1 (by decide)
    · exact ih h

theorem moreIndented_after {n k : Nat} {cs rest : List Char} (h : cs.IsChain FlushAfter)
    (hrest : '\n' :: rest <:+ indentRuns n cs ++ List.replicate k '\n') :
    FoldScan.moreIndented n rest = (0, 0) := by
  have hfeeds (j : Nat) : ∀ c ∈ (List.replicate j '\n').head?, isBlank c = false := by
    intro c hc
    rw [List.eq_of_mem_replicate (List.mem_of_head? hc)]
    rfl
  have hend {rest : List Char} (hrest : '\n' :: rest <:+ List.replicate k '\n') :
      FoldScan.moreIndented n rest = (0, 0) := by
    refine moreIndented_flush n fun c hc => ?_
    rw [List.eq_of_mem_replicate (hrest.subset (.tail _ (List.mem_of_head? hc)))]
    rfl
  fun_induction indentRuns n cs with
  | case1 => exact hend hrest
  | case2 =>
    obtain hrest | hrest := List.suffix_cons_iff.mp hrest
    · obtain ⟨-, rfl⟩ := List.cons.inj hrest
      exact moreIndented_spaces (Nat.le_refl n) (hfeeds k)
    · exact hend (suffix_of_spaces hrest)
  | case3 more ih =>
    rw [List.cons_append] at hrest
    obtain hrest | hrest := List.suffix_cons_iff.mp hrest
    · obtain ⟨-, rfl⟩ := List.cons.inj hrest
      refine moreIndented_flush n fun c hc => ?_
      rw [Option.mem_def, List.head?_append, head?_indentRuns] at hc
      obtain rfl : '\n' = c := by simpa using hc
      rfl
    · exact ih h.tail hrest
  | case4 more hmore hnext ih =>
    rw [List.append_assoc] at hrest
    obtain hrest | hrest := List.suffix_cons_iff.mp hrest
    · obtain ⟨-, rfl⟩ := List.cons.inj hrest
      refine moreIndented_spaces (Nat.le_refl n) fun c hc => ?_
      obtain ⟨a, more, rfl⟩ := List.exists_cons_of_ne_nil hmore
      rw [Option.mem_def, List.head?_append, head?_indentRuns] at hc
      exact (List.isChain_cons.mp h).1 c (by simpa using hc) rfl
    · exact ih h.tail (suffix_of_spaces hrest)
  | case5 c more hnil hnext hc ih =>
    obtain hrest | hrest := List.suffix_cons_iff.mp hrest
    · exact absurd (List.cons.inj hrest).1.symm hc
    · exact ih h.tail hrest

/-- No line of the indented text is indented deeper. -/
theorem unpassed_indentRuns (n k : Nat) {cs : List Char} (h : ('\n' :: cs).IsChain FlushAfter) :
    Unpassed .block n (indentRuns n cs ++ List.replicate k '\n') := by
  refine ⟨moreIndented_flush n fun c hc => ?_, fun rest hrest => moreIndented_after h.tail hrest⟩
  rw [Option.mem_def, List.head?_append, head?_indentRuns, Option.or_eq_some_iff] at hc
  obtain hc | ⟨-, hc⟩ := hc
  · exact (List.isChain_cons.mp h).1 c hc rfl
  · rw [List.eq_of_mem_replicate (List.mem_of_head? hc)]
    rfl

/-! ## The parts of a folded block -/

/-- Where no line starts with white space, all white space at the start is line feeds. -/
theorem eq_feed_of_isChain {gaps : List Char} (h : ('\n' :: gaps).IsChain FlushAfter)
    (hgaps : ∀ c ∈ gaps, isGap c = true) : ∀ c ∈ gaps, c = '\n' := by
  induction gaps with
  | nil => simp
  | cons c gaps ih =>
    have hblank := (List.isChain_cons.mp h).1 c rfl rfl
    have hgap := hgaps c (.head _)
    simp only [isBlank, Bool.or_eq_false_iff, beq_eq_false_iff_ne] at hblank
    obtain rfl : c = '\n' := by simpa [isGap, hblank] using hgap
    exact List.forall_mem_cons.mpr ⟨rfl, ih h.tail fun c hc => hgaps c (.tail _ hc)⟩

/-- The parts of a text without lines that start with white space: the line feeds at its start, and
what follows. -/
theorem exists_headText {body : List Char} (h : ('\n' :: body).IsChain FlushAfter)
    (hsolid : ∃ c ∈ body, isGap c = false) :
    (body.takeWhile fun c => c == ' ' || c == '\n').contains ' ' = false ∧
      ∃ k rest, body = List.replicate k '\n' ++ rest ∧ headText body = List.replicate k '\n' ∧
        StartsSolid rest := by
  have hsplit := List.takeWhile_append_dropWhile (p := fun c => c == ' ' || c == '\n') (l := body)
  have hrest := List.head?_dropWhile_not (fun c => c == ' ' || c == '\n') body
  have hall := List.all_takeWhile (p := fun c => c == ' ' || c == '\n') (l := body)
  rw [headText]
  generalize (body.takeWhile fun c => c == ' ' || c == '\n') = run at *
  generalize (body.dropWhile fun c => c == ' ' || c == '\n') = rest at *
  subst hsplit
  rw [← List.cons_append] at h
  obtain ⟨hrun, -, hseam⟩ := List.isChain_append.mp h
  have hfeeds : ∀ c ∈ run, c = '\n' := by
    refine eq_feed_of_isChain hrun fun c hc => ?_
    have hc := List.all_eq_true.mp hall c hc
    rw [isGap, hc]
    rfl
  obtain ⟨k, rfl⟩ : ∃ k, run = List.replicate k '\n' := ⟨_, List.eq_replicate_of_mem hfeeds⟩
  refine ⟨by simp, k, rest, rfl, by simp, ?_⟩
  cases rest with
  | nil =>
    obtain ⟨c, hc, hgap⟩ := hsolid
    rw [hfeeds c (by simpa using hc)] at hgap
    exact absurd hgap (by decide)
  | cons c rest =>
    have hblank : isBlank c = false := by
      refine hseam '\n' ?_ c rfl rfl
      cases k <;> simp [List.getLast?_cons, List.getLast?_replicate]
    have hfeed : c ≠ '\n' := by
      rintro rfl
      simp at hrest
    refine ⟨c, rfl, ?_⟩
    simp only [isBlank, Bool.or_eq_false_iff] at hblank
    simp [FoldScan.isGap, hblank, hfeed]

/-- What is written for a text as a folded block: line feeds, the lines of what stands between the
white space at both ends, and line feeds. -/
structure FoldedBlock (cs : List Char) (chomp : Chomp) (before after : Nat) (text out : List Char) :
    Prop where
  eq : cs = List.replicate before '\n' ++ text ++ List.replicate after '\n' ++ chomp.ending
  start : StartsSolid text
  stop : ∃ c ∈ text.getLast?, c ≠ '\n'
  flush : text.IsChain FlushAfter
  wraps : Wraps (doubleRuns false text) out
  last : chomp ≠ .keep → after = 0

/-- A text of nothing but line feeds is not folded. -/
theorem head?_block_feeds (slot : Slot) (k : Nat) :
    (block slot (List.replicate k '\n')).head? ≠ some '>' := by
  have hends : endsBlank (List.replicate k '\n') = false := by
    rw [endsBlank, List.reverse_replicate]
    cases k <;> rfl
  have hliteral : (lineWidths (List.replicate k '\n')).all (· ≤ lineWidth - slot.indent) = true := by
    simp [lineWidths, linesOf_replicate, Text.widthOf]
  rw [block, hends, if_neg Bool.false_ne_true, hliteral]
  simp

theorem getLast?_append_blanks {body blanks : List Char} (hbody : ∃ c ∈ body.getLast?, c ≠ '\n')
    (hblanks : '\n' ∉ blanks) : ∃ c ∈ (body ++ blanks).getLast?, c ≠ '\n' := by
  obtain ⟨c, hc, hne⟩ := hbody
  rw [List.getLast?_append, Option.mem_def.mp hc]
  cases hlast : blanks.getLast? with
  | none => exact ⟨c, rfl, hne⟩
  | some b =>
    refine ⟨b, rfl, ?_⟩
    rintro rfl
    exact hblanks (List.mem_of_getLast? hlast)

/-- Something else than white space stands in a text that is folded. -/
theorem exists_solid_of_folded {slot : Slot} {cs : List Char} (hflush : IsFlush cs)
    (hfolded : (block slot cs).head? = some '>') : ∃ c ∈ (splitTail cs).1, isGap c = false := by
  obtain ⟨hsplit, hgap, hlast⟩ := splitTail_spec cs
  obtain hbody | ⟨body, c, hbody⟩ := List.eq_nil_or_concat' (splitTail cs).1
  · rw [hbody, List.nil_append] at hsplit
    have hfeeds := eq_feed_of_isChain (isFlush_iff.mp hflush) fun c hc => hgap c (hsplit ▸ hc)
    rw [List.eq_replicate_of_mem hfeeds] at hfolded
    exact absurd hfolded (head?_block_feeds slot _)
  · exact ⟨c, by simp [hbody], hlast c (by simp [hbody])⟩

/-- The parts of a folded block are indented one by one. -/
theorem indentRuns_parts (n before after : Nat) {body inner : List Char} (hstart : StartsSolid body)
    (hinner : '\n' ∉ inner) :
    indentRuns n (List.replicate before '\n') ++ indentRuns n (doubleRuns false body) ++
        (indentRuns n inner ++ List.replicate after '\n') =
      indentRuns n (List.replicate before '\n' ++ doubleRuns false (body ++ inner)) ++
        List.replicate after '\n' := by
  rw [doubleRuns_append_line hinner, ← List.append_assoc, ← List.append_assoc,
    ← indentRuns_append n fun _ => ?_, ← indentRuns_append n fun _ => ?_]
  · exact fun hfeed => hinner (List.mem_of_head? hfeed)
  · rw [head?_doubleRuns]
    exact hstart.head?_ne

theorem isBlank_of_isGap {c : Char} (h : isGap c = false) : isBlank c = false := by
  simp only [isGap, Bool.or_eq_false_iff] at h
  rw [isBlank, h.1.1, h.2]
  rfl

/-- Behind line feeds, a text that starts with no white space. -/
theorem isChain_feeds (k : Nat) {cs : List Char} (h : cs.IsChain FlushAfter) (hstart : StartsSolid cs) :
    ('\n' :: (List.replicate k '\n' ++ cs)).IsChain FlushAfter := by
  induction k with
  | zero => exact h.cons fun b hb _ => isBlank_of_isGap (hstart.head? b hb)
  | succ k ih =>
    refine ih.cons fun b hb _ => ?_
    obtain rfl : '\n' = b := by simpa using hb
    rfl

/-- The lines of a text are broken at single spaces. -/
theorem exists_fold_eq (n before after : Nat) {text : List Char} (htext : text.IsChain FlushAfter)
    (hstart : StartsSolid text) :
    ∃ out, Wraps (doubleRuns false text) out ∧
      (fold .block n n (indentRuns n (List.replicate before '\n' ++ doubleRuns false text) ++
        List.replicate after '\n')).1 =
      indentRuns n (List.replicate before '\n' ++ out) ++ List.replicate after '\n' := by
  have hdoubled : StartsSolid (doubleRuns false text) := by
    rw [StartsSolid, head?_doubleRuns]
    exact hstart
  have hchain := isChain_feeds before (isChain_doubleRuns htext false) hdoubled
  obtain ⟨breaks, hbreaks, hfold⟩ :=
    atSpaces_fold (by decide : FoldMode.block ≠ .quoted) n (unpassed_indentRuns n after hchain)
  obtain ⟨whole, hwhole, hout⟩ := hbreaks.wraps
  obtain ⟨out, rfl, hwraps⟩ := hwhole.of_feeds
  exact ⟨out, hwraps, by rw [hfold, hout]⟩

/-- A folded block of a text without lines that start with white space. -/
theorem block_eq_folded {slot : Slot} {cs : List Char} (hfeed : '\n' ∈ cs)
    (hends : endsBlank cs = false) (hflush : IsFlush cs)
    (hfolded : (block slot cs).head? = some '>') :
    ∃ chomp before after text out, FoldedBlock cs chomp before after text out ∧
      block slot cs = '>' :: chomp.sign ++ '\n' :: (spaces slot.indent ++
        indentRuns slot.indent (List.replicate before '\n' ++ out) ++ List.replicate after '\n') := by
  obtain ⟨hsplit, hgap, hlast⟩ := splitTail_spec cs
  obtain ⟨inner, after, hinner, hend, htail⟩ := tailText_eq slot.indent (splitTail cs).2
  have hsolid := exists_solid_of_folded hflush hfolded
  have hchain := isFlush_iff.mp hflush
  rw [block, hends, if_neg Bool.false_ne_true] at hfolded ⊢
  dsimp only at hfolded ⊢
  rw [hsplit] at hfeed hends hchain
  obtain ⟨chomp, hsign, hparts, hkeep⟩ := exists_chomp hfeed hends hgap hinner
  have hleft : ('\n' :: (splitTail cs).1).IsChain FlushAfter := hchain.left_of_append
  obtain ⟨hhint, before, body, hbody, hhead, hstart⟩ := exists_headText hleft hsolid
  rw [hhint, hsign, htail, hhead] at hfolded ⊢
  generalize (lineWidths cs).all (fun w => decide (w ≤ lineWidth - slot.indent)) = literal at *
  generalize splitTail cs = parts at *
  obtain ⟨body', tail⟩ := parts
  dsimp only at *
  subst hsplit hbody hparts
  rw [List.drop_left] at hfolded ⊢
  -- the parts of the text keep that no line starts with white space
  have hpart (part front back : List Char) (heq : '\n' :: (List.replicate before '\n' ++
      body ++ (inner ++ List.replicate after '\n' ++ chomp.ending)) = front ++ part ++ back) :
      part.IsChain FlushAfter :=
    hchain.infix ⟨front, back, heq.symm⟩
  have hline : '\n' ∉ inner :=
    not_mem_of_isChain (hpart inner ('\n' :: (List.replicate before '\n' ++ body))
      (List.replicate after '\n' ++ chomp.ending) (by simp)) (fun c hc => hgap c (by simp [hc])) hend
  have hbody := hpart body ('\n' :: List.replicate before '\n')
    (inner ++ List.replicate after '\n' ++ chomp.ending) (by simp)
  have htext := hpart (body ++ inner) ('\n' :: List.replicate before '\n')
    (List.replicate after '\n' ++ chomp.ending) (by simp)
  have hkept := keepIndented_eq_self (2 * body.length + 1) true (isChain_doubleRuns hbody false)
    (by
      rw [head?_doubleRuns]
      exact fun _ c hc => isBlank_of_isGap (hstart.head? c hc))
  have hstart' := hstart.append inner
  obtain ⟨out, hwraps, hfold⟩ := exists_fold_eq slot.indent before after htext hstart'
  rw [hkept, indentRuns_parts _ _ _ hstart hline, hfold] at hfolded ⊢
  refine ⟨chomp, before, after, body ++ inner, out,
    ⟨by simp, hstart', getLast?_append_blanks ?_ hline, htext, hwraps, fun hne => ?_⟩, ?_⟩
  · obtain ⟨front, c, rfl⟩ := (List.eq_nil_or_concat' body).resolve_left hstart.ne_nil
    refine ⟨c, by simp, ?_⟩
    rintro rfl
    exact absurd (hlast '\n' (by simp)) (by decide)
  · have hnone := (hkeep hne).2
    cases after with
    | zero => rfl
    | succ after => simp at hnone
  · split at hfolded
    next h =>
      rw [if_pos h]
      simp [breakTo, spaces]
    next h => exact absurd hfolded (by simp)

end BuildMatrix.Yaml
