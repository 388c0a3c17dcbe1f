import BuildMatrix.Proofs.Yaml.Folded
import BuildMatrix.Proofs.Yaml.LiteralValue

/-!
# The value of a folded block

The lines of a folded block are joined by spaces, and by the line feeds of the empty lines between
them, one less in each run.  That gives the text that is written (`FoldedBlock.blockValue_run`).
-/

namespace BuildMatrix.Yaml

open ScalarText

/-! ## Joining lines -/

/-- A line of a folded block that is joined with its neighbours. -/
structure IsFoldable (n : Nat) (line : BlockLine) : Prop extends IsContent n line where
  level : line.indent ≤ n
  noTab : line.content.head? ≠ some '\t'

theorem IsFoldable.unindent {n : Nat} {line : BlockLine} (h : IsFoldable n line) :
    line.unindent n = line.content := by
  rw [BlockLine.unindent, BlockLine.spacesBeyond, Nat.sub_eq_zero_of_le h.level]
  rfl

theorem joinBlock_cons_folded {h : BlockHeader} (hfolded : h.folded = true) (n offset : Nat)
    (joint : Joint) (indented : Bool) (line : BlockLine) (lines : List BlockLine) :
    joinBlock h n offset joint indented (line :: lines) = (do
      let next := offset + line.width
      let returned := line.content.getLast? == some '\r'
      let content := dropReturn line.content
      let short := !content.isEmpty && line.indent < n
      reportIf short (.point (next - Text.widthOf content - if returned then 2 else 1)
        (.blockIndent (h.indent != 0)))
      let spaces := if short then [] else line.spacesBeyond n
      if (!short && n < line.indent) || content.head? == some '\t' then
        let joint := match joint with
          | .space => Joint.break1
          | .break1 => if indented then .break1 else .break2
          | joint => joint
        return joint.chars ++ spaces ++ content ++ (← joinBlock h n next .break1 true lines)
      else if content.isEmpty then
        match joint with
        | .break1 => return '\n' :: (← joinBlock h n next .break1 indented lines)
        | _ => joinBlock h n next .break1 indented lines
      else return joint.chars ++ content ++ (← joinBlock h n next .space false lines)) := by
  obtain ⟨folded, indent, chomp, extra⟩ := h
  obtain rfl : folded = true := hfolded
  rfl

/-- A line that is indented as the block is joined with what stands before it. -/
theorem joinBlock_foldable {h : BlockHeader} (hfolded : h.folded = true) {n offset : Nat}
    {joint : Joint} {indented : Bool} {line : BlockLine} {lines : List BlockLine}
    (hline : IsFoldable n line) :
    joinBlock h n offset joint indented (line :: lines) =
      if line.content.isEmpty then
        match joint with
        | .break1 => do return '\n' :: (← joinBlock h n (offset + line.width) .break1 indented lines)
        | _ => joinBlock h n (offset + line.width) .break1 indented lines
      else do
        return joint.chars ++ line.content ++
          (← joinBlock h n (offset + line.width) .space false lines) := by
  have hshort : (!line.content.isEmpty && decide (line.indent < n)) = false := by
    obtain hnil | hle := hline.deep
    · rw [hnil]
      rfl
    · rw [decide_eq_false (by omega), Bool.and_false]
  have hdeep : decide (n < line.indent) = false := decide_eq_false (Nat.not_lt.mpr hline.level)
  have htab : (line.content.head? == some '\t') = false := by simpa using hline.noTab
  rw [joinBlock_cons_folded hfolded, dropReturn_eq_self hline.noReturn]
  dsimp only
  rw [hshort, hdeep, htab, reportIf, if_neg Bool.false_ne_true, pure_bind, Bool.and_false, Bool.or_false,
    if_neg Bool.false_ne_true]

/-- The lines of a folded block are joined as its text. -/
theorem joinBlock_folded {h : BlockHeader} (hfolded : h.folded = true) {n : Nat}
    {lines : List BlockLine} (hlines : ∀ line ∈ lines, IsFoldable n line) (offset : Nat)
    (joint : Joint) (indented : Bool) (rs : List Report) :
    (joinBlock h n offset joint indented lines).run rs =
      (foldedText joint (lines.map (·.unindent n)), rs) := by
  induction lines generalizing offset joint indented with
  | nil => rfl
  | cons line lines ih =>
    obtain ⟨hline, hrest⟩ := List.forall_mem_cons.mp hlines
    rw [joinBlock_foldable hfolded hline, List.map_cons, hline.unindent]
    split
    next hnil =>
      rw [List.isEmpty_iff.mp hnil]
      have hnext := ih hrest (offset + line.width) .break1 indented
      cases joint with
      | break1 => rw [run_bind_of hnext]; rfl
      | nothing => exact hnext
      | space => exact hnext
      | break2 => exact hnext
    next hne =>
      rw [run_bind_of (ih hrest _ _ _), foldedText_cons (by simpa using hne)]
      rfl

/-! ## The lines of a folded block -/

theorem linesOf_feeds_append (k : Nat) (cs : List Char) :
    linesOf (List.replicate k '\n' ++ cs) = List.replicate k [] ++ linesOf cs := by
  induction k with
  | zero => rfl
  | succ k ih =>
    rw [List.replicate_succ, List.cons_append, linesOf, ih]
    rfl

theorem linesOf_append_feeds (cs : List Char) (k : Nat) :
    linesOf (cs ++ List.replicate k '\n') = linesOf cs ++ List.replicate k [] := by
  cases k with
  | zero => rw [List.replicate_zero, List.append_nil, List.replicate_zero, List.append_nil]
  | succ k => rw [List.replicate_succ, linesOf_append_feed, linesOf_replicate]

theorem isFoldable_ofChars {n : Nat} {line out : List Char} (h : IndentedLine n line out)
    (hline : ∀ c ∈ line.head?, isBlank c = false) (hreturn : '\r' ∉ out) :
    IsFoldable n (BlockLine.ofChars out) := by
  have hcontent := isContent_ofChars h hreturn
  cases h with
  | spaced line =>
    have hspace : line.head? ≠ some ' ' := fun hhead => absurd (hline ' ' hhead) (by decide)
    rw [BlockLine.ofChars_spaces, BlockLine.ofChars_eq hspace] at hcontent ⊢
    exact ⟨hcontent, Nat.le_refl n, fun htab => absurd (hline '\t' htab) (by decide)⟩
  | empty => exact ⟨hcontent, Nat.zero_le n, by simp [BlockLine.ofChars]⟩

section

variable {n p before after : Nat} {cs text out : List Char} {chomp : Chomp}

/-- The text whose lines are those of a folded block. -/
def feedsAround (before after : Nat) (out : List Char) : List Char :=
  List.replicate before '\n' ++ out ++ List.replicate after '\n'

theorem FoldedBlock.startsSolid (h : FoldedBlock cs chomp before after text out) : StartsSolid out :=
  h.wraps.startsSolid (by rw [StartsSolid, head?_doubleRuns]; exact h.start)

theorem FoldedBlock.exists_last (h : FoldedBlock cs chomp before after text out) :
    ∃ line ∈ (linesOf out).getLast?, line ≠ [] :=
  lastLine_ne_nil (by rw [h.wraps.getLast?, getLast?_doubleRuns]; exact h.stop)

/-- No line of a folded block starts with white space either. -/
theorem FoldedBlock.isFlush (h : FoldedBlock cs chomp before after text out) (k : Nat) :
    IsFlush (feedsAround before k out) := by
  have hout := h.wraps.isChain (isChain_doubleRuns h.flush false)
  have hfeeds : (List.replicate k '\n').IsChain FlushAfter :=
    List.isChain_replicate_of_rel k fun _ => rfl
  rw [isFlush_iff, feedsAround, List.append_assoc]
  refine isChain_feeds before (List.isChain_append.mpr ⟨hout, hfeeds, fun a _ b hb _ => ?_⟩)
    (h.startsSolid.append _)
  rw [List.eq_of_mem_replicate (List.mem_of_head? hb)]
  rfl

/-- The lines of a folded block. -/
def foldedRows (n before after : Nat) (out : List Char) : List (List Char) :=
  linesOf (spaces n ++ indentRuns n (List.replicate before '\n' ++ out) ++ List.replicate after '\n')

/-- A folded block is written as a literal block of a text with more line feeds. -/
theorem FoldedBlock.literal (h : FoldedBlock cs chomp before after text out) (n : Nat) :
    Literal n (feedsAround before after out ++ chomp.ending) chomp
      (linesOf (feedsAround before after out)) (foldedRows n before after out) := by
  refine ⟨indented_indentRuns n after _, by rw [joinLines_linesOf], fun hkeep line hline => ?_,
    fun line => not_mem_of_mem_linesOf, linesOf_ne_nil _⟩
  refine (h.isFlush after).isFilled (List.mem_of_getLast? hline) ?_
  obtain rfl := h.last hkeep
  obtain ⟨last, hlast, hne⟩ := h.exists_last
  rw [feedsAround, List.replicate_zero, List.append_nil, linesOf_feeds_append, List.getLast?_append,
    Option.mem_def.mp hlast] at hline
  obtain rfl : last = line := by simpa using hline
  exact hne

theorem FoldedBlock.not_mem (h : FoldedBlock cs chomp before after text out) {c : Char} (hc : c ∉ cs)
    (hfeed : c ≠ '\n') : c ∉ feedsAround before after out ++ chomp.ending := by
  have hending : c ∉ chomp.ending := by
    cases chomp <;> simp [Chomp.ending, hfeed]
  have hfeeds (k : Nat) : c ∉ List.replicate k '\n' := fun hmem => hfeed (List.eq_of_mem_replicate hmem)
  have hout : c ∉ out := by
    intro hmem
    have htext := mem_of_mem_doubleRuns (h.wraps.mem hmem hfeed)
    rw [h.eq] at hc
    exact hc (by simp [htext])
  simp [feedsAround, hending, hfeeds, hout]

theorem IsFlush.isUnspaced {cs : List Char} (h : IsFlush cs) : IsUnspaced cs := by
  have hchain := isFlush_iff.mp h
  have hall := List.all_takeWhile (p := fun c => c == ' ' || c == '\n') (l := cs)
  rw [← List.takeWhile_append_dropWhile (p := fun c => c == ' ' || c == '\n') (l := cs),
    ← List.cons_append] at hchain
  rw [IsUnspaced]
  intro hspace
  refine absurd (eq_feed_of_isChain hchain.left_of_append (fun c hc => ?_) ' ' hspace) (by decide)
  rw [isGap, List.all_eq_true.mp hall c hc]
  rfl

/-- The lines of a folded block are cut off what follows. -/
theorem FoldedBlock.cutBlock {indentNext k : Nat} {rest : List Char}
    (h : FoldedBlock cs chomp before after text out) (hreturn : '\r' ∉ cs) (hrest : BlockEnd k rest)
    (hk : k < indentNext) :
    ∃ inner, indentNext ≤ inner ∧
      Lexer.cutBlock indentNext (hinted? false) (chomp == .keep)
        (endLines (foldedRows (indentNext + 1) before after out) ++ rest) =
          (⟨.scalar, endLines (foldedRows (indentNext + 1) before after out)⟩, rest, inner) := by
  have hending : chomp.ending = List.replicate chomp.ending.length '\n' := by
    cases chomp <;> rfl
  refine (h.literal (indentNext + 1)).cutBlock (h.not_mem hreturn (by decide))
    (fun _ _ => ?_) hrest hk
  rw [feedsAround, hending, List.append_assoc, List.replicate_append_replicate]
  exact (h.isFlush _).isUnspaced

/-- The lines before the text, those of the text, and those after it. -/
structure FoldedRows (n before after : Nat) (out : List Char) (front : List BlockLine)
    (first : BlockLine) (more rest : List BlockLine) : Prop where
  leading : front.map (·.unindent n) = List.replicate before []
  middle : (first :: more).map (·.unindent n) = linesOf out
  trailing : rest.map (·.unindent n) = List.replicate (after + 1) []
  foldable : ∀ line ∈ front ++ first :: (more ++ rest), IsFoldable n line

theorem FoldedBlock.exists_rows (h : FoldedBlock cs chomp before after text out)
    (hreturn : '\r' ∉ cs) (n : Nat) :
    ∃ front first more rest,
      (foldedRows n before after out ++ [[]]).map BlockLine.ofChars =
        front ++ first :: (more ++ rest) ∧
      FoldedRows n before after out front first more rest := by
  have hliteral := h.literal n
  have hindented : Indented n (linesOf (feedsAround before after out) ++ [[]])
      (foldedRows n before after out ++ [[]]) :=
    List.rel_append hliteral.indented (.cons .empty .nil)
  have hfoldable : ∀ line ∈ (foldedRows n before after out ++ [[]]).map BlockLine.ofChars,
      IsFoldable n line := by
    intro line hline
    obtain ⟨row, hrow, rfl⟩ := List.mem_map.mp hline
    obtain ⟨source, hsource, hindentedRow⟩ := hindented.exists_of_mem row hrow
    refine isFoldable_ofChars hindentedRow ?_ ?_
    · obtain hsource | hsource := List.mem_append.mp hsource
      · exact h.isFlush after source hsource
      · simp [List.mem_singleton.mp hsource]
    · obtain hrow | hrow := List.mem_append.mp hrow
      · exact hliteral.not_mem_out (by decide) (h.not_mem hreturn (by decide)) row hrow
      · simp [List.mem_singleton.mp hrow]
  have hunindent : ((foldedRows n before after out ++ [[]]).map BlockLine.ofChars).map
      (BlockLine.unindent n) =
        List.replicate before [] ++ (linesOf out ++ List.replicate (after + 1) []) := by
    rw [List.map_map]
    refine hindented.map_unindent.trans ?_
    rw [feedsAround, linesOf_append_feeds, linesOf_feeds_append, List.replicate_succ']
    simp
  obtain ⟨line, lines, hout⟩ := List.exists_cons_of_ne_nil (linesOf_ne_nil out)
  rw [hout] at hunindent
  obtain ⟨front, back, hrows, hfront, hback⟩ := List.map_eq_append_iff.mp hunindent
  obtain ⟨first, back, rfl, hfirst, hback⟩ := List.map_eq_cons_iff.mp hback
  obtain ⟨more, rest, rfl, hmore, hrest⟩ := List.map_eq_append_iff.mp hback
  exact ⟨front, first, more, rest, hrows, hfront, by rw [List.map_cons, hfirst, hmore, hout], hrest,
    hrows ▸ hfoldable⟩

section

variable {front more rest : List BlockLine} {first : BlockLine}

theorem FoldedRows.content_eq_nil (h : FoldedRows n before after out front first more rest) :
    ∀ line ∈ front ++ rest, line.content = [] := by
  have hempty {lines : List BlockLine} {k : Nat} (hlines : lines ⊆ front ++ first :: (more ++ rest))
      (heq : lines.map (·.unindent n) = List.replicate k []) : ∀ line ∈ lines, line.content = [] := by
    intro line hline
    rw [← (h.foldable line (hlines hline)).unindent]
    exact List.eq_of_mem_replicate (heq ▸ List.mem_map_of_mem hline)
  intro line hline
  obtain hline | hline := List.mem_append.mp hline
  · exact hempty (List.subset_append_left _ _) h.leading line hline
  · refine hempty (fun l hl => ?_) h.trailing line hline
    exact List.mem_append_right _ (.tail _ (List.mem_append_right _ hl))

theorem FoldedRows.isBlock (h : FoldedRows n before after out front first more rest)
    (hstart : StartsSolid out) : IsBlock n false front first (more ++ rest) := by
  have hfirst := h.foldable first (by simp)
  have hfilled : first.content ≠ [] := by
    obtain ⟨c, hc, hgap⟩ := hstart
    obtain ⟨tail, rfl⟩ := List.head?_eq_some_iff.mp hc
    have hfeed : c ≠ '\n' := by
      rintro rfl
      exact absurd hgap (by decide)
    obtain ⟨line, lines, hlines⟩ := List.exists_cons_of_ne_nil (linesOf_ne_nil tail)
    have hmiddle := h.middle
    rw [linesOf_cons hfeed hlines, List.map_cons, hfirst.unindent] at hmiddle
    rw [(List.cons.inj hmiddle).1]
    exact List.cons_ne_nil c line
  refine ⟨fun line hline => (h.foldable line hline).toIsContent,
    fun line hline => h.content_eq_nil line (List.mem_append_left _ hline), hfilled, fun _ => ⟨?_, ?_⟩⟩
  · exact Nat.le_antisymm hfirst.level (hfirst.deep.resolve_left hfilled)
  · exact fun line hline => (h.foldable line (List.mem_append_left _ hline)).level

/-- The lines that count are those up to the last line of the text. -/
theorem FoldedRows.kept_eq (h : FoldedRows n before after out front first more rest)
    (hlast : ∃ line ∈ (linesOf out).getLast?, line ≠ []) :
    max (lengthUpTo (!BlockLine.isEmpty ·) (front ++ first :: (more ++ rest)))
      (lengthUpTo (n < ·.indent) (front ++ first :: (more ++ rest))) =
        (front ++ first :: more).length := by
  have hdeep : lengthUpTo (fun line => decide (n < line.indent)) (front ++ first :: (more ++ rest)) = 0 :=
    lengthUpTo_eq_zero fun line hline => decide_eq_false (Nat.not_lt.mpr (h.foldable line hline).level)
  have hrest : ∀ line ∈ rest, (!line.isEmpty) = false := by
    intro line hline
    rw [BlockLine.isEmpty, h.content_eq_nil line (List.mem_append_right _ hline)]
    rfl
  obtain ⟨lines, last, hlines⟩ := (List.eq_nil_or_concat' (first :: more)).resolve_left
    (List.cons_ne_nil _ _)
  have hmem : last ∈ front ++ first :: (more ++ rest) := by
    rw [← List.cons_append, hlines]
    simp
  have hfilled : (!last.isEmpty) = true := by
    obtain ⟨line, hline, hne⟩ := hlast
    have hlastLine := h.foldable last hmem
    rw [← h.middle, hlines, List.map_append, List.map_singleton, hlastLine.unindent] at hline
    obtain rfl : last.content = line := by simpa using hline
    rw [Bool.not_eq_true', ← Bool.not_eq_true, isEmpty_iff hlastLine.noReturn]
    exact hne
  have hcount : lengthUpTo (!BlockLine.isEmpty ·) (front ++ first :: (more ++ rest)) =
      (front ++ first :: more).length := by
    rw [← List.cons_append, ← List.append_assoc, lengthUpTo_append hrest, hlines, ← List.append_assoc,
      lengthUpTo_concat_pos (p := (!BlockLine.isEmpty ·)) hfilled]
    simp [Nat.add_assoc]
  rw [hcount, hdeep, Nat.max_zero]

end

/-! ## The value -/

theorem endLines_replicate (k : Nat) : endLines (List.replicate k []) = List.replicate k '\n' := by
  simp [endLines, List.flatMap_replicate]

theorem flatMap_replicate_nil (k : Nat) :
    (List.replicate k ([] : List Char)).flatMap ('\n' :: ·) = List.replicate k '\n' := by
  simp [List.flatMap_replicate]

/-- The line feeds around the text are all there again. -/
theorem FoldedBlock.finish_eq (h : FoldedBlock cs chomp before after text out) :
    chomp.finish (endLines (List.replicate before []) ++ text) (List.replicate (after + 1) []) = cs := by
  rw [endLines_replicate, h.eq]
  have hlast := h.last
  cases chomp with
  | strip =>
    obtain rfl := hlast (by simp)
    simp [Chomp.finish, Chomp.ending]
  | clip =>
    obtain rfl := hlast (by simp)
    simp [Chomp.finish, Chomp.ending]
  | keep =>
    rw [Chomp.finish, flatMap_replicate_nil, List.replicate_succ']
    simp [Chomp.ending]

/-- The value of a folded block. -/
theorem FoldedBlock.blockValue_run {t remark : Token} {atRoot : Bool}
    (h : FoldedBlock cs chomp before after text out) (hp : 0 < p) (hreturn : '\r' ∉ cs)
    (ht : t.text = blockHeader true false chomp) (hremark : remark.kind = .newline)
    (rs : List Report) :
    (blockValue t [remark] p (endLines (foldedRows (p + 2) before after out)) atRoot).run rs =
      (cs, rs) := by
  obtain ⟨front, first, more, rest, hlines, hrows⟩ := h.exists_rows hreturn (p + 2)
  have hliteral := h.literal (p + 2)
  have hblock := hrows.isBlock h.startsSolid
  have hkept := hrows.kept_eq h.exists_last
  have hsplit : front ++ first :: (more ++ rest) = (front ++ first :: more) ++ rest := by simp
  rw [hblock.blockValue_run text hlines hliteral.out_ne_nil hliteral.noFeed_out atRoot hp ht
    hremark hkept fun offset => ?_]
  · rw [hsplit, List.drop_left, hrows.leading, hrows.trailing, h.finish_eq]
  · rw [hsplit, List.take_left, List.drop_left,
      joinBlock_folded rfl (fun line hline => hrows.foldable line ?_), hrows.middle,
      foldedText_linesOf h.wraps h.start h.stop]
    · rfl
    · rw [hsplit]
      exact List.mem_append_left _ (List.mem_append_right _ hline)

end

end BuildMatrix.Yaml
