import BuildMatrix.Proofs.Yaml.Literal
import BuildMatrix.Proofs.Yaml.Plain

/-!
# The value of a literal block

The value of a block is found from its lines: those before the first filled line, those up to the
last line that counts as content, and the rest.  Together they give the text that is written, if a
line of it is filled (`blockValue_literal`).
-/

namespace BuildMatrix.Yaml

open ScalarText

/-! ## The lines of a block -/

/-- A line without the spaces that indent it. -/
def BlockLine.unindent (n : Nat) (line : BlockLine) : List Char :=
  line.spacesBeyond n ++ line.content

theorem BlockLine.ofChars_spaces (n : Nat) (line : List Char) :
    ofChars (spaces n ++ line) = ⟨n + (ofChars line).indent, (ofChars line).content⟩ := by
  have hspaces : ∀ c ∈ spaces n, (c == ' ') = true := by simp [spaces]
  rw [ofChars, List.takeWhile_append_of_pos hspaces, List.dropWhile_append_of_pos hspaces,
    List.length_append, spaces, List.length_replicate]
  rfl

theorem BlockLine.spaces_ofChars (line : List Char) :
    spaces (ofChars line).indent ++ (ofChars line).content = line := by
  have hspaces : line.takeWhile (· == ' ') = spaces (line.takeWhile (· == ' ')).length := by
    refine List.eq_replicate_of_mem fun c hc => ?_
    have := List.all_takeWhile (p := (· == ' ')) (l := line)
    rw [List.all_eq_true] at this
    simpa using this c hc
  show spaces (line.takeWhile (· == ' ')).length ++ line.dropWhile (· == ' ') = line
  rw [← hspaces, List.takeWhile_append_dropWhile]

theorem unindent_ofChars {n : Nat} {line out : List Char} (h : IndentedLine n line out) :
    (BlockLine.ofChars out).unindent n = line := by
  cases h with
  | spaced line =>
    rw [BlockLine.ofChars_spaces, BlockLine.unindent, BlockLine.spacesBeyond, Nat.add_sub_cancel_left]
    exact BlockLine.spaces_ofChars line
  | empty =>
    rw [BlockLine.unindent, BlockLine.spacesBeyond]
    simp [BlockLine.ofChars]

/-- The lines of a block without their indentation are those of the text. -/
theorem Indented.map_unindent {n : Nat} {lines out : List (List Char)} (h : Indented n lines out) :
    out.map (fun line => (BlockLine.ofChars line).unindent n) = lines := by
  induction h with
  | nil => rfl
  | cons hline _ ih => rw [List.map_cons, unindent_ofChars hline, ih]

theorem not_mem_content {c : Char} {line : List Char} (h : c ∉ line) :
    c ∉ (BlockLine.ofChars line).content := by
  intro hmem
  exact h (List.dropWhile_sublist (· == ' ') |>.subset hmem)

/-- Without carriage returns a line is empty if it has no content. -/
theorem isEmpty_iff {line : BlockLine} (h : '\r' ∉ line.content) :
    line.isEmpty = true ↔ line.content = [] := by
  have hne : line.content ≠ ['\r'] := by
    intro heq
    rw [heq] at h
    exact h List.mem_cons_self
  simp [BlockLine.isEmpty, hne]

theorem content_eq_nil {line : List Char} :
    (BlockLine.ofChars line).content = [] ↔ ¬IsFilled line := by
  simp [BlockLine.ofChars, IsFilled]

/-! ## The last line for which a test holds -/

section LengthUpTo

variable {α : Type} {p : α → Bool} {xs : List α} {x : α}

theorem lengthUpTo_eq : lengthUpTo p xs = (xs.rdropWhile (!p ·)).length := by
  rw [lengthUpTo, List.rdropWhile, List.length_reverse]

theorem lengthUpTo_le : lengthUpTo p xs ≤ xs.length := by
  rw [lengthUpTo_eq]
  exact (List.rdropWhile_prefix (!p ·) xs).length_le

theorem lengthUpTo_concat (h : p x = false) : lengthUpTo p (xs ++ [x]) = lengthUpTo p xs := by
  rw [lengthUpTo_eq, lengthUpTo_eq, List.rdropWhile_concat_pos _ _ _ (by simp [h])]

theorem lengthUpTo_concat_pos (h : p x = true) : lengthUpTo p (xs ++ [x]) = xs.length + 1 := by
  rw [lengthUpTo_eq, List.rdropWhile_concat_neg _ _ _ (by simp [h]), List.length_append,
    List.length_singleton]

theorem lengthUpTo_append {ys : List α} (h : ∀ y ∈ ys, p y = false) :
    lengthUpTo p (xs ++ ys) = lengthUpTo p xs := by
  induction ys using List.reverseRecOn with
  | nil => rw [List.append_nil]
  | append_singleton ys y ih =>
    rw [← List.append_assoc, lengthUpTo_concat (h y (by simp)), ih fun z hz => h z (by simp [hz])]

theorem lengthUpTo_eq_zero (h : ∀ x ∈ xs, p x = false) : lengthUpTo p xs = 0 := by
  rw [lengthUpTo_eq, List.length_eq_zero_iff, List.rdropWhile_eq_nil_iff]
  simpa using h

theorem lt_lengthUpTo {front back : List α} (h : p x = true) :
    front.length < lengthUpTo p (front ++ x :: back) := by
  induction back using List.reverseRecOn with
  | nil =>
    rw [lengthUpTo_concat_pos h]
    exact Nat.lt_succ_self _
  | append_singleton back y ih =>
    have hform : front ++ x :: (back ++ [y]) = (front ++ x :: back) ++ [y] := by simp
    rw [hform]
    cases hy : p y with
    | true =>
      rw [lengthUpTo_concat_pos hy, List.length_append]
      omega
    | false =>
      rw [lengthUpTo_concat hy]
      exact ih

theorem drop_lengthUpTo : ∀ x ∈ xs.drop (lengthUpTo p xs), p x = false := by
  have hsplit := List.rdropWhile_append_rtakeWhile (p := (!p ·)) (l := xs)
  have hdrop : xs.drop (lengthUpTo p xs) = xs.rtakeWhile (!p ·) := by
    rw [lengthUpTo_eq]
    exact (congrArg (List.drop _) hsplit).symm.trans List.drop_left
  intro x hx
  rw [hdrop] at hx
  simpa using List.mem_rtakeWhile_imp hx

end LengthUpTo

/-! ## The value -/

/-- The indentation of a block is that of its first filled line, or what the header asks for. -/
theorem findContent_run (asked atRoot : Bool) {i : Nat} {before : List BlockLine}
    (acc after : List BlockLine) {first : BlockLine} (hbefore : ∀ line ∈ before, line.isEmpty = true)
    (hfirst : first.isEmpty = false) (hpos : 0 < i) (hi : i ≤ first.indent)
    (hlevel : asked = false → ∀ line ∈ before, line.indent ≤ first.indent) (offset : Nat)
    (rs : List Report) :
    ∃ start, (findContent asked atRoot i offset acc (before ++ first :: after)).run rs =
      (⟨acc ++ before, if asked then i else first.indent, start⟩, rs) := by
  induction before generalizing i offset acc with
  | nil =>
    refine ⟨offset, ?_⟩
    have hshallow : decide (first.indent < i) = false := decide_eq_false (by omega)
    have hroot : ((if asked then i else first.indent) == 0) = false := by
      rw [beq_eq_false_iff_ne]
      split
      · omega
      · omega
    rw [List.nil_append, findContent, hfirst, if_neg Bool.false_ne_true, hshallow, List.append_nil]
    dsimp only [reportIf]
    rw [hroot]
    rfl
  | cons line before ih =>
    have hline := hbefore line List.mem_cons_self
    have hrest : ∀ line ∈ before, line.isEmpty = true :=
      fun l hl => hbefore l (List.mem_cons_of_mem _ hl)
    rw [List.cons_append, findContent, if_pos hline]
    cases asked with
    | true =>
      obtain ⟨start, hstart⟩ := ih (acc ++ [line]) hrest hpos hi (by simp) (offset + line.width)
      exact ⟨start, by simpa using hstart⟩
    | false =>
      have hlevels := hlevel rfl
      obtain ⟨start, hstart⟩ := ih (acc ++ [line]) hrest (i := max i line.indent) (by omega)
        (max_le hi (hlevels line List.mem_cons_self))
        (fun _ l hl => hlevels l (List.mem_cons_of_mem _ hl)) (offset + line.width)
      exact ⟨start, by simpa using hstart⟩

theorem joinBlock_cons {h : BlockHeader} (hfolded : h.folded = false) (n offset : Nat) (joint : Joint)
    (indented : Bool) (line : BlockLine) (lines : List BlockLine) :
    joinBlock h n offset joint indented (line :: lines) = (do
      let next := offset + line.width
      let returned := line.content.getLast? == some '\r'
      let content := dropReturn line.content
      let short := !content.isEmpty && line.indent < n
      reportIf short (.point (next - Text.widthOf content - if returned then 2 else 1)
        (.blockIndent (h.indent != 0)))
      let spaces := if short then [] else line.spacesBeyond n
      return joint.chars ++ spaces ++ content ++ (← joinBlock h n next .break1 false lines)) := by
  obtain ⟨folded, indent, chomp, extra⟩ := h
  obtain rfl : folded = false := hfolded
  rfl

/-- A line is content of a block, with no carriage return, if it is indented enough or empty. -/
structure IsContent (n : Nat) (line : BlockLine) : Prop where
  deep : line.content = [] ∨ n ≤ line.indent
  noReturn : '\r' ∉ line.content

theorem joinBlock_step {h : BlockHeader} (hfolded : h.folded = false) {n offset : Nat} {joint : Joint}
    {indented : Bool} {line : BlockLine} {lines : List BlockLine} {rest : List Char}
    {rs : List Report} (hline : IsContent n line)
    (hrest : (joinBlock h n (offset + line.width) .break1 false lines).run rs = (rest, rs)) :
    (joinBlock h n offset joint indented (line :: lines)).run rs =
      (joint.chars ++ line.unindent n ++ rest, rs) := by
  have hshort : (!line.content.isEmpty && decide (line.indent < n)) = false := by
    obtain hnil | hle := hline.deep
    · rw [hnil]
      rfl
    · rw [decide_eq_false (by omega), Bool.and_false]
  rw [joinBlock_cons hfolded, dropReturn_eq_self hline.noReturn]
  dsimp only
  rw [hshort, if_neg Bool.false_ne_true, reportIf, if_neg Bool.false_ne_true, pure_bind,
    run_bind_of hrest, BlockLine.unindent, ← List.append_assoc]
  rfl

theorem joinBlock_rest {h : BlockHeader} (hfolded : h.folded = false) {n : Nat}
    {lines : List BlockLine} (hlines : ∀ line ∈ lines, IsContent n line) (offset : Nat)
    (rs : List Report) :
    (joinBlock h n offset .break1 false lines).run rs =
      ((lines.map (·.unindent n)).flatMap ('\n' :: ·), rs) := by
  induction lines generalizing offset with
  | nil => rfl
  | cons line lines ih =>
    obtain ⟨hline, hrest⟩ := List.forall_mem_cons.mp hlines
    rw [joinBlock_step hfolded hline (ih hrest _), List.map_cons, List.flatMap_cons]
    rfl

/-- The lines of a literal block that are indented enough are joined as they are. -/
theorem joinBlock_literal {h : BlockHeader} (hfolded : h.folded = false) {n : Nat}
    {lines : List BlockLine} (hlines : ∀ line ∈ lines, IsContent n line) (offset : Nat)
    (rs : List Report) :
    (joinBlock h n offset .nothing false lines).run rs =
      (joinLines (lines.map (·.unindent n)), rs) := by
  cases lines with
  | nil => rfl
  | cons line lines =>
    obtain ⟨hline, hrest⟩ := List.forall_mem_cons.mp hlines
    have hjoin := joinLines_flatMap (List.cons_ne_nil (line.unindent n) []) (lines.map (·.unindent n))
    rw [joinBlock_step hfolded hline (joinBlock_rest hfolded hrest _ rs), List.map_cons,
      ← List.singleton_append, ← hjoin]
    rfl

theorem isContent_ofChars {n : Nat} {line out : List Char} (h : IndentedLine n line out)
    (hreturn : '\r' ∉ out) : IsContent n (BlockLine.ofChars out) := by
  refine ⟨?_, not_mem_content hreturn⟩
  cases h with
  | spaced line =>
    rw [BlockLine.ofChars_spaces]
    exact .inr (Nat.le_add_right n _)
  | empty => exact .inl rfl

/-- The header of a block as it is read. -/
theorem read_blockHeader (folded hinted : Bool) (chomp : Chomp) (offset : Nat) :
    BlockHeader.read { folded := (blockHeader folded hinted chomp).head? == some '>' } offset
      ((blockHeader folded hinted chomp).drop 1) =
        { folded, indent := if hinted then 2 else 0, chomp } := by
  cases folded <;> cases hinted <;> cases chomp <;> rfl

theorem checkRemarks_newline {remark : Token} (h : remark.kind = .newline) :
    checkRemarks false [remark] = pure () := by
  rw [checkRemarks, h]
  rfl

theorem take_append_cons {α : Type} {before after : List α} {first : α} {k : Nat}
    (h : before.length < k) :
    (before ++ first :: after).take k = before ++ first :: after.take (k - before.length - 1) := by
  obtain ⟨j, rfl⟩ : ∃ j, k = before.length + (j + 1) := ⟨k - before.length - 1, by omega⟩
  rw [List.take_length_add_append, List.take_succ_cons]
  congr 3
  omega

/-- The lines before the first filled one, as they are written before the rest. -/
theorem leading_eq {n : Nat} {before : List BlockLine} (h : ∀ line ∈ before, line.content = []) :
    before.flatMap (fun line => line.spacesBeyond n ++ ['\n']) =
      endLines (before.map (·.unindent n)) := by
  rw [endLines, List.flatMap_map]
  refine List.flatMap_congr fun line hline => ?_
  rw [BlockLine.unindent, h line hline, List.append_nil]

theorem blockLines_endLines {out : List (List Char)} (hne : out ≠ [])
    (hfeed : ∀ line ∈ out, '\n' ∉ line) :
    (if (endLines out).isEmpty then [] else (linesOf (endLines out)).map BlockLine.ofChars) =
      (out ++ [[]]).map BlockLine.ofChars := by
  rw [linesOf_endLines hne hfeed, if_neg]
  cases out with
  | nil => exact absurd rfl hne
  | cons line out => simp [endLines]

/-- The lines of a literal block that is found to be indented by `n`. -/
structure IsBlock (n : Nat) (hinted : Bool) (before : List BlockLine) (first : BlockLine)
    (after : List BlockLine) : Prop where
  content : ∀ line ∈ before ++ first :: after, IsContent n line
  blank : ∀ line ∈ before, line.content = []
  filled : first.content ≠ []
  level : hinted = false → first.indent = n ∧ ∀ line ∈ before, line.indent ≤ n

section

variable {n p kept : Nat} {hinted : Bool} {before after : List BlockLine} {first : BlockLine}

theorem IsBlock.deep (h : IsBlock n hinted before first after) : n ≤ first.indent :=
  (h.content first (by simp)).deep.resolve_left h.filled

theorem IsBlock.isEmpty_first (h : IsBlock n hinted before first after) : first.isEmpty = false := by
  rw [← Bool.not_eq_true, isEmpty_iff (h.content first (by simp)).noReturn]
  exact h.filled

theorem IsBlock.lt_filled (h : IsBlock n hinted before first after) :
    before.length < lengthUpTo (!BlockLine.isEmpty ·) (before ++ first :: after) :=
  lt_lengthUpTo (by simp [h.isEmpty_first])

/-- The lines after the last filled one have no content. -/
theorem IsBlock.content_drop (h : IsBlock n hinted before first after)
    (hkept : lengthUpTo (!BlockLine.isEmpty ·) (before ++ first :: after) ≤ kept) :
    ∀ line ∈ (before ++ first :: after).drop kept, line.content = [] := by
  intro line hline
  have hline' := (List.drop_subset_drop_left _ hkept) hline
  have hempty := drop_lengthUpTo line hline'
  rw [Bool.not_eq_false'] at hempty
  exact (isEmpty_iff (h.content line (List.mem_of_mem_drop hline)).noReturn).mp hempty

theorem IsBlock.findContent_run (h : IsBlock (p + 2) hinted before first after) (atRoot : Bool)
    (hp : 0 < p) (hkept : before.length < kept) (offset : Nat) (rs : List Report) :
    ∃ start, (findContent ((if hinted then 2 else 0) != 0) atRoot (p + if hinted then 2 else 0) offset
      [] ((before ++ first :: after).take kept)).run rs = (⟨before, p + 2, start⟩, rs) := by
  have hempty : ∀ line ∈ before, line.isEmpty = true := by
    intro line hline
    rw [BlockLine.isEmpty, h.blank line hline]
    rfl
  have hdeep := h.deep
  rw [take_append_cons hkept]
  cases hinted with
  | true =>
    obtain ⟨start, hstart⟩ := Yaml.findContent_run true atRoot []
      (after.take (kept - before.length - 1)) hempty h.isEmpty_first (Nat.add_pos_left hp 2) hdeep
      (by simp) offset rs
    exact ⟨start, hstart⟩
  | false =>
    obtain ⟨hfirst, hlevels⟩ := h.level rfl
    obtain ⟨start, hstart⟩ := Yaml.findContent_run false atRoot []
      (after.take (kept - before.length - 1)) hempty h.isEmpty_first hp (by omega)
      (fun _ => hfirst ▸ hlevels) offset rs
    rw [hfirst] at hstart
    exact ⟨start, hstart⟩

/-- The lines of a literal block that count are joined as they are. -/
theorem IsBlock.joinBlock_run (h : IsBlock n hinted before first after) {header : BlockHeader}
    (hfolded : header.folded = false) (offset : Nat) (rs : List Report) :
    (joinBlock header n offset .nothing false
      (((before ++ first :: after).take kept).drop before.length)).run rs =
        (joinLines ((((before ++ first :: after).take kept).drop before.length).map (·.unindent n)),
          rs) := by
  refine joinBlock_literal hfolded (fun line hline => h.content line ?_) offset rs
  exact List.mem_of_mem_take (List.mem_of_mem_drop hline)

/-- What the header makes of a value and of the empty lines behind it. -/
def Chomp.finish : Chomp → List Char → List (List Char) → List Char
  | .strip, value, _ => value
  | .clip, value, _ => value ++ ['\n']
  | .keep, value, rest =>
    let value := value ++ rest.flatMap ('\n' :: ·)
    if value.getLast? == some '\n' then value else value ++ ['\n']

/-- The value of a block, from the lines that count as they are joined. -/
theorem IsBlock.blockValue_run {folded : Bool} {chomp : Chomp} {t remark : Token} {out : List (List Char)}
    {rs : List Report} (body : List Char) (h : IsBlock (p + 2) hinted before first after)
    (hblock : (out ++ [[]]).map BlockLine.ofChars = before ++ first :: after) (hne : out ≠ [])
    (hfeed : ∀ line ∈ out, '\n' ∉ line) (atRoot : Bool) (hp : 0 < p)
    (ht : t.text = blockHeader folded hinted chomp) (hremark : remark.kind = .newline)
    (hkept : max (lengthUpTo (!BlockLine.isEmpty ·) (before ++ first :: after))
      (lengthUpTo (p + 2 < ·.indent) (before ++ first :: after)) = kept)
    (hbody : ∀ offset, (joinBlock { folded, indent := if hinted then 2 else 0, chomp } (p + 2) offset
      .nothing false (((before ++ first :: after).take kept).drop before.length)).run rs = (body, rs)) :
    (blockValue t [remark] p (endLines out) atRoot).run rs =
      (chomp.finish (endLines (before.map (·.unindent (p + 2))) ++ body)
        (((before ++ first :: after).drop kept).map (·.unindent (p + 2))), rs) := by
  have hpos := h.lt_filled
  obtain ⟨start, hstart⟩ := h.findContent_run atRoot hp hpos
    (t.stop + Text.widthOf ([remark].flatMap Token.text)) rs
  have hdrop : ((before ++ first :: after).drop kept).flatMap
        (fun line => '\n' :: line.spacesBeyond (p + 2)) =
      (((before ++ first :: after).drop kept).map (·.unindent (p + 2))).flatMap ('\n' :: ·) := by
    rw [List.flatMap_map]
    refine List.flatMap_congr fun line hline => ?_
    rw [BlockLine.unindent, h.content_drop (hkept ▸ le_max_left _ _) line hline, List.append_nil]
  rw [blockValue, ht, read_blockHeader, blockLines_endLines hne hfeed, hblock]
  dsimp only
  rw [checkRemarks_newline hremark]
  simp only [pure_bind]
  rw [if_neg (by omega), run_bind_of hstart]
  dsimp only
  rw [hkept, run_bind_of (hbody start), leading_eq h.blank, hdrop]
  cases chomp <;> rfl

end

theorem BlockLine.ofChars_eq {line : List Char} (h : line.head? ≠ some ' ') :
    ofChars line = ⟨0, line⟩ := by
  cases line with
  | nil => rfl
  | cons c line =>
    have hc : c ≠ ' ' := by simpa using h
    simp [ofChars, hc]

theorem indent_ofChars_le {n : Nat} {out : List Char} (h : IndentedLine n [] out) :
    (BlockLine.ofChars out).indent ≤ n := by
  generalize hline : ([] : List Char) = line at h
  cases h with
  | spaced line =>
    rw [← hline, BlockLine.ofChars_spaces]
    exact Nat.le_refl n
  | empty => exact Nat.zero_le n

section

variable {n p : Nat} {cs : List Char} {chomp : Chomp} {lines out : List (List Char)} {hinted : Bool}

/-- A literal block in which a line is filled. -/
theorem Literal.exists_isBlock (h : Literal n cs chomp lines out) (hreturn : '\r' ∉ cs)
    (hhint : hinted = false → IsUnspaced cs) (hfilled : ∃ line ∈ lines, IsFilled line) :
    ∃ before first after, (out ++ [[]]).map BlockLine.ofChars = before ++ first :: after ∧
      IsBlock n hinted before first after := by
  have hindented : Indented n (lines ++ [[]]) (out ++ [[]]) :=
    List.rel_append h.indented (.cons .empty .nil)
  have hreturns : ∀ line ∈ out ++ [[]], '\r' ∉ line := by
    intro line hline
    obtain hline | hline := List.mem_append.mp hline
    · exact h.not_mem_out (by decide) hreturn line hline
    · simp [List.mem_singleton.mp hline]
  obtain ⟨hnone, -⟩ | ⟨before, first, after, before', after', rfl, rfl, hbefore, hafter, hnone, hnone',
    hfirst⟩ := h.indented.split
  · obtain ⟨line, hline, hfull⟩ := hfilled
    exact absurd hfull (hnone line hline)
  · have hform : ((before' ++ (spaces n ++ first) :: after') ++ [[]]).map BlockLine.ofChars =
        before'.map BlockLine.ofChars ++ BlockLine.ofChars (spaces n ++ first) ::
          (after' ++ [[]]).map BlockLine.ofChars := by simp
    refine ⟨_, _, _, hform, ⟨fun line hline => ?_, fun line hline => ?_, ?_, fun hfalse => ?_⟩⟩
    · rw [← hform] at hline
      obtain ⟨line', hline', rfl⟩ := List.mem_map.mp hline
      obtain ⟨source, -, hsource⟩ := hindented.exists_of_mem line' hline'
      exact isContent_ofChars hsource (hreturns line' hline')
    · obtain ⟨line', hline', rfl⟩ := List.mem_map.mp hline
      exact content_eq_nil.mpr (hnone' line' hline')
    · exact fun hnil => content_eq_nil.mp hnil ((IndentedLine.spaced first).isFilled_iff.mpr hfirst)
    · have hunspaced := hhint hfalse
      rw [h.text] at hunspaced
      obtain ⟨hempty, hhead⟩ := hunspaced.lines hnone
      constructor
      · rw [BlockLine.ofChars_spaces, BlockLine.ofChars_eq hhead]
        rfl
      · intro line hline
        obtain ⟨line', hline', rfl⟩ := List.mem_map.mp hline
        obtain ⟨source, hmem, hsource⟩ := hbefore.exists_of_mem line' hline'
        rw [hempty source hmem] at hsource
        exact indent_ofChars_le hsource

/-- Unless all line feeds are kept, the lines that count are all those that are written. -/
theorem Literal.kept_eq (h : Literal n cs chomp lines out) (hreturn : '\r' ∉ cs)
    (hkeep : chomp ≠ .keep) :
    max (lengthUpTo (!BlockLine.isEmpty ·) ((out ++ [[]]).map BlockLine.ofChars))
      (lengthUpTo (n < ·.indent) ((out ++ [[]]).map BlockLine.ofChars)) = out.length := by
  have hdeep : lengthUpTo (fun line => decide (n < line.indent)) (out.map BlockLine.ofChars) ≤
      out.length :=
    lengthUpTo_le.trans_eq (List.length_map _)
  rw [List.map_append, List.map_singleton, lengthUpTo_concat rfl, lengthUpTo_concat rfl]
  obtain rfl | ⟨front, last, rfl⟩ := List.eq_nil_or_concat' out
  · rfl
  · obtain ⟨line, hline, hindented⟩ := h.indented.getLast? last (by simp)
    have hfilled := hindented.isFilled_iff.mpr (h.last hkeep line hline)
    have hreturn' := h.not_mem_out (by decide) hreturn last (by simp)
    have hlast : (!(BlockLine.ofChars last).isEmpty) = true := by
      rw [Bool.not_eq_true', ← Bool.not_eq_true, isEmpty_iff (not_mem_content hreturn'), content_eq_nil]
      exact not_not_intro hfilled
    have hcount : lengthUpTo (!BlockLine.isEmpty ·) (front.map BlockLine.ofChars ++
        [BlockLine.ofChars last]) = (front.map BlockLine.ofChars).length + 1 :=
      lengthUpTo_concat_pos hlast
    rw [List.map_append, List.map_singleton] at hdeep ⊢
    rw [hcount, List.length_map, List.length_append, List.length_singleton] at *
    exact max_eq_left hdeep

/-- The value of a literal block in which a line is filled. -/
theorem blockValue_literal {t remark : Token} {atRoot : Bool} (h : Literal (p + 2) cs chomp lines out)
    (hp : 0 < p) (hreturn : '\r' ∉ cs) (hhint : hinted = false → IsUnspaced cs)
    (hfilled : ∃ line ∈ lines, IsFilled line) (ht : t.text = blockHeader false hinted chomp)
    (hremark : remark.kind = .newline) (rs : List Report) :
    (blockValue t [remark] p (endLines out) atRoot).run rs = (cs, rs) := by
  have hindented : Indented (p + 2) (lines ++ [[]]) (out ++ [[]]) :=
    List.rel_append h.indented (.cons .empty .nil)
  have hunindent : ((out ++ [[]]).map BlockLine.ofChars).map (BlockLine.unindent (p + 2)) =
      lines ++ [[]] := by
    rw [List.map_map]
    exact hindented.map_unindent
  have hwhole := h.kept_eq hreturn
  obtain ⟨before, first, after, hblock, hls⟩ := h.exists_isBlock hreturn hhint hfilled
  rw [hblock] at hunindent hwhole
  generalize hkept : max (lengthUpTo (!BlockLine.isEmpty ·) (before ++ first :: after))
    (lengthUpTo (p + 2 < ·.indent) (before ++ first :: after)) = kept at hwhole
  have hlt : before.length < kept := by
    have := hls.lt_filled
    omega
  rw [hls.blockValue_run _ hblock h.out_ne_nil h.noFeed_out atRoot hp ht hremark hkept
    (hls.joinBlock_run rfl · rs)]
  refine Prod.ext ?_ rfl
  -- the lines that count, and all lines
  have hvalue : endLines (before.map (·.unindent (p + 2))) ++
      joinLines ((((before ++ first :: after).take kept).drop before.length).map (·.unindent (p + 2))) =
        joinLines (((before ++ first :: after).take kept).map (·.unindent (p + 2))) := by
    rw [take_append_cons hlt, List.drop_left, endLines_joinLines _ (by simp), ← List.map_append]
  have hall : joinLines (((before ++ first :: after).take kept).map (·.unindent (p + 2))) ++
      (((before ++ first :: after).drop kept).map (·.unindent (p + 2))).flatMap ('\n' :: ·) =
        joinLines lines ++ ['\n'] := by
    rw [joinLines_flatMap (by rw [take_append_cons hlt]; simp), ← List.map_append,
      List.take_append_drop, hunindent, joinLines_append h.nonempty (List.cons_ne_nil _ _)]
    rfl
  have hcounted (hkeep : chomp ≠ .keep) :
      ((before ++ first :: after).take kept).map (·.unindent (p + 2)) = lines := by
    have hlines : lines.length = out.length := h.indented.length_eq
    rw [hwhole hkeep, ← hlines, List.map_take, hunindent, List.take_left]
  dsimp only
  rw [hvalue, h.text]
  cases chomp with
  | strip => rw [Chomp.finish, hcounted (by simp), Chomp.ending, List.append_nil]
  | clip => rw [Chomp.finish, hcounted (by simp), Chomp.ending]
  | keep =>
    rw [Chomp.finish, hall]
    simp [Chomp.ending]

/-- A line of a block is filled if the text has a character that is neither a space nor a line
feed. -/
theorem Literal.exists_isFilled (h : Literal n cs chomp lines out) {c : Char} (hc : c ∈ cs)
    (hspace : c ≠ ' ') (hfeed : c ≠ '\n') : ∃ line ∈ lines, IsFilled line := by
  have hending : c ∉ chomp.ending := by
    cases chomp <;> simp [Chomp.ending, hfeed]
  rw [h.text] at hc
  obtain ⟨line, hline, hmem⟩ := exists_of_mem_joinLines
    ((List.mem_append.mp hc).resolve_right hending) hfeed
  exact ⟨line, hline, c, hmem, hspace⟩

/-- No line of a block is filled if the text has nothing but spaces and line feeds. -/
theorem Literal.not_isFilled (h : Literal n cs chomp lines out)
    (hcs : ∀ c ∈ cs, c = ' ' ∨ c = '\n') : ∀ line ∈ lines, ¬IsFilled line := by
  rintro line hline ⟨c, hc, hspace⟩
  rw [h.text] at hcs
  have hfeed := (hcs c (List.mem_append_left _ (mem_joinLines hline hc))).resolve_left hspace
  rw [hfeed] at hc
  exact h.noFeed line hline hc

theorem filter_endLines {lines : List (List Char)} (h : ∀ line ∈ lines, '\n' ∉ line) :
    (endLines lines).filter (· == '\n') = List.replicate lines.length '\n' := by
  induction lines with
  | nil => rfl
  | cons line lines ih =>
    obtain ⟨hline, hlines⟩ := List.forall_mem_cons.mp h
    have hfilter : line.filter (· == '\n') = [] := by
      rw [List.filter_eq_nil_iff]
      intro c hc
      rw [beq_iff_eq]
      exact fun hfeed => hline (hfeed ▸ hc)
    rw [endLines, List.flatMap_cons, List.filter_append, List.filter_append, hfilter, ← endLines,
      ih hlines, List.length_cons, List.replicate_succ]
    rfl

/-- The value of a literal block of blank lines: their spaces are lost. -/
theorem blockValue_blank {t remark : Token} (atRoot : Bool) (h : Literal n cs chomp lines out)
    (hnone : ∀ line ∈ lines, ¬IsFilled line) (ht : t.text = blockHeader false hinted chomp)
    (hremark : remark.kind = .newline) (rs : List Report) :
    (blockValue t [remark] p (endLines out) atRoot).run rs = (cs.filter (· == '\n'), rs) := by
  have hlength : lines.length = out.length := h.indented.length_eq
  have hne := h.out_ne_nil
  have hpos : 0 < out.length := List.length_pos_of_ne_nil hne
  have hempty : lengthUpTo (!BlockLine.isEmpty ·) ((out ++ [[]]).map BlockLine.ofChars) = 0 := by
    refine lengthUpTo_eq_zero fun line hline => ?_
    obtain ⟨line', hline', rfl⟩ := List.mem_map.mp hline
    have hblank : ¬IsFilled line' := by
      obtain hline' | hline' := List.mem_append.mp hline'
      · obtain ⟨source, hsource, hindented⟩ := h.indented.exists_of_mem line' hline'
        exact fun hfilled => hnone source hsource (hindented.isFilled_iff.mp hfilled)
      · simp [List.mem_singleton.mp hline', IsFilled]
    rw [BlockLine.isEmpty, content_eq_nil.mpr hblank]
    rfl
  have htext : cs = endLines lines := by
    rw [h.text, h.eq_keep hnone, Chomp.ending, joinLines_feed h.nonempty]
  rw [htext, filter_endLines h.noFeed, hlength, blockValue, ht, read_blockHeader,
    blockLines_endLines hne h.noFeed_out, h.eq_keep hnone]
  dsimp only
  rw [checkRemarks_newline hremark, hempty]
  simp only [pure_bind]
  rw [if_pos trivial, if_pos (by simp), List.length_map, List.length_append, List.length_singleton,
    Nat.add_sub_cancel, max_eq_right hpos]
  rfl

end

end BuildMatrix.Yaml
