import BuildMatrix.Proofs.Starter.Nodes
import BuildMatrix.Proofs.Yaml.FoldedValue
import BuildMatrix.Proofs.Yaml.QuotedScan

/-!
# How the image is written

A text is written as a scalar that is cut off what follows and read as a text: in one line or more
that are folded (`writes_line`), in double quotes (`writes_double`) or as a block (`writes_block`).
-/

namespace BuildMatrix.Starter

open Yaml Lexer ScalarText

/-- A scalar that is written for a text in a slot, under a key of a given indentation. -/
structure Spelling.Writes (s : Spelling) (slot : Yaml.Slot) (indent : Nat)
    (written read : List Char) : Prop where
  chars : s.chars = scalarChars slot written ++ ['\n']
  cut : s.IsCut indent
  read : s.IsRead indent read

/-- A slot for the value of a key of a given indentation. -/
structure IsValueSlot (slot : Yaml.Slot) (indent : Nat) : Prop where
  step : slot.indent = indent + 2
  near : slot.column + minContentWidth < lineWidth
  inFlow : slot.inFlow = false
  isKey : slot.isKey = false
  deep : 1 < indent

variable {slot : Yaml.Slot} {indent : Nat} {cs : List Char}

theorem isCut_leaf {s : Spelling} {kind : TokenKind} {c : Char} {text : List Char} (hc : Lexer.isBlank c = false)
    (hchars : s.chars = c :: text ++ ['\n'])
    (hlexemes : s.lexemes = [⟨kind, c :: text⟩, ⟨.newline, ['\n']⟩]) (hindent : 1 < indent)
    (h : ∀ rest, Outdented rest → moveDocumentNode { indentNext := indent + 1, indentValue := indent }
      (c :: text ++ '\n' :: rest) = ⟨[⟨kind, c :: text⟩], .document,
        { indentNext := indent + 1, indentValue := indent }, '\n' :: rest⟩) :
    s.IsCut indent := by
  refine ⟨⟨c, text ++ ['\n'], by rw [hchars]; rfl, hc⟩, fun rest hrest => ⟨3, indent - 2, Nat.le_refl 3, ?_⟩⟩
  have hnext : indent - 2 + 3 = indent + 1 := by omega
  rw [hchars, hlexemes, hnext, List.append_assoc]
  exact cuts_leaf (h rest hrest)

theorem writes_plain (hslot : IsValueSlot slot indent) (hcs : IsPlain cs)
    (hvalue : isValue cs = false)
    (hchars : scalarChars slot cs = (fold .flow slot.indent slot.column cs).1) :
    ∃ s : Spelling, s.Writes slot indent cs cs := by
  have hfold := folded_fold slot.indent slot.column hcs.line
  rw [← hchars] at hfold
  refine ⟨.plain (scalarChars slot cs), rfl, ?_, isRead_plain hcs hvalue hfold⟩
  cases cs with
  | nil => exact absurd rfl hcs.nonempty
  | cons c more =>
    have hgap := hcs.smooth.head c rfl
    simp only [ScalarText.isGap, Bool.or_eq_false_iff, beq_eq_false_iff_ne] at hgap
    have hblank : Lexer.isBlank c = false := by
      simp [Lexer.isBlank, hgap]
    obtain ⟨out, hout, -⟩ := hfold.of_cons hgap.1.1
    rw [hout] at hfold ⊢
    refine isCut_leaf hblank rfl rfl hslot.deep fun rest hrest => ?_
    have := hslot.step
    have hdeep := hslot.deep
    refine moveDocumentNode_plain rfl (Nat.succ_pos _) ?_ hcs hfold (hrest.continues ?_)
    · show indent + 1 ≤ slot.indent
      omega
    · show 2 < indent + 1
      omega

theorem writes_single (hslot : IsValueSlot slot indent) (hline : '\n' ∉ cs) (hreturn : '\r' ∉ cs)
    (hquote : '\'' ∉ cs) (hchars : scalarChars slot cs = singleQuoted slot cs) :
    ∃ s : Spelling, s.Writes slot indent cs cs := by
  obtain ⟨out, hout, hfold⟩ := folded_singleQuoted hslot.isKey hline hquote
  have := hslot.step
  refine ⟨.single ('\'' :: out ++ ['\'']), ?_, ?_, ?_⟩
  · rw [hchars, hout]
    rfl
  · refine isCut_leaf rfl rfl rfl hslot.deep fun rest _ => ?_
    refine moveDocumentNode_single rfl (Nat.succ_pos _) ?_ hquote hreturn hfold
    show indent + 1 ≤ slot.indent
    omega
  · intro start
    exact reads_leaf (by decide) (fun rs => singleValue_folded rfl hquote hreturn hfold rs) rfl

theorem writes_double (hslot : IsValueSlot slot indent) (hquotes : isDoubleQuoted cs = true)
    (hbreaks : '\n' ∉ scalarChars slot cs ∨ IsSinglySpaced cs) :
    ∃ s : Spelling, s.Writes slot indent cs cs := by
  have hchars := scalarChars_of_isDoubleQuoted hslot.isKey hslot.inFlow hquotes
  obtain ⟨out, hout, hquoted⟩ : ∃ out, scalarChars slot cs = '"' :: out ++ ['"'] ∧
      Quoted slot.indent cs out := by
    rw [hchars] at hbreaks ⊢
    obtain hline | hspaced := hbreaks
    · exact quoted_of_not_mem hslot.isKey hline
    · exact quoted_doubleQuoted hslot.isKey hslot.near hspaced
  have := hslot.step
  refine ⟨.double ('"' :: out ++ ['"']), ?_, ?_, ?_⟩
  · rw [hout]
    rfl
  · refine isCut_leaf rfl rfl rfl hslot.deep fun rest _ => ?_
    refine moveDocumentNode_double rfl (Nat.succ_pos _) ?_ hquoted
    show indent + 1 ≤ slot.indent
    omega
  · intro start
    exact reads_leaf (by decide) (fun rs => doubleValue_quoted rfl hquoted rs) rfl

theorem not_mem_of_isControl {c : Char} (hc : isControl c = true) (hcs : cs.any isControl = false) :
    c ∉ cs := by
  intro hmem
  rw [List.any_eq_false] at hcs
  exact hcs c hmem hc

/-- A text of one line that is not written in double quotes is plain or in single quotes, and its
lines may be broken. -/
theorem writes_line (hslot : IsValueSlot slot indent) (hline : '\n' ∉ cs)
    (hquotes : isDoubleQuoted cs = false) : ∃ s : Spelling, s.Writes slot indent cs cs := by
  rw [isDoubleQuoted, Bool.or_eq_false_iff, if_neg (by simpa using hline)] at hquotes
  obtain ⟨hcontrol, hchoice⟩ := hquotes
  have hreturn : '\r' ∉ cs := not_mem_of_isControl rfl hcontrol
  have hchars : scalarChars slot cs = if needsQuotes cs || isValue cs then quoted slot cs
      else (fold .flow slot.indent slot.column cs).1 := by
    simp [scalarChars, hcontrol, plain, hslot.isKey, hslot.inFlow, hline]
  cases hplain : needsQuotes cs || isValue cs with
  | true =>
    rw [hplain, Bool.true_and, Bool.not_eq_false'] at hchoice
    rw [hplain, if_pos rfl, quoted, if_pos hchoice] at hchars
    refine writes_single hslot hline hreturn ?_ hchars
    simp only [Bool.and_eq_true, Bool.not_eq_true', List.contains_eq_mem, decide_eq_false_iff_not] at hchoice
    exact hchoice.2
  | false =>
    rw [hplain, if_neg Bool.false_ne_true] at hchars
    rw [Bool.or_eq_false_iff] at hplain
    have hnonempty : cs ≠ [] := by
      rintro rfl
      exact absurd hplain.2 (by decide)
    exact writes_plain hslot ⟨hnonempty, hplain.1, hline, hreturn⟩ hplain.2 hchars

/-- What becomes of a text that is written as a block: a text of nothing but spaces and line
feeds loses its spaces. -/
def blockText (cs : List Char) : List Char :=
  if cs.all fun c => c == ' ' || c == '\n' then cs.filter (· == '\n') else cs

theorem isCut_block {folded hinted : Bool} {chomp : Chomp} {text : List Char} (hindent : 1 < indent)
    (h : ∀ rest, BlockEnd 2 rest → ∃ inner, indent + 1 ≤ inner ∧
      cutBlock (indent + 1) (hinted? hinted) (chomp == .keep) (text ++ rest) =
        (⟨.scalar, text⟩, rest, inner)) :
    (Spelling.block (blockHeader folded hinted chomp) text).IsCut indent := by
  refine ⟨⟨if folded then '>' else '|', _, rfl, by cases folded <;> rfl⟩, fun rest hrest => ?_⟩
  have hend : BlockEnd 2 rest := by
    obtain ⟨c, more, rfl, hc⟩ := hrest
    refine ⟨c, more, rfl, ?_⟩
    obtain rfl | rfl | rfl := hc <;> decide
  obtain ⟨inner, hinner, hcut⟩ := h rest hend
  have hmove := moveDocumentNode_block (m := { indentNext := indent + 1, indentValue := indent }) folded
    hcut
  have hne : blockHeader folded hinted chomp ++ '\n' :: (text ++ rest) ≠ [] := by simp
  have hcuts := cuts_move .documentNode { indentNext := indent + 1, indentValue := indent } hne
  rw [move, hmove] at hcuts
  obtain ⟨j, rfl⟩ : ∃ j, inner = j + 3 := ⟨inner - 3, by omega⟩
  refine ⟨1, j, by omega, ?_⟩
  simpa [Spelling.chars, Spelling.lexemes, lexeme] using hcuts

/-- A text with line feeds that is not written in double quotes is written as a block. -/
theorem scalarChars_eq_block (hslot : IsValueSlot slot indent) (hfeed : '\n' ∈ cs)
    (hquotes : isDoubleQuoted cs = false) :
    scalarChars slot cs = block slot cs ∧ endsBlank cs = false ∧ '\r' ∉ cs := by
  rw [isDoubleQuoted, Bool.or_eq_false_iff, if_pos (by simpa using hfeed)] at hquotes
  obtain ⟨hcontrol, hends⟩ := hquotes
  refine ⟨?_, hends, not_mem_of_isControl rfl hcontrol⟩
  simp [scalarChars, hcontrol, plain, hslot.isKey, hslot.inFlow, hfeed]

theorem writes_literal (hslot : IsValueSlot slot indent) (hfeed : '\n' ∈ cs)
    (hquotes : isDoubleQuoted cs = false) (hliteral : (scalarChars slot cs).head? ≠ some '>')
    (htab : (∀ c ∈ cs, isGap c = true) → '\t' ∈ cs → IsUnspaced cs) :
    ∃ s : Spelling, s.Writes slot indent cs (blockText cs) := by
  obtain ⟨hchars, hends, hreturn⟩ := scalarChars_eq_block hslot hfeed hquotes
  have hp : 0 < indent := Nat.lt_trans Nat.one_pos hslot.deep
  rw [hchars] at hliteral
  obtain ⟨chomp, lines, out, h, hblock⟩ := block_eq_literal hfeed hends hliteral
  rw [hslot.step] at h
  have hhint (hhinted : startsWithSpace cs = false) (hfilled : ∃ line ∈ lines, IsFilled line) :
      IsUnspaced cs := by
    by_cases hgap : ∀ c ∈ cs, isGap c = true
    · obtain ⟨line, hline, c, hc, hspace⟩ := hfilled
      have hmem : c ∈ cs := by
        rw [h.text]
        exact List.mem_append_left _ (mem_joinLines hline hc)
      have hnotFeed : c ≠ '\n' := fun heq => h.noFeed line hline (heq ▸ hc)
      obtain rfl : c = '\t' := by simpa [isGap, hspace, hnotFeed] using hgap c hmem
      exact htab hgap hmem
    · simp only [not_forall, Bool.not_eq_true, exists_prop] at hgap
      exact isUnspaced_of_startsWithSpace hhinted hgap
  refine ⟨.block (blockHeader false (startsWithSpace cs) chomp) (endLines out), ?_,
    isCut_block hslot.deep fun rest hrest =>
      h.cutBlock hreturn hhint hrest (Nat.succ_lt_succ hslot.deep),
    isRead_block fun t remark rs ht hremark => ?_⟩
  · rw [hchars, hblock, ← joinLines_feed h.out_ne_nil]
    simp [Spelling.chars, blockHeader]
  · rw [blockText]
    by_cases hblank : (cs.all fun c => c == ' ' || c == '\n') = true
    · rw [if_pos hblank]
      refine blockValue_blank false h (h.not_isFilled ?_) ht hremark rs
      simpa using hblank
    · rw [if_neg hblank]
      simp only [List.all_eq_true, Bool.or_eq_true, beq_iff_eq, not_forall, not_or, exists_prop] at hblank
      obtain ⟨c, hc, hspace, hnotFeed⟩ := hblank
      have hfilled := h.exists_isFilled hc hspace hnotFeed
      exact blockValue_literal h hp hreturn (fun hf => hhint hf hfilled) hfilled ht hremark rs

/-- No line of the text starts with white space, so that all line feeds are told apart from those
where a line is broken. -/
theorem writes_folded (hslot : IsValueSlot slot indent) (hfeed : '\n' ∈ cs)
    (hquotes : isDoubleQuoted cs = false) (hfolded : (scalarChars slot cs).head? = some '>')
    (hflush : IsFlush cs) : ∃ s : Spelling, s.Writes slot indent cs (blockText cs) := by
  obtain ⟨hchars, hends, hreturn⟩ := scalarChars_eq_block hslot hfeed hquotes
  have hp : 0 < indent := Nat.lt_trans Nat.one_pos hslot.deep
  rw [hchars] at hfolded
  obtain ⟨chomp, before, after, text, out, h, hblock⟩ := block_eq_folded hfeed hends hflush hfolded
  rw [hslot.step] at hblock
  refine ⟨.block (blockHeader true false chomp) (endLines (foldedRows (indent + 2) before after out)), ?_,
    isCut_block hslot.deep fun rest hrest => h.cutBlock hreturn hrest (Nat.succ_lt_succ hslot.deep),
    isRead_block fun t remark rs ht hremark => ?_⟩
  · rw [hchars, hblock, ← joinLines_feed (h.literal _).out_ne_nil, foldedRows, joinLines_linesOf]
    simp [Spelling.chars, blockHeader, hint]
  · obtain ⟨c, hc, hgap⟩ := exists_solid_of_folded hflush hfolded
    have hsolid : (cs.all fun c => c == ' ' || c == '\n') = false := by
      rw [List.all_eq_false]
      refine ⟨c, ?_, ?_⟩
      · rw [(splitTail_spec cs).1]
        exact List.mem_append_left _ hc
      · simp only [isGap, Bool.or_eq_false_iff] at hgap
        simp [hgap]
    rw [blockText, hsolid, if_neg Bool.false_ne_true]
    exact h.blockValue_run hp hreturn ht hremark rs

theorem writes_block (hslot : IsValueSlot slot indent) (hfeed : '\n' ∈ cs)
    (hquotes : isDoubleQuoted cs = false)
    (hfolded : (scalarChars slot cs).head? = some '>' → IsFlush cs)
    (htab : (∀ c ∈ cs, isGap c = true) → '\t' ∈ cs → IsUnspaced cs) :
    ∃ s : Spelling, s.Writes slot indent cs (blockText cs) := by
  by_cases hmark : (scalarChars slot cs).head? = some '>'
  · exact writes_folded hslot hfeed hquotes hmark (hfolded hmark)
  · exact writes_literal hslot hfeed hquotes hmark htab

end BuildMatrix.Starter
