import BuildMatrix.Proofs.Yaml.Plain

/-!
# Scalars in quotes

A text in single quotes is cut from its line up to the closing quote (`moveDocumentNode_single`) and
is read as the same text (`singleValue_folded`).  What is in double quotes instead is a matter of the
text alone (`scalarChars_of_isDoubleQuoted`).
-/

namespace BuildMatrix.Yaml

open Lexer

/-! ## Single quotes -/

theorem closeSingle_append {text : List Char} (h : '\'' ∉ text) (rest : List Char) :
    closeSingle (text ++ '\'' :: '\n' :: rest) = some (text ++ ['\''], '\n' :: rest) := by
  induction text with
  | nil => simp [closeSingle]
  | cons c text ih =>
    simp only [List.mem_cons, not_or] at h
    rw [List.cons_append, closeSingle]
    · rw [ih h.2]
      rfl
    · rintro _ rfl
      exact absurd rfl h.1
    · rintro rfl
      exact absurd rfl h.1

theorem cutAtUnindent_line (i : Nat) (after : List Char) {line : List Char} (hline : '\n' ∉ line)
    (hreturn : '\r' ∉ line) (tail : List Char) :
    cutAtUnindent i after (line ++ tail) = line ++ cutAtUnindent i after tail := by
  induction line with
  | nil => rfl
  | cons c line ih =>
    simp only [List.mem_cons, not_or] at hline hreturn
    rw [List.cons_append, cutAtUnindent]
    · rw [ih hline.2 hreturn.2]
      rfl
    · rintro rfl
      exact absurd rfl hline.1
    · rintro _ rfl
      exact absurd rfl hreturn.1

/-- The lines that a text is broken into are indented enough to stay in its quotes. -/
theorem cutAtUnindent_folded {i indent : Nat} (hi : 0 < i) (hindent : i ≤ indent)
    {cs out : List Char} (h : Folded indent cs out) (after tail : List Char) :
    '\r' ∉ cs → cutAtUnindent i after (out ++ tail) = out ++ cutAtUnindent i after tail := by
  induction h with
  | whole hcs => exact fun hreturn => cutAtUnindent_line i after hcs hreturn tail
  | @broken line rest out hline _ _ _ ih =>
    intro hreturn
    have hreturns : '\r' ∉ line ∧ '\r' ∉ rest := by simpa using hreturn
    have hspaces : cutAtUnindent i after (List.replicate indent ' ' ++ (out ++ tail)) =
        List.replicate indent ' ' ++ (out ++ cutAtUnindent i after tail) := by
      rw [cutAtUnindent_line i after (by simp) (by simp), ih hreturns.2]
    rw [breakTo, List.append_assoc, List.append_assoc,
      cutAtUnindent_line i after hline hreturns.1, List.cons_append, List.append_assoc,
      cutAtUnindent, if_pos, hspaces]
    · simp
    · rw [List.append_assoc]
      exact continues_spaces hi hindent _

/-- The text between the quotes does not get a single quote by being broken. -/
theorem Folded.not_mem {indent : Nat} {cs out : List Char} (h : Folded indent cs out) {c : Char}
    (hfeed : c ≠ '\n') (hspace : c ≠ ' ') : c ∉ cs → c ∉ out := by
  induction h with
  | whole _ => exact id
  | broken _ _ _ _ ih =>
    intro hc
    simp only [List.mem_append, List.mem_cons, not_or] at hc
    simp [breakTo, hc.1, ih hc.2.2, hfeed, hspace]

/-- A text in single quotes is cut from its line as a whole. -/
theorem moveDocumentNode_single {m : Memory} {indent : Nat} {cs out rest : List Char}
    (hflow : m.flowLevel = 0) (hnext : 0 < m.indentNext) (hindent : m.indentNext ≤ indent)
    (hquote : '\'' ∉ cs) (hreturn : '\r' ∉ cs) (h : Folded indent cs out) :
    moveDocumentNode m ('\'' :: out ++ ['\''] ++ '\n' :: rest) =
      ⟨[⟨.singleQuoted, '\'' :: out ++ ['\'']⟩], .document, m, '\n' :: rest⟩ := by
  have hclose := closeSingle_append (h.not_mem (by decide) (by decide) hquote) rest
  have hcut : cutAtUnindent m.indentNext ('\n' :: rest) (out ++ ['\'']) = out ++ ['\''] := by
    rw [cutAtUnindent_folded hnext hindent h _ _ hreturn]
    rfl
  have hquoted : cutQuoted m.indentNext ('\'' :: (out ++ '\'' :: '\n' :: rest)) =
      (⟨.singleQuoted, '\'' :: out ++ ['\'']⟩, '\n' :: rest) := by
    simp [cutQuoted, hclose, hcut]
  have hform : '\'' :: out ++ ['\''] ++ '\n' :: rest =
      '\'' :: (out ++ '\'' :: '\n' :: rest) := by
    simp
  rw [hform]
  simp [moveDocumentNode, cutProperty?, indicator?, lineEndAt, hquoted, modeAfter, hflow]

theorem undouble_eq_self {cs : List Char} (h : '\'' ∉ cs) : undouble cs = cs := by
  induction cs with
  | nil => rfl
  | cons c cs ih =>
    simp only [List.mem_cons, not_or] at h
    rw [undouble]
    · rw [ih h.2]
    · rintro _ rfl
      exact absurd rfl h.1

/-- A text in single quotes is read as the text that it was written for. -/
theorem singleValue_folded {t : Token} {indent : Nat} {cs out : List Char}
    (htext : t.text = '\'' :: out ++ ['\'']) (hquote : '\'' ∉ cs) (hreturn : '\r' ∉ cs)
    (h : Folded indent cs out) (rs : List Report) : (singleValue t).run rs = (cs, rs) := by
  have hclosed : (t.text.getLast? != some '\'' || t.text.length == 1) = false := by
    simp [htext, List.getLast?_cons]
  have hinner : (t.text.drop 1).dropLast = out := by
    simp [htext]
  rw [singleValue, hclosed, hinner, foldLines_folded h hreturn, undouble_eq_self hquote]
  rfl

namespace ScalarText

theorem hasBlankAtBreak_eq_false {cs : List Char} (h : '\n' ∉ cs) : hasBlankAtBreak cs = false := by
  fun_induction hasBlankAtBreak cs with
  | case1 a b rest ih =>
    simp only [List.mem_cons, not_or] at h
    simp [Ne.symm h.1, Ne.symm h.2.1, ih (by simpa using h.2)]
  | case2 => rfl

theorem breakRuns_eq_self {cs : List Char} (h : '\n' ∉ cs) (indent : Nat) :
    breakRuns indent false cs = cs := by
  induction cs with
  | nil => rfl
  | cons c cs ih =>
    simp only [List.mem_cons, not_or] at h
    rw [breakRuns]
    · simp [ih h.2]
    · rintro rfl
      exact absurd rfl h.1

theorem doubled_eq_self {cs : List Char} (h : '\'' ∉ cs) :
    (cs.flatMap fun c => if c = '\'' then ['\'', '\''] else [c]) = cs := by
  induction cs with
  | nil => rfl
  | cons c cs ih =>
    simp only [List.mem_cons, not_or] at h
    rw [List.flatMap_cons, if_neg (Ne.symm h.1), ih h.2]
    rfl

/-- A text of one line in single quotes is that text with some of its spaces as line breaks. -/
theorem folded_singleQuoted {slot : Slot} (hkey : slot.isKey = false) {cs : List Char}
    (hline : '\n' ∉ cs) (hquote : '\'' ∉ cs) :
    ∃ out, singleQuoted slot cs = '\'' :: out ++ ['\''] ∧ Folded slot.indent cs out := by
  have htext : '\n' ∉ '\'' :: cs ++ ['\''] := by
    simp [hline]
  obtain ⟨inner, hfold, hinner⟩ := (folded_fold slot.indent slot.column htext).of_cons (by decide)
  obtain ⟨out, rfl, h⟩ := hinner.of_concat (by decide)
  refine ⟨out, ?_, h⟩
  rw [singleQuoted, hasBlankAtBreak_eq_false hline, doubled_eq_self hquote, hkey]
  dsimp only
  rw [breakRuns_eq_self hline]
  exact hfold

end ScalarText

/-! ## The choice of quotes -/

namespace ScalarText

/-- Whether a text is written in double quotes: it holds control characters, or a last line of
blanks, or it is a line that cannot be plain and does not suit single quotes. -/
def isDoubleQuoted (cs : List Char) : Bool :=
  cs.any isControl ||
    if cs.contains '\n' then endsBlank cs
    else (needsQuotes cs || isValue cs) && !(cs.contains '"' && !cs.contains '\'')

variable {slot : Slot} {cs : List Char}

theorem hasBlankAtBreak_append {b : Char} (hb : isBlank b = true) (front back : List Char) :
    hasBlankAtBreak (front ++ '\n' :: b :: back) = true := by
  induction front with
  | nil => simp [hasBlankAtBreak, hb]
  | cons a front ih =>
    cases front with
    | nil => simp [hasBlankAtBreak, hb]
    | cons a' front =>
      rw [List.cons_append, List.cons_append, hasBlankAtBreak, ← List.cons_append, ih, Bool.or_true]

/-- The last line of a text that ends blank. -/
theorem exists_of_endsBlank (h : endsBlank cs = true) :
    ∃ front b back, cs = front ++ '\n' :: b :: back ∧ isBlank b = true := by
  simp only [endsBlank, Bool.and_eq_true, Bool.not_eq_true', List.isEmpty_eq_false_iff,
    beq_iff_eq] at h
  obtain ⟨hnil, hhead⟩ := h
  have hsplit : cs.reverse.takeWhile isBlank ++
      cs.reverse.drop (cs.reverse.takeWhile isBlank).length = cs.reverse :=
    List.prefix_iff_eq_append.mp (List.takeWhile_prefix _)
  have hall := List.all_takeWhile (p := isBlank) (l := cs.reverse)
  obtain ⟨blanks, b, hblanks⟩ := (List.eq_nil_or_concat' _).resolve_left hnil
  obtain ⟨more, hmore⟩ := List.head?_eq_some_iff.mp hhead
  rw [hmore, hblanks] at hsplit
  refine ⟨more.reverse, b, blanks.reverse, ?_, ?_⟩
  · rw [← List.reverse_reverse cs, ← hsplit]
    simp
  · rw [hblanks] at hall
    simp only [List.all_append, List.all_cons, List.all_nil, Bool.and_true, Bool.and_eq_true] at hall
    exact hall.2

theorem hasBlankAtBreak_of_endsBlank (h : endsBlank cs = true) : hasBlankAtBreak cs = true := by
  obtain ⟨front, b, back, rfl, hb⟩ := exists_of_endsBlank h
  exact hasBlankAtBreak_append hb front back

theorem quoted_of_endsBlank (hkey : slot.isKey = false) (h : endsBlank cs = true) :
    quoted slot cs = doubleQuoted slot cs := by
  rw [quoted, singleQuoted, hasBlankAtBreak_of_endsBlank h, hkey]
  simp

theorem scalarChars_of_isDoubleQuoted (hkey : slot.isKey = false) (hflow : slot.inFlow = false)
    (h : isDoubleQuoted cs = true) : scalarChars slot cs = doubleQuoted slot cs := by
  rw [isDoubleQuoted, Bool.or_eq_true] at h
  rw [scalarChars]
  by_cases hcontrol : cs.any isControl = true
  · rw [if_pos hcontrol]
  · rw [if_neg hcontrol, plain, hkey, hflow]
    have hrest := h.resolve_left hcontrol
    cases hfeed : cs.contains '\n' with
    | true =>
      rw [hfeed, if_pos rfl] at hrest
      simp [block, hrest, quoted_of_endsBlank hkey hrest]
    | false =>
      rw [hfeed, if_neg Bool.false_ne_true, Bool.and_eq_true, Bool.not_eq_true'] at hrest
      rw [quoted, hrest.2]
      simp [hrest.1]

end ScalarText

end BuildMatrix.Yaml
