import BuildMatrix.Proofs.Yaml.DoubleQuotes

/-!
# The parts of a text in double quotes

What is written for a text in double quotes consists of parts that are not divided when lines are
broken: characters, escapes, and line feeds with their indentation (`parts_doubleQuotedChars`).  If
lines are broken at single spaces and between parts, the text stays the same (`Parts.quoted`).
-/

namespace BuildMatrix.Yaml

open ScalarText

/-! ## The characters between the quotes -/

/-- The three forms of the escape of a character. -/
theorem escape_cases (c : Char) :
    (∃ e, Json.escape c = ['\\', e] ∧ escaped? e = some c) ∨
      (Json.escape c = '\\' :: 'u' :: Json.hexDigits c.toNat ∧ c.toNat < 32) ∨
      (Json.escape c = [c] ∧ c ≠ '"' ∧ c ≠ '\\' ∧ c ≠ '\n' ∧ c ≠ '\r') := by
  unfold Json.escape
  split
  · exact .inl ⟨_, rfl, rfl⟩
  · exact .inl ⟨_, rfl, rfl⟩
  · exact .inl ⟨_, rfl, rfl⟩
  · exact .inl ⟨_, rfl, rfl⟩
  · exact .inl ⟨_, rfl, rfl⟩
  · exact .inl ⟨_, rfl, rfl⟩
  · exact .inl ⟨_, rfl, rfl⟩
  next hquote hslash hline hreturn _ _ _ =>
    by_cases hc : c.toNat < 32
    · exact .inr (.inl ⟨if_pos hc, hc⟩)
    · exact .inr (.inr ⟨if_neg hc, hquote, hslash, hline, hreturn⟩)

theorem piece_escape (c : Char) : Piece c (ScalarText.escape c) := by
  unfold ScalarText.escape
  split
  · exact .letter rfl
  · exact .letter rfl
  · exact .letter rfl
  · exact .letter rfl
  · obtain ⟨e, hform, he⟩ | ⟨hform, hc⟩ | ⟨hform, hquote, hslash, hline, hreturn⟩ := escape_cases c
    · rw [hform]
      simpa using Piece.letter he
    · rw [hform]
      exact .code (Nat.mod_lt _ (by decide)) (Nat.mod_lt _ (by decide)) (by omega)
    · rw [hform]
      simpa using Piece.plain hquote hslash hline hreturn

theorem startsSolid_escape {c : Char} (hc : c ≠ ' ') : StartsSolid (ScalarText.escape c) := by
  have hpiece := piece_escape c
  generalize hform : ScalarText.escape c = piece at hpiece
  cases hpiece with
  | plain hquote hslash hline hreturn =>
    refine ⟨c, rfl, ?_⟩
    have htab : c ≠ '\t' := by
      rintro rfl
      exact absurd hform (by decide)
    simp [FoldScan.isGap, hc, hline, htab]
  | letter he => exact ⟨'\\', rfl, rfl⟩
  | code ha hb hc => exact ⟨'\\', rfl, rfl⟩

variable {breaking inBreak : Bool} {n : Nat} {c : Char} {cs rest : List Char}

theorem doubleQuotedChars_cons (hc : c ≠ '\n') (rest : List Char) :
    doubleQuotedChars breaking n inBreak (c :: rest) =
      (if c == ' ' && rest.head? == some '\n' then ['\\', ' '] else ScalarText.escape c) ++
        doubleQuotedChars breaking n false rest := by
  rw [doubleQuotedChars]
  exact hc

/-- A line feed that stays an escape. -/
theorem doubleQuotedChars_feed (h : (!breaking || rest.isEmpty) = true) :
    doubleQuotedChars breaking n inBreak ('\n' :: rest) =
      ['\\', 'n'] ++ doubleQuotedChars breaking n false rest := by
  rw [doubleQuotedChars, if_pos h]
  rfl

/-- A run of line feeds that are written as line breaks. -/
theorem doubleQuotedChars_feeds (hne : rest ≠ []) (hend : rest.head? ≠ some '\n' ∨ rest = ['\n'])
    (k : Nat) :
    doubleQuotedChars true n inBreak ('\n' :: (List.replicate k '\n' ++ rest)) =
      (if inBreak then ['\n'] else ['\n', '\n']) ++ List.replicate k '\n' ++ spaces n ++
        ((if rest.head? = some ' ' then ['\\'] else []) ++ doubleQuotedChars true n false rest) := by
  induction k generalizing inBreak with
  | zero =>
    rw [List.replicate_zero, List.nil_append, doubleQuotedChars, if_neg (by simp [hne])]
    dsimp only
    split
    next heq =>
      obtain hend | hend := hend
      · exact absurd rfl hend
      · simp at hend
    next => simp
  | succ k ih =>
    have hnil : List.replicate k '\n' ++ rest ≠ [] := by simp [hne]
    obtain ⟨d, more, hmore⟩ := List.exists_cons_of_ne_nil hnil
    rw [List.replicate_succ, List.cons_append, doubleQuotedChars, if_neg (by simp)]
    dsimp only
    rw [ih, hmore]
    simp

theorem exists_feeds (h : cs ≠ []) :
    ∃ k rest, cs = List.replicate k '\n' ++ rest ∧ rest ≠ [] ∧
      (rest.head? ≠ some '\n' ∨ rest = ['\n']) := by
  induction cs with
  | nil => exact absurd rfl h
  | cons c cs ih =>
    by_cases hc : c = '\n'
    · subst hc
      by_cases hcs : cs = []
      · subst hcs
        exact ⟨0, ['\n'], rfl, by simp, .inr rfl⟩
      · obtain ⟨k, rest, rfl, hrest⟩ := ih hcs
        exact ⟨k + 1, rest, rfl, hrest⟩
    · exact ⟨0, c :: cs, rfl, List.cons_ne_nil _ _, .inl (by simpa using hc)⟩

theorem startsSolid_doubleQuotedChars (hspace : cs.head? ≠ some ' ')
    (hfeed : cs.head? ≠ some '\n' ∨ cs = ['\n']) :
    StartsSolid (doubleQuotedChars breaking n false cs ++ ['"']) := by
  cases cs with
  | nil => exact ⟨'"', rfl, rfl⟩
  | cons c cs =>
    by_cases hc : c = '\n'
    · subst hc
      obtain ⟨-, rfl⟩ : '\n' = '\n' ∧ cs = [] := by simpa using hfeed
      rw [doubleQuotedChars_feed (by simp)]
      exact ⟨'\\', rfl, rfl⟩
    · have hspace' : c ≠ ' ' := by simpa using hspace
      rw [doubleQuotedChars_cons hc, if_neg (by simp [hspace']), List.append_assoc]
      exact (startsSolid_escape hspace').append _

/-! ## One line -/

/-- A text whose line feeds are all escapes. -/
theorem quoted_doubleQuotedChars (inBreak : Bool) :
    '\n' ∉ doubleQuotedChars breaking n inBreak cs →
      Quoted n cs (doubleQuotedChars breaking n inBreak cs) := by
  induction cs generalizing inBreak with
  | nil => exact fun _ => .nil
  | cons c cs ih =>
    intro hline
    by_cases hc : c = '\n'
    · subst hc
      cases hend : (!breaking || cs.isEmpty) with
      | true =>
        rw [doubleQuotedChars_feed hend] at hline ⊢
        simp only [List.mem_append, not_or] at hline
        exact .piece (.letter rfl) (by simp [isWhite]) (ih _ hline.2)
      | false =>
        simp only [Bool.or_eq_false_iff, Bool.not_eq_false', List.isEmpty_eq_false_iff] at hend
        obtain ⟨rfl, hne⟩ := hend
        obtain ⟨k, rest, rfl, hrest, hfeed⟩ := exists_feeds hne
        rw [doubleQuotedChars_feeds hrest hfeed] at hline
        cases inBreak <;> simp at hline
    · rw [doubleQuotedChars_cons hc] at hline ⊢
      simp only [List.mem_append, not_or] at hline
      refine .piece ?_ (fun _ hhead => hline.2 (List.mem_of_mem_head? hhead)) (ih _ hline.2)
      split
      next hspace =>
        simp only [Bool.and_eq_true, beq_iff_eq] at hspace
        rw [hspace.1]
        exact .letter rfl
      next => exact piece_escape c

theorem applyBreaks_eq_self {breaks : List Break} :
    ∀ {offset : Nat}, '\n' ∉ applyBreaks n offset breaks cs → applyBreaks n offset breaks cs = cs := by
  induction cs with
  | nil =>
    intro offset _
    cases breaks <;> rfl
  | cons c cs ih =>
    intro offset hline
    cases breaks with
    | nil => rfl
    | cons b breaks =>
      rw [applyBreaks] at hline ⊢
      split at hline
      next => simp [breakTo] at hline
      next hle =>
        rw [if_neg hle, ih fun hmem => hline (List.mem_cons_of_mem _ hmem)]

/-- A text that has no line feed when its lines are broken was not broken. -/
theorem fold_eq_self {mode : FoldMode} {column : Nat}
    (h : '\n' ∉ (fold mode n column cs).1) : (fold mode n column cs).1 = cs := by
  unfold fold at h ⊢
  dsimp only at h ⊢
  split at h
  next hle => rw [if_pos hle]
  next hle =>
    rw [if_neg hle]
    exact applyBreaks_eq_self h

/-- A text in double quotes on one line. -/
theorem quoted_of_not_mem {slot : Slot} (hkey : slot.isKey = false)
    (hline : '\n' ∉ doubleQuoted slot cs) :
    ∃ out, doubleQuoted slot cs = '"' :: out ++ ['"'] ∧ Quoted slot.indent cs out := by
  unfold doubleQuoted at hline ⊢
  rw [if_neg (by simp [hkey])] at hline ⊢
  have hfold := fold_eq_self hline
  rw [hfold] at hline ⊢
  simp only [List.mem_append, List.mem_cons, not_or] at hline
  exact ⟨_, rfl, quoted_doubleQuotedChars false hline.1.2⟩

/-! ## Parts -/

/-- A text in which no space stands beside another one or alone in its line. -/
structure IsSinglySpaced (cs : List Char) : Prop where
  single : ¬[' ', ' '] <:+: cs
  inner : ¬['\n', ' ', '\n'] <:+: cs

theorem IsSinglySpaced.suffix {front : List Char} (h : IsSinglySpaced (front ++ cs)) :
    IsSinglySpaced cs :=
  ⟨fun hcs => h.single (hcs.trans (List.suffix_append front cs).isInfix),
    fun hcs => h.inner (hcs.trans (List.suffix_append front cs).isInfix)⟩

/-- What is written for a few characters, and is not divided when lines are broken: a character, or
line feeds with the indentation behind them. -/
inductive IsPart (n : Nat) : List Char → List Char → Prop
  | piece {c : Char} {piece : List Char} (hc : Piece c piece) (hsolid : StartsSolid piece) :
    IsPart n [c] piece
  | space : IsPart n [' '] [' ']
  | feeds (k : Nat) :
    IsPart n (List.replicate (k + 1) '\n') (List.replicate (k + 1) '\n' ++ breakTo n)

/-- What is written for a text up to the closing quote, in parts; of two parts that follow each other
one is solid. -/
inductive Parts (n : Nat) : List Char → List (List Char) → Prop
  | close : Parts n [] [['"']]
  | cons {text part cs : List Char} {parts : List (List Char)} (hpart : IsPart n text part)
    (hsolid : StartsSolid part ∨ StartsSolid parts.flatten) (h : Parts n cs parts) :
    Parts n (text ++ cs) (part :: parts)

theorem Parts.piece {parts : List (List Char)} {piece : List Char} (h : Parts n cs parts)
    (hc : Piece c piece) (hsolid : StartsSolid piece) : Parts n (c :: cs) (piece :: parts) :=
  .cons (.piece hc hsolid) (.inl hsolid) h

/-- A piece of an escape that is a single letter. -/
theorem Parts.letter {parts : List (List Char)} {e : Char} (h : Parts n cs parts)
    (he : escaped? e = some c) : Parts n (c :: cs) (['\\', e] :: parts) :=
  h.piece (.letter he) ⟨'\\', rfl, rfl⟩

/-- What is written for the rest of a text can be written for all of it after a character. -/
theorem exists_parts_cons (hc : c ≠ '\n') (hspaced : IsSinglySpaced (c :: rest))
    (h : ∃ parts, Parts n rest parts ∧
      parts.flatten = doubleQuotedChars breaking n false rest ++ ['"']) :
    ∃ parts, Parts n (c :: rest) parts ∧
      parts.flatten = doubleQuotedChars breaking n false (c :: rest) ++ ['"'] := by
  obtain ⟨parts, hparts, hflat⟩ := h
  rw [doubleQuotedChars_cons hc, List.append_assoc, ← hflat]
  by_cases hspace : c = ' '
  · subst hspace
    by_cases hfeed : rest.head? = some '\n'
    · rw [if_pos (by simp [hfeed])]
      exact ⟨_, hparts.letter rfl, rfl⟩
    · have hsingle : rest.head? ≠ some ' ' := by
        intro hhead
        obtain ⟨more, rfl⟩ := List.head?_eq_some_iff.mp hhead
        exact hspaced.single ⟨[], more, rfl⟩
      have hnext : StartsSolid parts.flatten := by
        rw [hflat]
        exact startsSolid_doubleQuotedChars hsingle (.inl hfeed)
      rw [if_neg (by simp [hfeed])]
      exact ⟨_, .cons .space (.inr hnext) hparts, rfl⟩
  · rw [if_neg (by simp [hspace])]
    exact ⟨_, hparts.piece (piece_escape c) (startsSolid_escape hspace), rfl⟩

/-- What is written for the rest of a text can be written for all of it after line feeds. -/
theorem exists_parts_feeds (k : Nat) (hne : rest ≠ []) (hend : rest.head? ≠ some '\n' ∨ rest = ['\n'])
    (hspaced : IsSinglySpaced ('\n' :: (List.replicate k '\n' ++ rest)))
    (h : ∀ front back, rest = front ++ back → ∃ parts, Parts n back parts ∧
      parts.flatten = doubleQuotedChars true n false back ++ ['"']) :
    ∃ parts, Parts n ('\n' :: (List.replicate k '\n' ++ rest)) parts ∧
      parts.flatten =
        doubleQuotedChars true n false ('\n' :: (List.replicate k '\n' ++ rest)) ++ ['"'] := by
  have hform : '\n' :: (List.replicate k '\n' ++ rest) = List.replicate (k + 1) '\n' ++ rest := rfl
  have hbreak (tail : List Char) : (['\n', '\n'] ++ List.replicate k '\n' ++ spaces n) ++ tail =
      (List.replicate (k + 1) '\n' ++ breakTo n) ++ tail := by
    rw [feeds_breakTo, List.replicate_succ, List.replicate_succ, spaces]
    simp
  rw [doubleQuotedChars_feeds hne hend, if_neg Bool.false_ne_true, List.append_assoc, hbreak,
    List.append_assoc _ _ ['"'], hform]
  by_cases hspace : rest.head? = some ' '
  · obtain ⟨back, rfl⟩ := List.head?_eq_some_iff.mp hspace
    obtain ⟨parts, hparts, hflat⟩ := h [' '] back rfl
    have hinner : back.head? ≠ some '\n' := by
      intro hhead
      obtain ⟨more, rfl⟩ := List.head?_eq_some_iff.mp hhead
      refine hspaced.inner ⟨List.replicate k '\n', more, ?_⟩
      rw [hform, List.replicate_succ']
      simp
    have hescape : escape ' ' = [' '] := rfl
    rw [if_pos hspace, doubleQuotedChars_cons (by decide), if_neg (by simp [hinner]), hescape,
      List.append_assoc, List.append_assoc, ← hflat]
    have hletter := hparts.letter (e := ' ') rfl
    exact ⟨_, .cons (.feeds k) (.inr ⟨'\\', rfl, rfl⟩) hletter, by simp⟩
  · obtain ⟨parts, hparts, hflat⟩ := h [] rest rfl
    have hnext : StartsSolid parts.flatten := by
      rw [hflat]
      exact startsSolid_doubleQuotedChars hspace hend
    rw [if_neg hspace, List.nil_append, ← hflat]
    exact ⟨_, .cons (.feeds k) (.inr hnext) hparts, rfl⟩

/-- What is written for a singly spaced text consists of parts. -/
theorem parts_doubleQuotedChars (breaking : Bool) (n : Nat) (cs : List Char) (h : IsSinglySpaced cs) :
    ∃ parts, Parts n cs parts ∧
      parts.flatten = doubleQuotedChars breaking n false cs ++ ['"'] := by
  induction hlength : cs.length using Nat.strong_induction_on generalizing cs with
  | h m ih =>
    have hrest (front back : List Char) (hcs : cs = front ++ back) (hfront : front ≠ []) :
        ∃ parts, Parts n back parts ∧
          parts.flatten = doubleQuotedChars breaking n false back ++ ['"'] := by
      have hpos := List.length_pos_of_ne_nil hfront
      subst hcs
      rw [List.length_append] at hlength
      exact ih back.length (by omega) back h.suffix rfl
    cases cs with
    | nil => exact ⟨[['"']], .close, rfl⟩
    | cons c rest =>
      by_cases hc : c = '\n'
      · subst hc
        cases hbreak : (!breaking || rest.isEmpty) with
        | true =>
          obtain ⟨parts, hparts, hflat⟩ := hrest ['\n'] rest rfl (by simp)
          rw [doubleQuotedChars_feed hbreak, List.append_assoc, ← hflat]
          exact ⟨_, hparts.letter rfl, rfl⟩
        | false =>
          simp only [Bool.or_eq_false_iff, Bool.not_eq_false', List.isEmpty_eq_false_iff] at hbreak
          obtain ⟨rfl, hne⟩ := hbreak
          obtain ⟨k, rest, rfl, hrestNe, hend⟩ := exists_feeds hne
          refine exists_parts_feeds k hrestNe hend h fun front back hback => ?_
          exact hrest ('\n' :: List.replicate k '\n' ++ front) back (by simp [hback]) (by simp)
      · exact exists_parts_cons hc h (hrest [c] rest rfl (by simp))

/-! ## Breaking between parts -/

/-- An offset in the last character of a part that starts at another offset. -/
def InLast (offset place : Nat) (part : List Char) : Prop :=
  ∃ chars c, part = chars ++ [c] ∧ offset + Text.widthOf chars ≤ place ∧
    place < offset + Text.widthOf part

theorem InLast.lt {offset place : Nat} {part : List Char} (h : InLast offset place part) :
    place < offset + Text.widthOf part := by
  obtain ⟨-, -, -, -, hlt⟩ := h
  exact hlt

theorem InLast.le_add_two {offset place : Nat} {part : List Char} (h : InLast offset place part) :
    offset + Text.widthOf part ≤ place + 2 := by
  obtain ⟨chars, c, rfl, hle, -⟩ := h
  have := Text.width_le_two c
  simp only [Text.widthOf_append, Text.widthOf]
  omega

/-- Breaks of a text in parts that starts at an offset: in place of a space, or after a part. -/
inductive AtParts : Nat → List Break → List (List Char) → Prop
  | nil {offset : Nat} : AtParts offset [] []
  | pass {offset : Nat} {part : List Char} {breaks : List Break} {parts : List (List Char)}
    (h : AtParts (offset + Text.widthOf part) breaks parts) : AtParts offset breaks (part :: parts)
  | space {offset : Nat} {breaks : List Break} {parts : List (List Char)}
    (hnext : StartsSolid parts.flatten) (h : AtParts (offset + 1) breaks parts) :
    AtParts offset (⟨offset, false⟩ :: breaks) ([' '] :: parts)
  | splice {offset place : Nat} {part : List Char} {breaks : List Break} {parts : List (List Char)}
    (hplace : InLast offset place part) (hnext : StartsSolid parts.flatten)
    (h : AtParts (offset + Text.widthOf part) breaks parts) :
    AtParts offset (⟨place, true⟩ :: breaks) (part :: parts)

namespace AtParts

variable {offset : Nat} {breaks more : List Break} {parts front back : List (List Char)}

theorem le (h : AtParts offset breaks parts) : ∀ b ∈ breaks, offset ≤ b.offset := by
  induction h with
  | nil => simp
  | pass h ih => exact fun b hb => Nat.le_of_add_right_le (ih b hb)
  | space hnext h ih =>
    rintro b (_ | ⟨_, hb⟩)
    · exact Nat.le_refl _
    · exact Nat.le_of_add_right_le (ih b hb)
  | splice hplace hnext h ih =>
    obtain ⟨chars, c, -, hle, -⟩ := hplace
    rintro b (_ | ⟨_, hb⟩)
    · exact Nat.le_of_add_right_le hle
    · exact Nat.le_of_add_right_le (ih b hb)

theorem head?_le (h : AtParts offset breaks parts) : ∀ b ∈ breaks.head?, offset ≤ b.offset :=
  fun b hb => h.le b (List.mem_of_mem_head? hb)

theorem unbroken (offset : Nat) (parts : List (List Char)) : AtParts offset [] parts := by
  induction parts generalizing offset with
  | nil => exact .nil
  | cons part parts ih => exact .pass (ih _)

/-- More breaks can be made behind the last one. -/
theorem append (h : AtParts offset breaks (front ++ back))
    (hbreaks : ∀ b ∈ breaks, b.offset < offset + Text.widthOf front.flatten)
    (hmore : AtParts (offset + Text.widthOf front.flatten) more back) :
    AtParts offset (breaks ++ more) (front ++ back) := by
  induction front generalizing offset breaks with
  | nil =>
    obtain rfl : breaks = [] := by
      rw [List.eq_nil_iff_forall_not_mem]
      exact fun b hb => Nat.not_lt.mpr (h.le b hb) (by simpa [Text.widthOf] using hbreaks b hb)
    simpa [Text.widthOf] using hmore
  | cons part front ih =>
    simp only [List.flatten_cons, Text.widthOf_append, ← Nat.add_assoc] at hbreaks hmore
    cases h with
    | pass h => exact .pass (ih h hbreaks hmore)
    | space hnext h =>
      exact .space hnext (ih h (fun b hb => hbreaks b (.tail _ hb)) hmore)
    | splice hplace hnext h =>
      exact .splice hplace hnext (ih h (fun b hb => hbreaks b (.tail _ hb)) hmore)

theorem le_add_two {part : List Char} (h : AtParts offset breaks (part :: parts)) :
    ∀ b ∈ breaks, offset + Text.widthOf part ≤ b.offset + 2 := by
  cases h with
  | pass h => exact fun b hb => Nat.le_add_right_of_le (h.le b hb)
  | space hnext h =>
    rintro b (_ | ⟨_, hb⟩)
    · exact Nat.le_succ _
    · exact Nat.le_add_right_of_le (h.le b hb)
  | splice hplace hnext h =>
    rintro b (_ | ⟨_, hb⟩)
    · exact hplace.le_add_two
    · exact Nat.le_add_right_of_le (h.le b hb)

/-- Breaks that stand well before the end of a part stand before the part. -/
theorem lt_of_lt {part : List Char} (h : AtParts offset breaks (front ++ part :: back))
    (hbreaks : ∀ b ∈ breaks, b.offset + 2 < offset + Text.widthOf front.flatten + Text.widthOf part) :
    ∀ b ∈ breaks, b.offset < offset + Text.widthOf front.flatten := by
  induction front generalizing offset breaks with
  | nil =>
    intro b hb
    exact absurd (hbreaks b hb) (Nat.not_lt.mpr (h.le_add_two b hb))
  | cons first front ih =>
    simp only [List.flatten_cons, Text.widthOf_append, ← Nat.add_assoc] at hbreaks ⊢
    cases h with
    | pass h => exact ih h hbreaks
    | space hnext h =>
      rintro b (_ | ⟨_, hb⟩)
      · exact Nat.lt_add_right _ (Nat.lt_succ_self _)
      · exact ih h (fun b hb => hbreaks b (.tail _ hb)) b hb
    | splice hplace hnext h =>
      rintro b (_ | ⟨_, hb⟩)
      · exact Nat.lt_add_right _ hplace.lt
      · exact ih h (fun b hb => hbreaks b (.tail _ hb)) b hb

theorem concat_space (h : AtParts offset breaks parts) (hparts : parts = front ++ [' '] :: back)
    (hnext : StartsSolid back.flatten)
    (hbreaks : ∀ b ∈ breaks, b.offset < offset + Text.widthOf front.flatten) :
    AtParts offset (breaks ++ [⟨offset + Text.widthOf front.flatten, false⟩]) parts := by
  subst hparts
  exact h.append hbreaks (.space hnext (.unbroken _ _))

theorem concat_splice {part : List Char} {place : Nat} (h : AtParts offset breaks parts)
    (hparts : parts = front ++ part :: back) (hnext : StartsSolid back.flatten)
    (hplace : InLast (offset + Text.widthOf front.flatten) place part)
    (hbreaks : ∀ b ∈ breaks, b.offset + 2 ≤ place) :
    AtParts offset (breaks ++ [⟨place, true⟩]) parts := by
  subst hparts
  refine h.append (h.lt_of_lt fun b hb => ?_) (.splice hplace hnext (.unbroken _ _))
  exact Nat.lt_of_le_of_lt (hbreaks b hb) hplace.lt

end AtParts

theorem not_startsSolid_cons {c : Char} (hc : FoldScan.isGap c = true) (cs : List Char) :
    ¬StartsSolid (c :: cs) := by
  rintro ⟨d, hd, hgap⟩
  obtain rfl : c = d := by simpa using hd
  rw [hc] at hgap
  exact Bool.noConfusion hgap

theorem IsPart.ne_nil {text part : List Char} (h : IsPart n text part) : part ≠ [] := by
  cases h with
  | piece hc hsolid => exact hsolid.ne_nil
  | space => simp
  | feeds k => simp

/-- A part stands for its characters, before a text that starts with no white space. -/
theorem IsPart.quoted {text part out : List Char} (hpart : IsPart n text part)
    (hsolid : StartsSolid part ∨ ∀ c ∈ out.head?, FoldScan.isGap c = false) (h : Quoted n cs out) :
    Quoted n (text ++ cs) (part ++ out) := by
  cases hpart with
  | piece hc hstart =>
    refine .piece hc (fun hwhite => ?_) h
    obtain ⟨c, hhead, hgap⟩ := hstart
    rw [Option.mem_def.mp hhead, Option.any_some, isWhite_of_isGap hgap] at hwhite
    exact Bool.noConfusion hwhite
  | space =>
    have hhead := hsolid.resolve_left (not_startsSolid_cons rfl [])
    refine .piece (.plain (by decide) (by decide) (by decide) (by decide)) (fun _ hfeed => ?_) h
    exact absurd (hhead _ hfeed) (by decide)
  | feeds k => exact .feeds (k + 1) (hsolid.resolve_left (not_startsSolid_cons rfl _)) h

theorem applyBreaks_splice {offset place : Nat} {part rest : List Char} {breaks : List Break}
    (h : InLast offset place part) :
    applyBreaks n offset (⟨place, true⟩ :: breaks) (part ++ rest) =
      part ++ ('\\' :: breakTo n ++ applyBreaks n (offset + Text.widthOf part) breaks rest) := by
  obtain ⟨chars, c, rfl, hle, hlt⟩ := h
  simp only [Text.widthOf_append, Text.widthOf, ← Nat.add_assoc, Nat.add_zero] at hlt ⊢
  rw [List.append_assoc, applyBreaks_line _ _ (by simpa using hle), List.cons_append, List.nil_append,
    applyBreaks, if_pos hlt]
  simp

/-- However the parts are broken, they stand for the same text. -/
theorem Parts.quoted {parts : List (List Char)} (h : Parts n cs parts) :
    ∀ {offset : Nat} {breaks : List Break}, AtParts offset breaks parts →
      ∃ out, applyBreaks n offset breaks parts.flatten = out ++ ['"'] ∧ Quoted n cs out ∧
        (StartsSolid parts.flatten → ∀ c ∈ out.head?, FoldScan.isGap c = false) := by
  induction h with
  | close =>
    rintro offset breaks (_ | ⟨⟨⟩⟩ | _ | ⟨-, hnext, -⟩)
    · exact ⟨[], rfl, .nil, by simp⟩
    · exact absurd rfl hnext.ne_nil
  | @cons text part cs parts hpart hsolid h ih =>
    have hhead {tail : List Char} (hstart : StartsSolid (part ++ parts.flatten)) :
        ∀ c ∈ (part ++ tail).head?, FoldScan.isGap c = false := by
      obtain ⟨a, more, rfl⟩ := List.exists_cons_of_ne_nil hpart.ne_nil
      exact hstart.head?
    intro offset breaks hbreaks
    rw [List.flatten_cons]
    cases hbreaks with
    | pass hbreaks =>
      obtain ⟨out, hout, hquoted, hgap⟩ := ih hbreaks
      rw [applyBreaks_line _ _ hbreaks.head?_le, hout]
      exact ⟨part ++ out, by simp, hpart.quoted (hsolid.imp_right hgap) hquoted, hhead⟩
    | @space _ breaks _ hnext hbreaks =>
      obtain ⟨out, hout, hquoted, hgap⟩ := ih hbreaks
      obtain rfl : text = [' '] := by
        generalize hspace : [' '] = part at hpart
        cases hpart with
        | piece hc hstart =>
          subst hspace
          exact absurd hstart (not_startsSolid_cons rfl [])
        | space => rfl
        | feeds k => simp [List.replicate_succ] at hspace
      have hbreak := applyBreaks_space n offset [] parts.flatten breaks
      simp only [Text.widthOf, Nat.add_zero, List.nil_append] at hbreak
      refine ⟨breakTo n ++ out, ?_, .feeds 0 (hgap hnext) hquoted, fun hstart => ?_⟩
      · rw [List.cons_append, List.nil_append, hbreak, hout, List.append_assoc]
      · exact absurd hstart (not_startsSolid_cons rfl _)
    | splice hplace hnext hbreaks =>
      obtain ⟨out, hout, hquoted, hgap⟩ := ih hbreaks
      have hslash : ∀ c ∈ ('\\' :: breakTo n ++ out).head?, FoldScan.isGap c = false := by
        rintro c ⟨⟩
        rfl
      rw [applyBreaks_splice hplace, hout]
      refine ⟨part ++ ('\\' :: breakTo n ++ out), by simp, ?_, hhead⟩
      exact hpart.quoted (.inr hslash) (.splice (hgap hnext) hquoted)

end BuildMatrix.Yaml
