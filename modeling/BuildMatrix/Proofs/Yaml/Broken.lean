import BuildMatrix.Yaml.Fold
import BuildMatrix.Yaml.Quoted

/-!
# Lines that are broken at spaces

Outside of blocks and double quotes a long line is broken at single spaces (`folded_fold`), and
reading the lines puts the spaces back (`foldLines_folded`).
-/

namespace BuildMatrix.Yaml

open FoldScan

/-- A text of one line, and the same text with some of its single spaces as line breaks. -/
inductive Folded (indent : Nat) : List Char → List Char → Prop
  | whole {cs : List Char} (hcs : '\n' ∉ cs) : Folded indent cs cs
  | broken {line rest out : List Char} (hline : '\n' ∉ line)
    (hlast : ∀ c ∈ line.getLast?, isGap c = false) (hhead : ∀ c ∈ rest.head?, isGap c = false)
    (h : Folded indent rest out) : Folded indent (line ++ ' ' :: rest) (line ++ breakTo indent ++ out)

namespace Folded

variable {indent : Nat} {cs out : List Char} {c : Char}

theorem of_cons (h : Folded indent (c :: cs) out) (hc : c ≠ ' ') :
    ∃ out', out = c :: out' ∧ Folded indent cs out' := by
  generalize htext : c :: cs = text at h
  cases h with
  | whole hcs =>
    subst htext
    exact ⟨cs, rfl, .whole fun hmem => hcs (.tail _ hmem)⟩
  | @broken line rest out hline hlast hhead h =>
    cases line with
    | nil =>
      simp only [List.nil_append, List.cons.injEq] at htext
      exact absurd htext.1 hc
    | cons a line =>
      simp only [List.cons_append, List.cons.injEq] at htext
      obtain ⟨rfl, rfl⟩ := htext
      refine ⟨line ++ breakTo indent ++ out, rfl, .broken (fun hmem => hline (.tail _ hmem)) ?_ hhead h⟩
      intro b hb
      refine hlast b ?_
      rw [Option.mem_def] at hb ⊢
      rw [List.getLast?_cons, hb]
      rfl

theorem of_concat (h : Folded indent (cs ++ [c]) out) (hc : c ≠ ' ') :
    ∃ out', out = out' ++ [c] ∧ Folded indent cs out' := by
  generalize htext : cs ++ [c] = text at h
  induction h generalizing cs with
  | whole hcs =>
    subst htext
    exact ⟨cs, rfl, .whole fun hmem => hcs (List.mem_append_left _ hmem)⟩
  | @broken line rest out hline hlast hhead h ih =>
    obtain rfl | ⟨rest, a, rfl⟩ := List.eq_nil_or_concat rest
    · obtain ⟨-, hspace⟩ := List.append_inj' htext rfl
      exact absurd (List.cons.inj hspace).1 hc
    · obtain ⟨rfl, hlast'⟩ : cs = line ++ ' ' :: rest ∧ [c] = [a] := by
        refine List.append_inj' (htext.trans ?_) rfl
        simp
      obtain rfl : c = a := (List.cons.inj hlast').1
      obtain ⟨out, rfl, hrest⟩ := ih (List.concat_eq_append).symm
      refine ⟨line ++ breakTo indent ++ out, by simp, .broken hline hlast ?_ hrest⟩
      intro b hb
      refine hhead b ?_
      rw [Option.mem_def] at hb ⊢
      rw [List.concat_eq_append, List.head?_append, hb]
      rfl

theorem head? (h : Folded indent cs out) (hhead : ∀ c ∈ cs.head?, isGap c = false) :
    out.head? = cs.head? := by
  cases h with
  | whole hcs => rfl
  | @broken line rest out hline hlast _ h =>
    cases line with
    | nil => simp [isGap] at hhead
    | cons a line => rfl

end Folded

/-! ## Making the breaks -/

/-- A text that starts with another character than white space. -/
def StartsSolid (cs : List Char) : Prop := ∃ c ∈ cs.head?, isGap c = false

theorem StartsSolid.head? {cs : List Char} (h : StartsSolid cs) :
    ∀ c ∈ cs.head?, isGap c = false := by
  obtain ⟨c, hc, hgap⟩ := h
  intro d hd
  obtain rfl : c = d := Option.mem_unique hc hd
  exact hgap

theorem StartsSolid.ne_nil {cs : List Char} (h : StartsSolid cs) : cs ≠ [] := by
  rintro rfl
  obtain ⟨c, hc, -⟩ := h
  exact absurd hc (by simp)

theorem StartsSolid.append {cs : List Char} (h : StartsSolid cs) (rest : List Char) :
    StartsSolid (cs ++ rest) := by
  obtain ⟨c, hc, hgap⟩ := h
  obtain ⟨more, rfl⟩ := List.head?_eq_some_iff.mp hc
  exact ⟨c, rfl, hgap⟩

/-- Breaks at single spaces of a text that starts at an offset. -/
inductive AtSpaces : Nat → List Break → List Char → Prop
  | nil {offset : Nat} {cs : List Char} : AtSpaces offset [] cs
  | cons {offset : Nat} {line rest : List Char} {breaks : List Break}
    (hlast : ∀ c ∈ line.getLast?, isGap c = false) (hhead : StartsSolid rest)
    (h : AtSpaces (offset + Text.widthOf line + 1) breaks rest) :
    AtSpaces offset (⟨offset + Text.widthOf line, false⟩ :: breaks) (line ++ ' ' :: rest)

/-- What stands before the first break stays as it is. -/
theorem applyBreaks_line {indent : Nat} {breaks : List Break} (line rest : List Char) :
    ∀ {offset : Nat}, (∀ b ∈ breaks.head?, offset + Text.widthOf line ≤ b.offset) →
      applyBreaks indent offset breaks (line ++ rest) =
        line ++ applyBreaks indent (offset + Text.widthOf line) breaks rest := by
  induction line with
  | nil =>
    intro offset _
    rfl
  | cons c line ih =>
    intro offset h
    cases breaks with
    | nil => simp [applyBreaks]
    | cons b breaks =>
      simp only [Text.widthOf, ← Nat.add_assoc] at h ⊢
      have hb : ¬ b.offset < offset + Text.width c := by
        have := h b rfl
        omega
      rw [List.cons_append, applyBreaks, if_neg hb, ih h]
      rfl

theorem applyBreaks_space (indent offset : Nat) (line rest : List Char) (breaks : List Break) :
    applyBreaks indent offset (⟨offset + Text.widthOf line, false⟩ :: breaks) (line ++ ' ' :: rest) =
      line ++ breakTo indent ++ applyBreaks indent (offset + Text.widthOf line + 1) breaks rest := by
  rw [applyBreaks_line line _ (by simp), applyBreaks, if_pos (by simp [Text.width])]
  simp [Text.width]

theorem AtSpaces.folded {indent offset : Nat} {breaks : List Break} {cs : List Char}
    (h : AtSpaces offset breaks cs) :
    '\n' ∉ cs → Folded indent cs (applyBreaks indent offset breaks cs) := by
  induction h with
  | nil =>
    intro hcs
    rw [applyBreaks]
    exact .whole hcs
  | @cons offset line rest breaks hlast hhead h ih =>
    intro hcs
    simp only [List.mem_append, List.mem_cons, not_or] at hcs
    rw [applyBreaks_space]
    exact .broken hcs.1 hlast hhead.head? (ih hcs.2.2)

/-- One more break can be made at a space after the last one. -/
theorem AtSpaces.concat {offset : Nat} {breaks : List Break} {cs : List Char}
    (h : AtSpaces offset breaks cs) :
    ∀ {front back : List Char}, cs = front ++ ' ' :: back →
      (∀ b ∈ breaks, b.offset < offset + Text.widthOf front) →
      (∀ c ∈ front.getLast?, isGap c = false) → StartsSolid back →
      AtSpaces offset (breaks ++ [⟨offset + Text.widthOf front, false⟩]) cs := by
  induction h with
  | nil =>
    rintro front back rfl - hfront hback
    exact .cons hfront hback .nil
  | @cons offset line rest breaks hlast hhead h ih =>
    intro front back hcs hbreaks hfront hback
    have hlt : Text.widthOf line < Text.widthOf front := by
      simpa using hbreaks _ (.head _)
    -- the space of the new break stands in `rest`
    obtain ⟨more, rfl, rfl⟩ : ∃ more, front = line ++ ' ' :: more ∧ rest = more ++ ' ' :: back := by
      obtain ⟨as, rfl, has⟩ | ⟨as, rfl, has⟩ := List.append_eq_append_iff.mp hcs
      · cases as with
        | nil => simp at hlt
        | cons a as =>
          obtain ⟨rfl, rfl⟩ : ' ' = a ∧ rest = as ++ ' ' :: back := by simpa using has
          exact ⟨as, rfl, rfl⟩
      · rw [Text.widthOf_append] at hlt
        omega
    have hspace : Text.width ' ' = 1 := rfl
    have hwidth : Text.widthOf (line ++ ' ' :: more) =
        Text.widthOf line + 1 + Text.widthOf more := by
      rw [Text.widthOf_append, Text.widthOf, hspace, Nat.add_assoc]
    rw [hwidth, ← Nat.add_assoc, ← Nat.add_assoc]
    refine .cons hlast hhead (ih rfl (fun b hb => ?_) (fun c hc => ?_) hback)
    · have := hbreaks b (.tail _ hb)
      omega
    · refine hfront c ?_
      rw [Option.mem_def] at hc ⊢
      rw [List.getLast?_append, List.getLast?_cons, hc]
      rfl

/-- The search for breaks after the characters of `front`. -/
structure Searched (cs front : List Char) (s : FoldScan) : Prop where
  offset : s.offset = Text.widthOf front
  previous : s.previous = front.getLast?
  skip : s.skip = 0
  seeking : s.seeking = false
  breaks : AtSpaces 0 s.breaks.reverse cs
  passed : ∀ b ∈ s.breaks, b.offset < s.offset
  split : ∀ o ∈ s.split, o < s.offset ∧ AtSpaces 0 (s.breaks.reverse ++ [⟨o, false⟩]) cs

/-- Notes a space at which the line can be broken. -/
def FoldScan.noteSplit (s : FoldScan) (c : Char) (rest : List Char) : FoldScan :=
  if c == ' ' && s.previous.any (!isGap ·) && rest.head?.any (!isGap ·) then
    { s with split := some s.offset }
  else s

/-- Breaks the line at the last split, if it is too long and has one. -/
def FoldScan.breakAtSplit (step : Nat) (s : FoldScan) (c : Char) : FoldScan :=
  let last := if s.limit ≤ s.offset then s.offset else s.offset + Text.width c - 1
  if s.limit ≤ last then
    match s.split with
    | some split =>
      { s with breaks := ⟨split, false⟩ :: s.breaks, limit := split + step, split := none }
    | none => { s with overflow := true }
  else s

theorem next_unquoted {mode : FoldMode} (hmode : mode ≠ .quoted) {indent step : Nat} {s : FoldScan}
    {c : Char} (rest : List Char) (hskip : s.skip = 0) (hseeking : s.seeking = false)
    (hc : c ≠ '\n') :
    next mode indent step s c rest =
      { breakAtSplit step (noteSplit s c rest) c with
        offset := s.offset + Text.width c, previous := some c } := by
  obtain ⟨offset, limit, split, previous, skip, noteSkipped, seeking, escape, overflow, breaks⟩ := s
  obtain rfl : skip = 0 := hskip
  obtain rfl : seeking = false := hseeking
  rw [next, if_neg (by simp), if_neg (by simp), if_neg (by simp [hc])]
  cases mode with
  | flow => rfl
  | block => rfl
  | quoted => exact absurd rfl hmode

/-- The search once a space that comes next may have been noted, or even made a break. -/
structure Noted (cs front : List Char) (s : FoldScan) : Prop where
  offset : s.offset = Text.widthOf front
  skip : s.skip = 0
  seeking : s.seeking = false
  breaks : AtSpaces 0 s.breaks.reverse cs
  passed : ∀ b ∈ s.breaks, b.offset ≤ s.offset
  split : ∀ o ∈ s.split, o ≤ s.offset ∧ AtSpaces 0 (s.breaks.reverse ++ [⟨o, false⟩]) cs

theorem Searched.noteSplit {cs front : List Char} {s : FoldScan} (h : Searched cs front s) {c : Char}
    {rest : List Char} (hcs : cs = front ++ c :: rest) : Noted cs front (s.noteSplit c rest) := by
  obtain ⟨hoffset, hprevious, hskip, hseeking, hbreaks, hpassed, hsplit⟩ := h
  unfold FoldScan.noteSplit
  split
  next hspace =>
    simp only [Bool.and_eq_true, beq_iff_eq, Option.any_eq_true, Bool.not_eq_true'] at hspace
    obtain ⟨⟨rfl, a, ha, hgap⟩, b, hb, hgap'⟩ := hspace
    refine ⟨hoffset, hskip, hseeking, hbreaks, fun b hb => Nat.le_of_lt (hpassed b hb), ?_⟩
    rintro o ⟨⟩
    refine ⟨Nat.le_refl _, ?_⟩
    have := hbreaks.concat hcs (fun b hb => ?_) (fun c hc => ?_) ⟨b, hb, hgap'⟩
    · simpa [← hoffset] using this
    · have := hpassed b (by simpa using hb)
      omega
    · rw [← hprevious, ha] at hc
      obtain rfl : a = c := by simpa using hc
      exact hgap
  next =>
    exact ⟨hoffset, hskip, hseeking, hbreaks, fun b hb => Nat.le_of_lt (hpassed b hb),
      fun o ho => ⟨Nat.le_of_lt (hsplit o ho).1, (hsplit o ho).2⟩⟩

theorem Noted.breakAtSplit {cs front : List Char} {s : FoldScan} (h : Noted cs front s) (step : Nat)
    (c : Char) : Noted cs front (s.breakAtSplit step c) := by
  obtain ⟨hoffset, hskip, hseeking, hbreaks, hpassed, hsplit⟩ := h
  unfold FoldScan.breakAtSplit
  dsimp only
  generalize (if s.limit ≤ s.offset then s.offset else s.offset + Text.width c - 1) = last
  split
  · cases hs : s.split with
    | none => exact ⟨hoffset, hskip, hseeking, hbreaks, hpassed, by simp⟩
    | some o =>
      obtain ⟨ho, hbreak⟩ := hsplit o hs
      refine ⟨hoffset, hskip, hseeking, by simpa using hbreak, ?_, by simp⟩
      rintro b (_ | ⟨_, hb⟩)
      · exact ho
      · exact hpassed b hb
  · exact ⟨hoffset, hskip, hseeking, hbreaks, hpassed, hsplit⟩

variable {mode : FoldMode} {indent : Nat}

/-- The number of characters and of units that are passed over at the start of a line. -/
def passedOver (mode : FoldMode) (indent : Nat) (cs : List Char) : Nat × Nat :=
  if mode == .block then moreIndented indent cs else (0, 0)

/-- Before each line of a text nothing is passed over. -/
structure Unpassed (mode : FoldMode) (indent : Nat) (cs : List Char) : Prop where
  first : passedOver mode indent cs = (0, 0)
  after : ∀ rest, '\n' :: rest <:+ cs → passedOver mode indent rest = (0, 0)

theorem Searched.next {cs front rest : List Char} {s : FoldScan} {c : Char} (h : Searched cs front s)
    (hmode : mode ≠ .quoted) (hcs : cs = front ++ c :: rest) (hlines : Unpassed mode indent cs)
    (step : Nat) : Searched cs (front ++ [c]) (next mode indent step s c rest) := by
  have hwidth := Text.width_pos c
  have hfront : Text.widthOf (front ++ [c]) = Text.widthOf front + Text.width c := by
    simp [Text.widthOf]
  by_cases hc : c = '\n'
  · subst hc
    have hnone : (if mode == .block then moreIndented indent rest else (0, 0)) = (0, 0) :=
      hlines.after rest ⟨front, hcs.symm⟩
    obtain ⟨hoffset, -, hskip, hseeking, hbreaks, hpassed, -⟩ := h
    rw [FoldScan.next, if_neg (by simp [hskip]), if_neg (by simp [hseeking]), if_pos (by simp), hnone]
    refine ⟨by rw [hfront, ← hoffset], by simp, rfl, hseeking, hbreaks, fun b hb => ?_, by simp⟩
    exact Nat.lt_add_right _ (hpassed b hb)
  · obtain ⟨hoffset, hskip, hseeking, hbreaks, hpassed, hsplit⟩ :=
      (h.noteSplit hcs).breakAtSplit step c
    rw [next_unquoted hmode rest h.skip h.seeking hc]
    refine ⟨by rw [hfront, ← h.offset], by simp, hskip, hseeking, hbreaks, fun b hb => ?_,
      fun o ho => ?_⟩
    · have := hpassed b hb
      rw [hoffset, ← h.offset] at this
      show b.offset < s.offset + Text.width c
      omega
    · obtain ⟨ho, hbreak⟩ := hsplit o ho
      rw [hoffset, ← h.offset] at ho
      refine ⟨?_, hbreak⟩
      show o < s.offset + Text.width c
      omega

theorem Searched.run {cs : List Char} (hmode : mode ≠ .quoted) (hlines : Unpassed mode indent cs)
    (step : Nat) (rest : List Char) :
    ∀ {front : List Char} {s : FoldScan}, Searched cs front s → cs = front ++ rest →
      Searched cs cs (run mode indent step s rest) := by
  induction rest with
  | nil =>
    intro front s h hfront
    obtain rfl : cs = front := by simpa using hfront
    exact h
  | cons c rest ih =>
    intro front s h hfront
    exact ih (h.next hmode hfront hlines step) (by simp [hfront])

/-- Outside of double quotes lines are broken at single spaces. -/
theorem atSpaces_fold (hmode : mode ≠ .quoted) (column : Nat) {cs : List Char}
    (hlines : Unpassed mode indent cs) :
    ∃ breaks, AtSpaces 0 breaks cs ∧
      (fold mode indent column cs).1 = applyBreaks indent 0 breaks cs := by
  rw [fold]
  dsimp only
  split
  · exact ⟨[], .nil, by rw [applyBreaks]⟩
  · have hnone : (if mode == .block then moreIndented indent cs else (0, 0)) = (0, 0) :=
      hlines.first
    rw [hnone]
    refine ⟨_, (Searched.run hmode hlines _ cs ?_ (List.nil_append cs).symm).breaks, rfl⟩
    exact ⟨rfl, rfl, rfl, rfl, .nil, by simp, by simp⟩

/-- Outside of blocks and double quotes, lines are broken at single spaces. -/
theorem folded_fold (indent column : Nat) {cs : List Char} (hcs : '\n' ∉ cs) :
    Folded indent cs (fold .flow indent column cs).1 := by
  obtain ⟨breaks, h, hfold⟩ := atSpaces_fold (by decide : FoldMode.flow ≠ .quoted) column
    (⟨rfl, fun _ _ => rfl⟩ : Unpassed .flow indent cs)
  rw [hfold]
  exact h.folded hcs

/-! ## Reading the lines -/

theorem linesOf_append {line : List Char} (hline : '\n' ∉ line) (rest : List Char) :
    linesOf (line ++ '\n' :: rest) = line :: linesOf rest := by
  induction line with
  | nil => rfl
  | cons c line ih =>
    simp only [List.mem_cons, not_or] at hline
    rw [List.cons_append, linesOf]
    · rw [ih hline.2]
    · rintro rfl
      exact hline.1 rfl

theorem linesOf_of_not_mem {line : List Char} (hline : '\n' ∉ line) : linesOf line = [line] := by
  induction line with
  | nil => rfl
  | cons c line ih =>
    simp only [List.mem_cons, not_or] at hline
    rw [linesOf]
    · rw [ih hline.2]
    · rintro rfl
      exact hline.1 rfl

theorem linesOf_ne_nil (cs : List Char) : linesOf cs ≠ [] := by
  fun_induction linesOf cs <;> simp_all

theorem isWhite_of_isGap {c : Char} (h : isGap c = false) : isWhite c = false := by
  simp only [isGap, Bool.or_eq_false_iff] at h
  rw [isWhite, h.1.1, h.2]
  rfl

theorem dropWhile_of_head? {p : Char → Bool} {cs : List Char} (h : ∀ c ∈ cs.head?, p c = false) :
    cs.dropWhile p = cs := by
  cases cs with
  | nil => rfl
  | cons c rest => rw [List.dropWhile_cons_of_neg (by simp [h c rfl])]

/-- No white space is taken off a line that ends with another character. -/
theorem trimLineEnd_eq_self {line : List Char} (h : ∀ c ∈ line.getLast?, isGap c = false) :
    trimLineEnd line = line := by
  rw [trimLineEnd, dropWhile_of_head?, List.reverse_reverse]
  rw [List.head?_reverse]
  exact fun c hc => isWhite_of_isGap (h c hc)

theorem trimLineStart_spaces {line : List Char} (h : ∀ c ∈ line.head?, isGap c = false) (n : Nat) :
    trimLineStart (List.replicate n ' ' ++ line) = line := by
  rw [trimLineStart, List.dropWhile_append_of_pos (by simp [isWhite]), dropWhile_of_head?]
  exact fun c hc => isWhite_of_isGap (h c hc)

theorem dropReturn_eq_self {line : List Char} (h : '\r' ∉ line) : dropReturn line = line := by
  rw [dropReturn, if_neg]
  exact fun hlast => h (List.mem_of_getLast? hlast)

/-- The lines after the first one, with their indentation, read back as what follows a space. -/
theorem Folded.foldRest {indent : Nat} {cs out : List Char} (h : Folded indent cs out) :
    '\r' ∉ cs → (∀ c ∈ cs.head?, isGap c = false) →
      foldRest 0 (linesOf (List.replicate indent ' ' ++ out)) = ' ' :: cs := by
  induction h with
  | @whole cs hcs =>
    intro _ hhead
    rw [linesOf_of_not_mem (by simp [hcs]), Yaml.foldRest, if_pos rfl, trimLineStart_spaces hhead]
    rfl
  | @broken line rest out hline hlast hrest h ih =>
    intro hreturn hhead
    have hnil : line ≠ [] := by
      rintro rfl
      simp [isGap] at hhead
    have hreturns : '\r' ∉ line ∧ '\r' ∉ rest := by simpa using hreturn
    have hspaced : trimLineEnd (List.replicate indent ' ' ++ line) =
        List.replicate indent ' ' ++ line := by
      refine trimLineEnd_eq_self fun c hc => hlast c ?_
      have hsome : line.getLast?.isSome := by simpa using hnil
      rwa [List.getLast?_append, Option.or_of_isSome hsome] at hc
    have hstart : ∀ c ∈ line.head?, isGap c = false := fun c hc => by
      refine hhead c ?_
      have hsome : line.head?.isSome := by simpa using hnil
      rwa [List.head?_append, Option.or_of_isSome hsome]
    have hlines : linesOf (List.replicate indent ' ' ++ (line ++ breakTo indent ++ out)) =
        (List.replicate indent ' ' ++ line) :: linesOf (List.replicate indent ' ' ++ out) := by
      rw [← linesOf_append (by simp [hline])]
      simp [breakTo]
    rw [hlines, Yaml.foldRest]
    · rw [dropReturn_eq_self (by simp [hreturns.1]), hspaced, trimLineStart_spaces hstart]
      simp [hnil, ih hreturns.2 hrest]
    · exact linesOf_ne_nil _

/-- The lines of a text read back as the text. -/
theorem foldLines_folded {indent : Nat} {cs out : List Char} (h : Folded indent cs out)
    (hreturn : '\r' ∉ cs) : foldLines out = cs := by
  cases h with
  | whole hcs => rw [foldLines, linesOf_of_not_mem hcs]
  | @broken line rest out hline hlast hhead h =>
    have hreturns : '\r' ∉ line ∧ '\r' ∉ rest := by simpa using hreturn
    have hlines : linesOf (line ++ breakTo indent ++ out) =
        line :: linesOf (List.replicate indent ' ' ++ out) := by
      rw [← linesOf_append hline]
      simp [breakTo]
    rw [foldLines, hlines]
    cases hrest : linesOf (List.replicate indent ' ' ++ out) with
    | nil => exact absurd hrest (linesOf_ne_nil _)
    | cons second more =>
      dsimp only
      rw [← hrest, h.foldRest hreturns.2 hhead, dropReturn_eq_self hreturns.1,
        trimLineEnd_eq_self hlast]

end BuildMatrix.Yaml
