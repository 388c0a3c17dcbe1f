import BuildMatrix.Proofs.Yaml.QuotedParts

/-!
# The search for breaks in double quotes

In double quotes a line that is too long is broken at its last space, or else before one of the last
two parts (`Located.run`), so that a text in which no space stands beside another one or alone in its
line is read as it was written (`quoted_doubleQuoted`).
-/

namespace BuildMatrix.Yaml

open FoldScan

/-! ## One character -/

/-- Where a line without spaces is broken, at a character that ends at an offset. -/
def FoldScan.place (s : FoldScan) (last : Nat) : Nat :=
  match s.escape with
  | some (first, stop) => if last ≤ stop + 1 then first - 1 else last - 2
  | none => last - 2

/-- Makes a break. -/
def FoldScan.makeBreak (step : Nat) (s : FoldScan) (b : Break) : FoldScan :=
  { s with breaks := b :: s.breaks, limit := b.offset + step, split := none }

/-- Breaks the line if it is too long for a character, with the characters behind it that belong to
its escape. -/
def FoldScan.breakLong (step length : Nat) (s : FoldScan) (c : Char) : FoldScan :=
  let last :=
    if s.limit ≤ s.offset then s.offset + length
    else s.offset + length + Text.width c - 1
  if s.limit ≤ last then breakLine .quoted step s last c else s

/-- Notes an escape. -/
def FoldScan.noteEscape (s : FoldScan) (length : Nat) : FoldScan :=
  { s with escape := some (s.offset, s.offset + length), skip := length, noteSkipped := false }

variable {n step : Nat} {s : FoldScan} {c : Char}

theorem next_quoted (rest : List Char) (hskip : s.skip = 0) (hseeking : s.seeking = false)
    (hline : c ≠ '\n') (hslash : c ≠ '\\') :
    next .quoted n step s c rest =
      { breakLong step 0 (noteSplit s c rest) c with
        offset := s.offset + Text.width c, previous := some c } := by
  obtain ⟨offset, limit, split, previous, skip, noteSkipped, seeking, escape, overflow, breaks⟩ := s
  obtain rfl : skip = 0 := hskip
  obtain rfl : seeking = false := hseeking
  have hescape : (FoldMode.quoted == .quoted && c == '\\') = false := by simpa using hslash
  rw [next, if_neg (by simp), if_neg (by simp), if_neg (by simp [hline])]
  dsimp only
  rw [hescape]
  rfl

theorem next_slash (rest : List Char) (hskip : s.skip = 0) (hseeking : s.seeking = false) :
    next .quoted n step s '\\' rest =
      { breakLong step (escapeLength rest) (s.noteEscape (escapeLength rest)) '\\' with
        offset := s.offset + 1, previous := some '\\' } := by
  obtain ⟨offset, limit, split, previous, skip, noteSkipped, seeking, escape, overflow, breaks⟩ := s
  obtain rfl : skip = 0 := hskip
  obtain rfl : seeking = false := hseeking
  rw [next, if_neg (by simp), if_neg (by simp), if_neg (by simp)]
  rfl

theorem breakLine_split {last o : Nat} (hsplit : s.split = some o) :
    breakLine .quoted step s last c = s.makeBreak step ⟨o, false⟩ := by
  rw [breakLine, hsplit]
  rfl

theorem breakLine_place {last : Nat} (hsplit : s.split = none)
    (hprevious : s.previous.any isBlank = false) :
    breakLine .quoted step s last c = s.makeBreak step ⟨s.place last, true⟩ := by
  rw [breakLine, hsplit, hprevious]
  simp only [bne_self_eq_false, Bool.false_eq_true, if_false]
  rfl

/-! ## Breaks between parts -/

/-- The breaks found in a text, and the space noted for the next one, all before an offset.  The line
that the last break begins has the least width at least. -/
structure Kept (parts : List (List Char)) (bound : Nat) (s : FoldScan) : Prop where
  breaks : AtParts 1 s.breaks.reverse parts
  far : 21 ≤ s.limit
  limit : ∀ b ∈ s.breaks, b.offset + 21 ≤ s.limit
  passed : ∀ b ∈ s.breaks, b.offset < bound
  split : ∀ o ∈ s.split, o < bound ∧ (∀ b ∈ s.breaks, b.offset < o) ∧
    AtParts 1 (s.breaks.reverse ++ [⟨o, false⟩]) parts

/-- A place where a part can be broken off behind the breaks that were made. -/
structure IsPlace (parts : List (List Char)) (s : FoldScan) (place : Nat) : Prop where
  below : place < s.offset
  above : s.offset ≤ place + 5
  front : ∃ front part back, parts = front ++ part :: back ∧ StartsSolid back.flatten ∧
    InLast (1 + Text.widthOf front.flatten) place part

variable {parts front back : List (List Char)} {bound length : Nat}

theorem Kept.mono {bound' : Nat} (h : Kept parts bound s) (hle : bound ≤ bound') :
    Kept parts bound' s where
  breaks := h.breaks
  far := h.far
  limit := h.limit
  passed b hb := Nat.lt_of_lt_of_le (h.passed b hb) hle
  split o ho := ⟨Nat.lt_of_lt_of_le (h.split o ho).1 hle, (h.split o ho).2⟩

theorem Kept.makeBreak {b : Break} (h : Kept parts bound s) (hstep : 21 ≤ step) (hb : b.offset < bound)
    (hlt : ∀ a ∈ s.breaks, a.offset < b.offset)
    (hbreaks : AtParts 1 (s.breaks.reverse ++ [b]) parts) : Kept parts bound (s.makeBreak step b) where
  breaks := by simpa [FoldScan.makeBreak] using hbreaks
  far := Nat.le_add_left_of_le hstep
  limit := by
    rintro a (_ | ⟨_, ha⟩)
    · exact Nat.add_le_add_left hstep _
    · exact Nat.add_le_add (Nat.le_of_lt (hlt a ha)) hstep
  passed := by
    rintro a (_ | ⟨_, ha⟩)
    · exact hb
    · exact h.passed a ha
  split := by simp [FoldScan.makeBreak]

/-- A line that is too long is broken at its last space, or before one of the last parts. -/
theorem Kept.breakLong (h : Kept parts bound s) (length : Nat) (c : Char) (hstep : 21 ≤ step)
    (hbound : s.offset ≤ bound) (hlength : length + Text.width c ≤ 4)
    (hplace : ∀ last, s.limit ≤ last → s.offset + length ≤ last →
      last < s.offset + length + Text.width c → s.split = none →
        s.previous.any isBlank = false ∧ IsPlace parts s (s.place last)) :
    ∃ limit split breaks, s.breakLong step length c = { s with limit, split, breaks } ∧
      Kept parts bound { s with limit, split, breaks } ∧
        ∀ o ∈ s.split, split = some o ∨ limit = o + step := by
  have hwidth := Text.width_pos c
  rw [FoldScan.breakLong]
  generalize hlast : (if s.limit ≤ s.offset then s.offset + length
    else s.offset + length + Text.width c - 1) = last
  have hbounds : s.offset + length ≤ last ∧ last < s.offset + length + Text.width c := by
    split at hlast <;> omega
  split
  next hlimit =>
    cases hsplit : s.split with
    | some o =>
      obtain ⟨ho, hlt, hbreaks⟩ := h.split o hsplit
      rw [breakLine_split hsplit]
      refine ⟨_, _, _, rfl, h.makeBreak hstep ho hlt hbreaks, ?_⟩
      rintro _ ⟨⟩
      exact .inr rfl
    | none =>
      obtain ⟨hprevious, hbelow, habove, front, part, back, hparts, hnext, hin⟩ :=
        hplace last hlimit hbounds.1 hbounds.2 hsplit
      have hlow {b : Break} (hb : b ∈ s.breaks) : b.offset + 2 ≤ s.place last := by
        have := h.limit b hb
        omega
      rw [breakLine_place hsplit hprevious]
      refine ⟨_, _, _, rfl, h.makeBreak (b := ⟨s.place last, true⟩) hstep ?_ ?_ ?_, by simp⟩
      · exact Nat.lt_of_lt_of_le hbelow hbound
      · exact fun b hb => Nat.lt_of_add_right_lt (Nat.lt_of_lt_of_le (Nat.lt_succ_self _) (hlow hb))
      · exact h.breaks.concat_splice hparts hnext hin fun b hb => hlow (List.mem_reverse.mp hb)
  next => exact ⟨s.limit, s.split, s.breaks, rfl, h, fun o ho => .inl ho⟩

/-- The last part before the offset is a character that is no white space, or the last escape. -/
inductive EndsSolid (s : FoldScan) : List (List Char) → Prop
  | char {front : List (List Char)} {c : Char} (hc : isGap c = false)
    (hescape : ∀ e ∈ s.escape, e.2 < 1 + Text.widthOf front.flatten) : EndsSolid s (front ++ [[c]])
  | escape {front : List (List Char)} {body : List Char} (hlength : body.length ≤ 3)
    (hwidth : Text.widthOf body = body.length)
    (hescape : s.escape = some (1 + Text.widthOf front.flatten,
      1 + Text.widthOf front.flatten + body.length)) : EndsSolid s (front ++ ['\\' :: body])

/-- The search at the end of some parts, before others. -/
structure Located (front back : List (List Char)) (s : FoldScan) : Prop where
  ne_nil : ∀ part ∈ front, part ≠ []
  offset : s.offset = 1 + Text.widthOf front.flatten
  skip : s.skip = 0
  seeking : s.seeking = false
  kept : Kept (front ++ back) s.offset s
  escape : ∀ e ∈ s.escape, e.2 < s.offset
  previous : (∃ c ∈ s.previous, isGap c = false) ∨ StartsSolid back.flatten
  /-- There is room behind a space or a line break: the space is noted, or the line was just broken. -/
  near : s.limit ≤ s.offset + 3 → s.split = none →
    s.previous.any isBlank = false ∧ EndsSolid s front

theorem inLast_end {part : List Char} (hpart : part ≠ []) (offset : Nat) :
    InLast offset (offset + Text.widthOf part - 1) part := by
  obtain ⟨chars, c, rfl⟩ := List.eq_nil_or_concat' part |>.resolve_left hpart
  have := Text.width_pos c
  refine ⟨chars, c, rfl, ?_, ?_⟩ <;> simp only [Text.widthOf_append, Text.widthOf] <;> omega

/-- The end of some parts is a place for a break. -/
theorem isPlace_end (hne : ∀ part ∈ front, part ≠ []) (hfront : 0 < Text.widthOf front.flatten)
    (hback : StartsSolid back.flatten) (hle : 1 + Text.widthOf front.flatten ≤ s.offset)
    (hnear : s.offset ≤ Text.widthOf front.flatten + 5) :
    IsPlace (front ++ back) s (Text.widthOf front.flatten) := by
  obtain ⟨front, part, rfl⟩ := List.eq_nil_or_concat' front |>.resolve_left (by
    rintro rfl
    exact absurd hfront (by decide))
  refine ⟨by omega, hnear, front, part, back, by simp, hback, ?_⟩
  have hend := inLast_end (hne part (by simp)) (1 + Text.widthOf front.flatten)
  simpa [Nat.add_assoc, Nat.add_sub_cancel_left] using hend

/-- At a character behind solid parts the line is broken before or after the last one of them. -/
theorem EndsSolid.isPlace (h : EndsSolid s front) (hne : ∀ part ∈ front, part ≠ [])
    (hoffset : s.offset = 1 + Text.widthOf front.flatten) (hfar : 6 ≤ s.offset)
    (hback : StartsSolid back.flatten) {last : Nat} (hle : s.offset ≤ last)
    (hlast : last ≤ s.offset + 1) : IsPlace (front ++ back) s (s.place last) := by
  have hafter := isPlace_end hne (by omega) hback (Nat.le_of_eq hoffset.symm) (by omega)
  cases h with
  | @char front c hc hescape =>
    have hwidth : Text.widthOf (front ++ [[c]]).flatten =
        Text.widthOf front.flatten + Text.width c := by
      simp [Text.widthOf]
    rw [hwidth] at hoffset
    have hpos := Text.width_pos c
    have htwo := Text.width_le_two c
    have hplace : s.place last = last - 2 := by
      rw [FoldScan.place]
      split
      next first stop hsome =>
        have : stop < 1 + Text.widthOf front.flatten := hescape _ hsome
        rw [if_neg (by omega)]
      next => rfl
    rw [hplace]
    by_cases hwide : 1 + Text.widthOf front.flatten ≤ last - 2
    · refine ⟨by omega, by omega, front, [c], back, by simp, hback, [], c, rfl, hwide, ?_⟩
      simp only [Text.widthOf]
      omega
    · obtain rfl : last = Text.widthOf front.flatten + 2 := by omega
      rw [List.append_assoc]
      refine isPlace_end (List.forall_mem_append.mp hne).1 ?_ ⟨c, rfl, hc⟩ ?_ ?_ <;> omega
  | @escape front body hlength hbody hescape =>
    have hwidth : Text.widthOf (front ++ ['\\' :: body]).flatten =
        Text.widthOf front.flatten + 1 + body.length := by
      have hslash : Text.width '\\' = 1 := rfl
      simp [Text.widthOf, hbody, hslash, Nat.add_assoc]
    rw [hwidth] at hoffset hafter
    rw [FoldScan.place, hescape]
    dsimp only
    split
    next =>
      rw [Nat.add_sub_cancel_left, List.append_assoc]
      refine isPlace_end (List.forall_mem_append.mp hne).1 ?_ ⟨'\\', rfl, rfl⟩ ?_ ?_ <;> omega
    next hlt =>
      obtain rfl : last = Text.widthOf front.flatten + 1 + body.length + 2 := by omega
      exact hafter

/-- An escape that does not fit is broken off what stands before it. -/
theorem isPlace_escape (hne : ∀ part ∈ front, part ≠ [])
    (hoffset : s.offset = 1 + Text.widthOf front.flatten) (hfar : 6 ≤ s.offset)
    (hback : StartsSolid back.flatten) (length : Nat) :
    IsPlace (front ++ back) (s.noteEscape length)
      ((s.noteEscape length).place (s.offset + length)) := by
  have hplace : (s.noteEscape length).place (s.offset + length) = Text.widthOf front.flatten := by
    simp only [FoldScan.place, FoldScan.noteEscape]
    rw [if_pos (by omega)]
    omega
  rw [hplace]
  have hsame : (s.noteEscape length).offset = s.offset := rfl
  refine isPlace_end hne ?_ hback ?_ ?_ <;> omega

/-! ## One part -/

theorem Kept.of_eq {s' : FoldScan} (h : Kept parts bound s) (hbreaks : s'.breaks = s.breaks)
    (hlimit : s'.limit = s.limit) (hsplit : s'.split = s.split) : Kept parts bound s' := by
  obtain ⟨offset, limit, split, previous, skip, noteSkipped, seeking, escape, overflow, breaks⟩ := s'
  subst hbreaks hlimit hsplit
  exact ⟨h.breaks, h.far, h.limit, h.passed, h.split⟩

/-- The search is behind a part if its offset and its breaks are. -/
theorem Located.pass {part : List Char} {s' : FoldScan} (h : Located front (part :: back) s)
    (hpart : part ≠ []) (hoffset : s'.offset = s.offset + Text.widthOf part) (hskip : s'.skip = 0)
    (hseeking : s'.seeking = false) (hkept : Kept (front ++ part :: back) s'.offset s')
    (hescape : ∀ e ∈ s'.escape, e.2 < s'.offset)
    (hprevious : (∃ c ∈ s'.previous, isGap c = false) ∨ StartsSolid back.flatten)
    (hnear : s'.limit ≤ s'.offset + 3 → s'.split = none →
      s'.previous.any isBlank = false ∧ EndsSolid s' (front ++ [part])) :
    Located (front ++ [part]) back s' where
  ne_nil := by simpa [or_imp, forall_and, hpart] using h.ne_nil
  offset := by simp [hoffset, h.offset, Nat.add_assoc]
  skip := hskip
  seeking := hseeking
  kept := by
    rw [List.append_assoc]
    exact hkept
  escape := hescape
  previous := hprevious
  near := hnear

theorem Located.char (h : Located front ([c] :: back) s) (hc : isGap c = false) (hslash : c ≠ '\\')
    (hstep : 21 ≤ step) :
    Located (front ++ [[c]]) back (next .quoted n step s c back.flatten) := by
  have hpos := Text.width_pos c
  have htwo := Text.width_le_two c
  have hoffset := h.offset
  have hnot : c ≠ ' ' ∧ c ≠ '\n' := by
    constructor <;> rintro rfl <;> exact absurd hc (by decide)
  have hsplit : s.noteSplit c back.flatten = s := by
    simp [FoldScan.noteSplit, hnot.1]
  have hkept := h.kept.mono (Nat.le_add_right s.offset (Text.width c))
  obtain ⟨limit, split, breaks, heq, hkept, -⟩ := hkept.breakLong 0 c hstep
    (Nat.le_add_right _ _) (by omega) fun last hlimit hle hlt hsplit => by
      obtain ⟨hprevious, hend⟩ := h.near (by omega) hsplit
      have hfar := h.kept.far
      exact ⟨hprevious, hend.isPlace h.ne_nil hoffset (by omega) ⟨c, rfl, hc⟩ hle (by omega)⟩
  rw [next_quoted _ h.skip h.seeking hnot.2 hslash, hsplit, heq]
  refine h.pass (by simp) rfl h.skip h.seeking (hkept.of_eq rfl rfl rfl) (fun e he => ?_)
    (.inl ⟨c, rfl, hc⟩) fun _ _ => ⟨?_, .char hc ?_⟩
  · exact Nat.lt_add_right _ (h.escape e he)
  · simp only [isGap, Bool.or_eq_false_iff] at hc
    simp [isBlank, hc]
  · rw [← hoffset]
    exact h.escape

theorem Located.space (h : Located front ([' '] :: back) s) (hback : StartsSolid back.flatten)
    (hstep : 21 ≤ step) :
    Located (front ++ [[' ']]) back (next .quoted n step s ' ' back.flatten) := by
  obtain ⟨a, hprevious, hgap⟩ := h.previous.resolve_right (not_startsSolid_cons rfl _)
  obtain ⟨b, hhead, hgap'⟩ := id hback
  have hsplit : s.noteSplit ' ' back.flatten = { s with split := some s.offset } := by
    rw [FoldScan.noteSplit, Option.mem_def.mp hprevious, Option.mem_def.mp hhead]
    simp [hgap, hgap']
  have hnoted : Kept (front ++ [' '] :: back) (s.offset + 1) { s with split := some s.offset } := by
    refine { h.kept.mono (Nat.le_succ _) with split := ?_ }
    rintro _ ⟨⟩
    refine ⟨Nat.lt_succ_self _, h.kept.passed, ?_⟩
    rw [h.offset]
    refine h.kept.breaks.concat_space rfl hback fun b hb => ?_
    rw [← h.offset]
    exact h.kept.passed b (List.mem_reverse.mp hb)
  obtain ⟨limit, split, breaks, heq, hkept, hspace⟩ := hnoted.breakLong 0 ' ' hstep
    (Nat.le_succ _) (by decide) fun last _ _ _ hnone => by simp at hnone
  rw [next_quoted _ h.skip h.seeking (by decide) (by decide), hsplit, heq]
  refine h.pass (by simp) rfl h.skip h.seeking (hkept.of_eq rfl rfl rfl) (fun e he => ?_) (.inr hback)
    fun hlimit hnone => ?_
  · exact Nat.lt_add_right _ (h.escape e he)
  · obtain hsome | hlimit' := hspace s.offset rfl
    · rw [hsome] at hnone
      simp at hnone
    · simp only [hlimit'] at hlimit
      have hwidth : Text.width ' ' = 1 := rfl
      omega

/-- The characters behind a backslash that belong to its escape are passed over. -/
theorem run_skip {mode : FoldMode} (rest : List Char) {body : List Char}
    (hbody : ∀ c ∈ body, Text.width c = 1) {s : FoldScan} (hskip : s.skip = body.length)
    (hnote : s.noteSkipped = false) :
    run mode n step s (body ++ rest) =
      run mode n step { s with skip := 0, offset := s.offset + body.length } rest := by
  induction body generalizing s with
  | nil =>
    obtain ⟨offset, limit, split, previous, skip, noteSkipped, seeking, escape, overflow, breaks⟩ := s
    obtain rfl : skip = 0 := hskip
    rfl
  | cons c body ih =>
    simp only [List.mem_cons, forall_eq_or_imp] at hbody
    rw [List.length_cons] at hskip
    have hnext : next mode n step s c (body ++ rest) =
        { s with skip := s.skip - 1, offset := s.offset + 1 } := by
      rw [next, if_pos (by simp [hskip]), hnote, hbody.1]
      simp
    have hrest := ih hbody.2 (s := { s with skip := s.skip - 1, offset := s.offset + 1 })
      (by simp [hskip]) hnote
    rw [List.cons_append, run, hnext, hrest, List.length_cons, Nat.add_assoc, Nat.add_comm 1]

theorem Located.escape_part {body : List Char} (h : Located front (('\\' :: body) :: back) s)
    (hlength : escapeLength (body ++ back.flatten) = body.length) (hle : body.length ≤ 3)
    (hwidth : ∀ c ∈ body, Text.width c = 1) (hstep : 21 ≤ step) :
    ∃ s', run .quoted n step s ('\\' :: body ++ back.flatten) = run .quoted n step s' back.flatten ∧
      Located (front ++ ['\\' :: body]) back s' := by
  have hoffset := h.offset
  have hslash : Text.width '\\' = 1 := rfl
  have hbody := Text.widthOf_eq_length hwidth
  have hnoted : Kept (front ++ ('\\' :: body) :: back) (s.offset + (1 + body.length))
      (s.noteEscape body.length) :=
    (h.kept.mono (Nat.le_add_right _ _)).of_eq rfl rfl rfl
  obtain ⟨limit, split, breaks, heq, hkept, -⟩ := hnoted.breakLong body.length '\\' hstep
    (Nat.le_add_right _ _) (by omega) fun last hlimit hle hlt hsplit => by
      have hfar := h.kept.far
      have hlast : last = s.offset + body.length := by
        simp only [FoldScan.noteEscape] at hle hlt
        omega
      simp only [FoldScan.noteEscape] at hlimit
      obtain ⟨hprevious, -⟩ := h.near (by omega) hsplit
      rw [hlast]
      exact ⟨hprevious, isPlace_escape h.ne_nil hoffset (by omega) ⟨'\\', rfl, rfl⟩ _⟩
  have hrun : run .quoted n step s ('\\' :: body ++ back.flatten) =
      run .quoted n step { (s.noteEscape body.length) with
        limit, split, breaks, skip := 0, offset := s.offset + (1 + body.length), previous := some '\\' }
        back.flatten := by
    rw [List.cons_append, run, next_slash _ h.skip h.seeking, hlength, heq, run_skip _ hwidth rfl rfl]
    simp [Nat.add_assoc]
  refine ⟨_, hrun, h.pass (by simp) ?_ rfl h.seeking (hkept.of_eq rfl rfl rfl) ?_
    (.inl ⟨'\\', rfl, rfl⟩) fun _ _ => ⟨rfl, ?_⟩⟩
  · simp [Text.widthOf, hbody, hslash]
  · rintro e ⟨⟩
    show s.offset + body.length < s.offset + (1 + body.length)
    omega
  · refine .escape hle hbody ?_
    rw [← hoffset]
    rfl

/-- Begins a line after some line feeds and one more. -/
def FoldScan.startLine (n step : Nat) (s : FoldScan) (feeds : Nat) : FoldScan :=
  { s with
    limit := s.offset + feeds + n + step, split := none, noteSkipped := false,
    offset := s.offset + (feeds + 1), previous := some '\n' }

theorem next_feed (rest : List Char) (hskip : s.skip = 0) (hseeking : s.seeking = false) :
    next .quoted n step s '\n' rest = s.startLine n step 0 := by
  obtain ⟨offset, limit, split, previous, skip, noteSkipped, seeking, escape, overflow, breaks⟩ := s
  obtain rfl : skip = 0 := hskip
  obtain rfl : seeking = false := hseeking
  rw [next, if_neg (by simp), if_neg (by simp), if_pos (by simp)]
  rfl

theorem run_feeds (k : Nat) (rest : List Char) {s : FoldScan} (hskip : s.skip = 0)
    (hseeking : s.seeking = false) :
    run .quoted n step s (List.replicate (k + 1) '\n' ++ rest) =
      run .quoted n step (s.startLine n step k) rest := by
  induction k generalizing s with
  | zero => rw [List.replicate_one, List.singleton_append, run, next_feed _ hskip hseeking]
  | succ k ih =>
    have hnext := ih (s := s.startLine n step 0) hskip hseeking
    rw [List.replicate_succ, List.cons_append, run, next_feed _ hskip hseeking, hnext]
    simp only [FoldScan.startLine, Nat.add_zero, Nat.add_assoc, Nat.add_comm 1]

/-- Indentation changes nothing. -/
theorem run_spaces (n step k : Nat) (rest : List Char) {s : FoldScan} (hskip : s.skip = 0)
    (hseeking : s.seeking = false) (hprevious : ∃ c ∈ s.previous, isGap c = true)
    (hlimit : s.offset + k ≤ s.limit) :
    ∃ c, run .quoted n step s (List.replicate k ' ' ++ rest) =
      run .quoted n step { s with offset := s.offset + k, previous := some c } rest := by
  obtain ⟨a, hsome, hgap⟩ := hprevious
  induction k generalizing s a with
  | zero => exact ⟨a, by rw [← Option.mem_def.mp hsome]; rfl⟩
  | succ k ih =>
    have hsplit : s.noteSplit ' ' (List.replicate k ' ' ++ rest) = s := by
      simp [FoldScan.noteSplit, Option.mem_def.mp hsome, hgap]
    have hwidth : Text.width ' ' = 1 := rfl
    have hlong : s.breakLong step 0 ' ' = s := by
      have hfits : ¬ s.limit ≤ s.offset := by omega
      simp [FoldScan.breakLong, hwidth, hfits]
    have hmoved : s.offset + 1 + k ≤ s.limit := by omega
    obtain ⟨c, hrest⟩ := ih (s := { s with offset := s.offset + 1, previous := some ' ' }) hskip
      hseeking hmoved ' ' rfl rfl
    refine ⟨c, ?_⟩
    rw [List.replicate_succ, List.cons_append, run,
      next_quoted _ hskip hseeking (by decide) (by decide), hsplit, hlong, hwidth, hrest, Nat.add_assoc,
      Nat.add_comm 1]

theorem Located.feeds (k : Nat)
    (h : Located front ((List.replicate (k + 1) '\n' ++ breakTo n) :: back) s)
    (hback : StartsSolid back.flatten) (hstep : 21 ≤ step) :
    ∃ s', run .quoted n step s (List.replicate (k + 1) '\n' ++ breakTo n ++ back.flatten) =
        run .quoted n step s' back.flatten ∧
      Located (front ++ [List.replicate (k + 1) '\n' ++ breakTo n]) back s' := by
  have hoffset := h.offset
  have hindented : (s.startLine n step (k + 1)).offset + n ≤ (s.startLine n step (k + 1)).limit := by
    simp only [FoldScan.startLine]
    omega
  obtain ⟨c, hrun⟩ := run_spaces n step n back.flatten (s := s.startLine n step (k + 1))
    h.skip h.seeking ⟨'\n', rfl, rfl⟩ hindented
  rw [feeds_breakTo, run_feeds (k + 1) _ h.skip h.seeking, hrun]
  refine ⟨_, rfl, ?_⟩
  have hle : s.offset ≤ s.offset + (k + 1 + 1) + n := by omega
  refine h.pass (by simp) ?_ h.skip h.seeking ⟨h.kept.breaks, ?_, fun b hb => ?_, fun b hb => ?_, ?_⟩
    (fun e he => ?_) (.inr hback) fun hlimit _ => ?_
  · have hwidth : Text.widthOf (List.replicate (k + 1) '\n' ++ breakTo n) = k + 1 + 1 + n := by
      rw [Text.widthOf_eq_length]
      · simp [breakTo]
        omega
      · simp [breakTo, or_imp, forall_and, Text.width]
    simp [FoldScan.startLine, hwidth, Nat.add_assoc]
  · simp only [FoldScan.startLine]
    omega
  · have := h.kept.passed b hb
    simp only [FoldScan.startLine]
    omega
  · exact Nat.lt_of_lt_of_le (h.kept.passed b hb) hle
  · simp [FoldScan.startLine]
  · exact Nat.lt_of_lt_of_le (h.escape e he) hle
  · simp only [FoldScan.startLine] at hlimit
    omega

theorem escapeLength_letter {e : Char} (he : escaped? e = some c) (rest : List Char) :
    escapeLength (e :: rest) = 1 ∧ Text.width e = 1 := by
  unfold escaped? at he
  split at he
  all_goals first | exact ⟨rfl, rfl⟩ | exact absurd he (by simp)

/-- The search goes on behind a part. -/
theorem Located.part {text part : List Char} (h : Located front (part :: back) s)
    (hpart : IsPart n text part) (hsolid : StartsSolid part ∨ StartsSolid back.flatten)
    (hstep : 21 ≤ step) :
    ∃ s', run .quoted n step s (part ++ back.flatten) = run .quoted n step s' back.flatten ∧
      Located (front ++ [part]) back s' := by
  cases hpart with
  | piece hc hstart =>
    cases hc with
    | plain hquote hslash hline hreturn =>
      exact ⟨_, rfl, h.char (hstart.head? _ rfl) hslash hstep⟩
    | letter he =>
      obtain ⟨hlength, hwidth⟩ := escapeLength_letter he back.flatten
      exact h.escape_part hlength (by simp) (by simpa using hwidth) hstep
    | @code a b ha hb hcode =>
      have hdigit {d : Nat} (hd : d < 16) : Text.width d.digitChar = 1 := by
        have key : ∀ d : Fin 16, Text.width d.val.digitChar = 1 := by decide
        exact key ⟨d, hd⟩
      have hx : Text.width 'x' = 1 := rfl
      exact h.escape_part rfl (by simp) (by simp [hx, hdigit ha, hdigit hb]) hstep
  | space => exact ⟨_, rfl, h.space (hsolid.resolve_left (not_startsSolid_cons rfl [])) hstep⟩
  | feeds k => exact h.feeds k (hsolid.resolve_left (not_startsSolid_cons rfl _)) hstep

/-! ## The whole text -/

/-- The search goes through all parts. -/
theorem Located.run {cs : List Char} (hparts : Parts n cs parts) (hstep : 21 ≤ step) :
    ∀ {front : List (List Char)} {s : FoldScan}, Located front parts s →
      Located (front ++ parts) [] (run .quoted n step s parts.flatten) := by
  induction hparts with
  | close =>
    intro front s h
    exact h.char rfl (by decide) hstep
  | cons hpart hsolid hparts ih =>
    intro front s h
    obtain ⟨s', hrun, hlocated⟩ := h.part hpart hsolid hstep
    rw [List.flatten_cons, hrun]
    simpa using ih hlocated

/-- The search behind the opening quote. -/
theorem located_quote (n step : Nat) {limit : Nat} (hlimit : 21 ≤ limit) (parts : List (List Char)) :
    Located [] parts (next .quoted n step { limit } '"' parts.flatten) := by
  have hlong : FoldScan.breakLong step 0 { limit } '"' = { limit } := by
    have hwidth : Text.width '"' = 1 := rfl
    have hfits : ¬ limit ≤ 0 := by omega
    simp [FoldScan.breakLong, hwidth, hfits]
  have hsplit : FoldScan.noteSplit { limit } '"' parts.flatten = { limit } := rfl
  rw [next_quoted _ rfl rfl (by decide) (by decide), hsplit, hlong]
  refine ⟨by simp, rfl, rfl, rfl, ?_, by simp, .inl ⟨'"', rfl, rfl⟩, fun hnear _ => ?_⟩
  · exact ⟨.unbroken _ _, hlimit, by simp, by simp, by simp⟩
  · have hwidth : Text.width '"' = 1 := rfl
    simp only [hwidth] at hnear
    omega

/-- In double quotes lines are broken between parts. -/
theorem fold_quoted {column : Nat} {cs : List Char} (hcolumn : column + minContentWidth < lineWidth)
    (hparts : Parts n cs parts) :
    ∃ breaks, AtParts 1 breaks parts ∧ (fold .quoted n column ('"' :: parts.flatten)).1 =
      '"' :: applyBreaks n 1 breaks parts.flatten := by
  rw [fold]
  dsimp only
  split
  · exact ⟨[], .unbroken _ _, by rw [applyBreaks]⟩
  · have hlimit : 21 ≤ lineWidth - column := by
      simp only [minContentWidth, lineWidth] at hcolumn ⊢
      omega
    generalize hstep : max (1 + minContentWidth) (1 + lineWidth - n) = step
    have hstep' : 21 ≤ step := hstep ▸ Nat.le_max_left _ _
    have hbreaks := ((located_quote n step hlimit parts).run hparts hstep').kept.breaks
    rw [List.nil_append, List.append_nil] at hbreaks
    exact ⟨_, hbreaks, applyBreaks_line ['"'] _ hbreaks.head?_le⟩

variable {slot : Slot} {cs : List Char}

/-- In double quotes a singly spaced text is written as it is read, on one line or more. -/
theorem quoted_doubleQuoted (hkey : slot.isKey = false)
    (hcolumn : slot.column + minContentWidth < lineWidth) (h : IsSinglySpaced cs) :
    ∃ out, ScalarText.doubleQuoted slot cs = '"' :: out ++ ['"'] ∧ Quoted slot.indent cs out := by
  unfold ScalarText.doubleQuoted
  generalize Text.widthOf (Json.quote (.ofList cs)) = length
  obtain ⟨parts, hparts, hflat⟩ := parts_doubleQuotedChars
    (!slot.isKey && ScalarText.minBrokenLength ≤ length) slot.indent cs h
  obtain ⟨breaks, hbreaks, hfold⟩ := fold_quoted hcolumn hparts
  obtain ⟨out, hout, hquoted, -⟩ := hparts.quoted hbreaks
  rw [if_neg (by simp [hkey]), List.cons_append, ← hflat, hfold, hout]
  exact ⟨out, rfl, hquoted⟩

end BuildMatrix.Yaml
