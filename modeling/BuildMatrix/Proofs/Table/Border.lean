import BuildMatrix.Proofs.Table.Bands

/-!
# Lines in a box

Lines stand in a box if they are filled up to the room in it, with a round border and blanks around
them (`boxed`); taking border and blanks off gives them back (`unboxed_boxed`).  When every band of
a frame draws a line, the bands are stacked one row each (`filter_stack`), nothing is laid over the
border (`filter_framed`), and what is seen of the frame is the box of these lines (`map_seenRow`).
-/

namespace BuildMatrix.Table

open Terminal

/-! ## The box -/

/-- The upper or lower edge of a box with some room inside. -/
def edge (room : Nat) (left right : Char) : List Char :=
  left :: List.replicate (room + 4) '─' ++ [right]

theorem forall_mem_edge {P : Char → Prop} {left right : Char} (hleft : P left) (hmiddle : P '─')
    (hright : P right) (room : Nat) : ∀ c ∈ edge room left right, P c := by
  refine List.forall_mem_append.mpr ⟨List.forall_mem_cons.mpr ⟨hleft, fun c hc => ?_⟩, ?_⟩
  · rw [List.eq_of_mem_replicate hc]
    exact hmiddle
  · exact List.forall_mem_singleton.mpr hright

/-- A line between the sides of a box. -/
def side (room : Nat) (line : List Char) : List Char :=
  ['│', ' ', ' '] ++ (line.rightpad room ' ' ++ [' ', ' ', '│'])

/-- Lines in a box with a round border and, on its inside, two blank columns and one blank row. -/
def boxed (room : Nat) (lines : List String) : List String :=
  (edge room '╭' '╮' :: side room [] :: lines.map (side room ·.toList) ++
    [side room [], edge room '╰' '╯']).map String.ofList

/-- A list without so many elements at either end. -/
def peel {α : Type} (k : Nat) (xs : List α) : List α := (xs.drop k).take (xs.length - 2 * k)

/-- What is in a box, without border and blanks around, and without blanks at the end of a line. -/
def unboxed (lines : List String) : List String :=
  (peel 2 lines).map fun line => Text.trimEnd (.ofList (peel 3 line.toList))

theorem peel_append {α : Type} {k : Nat} {front middle back : List α} (hfront : front.length = k)
    (hback : back.length = k) : peel k (front ++ (middle ++ back)) = middle := by
  have hlength : (front ++ (middle ++ back)).length - 2 * k = middle.length := by
    simp only [List.length_append]
    omega
  rw [peel, hlength, ← hfront, List.drop_left, List.take_left]

theorem peel_side (room : Nat) (line : List Char) :
    peel 3 (side room line) = line.rightpad room ' ' :=
  peel_append rfl rfl

/-- Lines that do not end in blanks come out of the box as they went in. -/
theorem unboxed_boxed {lines : List String} (room : Nat)
    (h : ∀ line ∈ lines, ∀ c ∈ line.toList.getLast?, Text.isBlank c = false) :
    unboxed (boxed room lines) = lines := by
  have hrows : peel 2 (boxed room lines) =
      lines.map fun line => String.ofList (side room line.toList) := by
    rw [boxed, List.map_append, List.map_cons, List.map_cons, List.map_map]
    show peel 2 ([_, _] ++ (_ ++ _)) = _
    exact peel_append rfl rfl
  rw [unboxed, hrows, List.map_map]
  refine (List.map_congr_left fun line hline => ?_).trans (List.map_id lines)
  have hspaces : ∀ c ∈ List.replicate (room - line.toList.length) ' ', Text.isBlank c = true := by
    intro c hc
    rw [List.eq_of_mem_replicate hc]
    decide
  rw [Function.comp_apply, String.toList_ofList, peel_side, Text.trimEnd,
    String.toList_ofList, List.rightpad, Text.dropBlanksEnd_append_blanks hspaces,
    Text.dropBlanksEnd_eq_self (h line hline), String.ofList_toList, id]

/-! ## The bands inside -/

section Stack

variable {room : Nat} {bands : List Band} {lines : List String}

theorem totalExtent_heights (h : List.Forall₂ (Band.Draws room) bands lines) :
    totalExtent (bands.map Band.height) = lines.length := by
  induction h with
  | nil => rfl
  | cons hband _ ih =>
    rw [List.map_cons, totalExtent, hband.height, ih, List.length_cons, Nat.add_comm]

/-- The bands take the rows from the first on, one each. -/
theorem mem_stack (h : List.Forall₂ (Band.Draws room) bands lines) {x start : Nat} {item : Item}
    (hitem : item ∈ stack x start bands) :
    start ≤ item.y ∧ item.y < start + lines.length ∧ AreSimple item.text := by
  induction h generalizing start with
  | nil => exact absurd hitem List.not_mem_nil
  | cons hband _ ih =>
    rw [List.length_cons]
    rcases List.mem_append.mp hitem with hitem | hitem
    · obtain ⟨hy, hsimple⟩ := hband.mem_items x start item hitem
      exact ⟨hy.ge, by omega, hsimple⟩
    · rw [hband.height] at hitem
      obtain ⟨hlower, hupper, hsimple⟩ := ih hitem
      exact ⟨by omega, by omega, hsimple⟩

/-- In each row there is the band that draws its line. -/
theorem filter_stack (h : List.Forall₂ (Band.Draws room) bands lines) (x start : Nat) {k : Nat}
    (hk : k < lines.length) :
    ∃ band, Band.Draws room band lines[k] ∧
      (stack x start bands).filter (·.y == start + k) = band.items x (start + k) := by
  induction h generalizing start k with
  | nil => exact absurd hk (Nat.not_lt_zero k)
  | @cons band line bands lines hband hbands ih =>
    rw [stack, List.filter_append, hband.height]
    cases k with
    | zero =>
      have hhere : (band.items x start).filter (·.y == start) = band.items x start :=
        List.filter_eq_self.mpr fun item hitem =>
          beq_iff_eq.mpr (hband.mem_items x start item hitem).1
      have hbelow : (stack x (start + 1) bands).filter (·.y == start) = [] := by
        refine List.filter_eq_nil_iff.mpr fun item hitem heq => ?_
        have hlower := (mem_stack hbands hitem).1
        rw [beq_iff_eq] at heq
        omega
      refine ⟨band, hband, ?_⟩
      rw [Nat.add_zero, hhere, hbelow, List.append_nil]
    | succ k =>
      have habove : (band.items x start).filter (·.y == start + (k + 1)) = [] := by
        refine List.filter_eq_nil_iff.mpr fun item hitem heq => ?_
        have hy := (hband.mem_items x start item hitem).1
        rw [beq_iff_eq] at heq
        omega
      obtain ⟨next, hnext, hitems⟩ := ih (start + 1) (Nat.lt_of_succ_lt_succ hk)
      refine ⟨next, hnext, ?_⟩
      rw [habove, List.nil_append, show start + (k + 1) = start + 1 + k by omega]
      exact hitems

theorem filter_stack_outside (h : List.Forall₂ (Band.Draws room) bands lines) {x start y : Nat}
    (hy : ¬ (start ≤ y ∧ y < start + lines.length)) :
    (stack x start bands).filter (·.y == y) = [] := by
  refine List.filter_eq_nil_iff.mpr fun item hitem heq => hy ?_
  obtain ⟨hlower, hupper, -⟩ := mem_stack h hitem
  rw [← beq_iff_eq.mp heq]
  exact ⟨hlower, hupper⟩

end Stack

/-! ## The border around -/

/-- One side of a border has one item in each row between the edges. -/
theorem filter_sides {item : Nat → Item} (hitem : ∀ y, (item y).y = y) (count y : Nat) :
    (((List.range count).map (· + 1)).map item).filter (·.y == y) =
      if 0 < y ∧ y ≤ count then [item y] else [] := by
  have hrows : (List.range count).map (· + 1) = List.range' 1 count := by
    rw [List.range'_eq_map_range]
    exact List.map_congr_left fun n _ => Nat.add_comm n 1
  have hy : ((fun i : Item => i.y == y) ∘ item) = (· == y) := by
    funext n
    rw [Function.comp_apply, hitem]
  rw [List.filter_map, hy, hrows, List.filter_beq, (List.nodup_range' 1).count]
  by_cases h : 0 < y ∧ y ≤ count
  · rw [if_pos h, if_pos (List.mem_range'_1.mpr (by omega))]
    rfl
  · rw [if_neg h, if_neg (fun hmem => h (by have := List.mem_range'_1.mp hmem; omega))]
    rfl

/-- In the first and in the last row of a border there is an edge, and in the others there are the
sides. -/
theorem filter_border (room count y : Nat) :
    (border (room + 6) (count + 4)).filter (·.y == y) =
      (if y = 0 then [⟨0, 0, .plain, edge room '╭' '╮'⟩] else []) ++
        (if 0 < y ∧ y ≤ count + 2 then
          [⟨0, y, .plain, ['│']⟩, ⟨room + 5, y, .plain, ['│']⟩] else []) ++
        (if y = count + 3 then [⟨0, count + 3, .plain, edge room '╰' '╯'⟩] else []) := by
  have hborder : border (room + 6) (count + 4) =
      [⟨0, 0, .plain, edge room '╭' '╮'⟩] ++
        ((List.range (count + 2)).map (· + 1)).map (⟨0, ·, .plain, ['│']⟩) ++
        ((List.range (count + 2)).map (· + 1)).map (⟨room + 5, ·, .plain, ['│']⟩) ++
        [⟨0, count + 3, .plain, edge room '╰' '╯'⟩] := rfl
  have hedge : ∀ item : Item,
      [item].filter (·.y == y) = if y = item.y then [item] else [] := by
    intro item
    by_cases h : item.y = y
    · rw [if_pos h.symm]
      exact List.filter_cons_of_pos (beq_iff_eq.mpr h)
    · rw [if_neg (Ne.symm h)]
      exact List.filter_cons_of_neg (fun heq => h (beq_iff_eq.mp heq))
  rw [hborder, List.filter_append, List.filter_append, List.filter_append, hedge, hedge,
    filter_sides fun _ => rfl, filter_sides fun _ => rfl]
  by_cases h : 0 < y ∧ y ≤ count + 2
  · rw [if_pos h, if_pos h, if_pos h, List.append_assoc _ [_] [_], List.singleton_append]
  · rw [if_neg h, if_neg h, if_neg h, List.append_nil, List.append_nil]

/-- Nothing in a border is wide. -/
theorem isDouble_of_mem_border (room count : Nat) :
    ∀ item ∈ border (room + 6) (count + 4), ∀ c ∈ item.text, isDouble c = false := by
  have hside : ∀ c ∈ ['│'], isDouble c = false := List.forall_mem_singleton.mpr (by decide)
  refine List.forall_mem_append.mpr ⟨List.forall_mem_append.mpr
    ⟨List.forall_mem_cons.mpr ⟨?_, ?_⟩, ?_⟩, List.forall_mem_singleton.mpr ?_⟩
  · exact forall_mem_edge (by decide) (by decide) (by decide) room
  · exact List.forall_mem_map.mpr fun _ _ => hside
  · exact List.forall_mem_map.mpr fun _ _ => hside
  · exact forall_mem_edge (by decide) (by decide) (by decide) room

/-- The sides of a border leave the room between them blank. -/
theorem layItems_sides (room y : Nat) :
    layItems [⟨0, y, .plain, ['│']⟩, ⟨room + 5, y, .plain, ['│']⟩]
        (List.replicate (room + 6) ' ') =
      ['│', ' ', ' '] ++ (List.replicate room ' ' ++ [' ', ' ', '│']) := by
  have hleft : layChars 0 ['│'] (List.replicate (room + 6) ' ') =
      '│' :: List.replicate (room + 4) ' ' ++ [' '] := by
    rw [List.cons_append, ← List.replicate_succ']
    show layChars 0 ['│'] ([] ++ ([' '] ++ _)) = [] ++ (['│'] ++ _)
    exact layChars_append rfl rfl
  have hright : layChars (room + 5) ['│'] ('│' :: List.replicate (room + 4) ' ' ++ [' ']) =
      '│' :: List.replicate (room + 4) ' ' ++ ['│'] := by
    show layChars (room + 5) ['│'] (_ ++ ([' '] ++ [])) = _ ++ (['│'] ++ [])
    refine layChars_append ?_ rfl
    rw [List.length_cons, List.length_replicate]
  show layChars (room + 5) ['│'] (layChars 0 ['│'] (List.replicate (room + 6) ' ')) = _
  rw [hleft, hright, show room + 4 = 2 + (room + 2) by omega, ← List.replicate_append_replicate,
    ← List.replicate_append_replicate]
  simp [List.replicate]

/-! ## The frame -/

section Frame

variable {room : Nat} {bands : List Band} {lines : List String}

/-- The items of a frame around bands. -/
def framed (room : Nat) (bands : List Band) : List Item :=
  border (room + 6) (totalExtent (bands.map Band.height) + 4) ++ stack 3 2 bands

/-- In a row of a frame there is what the border has there and what the bands have there. -/
theorem filter_framed (h : List.Forall₂ (Band.Draws room) bands lines) (y : Nat) :
    (framed room bands).filter (·.y == y) =
      (border (room + 6) (lines.length + 4)).filter (·.y == y) ++
        (stack 3 2 bands).filter (·.y == y) := by
  rw [framed, totalExtent_heights h, List.filter_append]

theorem isDouble_of_mem_framed (h : List.Forall₂ (Band.Draws room) bands lines) :
    ∀ item ∈ framed room bands, ∀ c ∈ item.text, isDouble c = false := by
  refine List.forall_mem_append.mpr ⟨isDouble_of_mem_border room _, fun item hitem c hc => ?_⟩
  exact ((mem_stack h hitem).2.2 c hc).isDouble

/-- What is seen of a row of a frame around bands. -/
def seenRow (room : Nat) (bands : List Band) (y : Nat) : String :=
  unstyled (.ofList (Text.dropBlanksEnd (rowChars (room + 6) (framed room bands) y)))

/-- A row with an edge is seen as that edge. -/
theorem seenRow_edge (h : List.Forall₂ (Band.Draws room) bands lines) {y : Nat} {left right : Char}
    (hitems : (framed room bands).filter (·.y == y) = [⟨0, y, .plain, edge room left right⟩])
    (hblank : Text.isBlank right = false) (hleft : '\x1b' ≠ left) (hright : '\x1b' ≠ right) :
    seenRow room bands y = .ofList (edge room left right) := by
  refine unstyled_row (isDouble_of_mem_framed h) ?_ hblank ?_
  · have hlength : (List.replicate (room + 6) ' ').length = (edge room left right).length := by
      simp [edge]
    have hlaid : layChars 0 (edge room left right) ([] ++ (List.replicate (room + 6) ' ' ++ [])) =
        [] ++ (edge room left right ++ []) := layChars_append rfl hlength
    rw [List.append_nil, List.append_nil] at hlaid
    rw [hitems]
    exact hlaid
  · exact fun hesc => forall_mem_edge hleft (by decide) hright room _ hesc rfl

/-- A row between the edges is seen as the line in it between the sides. -/
theorem seenRow_side (h : List.Forall₂ (Band.Draws room) bands lines) {y : Nat} (hy : 0 < y)
    (hend : y ≤ lines.length + 2) {line : List Char} (hsimple : AreSimple line)
    (hline : ∀ {front : List Char}, front.length = 3 → ∀ back,
      layItems ((stack 3 2 bands).filter (·.y == y))
          (front ++ (List.replicate room ' ' ++ back)) =
        front ++ (line.rightpad room ' ' ++ back)) :
    seenRow room bands y = .ofList (side room line) := by
  have hside : side room line =
      ['│', ' ', ' '] ++ (line.rightpad room ' ' ++ [' ', ' ']) ++ ['│'] := by
    rw [side, List.append_assoc, List.append_assoc]
    rfl
  have hsides : (border (room + 6) (lines.length + 4)).filter (·.y == y) =
      [⟨0, y, .plain, ['│']⟩, ⟨room + 5, y, .plain, ['│']⟩] := by
    rw [filter_border, if_neg (by omega), if_pos ⟨hy, hend⟩, if_neg (by omega)]
    rfl
  rw [hside]
  refine unstyled_row (isDouble_of_mem_framed h) ?_ (by decide) ?_
  · rw [filter_framed h, hsides, layItems_append, layItems_sides, hline rfl, ← hside]
    rfl
  · rw [List.rightpad]
    simp only [List.mem_append, not_or]
    refine ⟨⟨by decide, ⟨fun hesc => (hsimple _ hesc).ne_escape rfl, fun hesc => ?_⟩, by decide⟩,
      by decide⟩
    exact absurd (List.eq_of_mem_replicate hesc) (by decide)

theorem seenRow_top (h : List.Forall₂ (Band.Draws room) bands lines) :
    seenRow room bands 0 = .ofList (edge room '╭' '╮') := by
  refine seenRow_edge h ?_ (by decide) (by decide) (by decide)
  rw [filter_framed h, filter_border, filter_stack_outside h (by omega), if_pos rfl,
    if_neg (by omega), if_neg (by omega)]
  rfl

theorem seenRow_bottom (h : List.Forall₂ (Band.Draws room) bands lines) :
    seenRow room bands (lines.length + 3) = .ofList (edge room '╰' '╯') := by
  refine seenRow_edge h ?_ (by decide) (by decide) (by decide)
  rw [filter_framed h, filter_border, filter_stack_outside h (by omega), if_neg (by omega),
    if_neg (by omega), if_pos rfl]
  rfl

theorem seenRow_blank (h : List.Forall₂ (Band.Draws room) bands lines) {y : Nat}
    (hy : y = 1 ∨ y = lines.length + 2) : seenRow room bands y = .ofList (side room []) := by
  refine seenRow_side h (by omega) (by omega) (List.forall_mem_nil _) fun _ _ => ?_
  rw [filter_stack_outside h (by omega)]
  rfl

theorem seenRow_line (h : List.Forall₂ (Band.Draws room) bands lines) {k : Nat}
    (hk : k < lines.length) :
    seenRow room bands (2 + k) = .ofList (side room lines[k].toList) := by
  obtain ⟨band, hband, hstack⟩ := filter_stack h 3 2 hk
  refine seenRow_side h (by omega) (by omega) hband.simple fun hfront back => ?_
  rw [hstack]
  exact hband.layItems hfront (2 + k) back

/-- What is seen of a frame around bands is the box of the lines that the bands draw. -/
theorem map_seenRow (h : List.Forall₂ (Band.Draws room) bands lines) :
    (List.range (lines.length + 4)).map (seenRow room bands) = boxed room lines := by
  have hrange : List.range (lines.length + 4) =
      [0, 1] ++ (List.range lines.length).map (2 + ·) ++ [lines.length + 2, lines.length + 3] := by
    rw [List.range_succ, List.range_succ, Nat.add_comm lines.length 2, List.range_add,
      List.append_assoc]
    rfl
  have hmiddle : ((List.range lines.length).map (2 + ·)).map (seenRow room bands) =
      (lines.map (side room ·.toList)).map String.ofList := by
    refine List.ext_getElem (by simp) fun k hk _ => ?_
    simp only [List.length_map, List.length_range] at hk
    simp only [List.getElem_map, List.getElem_range, seenRow_line h hk]
  rw [hrange, List.map_append, List.map_append, hmiddle, boxed, List.map_append, List.map_cons,
    List.map_cons, List.map_cons, List.map_cons, List.map_cons, List.map_cons, seenRow_top h,
    seenRow_bottom h, seenRow_blank h (.inl rfl), seenRow_blank h (.inr rfl)]
  rfl

end Frame

end BuildMatrix.Table
