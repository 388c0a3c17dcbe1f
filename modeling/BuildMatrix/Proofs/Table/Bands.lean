import BuildMatrix.Proofs.Table.Widths
import BuildMatrix.Proofs.Terminal.Canvas
import BuildMatrix.Proofs.Terminal.Simple
import BuildMatrix.Table.Frame

/-!
# Bands whose texts fit

If the texts of a band are simple and fit their slots, each takes one line at most
(`Block.ofText_eq_oneLine`), and the band takes one row (`Band.Fits.height_eq_one`).  Laid over a
blank stretch it leaves each text filled up to its width, one after the other
(`Band.layItems_items`).  So a band draws a line (`Band.Draws`): a single text itself
(`draws_single`), and a row of cells the line of the plain table (`draws_row`).
-/

namespace BuildMatrix

open Terminal

/-! ## Slots and blocks -/

namespace Slot

/-- Slots of whole columns, one after the other from a column on. -/
def row : Nat → List Nat → List Slot
  | _, [] => []
  | start, width :: rest => ⟨start, width, 1⟩ :: row (start + width) rest

/-- With room for all, slots are as wide as asked for. -/
theorem sideBySide_eq_row {room : Nat} {widths : List Nat} (h : totalExtent widths ≤ room) :
    sideBySide room widths = row 0 widths := by
  have hrow : ∀ (ws : List Nat) (start : Nat),
      List.zipWith (fun before width => (⟨1 * before, 1 * width, 1⟩ : Slot))
        (ws.mapIdx fun i _ => start + totalExtent (ws.take i)) ws = row start ws := by
    intro ws
    induction ws with
    | nil => intro _; rfl
    | cons w rest ih =>
      intro start
      simp only [List.mapIdx_cons, List.zipWith_cons_cons, List.take_zero, List.take_succ_cons,
        totalExtent, ← Nat.add_assoc, ih, row]
      simp
  rw [sideBySide, if_pos h]
  simpa using hrow widths 0

/-- A whole column is its own nearest column. -/
theorem column_whole (start extent : Nat) : (⟨start, extent, 1⟩ : Slot).column = start := by
  show (2 * start + 1) / (2 * 1) = start
  omega

end Slot

namespace Block

/-- The block of a text that is one line; a text without characters takes no row. -/
def oneLine : List Char → Block
  | [] => ⟨0, []⟩
  | text => ⟨1, [text]⟩

theorem ofText_eq_oneLine {text : List Char} (hsimple : AreSimple text) (start : Nat) {extent : Nat}
    (hfits : text.length ≤ extent) : ofText ⟨start, extent, 1⟩ text = oneLine text := by
  cases text with
  | nil => rfl
  | cons c rest =>
    have hwidest : widest [c :: rest] = (c :: rest).length := by
      rw [← hsimple.widthOf]
      exact Nat.zero_max _
    have hholds : Slot.columns ⟨start, extent, 1⟩ |>.holds (c :: rest).length := by
      rw [Slot.columns, Extent.holds, Nat.mul_one]
      exact decide_eq_true hfits
    rw [ofText, hsimple.splitAt_newline, hwidest, if_neg (by simp), if_pos hholds]
    rfl

theorem height_oneLine_le (text : List Char) : (oneLine text).height ≤ 1 := by
  cases text with
  | nil => exact Nat.zero_le 1
  | cons c rest => exact Nat.le_refl 1

theorem height_oneLine {text : List Char} (h : text ≠ []) : (oneLine text).height = 1 := by
  cases text with
  | nil => exact absurd rfl h
  | cons c rest => rfl

theorem getElem_oneLine {text : List Char} {i : Nat} (hi : i < (oneLine text).lines.length) :
    i = 0 ∧ (oneLine text).lines[i] = text := by
  cases text with
  | nil => exact absurd hi (Nat.not_lt_zero i)
  | cons c rest =>
    obtain rfl : i = 0 := Nat.lt_one_iff.mp hi
    exact ⟨rfl, rfl⟩

end Block

namespace Table

/-! ## One band -/

/-- Cells one after the other, each filled up to its width. -/
def filled (cells : List String) (widths : List Nat) : List Char :=
  (List.zipWith Text.padEnd cells widths).flatMap String.toList

namespace Band

variable {cells : List StyledText} {widths : List Nat}

/-- The texts of a band are simple, each fits its slot, and there is something to see. -/
structure Fits (cells : List StyledText) (widths : List Nat) : Prop where
  within : Within (cells.map Prod.snd) widths
  simple : ∀ cell ∈ cells, AreSimple cell.2.toList
  visible : ∃ cell ∈ cells, cell.2.toList ≠ []

/-- Every text takes one line at most. -/
theorem map_blocks (hwithin : Within (cells.map Prod.snd) widths)
    (hsimple : ∀ cell ∈ cells, AreSimple cell.2.toList) (start : Nat) :
    (blocks ⟨Slot.row start widths, cells⟩).map (·.2.2) =
      cells.map fun cell => Block.oneLine cell.2.toList := by
  induction cells generalizing widths start with
  | nil =>
    obtain rfl := List.forall₂_nil_left_iff.mp hwithin
    rfl
  | cons cell rest ih =>
    obtain ⟨width, widths, hcell, hrest, rfl⟩ := List.forall₂_cons_left_iff.mp hwithin
    obtain ⟨hc, hcs⟩ := List.forall_mem_cons.mp hsimple
    have hblock := Block.ofText_eq_oneLine hc start (hc.length_le hcell)
    rw [List.map_cons, ← ih hrest hcs (start + width), ← hblock]
    rfl

/-- A band of texts that fit takes one row. -/
theorem Fits.height_eq_one (h : Fits cells widths) (start : Nat) :
    height ⟨Slot.row start widths, cells⟩ = 1 := by
  have hheights : (blocks ⟨Slot.row start widths, cells⟩).map (·.2.2.height) =
      cells.map fun cell => (Block.oneLine cell.2.toList).height := by
    have hblocks := congrArg (List.map Block.height) (map_blocks h.within h.simple start)
    rwa [List.map_map, List.map_map] at hblocks
  have hmax : (cells.map fun cell => (Block.oneLine cell.2.toList).height).max? = some 1 := by
    refine List.max?_eq_some_iff.mpr ⟨?_, ?_⟩
    · obtain ⟨cell, hcell, hne⟩ := h.visible
      exact List.mem_map.mpr ⟨cell, hcell, Block.height_oneLine hne⟩
    · intro n hn
      obtain ⟨cell, -, rfl⟩ := List.mem_map.mp hn
      exact Block.height_oneLine_le _
  rw [height, hheights, List.foldl_max, hmax]
  rfl

/-- All items of a band of texts that fit are in its row, and they are simple. -/
theorem Fits.mem_items (h : Fits cells widths) {start x y : Nat} {item : Item}
    (hitem : item ∈ items ⟨Slot.row start widths, cells⟩ x y) :
    item.y = y ∧ AreSimple item.text := by
  obtain ⟨⟨slot, style, block⟩, hblock, hline⟩ := List.mem_flatMap.mp hitem
  have hone : block ∈ cells.map fun cell => Block.oneLine cell.2.toList := by
    rw [← map_blocks h.within h.simple start]
    exact List.mem_map_of_mem hblock
  obtain ⟨cell, hcell, rfl⟩ := List.mem_map.mp hone
  obtain ⟨i, hi, rfl⟩ := List.mem_mapIdx.mp hline
  obtain ⟨rfl, htext⟩ := Block.getElem_oneLine hi
  refine ⟨rfl, ?_⟩
  show AreSimple ((Block.oneLine cell.2.toList).lines[0])
  rw [htext]
  exact h.simple cell hcell

theorem items_cons (slot : Slot) (slots : List Slot) (cell : StyledText) (cells : List StyledText)
    (x y : Nat) :
    items ⟨slot :: slots, cell :: cells⟩ x y =
      ((Block.ofText slot cell.2.toList).lines.mapIdx fun i line =>
          ⟨x + slot.column, y + i, cell.1, line⟩) ++
        items ⟨slots, cells⟩ x y :=
  rfl

/-- A text takes the place of as many blanks as it has characters. -/
theorem layItems_oneLine {text front : List Char} {x width : Nat} (hfits : text.length ≤ width)
    (hfront : front.length = x) (style : Style) (y : Nat) (back : List Char) :
    layItems ((Block.oneLine text).lines.mapIdx fun i line => ⟨x, y + i, style, line⟩)
        (front ++ (List.replicate width ' ' ++ back)) =
      front ++ (text.rightpad width ' ' ++ back) := by
  rw [List.rightpad, spaces_eq_append hfits, List.append_assoc, List.append_assoc]
  cases text with
  | nil => rfl
  | cons c rest => exact layChars_append hfront (List.length_replicate ..)

/-- Over a blank stretch of its columns a band leaves its texts, each filled up to its width. -/
theorem layItems_items (hwithin : Within (cells.map Prod.snd) widths)
    (hsimple : ∀ cell ∈ cells, AreSimple cell.2.toList) {start x : Nat} (y : Nat)
    {front : List Char} (hfront : front.length = x + start) (back : List Char) :
    layItems (items ⟨Slot.row start widths, cells⟩ x y)
        (front ++ (List.replicate (totalExtent widths) ' ' ++ back)) =
      front ++ (filled (cells.map Prod.snd) widths ++ back) := by
  -- what is laid already belongs to the front of what follows
  induction cells generalizing widths start front with
  | nil =>
    obtain rfl := List.forall₂_nil_left_iff.mp hwithin
    rfl
  | cons cell rest ih =>
    obtain ⟨width, widths, hcell, hrest, rfl⟩ := List.forall₂_cons_left_iff.mp hwithin
    obtain ⟨hc, hcs⟩ := List.forall_mem_cons.mp hsimple
    have hfits : cell.2.toList.length ≤ width := hc.length_le hcell
    have hlength : (front ++ (Text.padEnd cell.2 width).toList).length = x + (start + width) := by
      rw [List.length_append, length_padEnd hc hcell, hfront, Nat.add_assoc]
    rw [Slot.row, items_cons, Block.ofText_eq_oneLine hc start hfits, Slot.column_whole,
      layItems_append, totalExtent, ← List.replicate_append_replicate, List.append_assoc,
      layItems_oneLine hfits hfront, ← toList_padEnd hc, ← List.append_assoc front,
      ih hrest hcs hlength]
    simp only [filled, List.map_cons, List.zipWith_cons_cons, List.flatMap_cons, List.append_assoc]

end Band

/-! ## The line that a band draws -/

/-- Wherever it stands, a band takes one row, and over blanks it leaves a line in it. -/
structure Band.Draws (room : Nat) (band : Band) (line : String) : Prop where
  height : band.height = 1
  simple : AreSimple line.toList
  mem_items : ∀ x y, ∀ item ∈ band.items x y, item.y = y ∧ AreSimple item.text
  layItems : ∀ {front : List Char} {x : Nat}, front.length = x → ∀ (y : Nat) (back : List Char),
    layItems (band.items x y) (front ++ (List.replicate room ' ' ++ back)) =
      front ++ (line.toList.rightpad room ' ' ++ back)

theorem length_filled {cells : List String} {widths : List Nat} (hwithin : Within cells widths)
    (hsimple : ∀ cell ∈ cells, AreSimple cell.toList) :
    (filled cells widths).length = totalExtent widths := by
  induction hwithin with
  | nil => rfl
  | @cons cell width cells widths hcell _ ih =>
    obtain ⟨hc, hcs⟩ := List.forall_mem_cons.mp hsimple
    rw [filled, List.zipWith_cons_cons, List.flatMap_cons, List.length_append,
      length_padEnd hc hcell, totalExtent, ← ih hcs, filled]

theorem areSimple_filled {cells : List String} (hsimple : ∀ cell ∈ cells, AreSimple cell.toList)
    (widths : List Nat) : AreSimple (filled cells widths) := by
  intro c hc
  obtain ⟨text, htext, hc⟩ := List.mem_flatMap.mp hc
  obtain ⟨i, hi, rfl⟩ := List.mem_iff_getElem.mp htext
  have hcell := hsimple _ (List.getElem_mem (List.lt_length_left_of_zipWith hi))
  rw [List.getElem_zipWith, toList_padEnd hcell, List.rightpad] at hc
  rcases List.mem_append.mp hc with hc | hc
  · exact hcell c hc
  · rw [List.eq_of_mem_replicate hc]
    exact isSimple_of_isPrintable (by decide)

/-- A band of texts that fit draws any line that differs from the filled texts by blanks at the end
at most. -/
theorem Band.Fits.draws {cells : List StyledText} {widths : List Nat} (h : Band.Fits cells widths)
    {room : Nat} (hroom : totalExtent widths ≤ room) {line : String} (hsimple : AreSimple line.toList)
    (hline : (filled (cells.map Prod.snd) widths).rightpad room ' ' =
      line.toList.rightpad room ' ') :
    Band.Draws room ⟨Slot.row 0 widths, cells⟩ line where
  height := h.height_eq_one 0
  simple := hsimple
  mem_items _ _ _ hitem := h.mem_items hitem
  layItems {front x} hfront y back := by
    have hlength : (filled (cells.map Prod.snd) widths).length = totalExtent widths :=
      length_filled h.within (List.forall_mem_map.mpr h.simple)
    rw [← hline, spaces_eq_append hroom, List.append_assoc,
      Band.layItems_items h.within h.simple y hfront, List.rightpad, hlength, List.append_assoc]

/-- A single text that fits draws itself. -/
theorem draws_single {room : Nat} {text : String} (hsimple : AreSimple text.toList)
    (hne : text ≠ "") (hroom : Text.length text ≤ room) (style : Style) :
    Band.Draws room (.single room style text) text := by
  have hfits : Band.Fits [(style, text)] [room] :=
    { within := .cons hroom .nil
      simple := List.forall_mem_singleton.mpr hsimple
      visible := ⟨_, List.mem_singleton_self _, by rwa [Ne, String.toList_eq_nil_iff]⟩ }
  have hsum : totalExtent [room] = room := Nat.add_zero room
  refine hfits.draws hsum.le hsimple ?_
  have hfilled : filled [text] [room] = (Text.padEnd text room).toList := List.append_nil _
  rw [List.map_singleton, hfilled, List.rightpad, length_padEnd hsimple hroom, Nat.sub_self,
    toList_padEnd hsimple]
  exact List.append_nil _

theorem toList_padEnd_add {text : String} {width : Nat} (h : Text.length text ≤ width) (n : Nat) :
    (Text.padEnd text (width + n)).toList =
      (Text.padEnd text width).toList ++ List.replicate n ' ' := by
  simp only [Text.padEnd, String.toList_append, String.toList_ofList, List.append_assoc,
    List.replicate_append_replicate]
  rw [Nat.sub_add_comm h]

/-- Columns that are two wider than their cells leave the line of the plain table and two spaces. -/
theorem filled_wider {texts : List String} {widths : List Nat} (h : Within texts widths)
    (hne : texts ≠ []) :
    filled texts (widths.map (· + 2)) = (paddedLine widths texts).toList ++ [' ', ' '] := by
  have htwo : List.replicate 2 ' ' = [' ', ' '] := rfl
  induction h with
  | nil => exact absurd rfl hne
  | @cons text width texts widths htext hrest ih =>
    have hcell : filled (text :: texts) ((width :: widths).map (· + 2)) =
        (Text.padEnd text width).toList ++ [' ', ' '] ++ filled texts (widths.map (· + 2)) := by
      rw [List.map_cons, filled, List.zipWith_cons_cons, List.flatMap_cons,
        toList_padEnd_add htext, htwo]
      rfl
    cases hrest with
    | nil =>
      rw [hcell, paddedLine, String.toList_intercalate]
      simp [filled]
    | cons hnext hrest =>
      rw [hcell, ih (List.cons_ne_nil _ _), paddedLine, paddedLine, String.toList_intercalate,
        String.toList_intercalate]
      simp [List.intercalate_cons_cons]

/-- A row of cells that fit side by side draws the line of the plain table. -/
theorem draws_row {room : Nat} {cells : List StyledText} {widths : List Nat}
    (h : Band.Fits cells widths) (hroom : totalExtent (widths.map (· + 2)) ≤ room) :
    Band.Draws room ⟨Slot.sideBySide room (widths.map (· + 2)), cells⟩
      (line widths (cells.map Prod.snd)) := by
  have hsimple : ∀ cell ∈ cells.map Prod.snd, AreSimple cell.toList :=
    List.forall_mem_map.mpr h.simple
  have hwider : Within (cells.map Prod.snd) (widths.map (· + 2)) :=
    List.forall₂_map_right_iff.mpr (h.within.imp fun _ _ hle => Nat.le_add_right_of_le hle)
  have hne : cells.map Prod.snd ≠ [] := by
    obtain ⟨cell, hcell, -⟩ := h.visible
    exact List.ne_nil_of_mem (List.mem_map_of_mem hcell)
  have htrimmed : Text.dropBlanksEnd (filled (cells.map Prod.snd) (widths.map (· + 2))) =
      (line widths (cells.map Prod.snd)).toList := by
    have hspaces : ∀ c ∈ [' ', ' '], Text.isBlank c = true := List.all_eq_true.mp (by decide)
    rw [filled_wider h.within hne, Text.dropBlanksEnd_append_blanks hspaces, line, Text.trimEnd,
      String.toList_ofList]
  have hfits : Band.Fits cells (widths.map (· + 2)) := ⟨hwider, h.simple, h.visible⟩
  rw [Slot.sideBySide_eq_row hroom]
  refine hfits.draws hroom ?_ ?_ <;> rw [← htrimmed]
  · exact (areSimple_filled hsimple _).dropBlanksEnd
  rw [(areSimple_filled hsimple _).rightpad_dropBlanksEnd]
  rwa [length_filled hwider hsimple]

end Table

end BuildMatrix
