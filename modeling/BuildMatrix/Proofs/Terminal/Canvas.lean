import Mathlib.Data.List.Basic
import BuildMatrix.Proofs.Text.Trim
import BuildMatrix.Terminal.Canvas

/-!
# What is seen on a grid of cells

Without the sequences that switch styles (`unstyled`), the text of a row of cells is the text in the
cells (`unstyled_cellsChars`).  If every character fills one cell (`Shows`), laying an item over a
row is laying its text over the text of the row (`shows_rowCells`), and the rest of the row stays as
it was (`layChars_append`).  So a row that does not end with a blank is seen as it was laid
(`unstyled_row`).
-/

namespace BuildMatrix.Terminal

/-! ## Text without styles -/

/-- Text without control sequences.  A sequence starts with an escape character and lasts until an
`m`; the flag tells whether the text starts inside of one. -/
def unstyledFrom : Bool → List Char → List Char
  | _, [] => []
  | true, c :: rest => unstyledFrom (c != 'm') rest
  | false, c :: rest =>
    if c = '\x1b' then unstyledFrom true rest else c :: unstyledFrom false rest

/-- Text without the sequences that switch styles. -/
def unstyled (s : String) : String := .ofList (unstyledFrom false s.toList)

/-- What switches between styles is not seen. -/
theorem unstyledFrom_transition (before after : Style) (rest : List Char) :
    unstyledFrom false ((before.transition after).toList ++ rest) = unstyledFrom false rest := by
  cases before <;> cases after <;> rfl

theorem unstyledFrom_append {cs : List Char} (h : '\x1b' ∉ cs) (rest : List Char) :
    unstyledFrom false (cs ++ rest) = cs ++ unstyledFrom false rest := by
  induction cs with
  | nil => rfl
  | cons c cs ih =>
    obtain ⟨hc, hcs⟩ := List.ne_and_not_mem_of_not_mem_cons h
    rw [List.cons_append, unstyledFrom, if_neg (Ne.symm hc), ih hcs]
    rfl

/-- The cells are seen one after the other. -/
theorem unstyled_cellsChars (before : Style) {cells : List Cell}
    (h : ∀ cell ∈ cells, '\x1b' ∉ cell.text) :
    unstyledFrom false (cellsChars before cells) = cells.flatMap Cell.text := by
  induction cells generalizing before with
  | nil =>
    have hend := unstyledFrom_transition before .plain []
    rwa [List.append_nil] at hend
  | cons cell rest ih =>
    obtain ⟨hcell, hrest⟩ := List.forall_mem_cons.mp h
    rw [cellsChars, List.append_assoc, unstyledFrom_transition, unstyledFrom_append hcell,
      ih _ hrest]
    rfl

/-- A row whose last cell is not blank does not end with a blank, whatever the styles. -/
theorem getLast?_cellsChars (before : Style) (cells : List Cell) {cell : Cell} {c : Char}
    (hcell : cell.text = [c]) (hc : Text.isBlank c = false) :
    ∃ d, (cellsChars before (cells ++ [cell])).getLast? = some d ∧ Text.isBlank d = false := by
  induction cells generalizing before with
  | nil =>
    have hlast : cellsChars before ([] ++ [cell]) =
        (before.transition cell.style).toList ++ [c] ++ (cell.style.transition .plain).toList := by
      rw [List.nil_append, cellsChars, cellsChars, hcell]
    rw [hlast, List.getLast?_append]
    -- a style that is still on is switched off at the end
    cases cell.style with
    | plain => exact ⟨c, List.getLast?_concat .., hc⟩
    | bold | dim | cyan | yellow => exact ⟨'m', rfl, by decide⟩
  | cons first rest ih =>
    obtain ⟨d, hd, hblank⟩ := ih first.style
    refine ⟨d, ?_, hblank⟩
    rw [List.cons_append, cellsChars, List.getLast?_append, hd]
    rfl

/-! ## Text over text -/

/-- Lays characters over others, from a column on. -/
def layChars (x : Nat) (cs row : List Char) : List Char :=
  row.take x ++ cs ++ row.drop (x + cs.length)

/-- What is laid takes the place of as much as it needs, and the rest stays. -/
theorem layChars_append {x : Nat} {front below back cs : List Char} (hx : front.length = x)
    (hlength : below.length = cs.length) :
    layChars x cs (front ++ (below ++ back)) = front ++ (cs ++ back) := by
  subst hx
  rw [layChars, List.take_left, ← hlength, ← List.append_assoc front below back,
    ← List.length_append, List.drop_left, List.append_assoc]

/-! ## Cells that show one character each -/

/-- Cells show characters, one each. -/
def Shows (cells : List Cell) (cs : List Char) : Prop := cells.map Cell.text = cs.map ([·])

namespace Shows

variable {cells row : List Cell} {cs ds : List Char}

theorem length_eq (h : Shows cells cs) : cells.length = cs.length := by
  have hlength := congrArg List.length h
  simpa using hlength

theorem flatMap_text (h : Shows cells cs) : cells.flatMap Cell.text = cs := by
  rw [List.flatMap_def, show cells.map Cell.text = cs.map ([·]) from h, ← List.flatMap_def,
    List.flatMap_singleton']

theorem blank (n : Nat) : Shows (List.replicate n {}) (List.replicate n ' ') := by
  rw [Shows, List.map_replicate, List.map_replicate]

theorem overlay (hrow : Shows row ds) (h : Shows cells cs) (x : Nat) :
    Shows (overlay x cells row) (layChars x cs ds) := by
  unfold Terminal.overlay layChars
  simp only [Shows, List.map_append, List.map_take, List.map_drop, h.length_eq]
  rw [show row.map Cell.text = ds.map ([·]) from hrow,
    show cells.map Cell.text = cs.map ([·]) from h]

end Shows

/-- A narrow item fills a cell with each of its characters. -/
theorem shows_cells {item : Item} (h : ∀ c ∈ item.text, isDouble c = false) :
    Shows item.cells item.text := by
  have hcells : item.cells = item.text.flatMap fun c => [⟨[c], item.style⟩] :=
    List.flatMap_congr fun c hc => by rw [cellsOf, h c hc, if_neg Bool.false_ne_true]
  rw [Shows, hcells, ← List.map_eq_flatMap, List.map_map]
  rfl

/-- The characters of a row of a picture, when items are narrow. -/
def layItems (items : List Item) (row : List Char) : List Char :=
  items.foldl (fun row item => layChars item.x item.text row) row

theorem layItems_append (items more : List Item) (row : List Char) :
    layItems (items ++ more) row = layItems more (layItems items row) :=
  List.foldl_append

/-- Narrow items are seen where they are laid. -/
theorem shows_rowCells {items : List Item}
    (h : ∀ item ∈ items, ∀ c ∈ item.text, isDouble c = false) (columns y : Nat) :
    Shows (rowCells columns items y)
      (layItems (items.filter (·.y == y)) (List.replicate columns ' ')) := by
  have hlaid : ∀ (laid : List Item) (row : List Cell) (cs : List Char), Shows row cs →
      (∀ item ∈ laid, ∀ c ∈ item.text, isDouble c = false) →
      Shows (laid.foldl (fun row item => overlay item.x item.cells row) row)
        (layItems laid cs) := by
    intro laid
    induction laid with
    | nil => intro row cs hrow _; exact hrow
    | cons item rest ih =>
      intro row cs hrow hnarrow
      obtain ⟨hitem, hrest⟩ := List.forall_mem_cons.mp hnarrow
      exact ih _ _ (hrow.overlay (shows_cells hitem) item.x) hrest
  exact hlaid _ _ _ (.blank columns) fun item hitem => h item (List.mem_filter.mp hitem).1

/-- A row that does not end with a blank is seen as it was laid. -/
theorem unstyled_row {columns y : Nat} {items : List Item} {cs : List Char} {c : Char}
    (hnarrow : ∀ item ∈ items, ∀ c ∈ item.text, isDouble c = false)
    (hrow : layItems (items.filter (·.y == y)) (List.replicate columns ' ') = cs ++ [c])
    (hblank : Text.isBlank c = false) (hescape : '\x1b' ∉ cs ++ [c]) :
    unstyled (.ofList (Text.dropBlanksEnd (rowChars columns items y))) = .ofList (cs ++ [c]) := by
  have hshows := shows_rowCells hnarrow columns y
  rw [hrow] at hshows
  have htexts : (rowCells columns items y).map Cell.text = cs.map ([·]) ++ [[c]] := by
    rw [show (rowCells columns items y).map Cell.text = _ from hshows, List.map_append]
    rfl
  obtain ⟨front, last, hcells, -, hlast⟩ := List.map_eq_append_iff.mp htexts
  obtain ⟨cell, rfl, hcell⟩ := List.map_eq_singleton_iff.mp hlast
  obtain ⟨d, hd, hdblank⟩ := getLast?_cellsChars .plain front hcell hblank
  have htrimmed : Text.dropBlanksEnd (rowChars columns items y) =
      cellsChars .plain (rowCells columns items y) := by
    refine Text.dropBlanksEnd_eq_self fun e he => ?_
    rw [rowChars, hcells, hd] at he
    rw [← Option.some.inj he]
    exact hdblank
  have hsteady : ∀ cell ∈ rowCells columns items y, '\x1b' ∉ cell.text := by
    intro cell hmem hesc
    have htext := List.mem_map_of_mem (f := Cell.text) hmem
    rw [show (rowCells columns items y).map Cell.text = _ from hshows] at htext
    obtain ⟨e, he, heq⟩ := List.mem_map.mp htext
    rw [← heq, List.mem_singleton] at hesc
    rw [hesc] at hescape
    exact hescape he
  rw [htrimmed, unstyled, String.toList_ofList, unstyled_cellsChars .plain hsteady,
    hshows.flatMap_text]

end BuildMatrix.Terminal
