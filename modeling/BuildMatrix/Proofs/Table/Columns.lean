import Mathlib.Algebra.Ring.Nat
import Mathlib.Order.Bounds.Basic
import BuildMatrix.Proofs.Table.Widths
import BuildMatrix.Proofs.Text.Trim

/-!
# The columns of the table

The width of a column is the least number that its head and its cells are not longer than
(`isLeast_widths`), whatever the order of the rows (`widths_eq_of_perm`).  A padded line has each of
its cells where its column starts (`inColumns_paddedLine`), and a line of the table is a padded one
without the blanks at its end (`isRow_line`).  So the cells of all lines stand in the same columns,
and these do not depend on the commands (`lines_aligned`).
-/

namespace BuildMatrix

/-! ## Padding and trimming -/

namespace Text

theorem widthOf_spaces (n : Nat) : widthOf (List.replicate n ' ') = n := by
  induction n with
  | zero => rfl
  | succ n ih =>
    rw [List.replicate_succ, widthOf, ih, Nat.add_comm]
    rfl

/-- Padding fills a text that is not too long up to the width. -/
theorem length_padEnd_of_le {s : String} {total : Nat} (h : length s ≤ total) :
    length (padEnd s total) = total := by
  rw [padEnd, length, String.toList_append, widthOf_append, String.toList_ofList, widthOf_spaces]
  exact Nat.add_sub_cancel' h

/-- A text is another one without the blanks at its end, of which none is left. -/
structure IsTrimmed (padded s : String) : Prop where
  cut : ∃ blanks, padded.toList = s.toList ++ blanks ∧ ∀ c ∈ blanks, isBlank c = true
  last : ∀ c ∈ s.toList.getLast?, isBlank c = false

theorem isTrimmed_trimEnd (s : String) : IsTrimmed s (trimEnd s) := by
  rw [trimEnd]
  constructor
  · obtain ⟨blanks, hblanks, hs⟩ := exists_dropBlanksEnd s.toList
    exact ⟨blanks, by rwa [String.toList_ofList], hblanks⟩
  · rw [String.toList_ofList]
    exact getLast?_dropBlanksEnd s.toList

end Text

namespace Table

/-! ## The widths, column by column -/

variable {rows rows' : List JobRow}

/-- One of several bounds may be replaced by another one. -/
theorem forall₂_set {α β : Type} {R : α → β → Prop} {as : List α} {bs : List β} {i : Nat} {b : β}
    (h : List.Forall₂ R as bs) (hi : ∀ a ∈ as[i]?, R a b) : List.Forall₂ R as (bs.set i b) := by
  induction h generalizing i with
  | nil => exact .nil
  | @cons a b' as bs hab hrest ih =>
    cases i with
    | zero => exact .cons (hi a rfl) hrest
    | succ i => exact .cons hab (ih hi)

/-- What holds of the members of two lists, one by one, holds at each index. -/
theorem exists_of_forall₂ {α β : Type} {R : α → β → Prop} {as : List α} {bs : List β} {i : Nat}
    {a : α} (h : List.Forall₂ R as bs) (hi : as[i]? = some a) : ∃ b, bs[i]? = some b ∧ R a b := by
  obtain ⟨hlt, rfl⟩ := List.getElem?_eq_some_iff.mp hi
  have hlt' : i < bs.length := h.length_eq ▸ hlt
  exact ⟨bs[i], List.getElem?_eq_getElem hlt', h.get hlt hlt'⟩

/-- A number that the head of a column and all its cells are not longer than. -/
def IsRoom (rows : List JobRow) (i : Nat) (n : Nat) : Prop :=
  (∀ head ∈ heads[i]?, Text.length head ≤ n) ∧
    ∀ row ∈ rows, ∀ cell ∈ row.cells[i]?, Text.length cell ≤ n

/-- The width of a column is the least number that has room for its head and all its cells. -/
theorem isLeast_widths {i width : Nat} (h : (widths rows)[i]? = some width) :
    IsLeast {n | IsRoom rows i n} width := by
  obtain ⟨hheads, hcells⟩ := within_widths rows
  have hbelow : ∀ {cells}, Within cells (widths rows) →
      ∀ cell ∈ cells[i]?, Text.length cell ≤ width := by
    intro cells hwithin cell hcell
    obtain ⟨width', hwidth', hle⟩ := exists_of_forall₂ hwithin hcell
    rw [h] at hwidth'
    obtain ⟨rfl⟩ := hwidth'
    exact hle
  refine ⟨⟨hbelow hheads, fun row hrow => hbelow (hcells row hrow)⟩, fun n hn => ?_⟩
  -- the other widths stay as they are, and are bounds of their columns
  have hbounds : List.Forall₂ (· ≤ ·) (widths rows) ((widths rows).set i n) :=
    widths_le_iff.mpr ⟨forall₂_set hheads hn.1, fun row hrow =>
      forall₂_set (hcells row hrow) (hn.2 row hrow)⟩
  obtain ⟨n', hn', hle⟩ := exists_of_forall₂ hbounds h
  rw [List.getElem?_set_self (List.getElem?_eq_some_iff.mp h).1] at hn'
  obtain ⟨rfl⟩ := hn'
  exact hle

theorem length_widths (rows : List JobRow) : (widths rows).length = heads.length :=
  (within_widths rows).1.length_eq.symm

/-- The order of the rows does not matter for the widths. -/
theorem widths_eq_of_perm (h : rows.Perm rows') : widths rows = widths rows' := by
  have hroom : ∀ i, {n | IsRoom rows i n} = {n | IsRoom rows' i n} := by
    intro i
    simp only [IsRoom, h.mem_iff]
  refine List.ext_getElem ((length_widths rows).trans (length_widths rows').symm) fun i hi hi' => ?_
  have hleast := isLeast_widths (List.getElem?_eq_getElem hi)
  rw [hroom] at hleast
  exact hleast.unique (isLeast_widths (List.getElem?_eq_getElem hi'))

/-! ## Cells in their columns -/

/-- Where a column starts: behind the columns before it, with two spaces after each of them. -/
def offset (widths : List Nat) (i : Nat) : Nat := ((widths.take i).map (· + 2)).sum

/-- Cells stand in their columns.  Each one starts at the offset of its column, counted in 16-bit
units, and nothing but spaces follows: two or more, up to the start of the next column, or, behind
the last cell, up to the end of the text. -/
def InColumns (widths : List Nat) (cells : List String) (text : String) : Prop :=
  ∀ (i : Nat) cell, cells[i]? = some cell →
    ∃ front gap back, text.toList = front ++ (cell.toList ++ (gap ++ back)) ∧
      Text.widthOf front = offset widths i ∧ (∀ c ∈ gap, c = ' ') ∧
      (i + 1 < cells.length → 2 ≤ gap.length ∧
        Text.widthOf (front ++ (cell.toList ++ gap)) = offset widths (i + 1)) ∧
      (i + 1 = cells.length → back = [])

theorem offset_cons_succ (width : Nat) (widths : List Nat) (i : Nat) :
    offset (width :: widths) (i + 1) = width + 2 + offset widths i := by
  rw [offset, List.take_succ_cons, List.map_cons, List.sum_cons]
  rfl

section

variable {cell : String} {width : Nat} {cells : List String} {widths : List Nat} {text : String}

/-- A single cell is followed by the spaces that pad it. -/
theorem inColumns_singleton (cell : String) (width : Nat) :
    InColumns [width] [cell] (Text.padEnd cell width) := by
  intro i c hi
  obtain ⟨rfl, rfl⟩ : i = 0 ∧ cell = c := by
    cases i with
    | zero => exact ⟨rfl, Option.some.inj hi⟩
    | succ i => simp at hi
  refine ⟨[], List.replicate (width - Text.length cell) ' ', [], ?_, rfl, ?_, ?_, fun _ => rfl⟩
  · rw [Text.padEnd, String.toList_append, String.toList_ofList, List.append_nil, List.nil_append]
  · exact fun c hc => List.eq_of_mem_replicate hc
  · exact fun hlt => absurd hlt (Nat.lt_irrefl 1)

/-- A padded cell and two spaces move the other cells by one column. -/
theorem InColumns.cons (h : InColumns widths cells text) (hne : cells ≠ [])
    (hcell : Text.length cell ≤ width) :
    InColumns (width :: widths) (cell :: cells) (Text.padEnd cell width ++ "  " ++ text) := by
  have hpadded : Text.widthOf (Text.padEnd cell width ++ "  ").toList = width + 2 := by
    rw [String.toList_append, Text.widthOf_append]
    exact congrArg (· + 2) (Text.length_padEnd_of_le hcell)
  intro i c hi
  cases i with
  | zero =>
    obtain rfl := Option.some.inj hi
    have hgap : (Text.padEnd cell width ++ "  ").toList =
        cell.toList ++ List.replicate (width - Text.length cell + 2) ' ' := by
      rw [Text.padEnd, String.toList_append, String.toList_append, String.toList_ofList,
        List.append_assoc, ← List.replicate_append_replicate]
      rfl
    refine ⟨[], List.replicate (width - Text.length cell + 2) ' ', text.toList, ?_, rfl,
      fun c hc => List.eq_of_mem_replicate hc, fun _ => ⟨?_, ?_⟩, fun hlast => ?_⟩
    · rw [String.toList_append, hgap, List.append_assoc, List.nil_append]
    · rw [List.length_replicate]
      exact Nat.le_add_left 2 _
    · rw [List.nil_append, ← hgap, hpadded]
      rfl
    · exact absurd (List.length_eq_zero_iff.mp (Nat.succ.inj hlast).symm) hne
  | succ i =>
    obtain ⟨front, gap, back, htext, hfront, hspaces, hnext, hlast⟩ := h i c hi
    refine ⟨(Text.padEnd cell width ++ "  ").toList ++ front, gap, back, ?_, ?_, hspaces,
      fun hlt => ?_, fun heq => hlast (Nat.succ.inj heq)⟩
    · rw [String.toList_append, htext, List.append_assoc]
    · rw [Text.widthOf_append, hpadded, hfront, offset_cons_succ]
    · obtain ⟨htwo, hwidth⟩ := hnext (Nat.lt_of_succ_lt_succ hlt)
      refine ⟨htwo, ?_⟩
      rw [List.append_assoc, Text.widthOf_append, hpadded, hwidth, offset_cons_succ]

/-- In a padded line all cells stand in their columns. -/
theorem inColumns_paddedLine (h : Within cells widths) :
    InColumns widths cells (paddedLine widths cells) := by
  induction h with
  | nil =>
    intro i cell hi
    simp at hi
  | @cons cell width cells widths hcell hrest ih =>
    cases hrest with
    | nil =>
      rw [paddedLine, List.zipWith_cons_cons, List.zipWith_nil_left, String.intercalate_singleton]
      exact inColumns_singleton cell width
    | cons hnext hrest =>
      rw [paddedLine, List.zipWith_cons_cons, String.intercalate_cons_of_ne_nil (by simp)]
      exact ih.cons (List.cons_ne_nil _ _) hcell

end

/-- A line is made of cells in their columns, without the blanks at its end. -/
def IsRow (widths : List Nat) (cells : List String) (line : String) : Prop :=
  ∃ padded, InColumns widths cells padded ∧ Text.IsTrimmed padded line

theorem isRow_line {widths : List Nat} {cells : List String} (h : Within cells widths) :
    IsRow widths cells (line widths cells) :=
  ⟨paddedLine widths cells, inColumns_paddedLine h, Text.isTrimmed_trimEnd _⟩

/-! ## The lines of a table -/

/-- The lines of a row: its cells in their columns, and its command below them if asked for. -/
def IsBlock (widths : List Nat) (commands : Bool) (row : JobRow) (block : List String) : Prop :=
  ∃ line, IsRow widths row.cells line ∧
    block = line :: if commands then ["  " ++ row.command] else []

/-- The first line, the third one, and so on. -/
def everyOther : List String → List String
  | line :: _ :: rest => line :: everyOther rest
  | lines => lines

/-- Leaves out every other line below the title and the head. -/
def withoutCommands : List String → List String
  | title :: head :: below => title :: head :: everyOther below
  | lines => lines

theorem length_lines (context : RunContext) (rows : List JobRow) (commands : Bool) :
    (lines context rows commands).length = 2 + (if commands then 2 else 1) * rows.length := by
  have hbelow : ∀ ws : List Nat, (rows.flatMap (rowLines ws commands)).length =
      (if commands then 2 else 1) * rows.length := by
    intro ws
    induction rows with
    | nil => rfl
    | cons row rest ih =>
      rw [List.flatMap_cons, List.length_append, ih, List.length_cons]
      cases commands <;> simp [rowLines] <;> omega
  rw [lines, List.length_cons, List.length_cons, hbelow]
  omega

/-- Without their commands the rows have one line each. -/
theorem everyOther_flatMap (widths : List Nat) (rows : List JobRow) :
    everyOther (rows.flatMap (rowLines widths true)) = rows.flatMap (rowLines widths false) := by
  induction rows with
  | nil => rfl
  | cons row rest ih =>
    rw [List.flatMap_cons, List.flatMap_cons, ← ih]
    rfl

/-- Only the cells of the rows count for a table without commands. -/
theorem lines_eq_of_cells_eq (context : RunContext)
    (h : rows.map JobRow.cells = rows'.map JobRow.cells) :
    lines context rows false = lines context rows' false := by
  have hwidths : ∀ rows : List JobRow, widths rows =
      (rows.map JobRow.cells).foldl (fun widths cells => widths.zipWith max (cells.map Text.length))
        (heads.map Text.length) := by
    intro rows
    rw [List.foldl_map]
    rfl
  have hbelow : ∀ (ws : List Nat) (rows : List JobRow), rows.flatMap (rowLines ws false) =
      (rows.map JobRow.cells).map (line ws) := by
    intro ws rows
    rw [List.map_map, List.map_eq_flatMap]
    rfl
  have hlength : rows.length = rows'.length := by
    simpa using congrArg List.length h
  have hsame : widths rows = widths rows' := by
    rw [hwidths, hwidths, h]
  simp only [lines, hsame, hlength, hbelow, h]

/-- The columns of a table are aligned, whatever its rows and its commands are.  The width of a
column is the least one that has room for its head and its cells, in any order of the rows.  Below
the title come the head and the rows, in order; in each of their lines the cells stand at the same
offsets, with two spaces or more between them, and only blanks at the end are missing.  A command
stands below its row: without these lines the table is the one without commands, and then the
commands do not matter. -/
theorem lines_aligned (context : RunContext) (rows : List JobRow) (commands : Bool) :
    (widths rows).length = heads.length ∧
      (∀ (i : Nat) width, (widths rows)[i]? = some width → IsLeast {n | IsRoom rows i n} width) ∧
      (∀ rows', rows.Perm rows' → widths rows = widths rows') ∧
      (lines context rows commands).length = 2 + (if commands then 2 else 1) * rows.length ∧
      (∃ head blocks,
        lines context rows commands = title context rows.length :: head :: blocks.flatten ∧
          IsRow (widths rows) heads head ∧
          List.Forall₂ (IsBlock (widths rows) commands) rows blocks) ∧
      withoutCommands (lines context rows true) = lines context rows false ∧
      ∀ rows', rows.map JobRow.cells = rows'.map JobRow.cells →
        lines context rows false = lines context rows' false := by
  obtain ⟨hheads, hcells⟩ := within_widths rows
  refine ⟨length_widths rows, fun _ _ => isLeast_widths, fun _ => widths_eq_of_perm,
    length_lines context rows commands, ?_, ?_, fun _ => lines_eq_of_cells_eq context⟩
  · refine ⟨line (widths rows) heads, rows.map (rowLines (widths rows) commands), ?_,
      isRow_line hheads, ?_⟩
    · rw [← List.flatMap_def]
      rfl
    · exact List.forall₂_map_right_iff.mpr (List.forall₂_same.mpr fun row hrow =>
        ⟨_, isRow_line (hcells row hrow), rfl⟩)
  · show _ :: _ :: everyOther _ = _
    rw [everyOther_flatMap]
    rfl

/-- A name of three units with two characters, cells that end in blanks or are empty, and rows that
are given in another order or with other commands. -/
theorem lines_aligned_blanks :
    let row : JobRow :=
      { id := "job-0", name := "a😀", image := "debian:12", flags := "-", env := "K= \t"
        command := "c" }
    let row' : JobRow :=
      { id := "job-1", name := " ", image := "", flags := "release", env := "-", command := "d" }
    let context : RunContext := ⟨none, none, none⟩
    [row, row'].Perm [row', row] ∧ (widths [row, row'])[1]? = some 9 ∧
      IsLeast {n | IsRoom [row, row'] 1 n} 9 ∧ widths [row, row'] = widths [row', row] ∧
      lines context [row, row'] false = lines context [{ row with command := "" }, row'] false := by
  intro row row' context
  have hperm : [row, row'].Perm [row', row] := .swap _ _ _
  have hwidth : (widths [row, row'])[1]? = some 9 := by decide
  obtain ⟨-, hleast, horder, -, -, -, hcells⟩ := lines_aligned context [row, row'] true
  exact ⟨hperm, hwidth, hleast 1 9 hwidth, horder _ hperm, hcells _ rfl⟩

end Table

end BuildMatrix
