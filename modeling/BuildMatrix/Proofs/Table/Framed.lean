import BuildMatrix.Proofs.Job.Command
import BuildMatrix.Proofs.Matrix.Reachable
import BuildMatrix.Proofs.Table.Border

/-!
# The framed table and the plain table

If the terminal has room for the columns next to each other, for the title and for the command lines
that are shown (`Fits`), every band of the framed table draws a line of the plain one
(`draws_bands`).  The texts of a row are simple when those of its job are printable
(`JobRow.isSimple_ofJob`), and no line of the plain table ends in a blank (`getLast?_of_mem_lines`).
So the frame is the plain table in a box, and the plain table is what is in the frame
(`frame_agrees`).
-/

namespace BuildMatrix

open Terminal

/-! ## Printable texts -/

/-- A text of printable characters. -/
def Text.IsPrintable (s : String) : Prop := ∀ c ∈ s.toList, isPrintable c = true

instance (s : String) : Decidable (Text.IsPrintable s) :=
  decidable_of_iff (s.toList.all isPrintable = true) List.all_eq_true

theorem Text.IsPrintable.areSimple {s : String} (h : Text.IsPrintable s) : AreSimple s.toList :=
  fun c hc => isSimple_of_isPrintable (h c hc)

/-- All texts of a job that are shown are printable. -/
structure Job.IsPrintable (job : Job) : Prop where
  name : ∀ name ∈ job.name, Text.IsPrintable name
  image : Text.IsPrintable job.image
  command : Text.IsPrintable job.command
  env : ∀ entry ∈ job.env, Text.IsPrintable entry.1 ∧ Text.IsPrintable entry.2

instance (job : Job) : Decidable job.IsPrintable :=
  decidable_of_iff
    ((∀ name ∈ job.name, Text.IsPrintable name) ∧ Text.IsPrintable job.image ∧
      Text.IsPrintable job.command ∧
      ∀ entry ∈ job.env, Text.IsPrintable entry.1 ∧ Text.IsPrintable entry.2)
    ⟨fun ⟨name, image, command, env⟩ => ⟨name, image, command, env⟩,
      fun ⟨name, image, command, env⟩ => ⟨name, image, command, env⟩⟩

/-- All texts of a matrix that are shown are printable. -/
structure Matrix.IsPrintable (m : Matrix) : Prop where
  tag : ∀ tag ∈ m.context.tag, Text.IsPrintable tag
  branch : ∀ branch ∈ m.context.branch, Text.IsPrintable branch
  jobs : ∀ job ∈ m.jobs, job.IsPrintable

namespace JobRow

/-- The texts of a row are simple, and its flags are not empty. -/
structure IsSimple (row : JobRow) : Prop where
  cells : ∀ cell ∈ row.cells, AreSimple cell.toList
  flags : row.flags ≠ ""
  command : AreSimple row.command.toList

theorem flagsText_legible (job : Job) :
    flagsText job ≠ "" ∧ (flagsText job).toList.all isLegible = true := by
  unfold flagsText
  cases job.needsBuildx <;> cases job.coverage <;> cases job.createRelease <;> decide

theorem areSimple_envText {env : Record String}
    (h : ∀ entry ∈ env, Text.IsPrintable entry.1 ∧ Text.IsPrintable entry.2) :
    AreSimple (envText env).toList := by
  unfold envText
  dsimp only
  split
  · exact .of_isLegible (by decide)
  · rw [String.toList_intercalate]
    refine .intercalate (.of_isLegible (by decide)) ?_
    intro piece hpiece
    obtain ⟨text, htext, rfl⟩ := List.mem_map.mp hpiece
    obtain ⟨entry, hentry, rfl⟩ := List.mem_map.mp htext
    obtain ⟨hname, hvalue⟩ := h entry (List.mem_mergeSort.mp hentry)
    rw [String.toList_append, String.toList_append]
    exact (hname.areSimple.append (.of_isLegible (by decide))).append hvalue.areSimple

/-- The row of a printable job has simple texts. -/
theorem isSimple_ofJob {job : Job} (h : job.IsPrintable) (index : Nat) :
    (ofJob job index).IsSimple := by
  obtain ⟨hne, hflags⟩ := flagsText_legible job
  have hname : AreSimple (job.name.getD ("#" ++ toString (index + 1))).toList := by
    cases hgiven : job.name with
    | none =>
      rw [Option.getD_none, String.toList_append]
      exact AreSimple.append (.of_isLegible (by decide)) (.digits _)
    | some name => exact (h.name name hgiven).areSimple
  refine ⟨?_, hne, h.command.areSimple⟩
  exact List.forall_mem_cons.mpr ⟨hname, List.forall_mem_cons.mpr ⟨h.image.areSimple,
    List.forall_mem_cons.mpr ⟨.of_isLegible hflags,
      List.forall_mem_singleton.mpr (areSimple_envText h.env)⟩⟩⟩

end JobRow

namespace Table

theorem areSimple_title {context : RunContext} (htag : ∀ tag ∈ context.tag, Text.IsPrintable tag)
    (hbranch : ∀ branch ∈ context.branch, Text.IsPrintable branch) (count : Nat) :
    AreSimple (title context count).toList := by
  have hdescribe : AreSimple context.describe.toList := by
    rw [RunContext.describe]
    cases hgiven : context.tag with
    | some tag =>
      rw [String.toList_append]
      exact AreSimple.append (.of_isLegible (by decide)) (htag tag hgiven).areSimple
    | none =>
      cases hnamed : context.branch with
      | some branch =>
        rw [String.toList_append]
        exact AreSimple.append (.of_isLegible (by decide)) (hbranch branch hnamed).areSimple
      | none => exact .of_isLegible (by decide)
  have hstart : AreSimple "Build matrix · ".toList := .of_isLegible (by decide)
  have hdot : AreSimple " · ".toList := .of_isLegible (by decide)
  have hend : AreSimple " job(s)".toList := .of_isLegible (by decide)
  unfold title
  rw [String.toList_append, String.toList_append, String.toList_append, String.toList_append]
  exact (((hstart.append hdescribe).append hdot).append (.digits count)).append hend

/-! ## Room for everything -/

/-- The terminal has room for the columns next to each other, for the title, and for the command
lines if they are shown. -/
structure Fits (columns : Nat) (context : RunContext) (rows : List JobRow) (commands : Bool) :
    Prop where
  cells : totalExtent (widths rows) + 8 ≤ columns - 6
  title : Text.length (title context rows.length) ≤ columns - 6
  commands : commands = true → ∀ row ∈ rows, Text.length row.command + 2 ≤ columns - 6

variable {room : Nat} {context : RunContext} {rows : List JobRow} {commands : Bool}

theorem totalExtent_wider (rows : List JobRow) :
    totalExtent ((widths rows).map (· + 2)) = totalExtent (widths rows) + 8 := by
  have hwider : ∀ ns : List Nat,
      totalExtent (ns.map (· + 2)) = totalExtent ns + 2 * ns.length := by
    intro ns
    induction ns with
    | nil => rfl
    | cons n rest ih =>
      rw [List.map_cons, totalExtent, ih, totalExtent, List.length_cons]
      omega
  have hlength : heads.length = (widths rows).length := (within_widths rows).1.length_eq
  rw [hwider, ← hlength]
  rfl

theorem draws_title (htitle : AreSimple (title context rows.length).toList)
    (hroom : Text.length (title context rows.length) ≤ room) :
    Band.Draws room (.single room .bold (title context rows.length))
      (title context rows.length) := by
  refine draws_single htitle (fun hempty => ?_) hroom .bold
  have hlist := String.toList_eq_nil_iff.mpr hempty
  unfold title at hlist
  rw [String.toList_append] at hlist
  exact absurd (List.append_eq_nil_iff.mp hlist).2 (by decide)

theorem draws_heads (hroom : totalExtent ((widths rows).map (· + 2)) ≤ room) :
    Band.Draws room
      ⟨Slot.sideBySide room ((widths rows).map (· + 2)), heads.map fun head => (.dim, head)⟩
      (line (widths rows) heads) := by
  have hlegible : ∀ head ∈ heads, head.toList.all isLegible = true := by decide
  refine draws_row ⟨(within_widths rows).1, List.forall_mem_map.mpr fun head hhead => ?_, ?_⟩ hroom
  · exact .of_isLegible (hlegible head hhead)
  · exact ⟨_, List.mem_cons_self, by decide⟩

theorem draws_cells (hroom : totalExtent ((widths rows).map (· + 2)) ≤ room) {row : JobRow}
    (hrow : row ∈ rows) (h : row.IsSimple) :
    Band.Draws room ⟨Slot.sideBySide room ((widths rows).map (· + 2)), styledCells row⟩
      (line (widths rows) row.cells) := by
  have htexts : (styledCells row).map Prod.snd = row.cells := rfl
  have hsimple := h.cells
  rw [← htexts] at hsimple
  obtain ⟨cell, hcell, heq⟩ : ∃ cell ∈ styledCells row, cell.2 = row.flags :=
    List.mem_map.mp (by simp [htexts, JobRow.cells])
  refine draws_row ⟨(within_widths rows).2 row hrow, fun cell hcell => ?_, cell, hcell, ?_⟩ hroom
  · exact hsimple _ (List.mem_map_of_mem hcell)
  · rw [heq, Ne, String.toList_eq_nil_iff]
    exact h.flags

theorem draws_command {row : JobRow} (h : row.IsSimple)
    (hroom : Text.length row.command + 2 ≤ room) :
    Band.Draws room (.single room .dim ("  " ++ row.command)) ("  " ++ row.command) := by
  have hsimple : AreSimple ("  " ++ row.command).toList := by
    rw [String.toList_append]
    exact AreSimple.append (.of_isLegible (by decide)) h.command
  have hlength : Text.length ("  " ++ row.command) = Text.length row.command + 2 := by
    rw [Text.length, String.toList_append, Text.widthOf_append, Nat.add_comm]
    rfl
  refine draws_single hsimple (by simp [← String.toList_inj]) ?_ .dim
  rwa [hlength]

/-- If everything fits, each band of the frame draws a line of the plain table. -/
theorem draws_bands (hfits : Fits (room + 6) context rows commands)
    (htitle : AreSimple (title context rows.length).toList) (hrows : ∀ row ∈ rows, row.IsSimple) :
    List.Forall₂ (Band.Draws room) (bands room context rows commands)
      (lines context rows commands) := by
  have hroom : totalExtent ((widths rows).map (· + 2)) ≤ room := by
    rw [totalExtent_wider]
    exact hfits.cells
  refine .cons (draws_title htitle hfits.title) (.cons (draws_heads hroom) ?_)
  refine List.rel_flatMap (R := fun row row' => row = row' ∧ row ∈ rows)
    (List.forall₂_same.mpr fun row hrow => ⟨rfl, hrow⟩) ?_
  rintro row _ ⟨rfl, hrow⟩
  refine .cons (draws_cells hroom hrow (hrows row hrow)) ?_
  cases commands with
  | false => exact .nil
  | true => exact .cons (draws_command (hrows row hrow) (hfits.commands rfl row hrow)) .nil

/-- What is seen of a frame in which everything fits is the plain table in a box. -/
theorem map_unstyled_frame (hfits : Fits (room + 6) context rows commands)
    (htitle : AreSimple (title context rows.length).toList) (hrows : ∀ row ∈ rows, row.IsSimple) :
    (frame (room + 6) context rows commands).map unstyled =
      boxed room (lines context rows commands) := by
  have hdraws := draws_bands hfits htitle hrows
  have hwidth : max (room + 6) 6 = room + 6 := Nat.max_eq_left (Nat.le_add_left 6 room)
  have hframe : frame (room + 6) context rows commands =
      (List.range (totalExtent ((bands room context rows commands).map Band.height) + 4)).map
        fun y => .ofList (Text.dropBlanksEnd
          (rowChars (room + 6) (framed room (bands room context rows commands)) y)) := by
    rw [frame, hwidth]
    rfl
  rw [hframe, totalExtent_heights hdraws, List.map_map, ← map_seenRow hdraws]
  rfl

/-- No line of a table ends in a blank if no command does. -/
theorem getLast?_of_mem_lines
    (hcommands : ∀ row ∈ rows, row.command ≠ "" ∧ Text.IsTight row.command.toList) :
    ∀ line ∈ lines context rows commands, ∀ c ∈ line.toList.getLast?, Text.isBlank c = false := by
  have hline : ∀ cells, ∀ c ∈ (line (widths rows) cells).toList.getLast?,
      Text.isBlank c = false := by
    intro cells
    rw [line, Text.trimEnd, String.toList_ofList]
    exact Text.getLast?_dropBlanksEnd _
  refine List.forall_mem_cons.mpr ⟨?_, List.forall_mem_cons.mpr ⟨hline heads, ?_⟩⟩
  · unfold title
    rw [String.toList_append, List.getLast?_append]
    rintro c ⟨rfl⟩
    decide
  · intro text htext
    obtain ⟨row, hrow, hmem⟩ := List.mem_flatMap.mp htext
    rcases List.mem_cons.mp hmem with rfl | hmem
    · exact hline row.cells
    · obtain ⟨-, hmem⟩ : commands = true ∧ text ∈ ["  " ++ row.command] := by
        cases commands with
        | false => exact absurd hmem List.not_mem_nil
        | true => exact ⟨rfl, hmem⟩
      obtain ⟨hne, htight⟩ := hcommands row hrow
      rw [List.mem_singleton.mp hmem, String.toList_append, List.getLast?_append_of_ne_nil]
      · exact htight.last
      · rwa [Ne, String.toList_eq_nil_iff]

end Table

/-! ## Reachable matrices -/

theorem Job.exists_compose (context : RunContext) (defaults : Defaults) (options : BuildOptions) :
    ∃ parts : CommandParts, (Job.ofOptions context defaults options).command = parts.compose := by
  unfold Job.ofOptions
  dsimp only
  exact ⟨_, rfl⟩

/-- The command of a job of a reachable matrix is put together from pieces. -/
theorem Matrix.Reachable.exists_compose {m : Matrix} (h : m.Reachable) :
    ∀ job ∈ m.jobs, ∃ parts : CommandParts, job.command = parts.compose := by
  induction h with
  | empty ref defaults => exact List.forall_mem_nil _
  | add _ _ ih =>
    exact List.forall_mem_append.mpr ⟨ih, List.forall_mem_singleton.mpr (Job.exists_compose ..)⟩

theorem Table.exists_of_mem_rows {m : Matrix} {row : JobRow} (h : row ∈ Table.rows m) :
    ∃ job ∈ m.jobs, ∃ index, row = .ofJob job index := by
  obtain ⟨i, hi, rfl⟩ := List.mem_mapIdx.mp h
  exact ⟨_, List.getElem_mem hi, i, rfl⟩

/-- The framed and the plain table agree when everything fits.  What is seen of the frame is a box
with a round border and blanks on its inside around the lines of the plain table; and without
border and blanks it is exactly these lines. -/
theorem frame_agrees {m : Matrix} (h : m.Reachable) (hprintable : m.IsPrintable) {columns : Nat}
    {commands : Bool} (hfits : Table.Fits columns m.context (Table.rows m) commands) :
    (Table.frame columns m.context (Table.rows m) commands).map unstyled =
        Table.boxed (columns - 6) (Table.lines m.context (Table.rows m) commands) ∧
      Table.unboxed ((Table.frame columns m.context (Table.rows m) commands).map unstyled) =
        Table.lines m.context (Table.rows m) commands := by
  obtain ⟨room, rfl⟩ : ∃ room, columns = room + 6 := by
    have hcells := hfits.cells
    exact ⟨columns - 6, by omega⟩
  have hrows : ∀ row ∈ Table.rows m, row.IsSimple := by
    intro row hrow
    obtain ⟨job, hjob, index, rfl⟩ := Table.exists_of_mem_rows hrow
    exact JobRow.isSimple_ofJob (hprintable.jobs job hjob) index
  have hcommands : ∀ row ∈ Table.rows m,
      row.command ≠ "" ∧ Text.IsTight row.command.toList := by
    intro row hrow
    obtain ⟨job, hjob, index, rfl⟩ := Table.exists_of_mem_rows hrow
    obtain ⟨parts, hcommand⟩ := h.exists_compose job hjob
    show job.command ≠ "" ∧ Text.IsTight job.command.toList
    rw [hcommand]
    exact ⟨parts.compose_ne_empty, parts.isTight_compose⟩
  have hboxed := Table.map_unstyled_frame hfits
    (Table.areSimple_title hprintable.tag hprintable.branch _) hrows
  refine ⟨hboxed, ?_⟩
  rw [hboxed]
  exact Table.unboxed_boxed room (Table.getLast?_of_mem_lines hcommands)

/-- A name without characters, cells that end in spaces and command lines, on a terminal that is
just wide enough. -/
theorem frame_agrees_narrow :
    let m := ((Matrix.empty (some "refs/tags/v1 ") { checker := "c", args := "" }).add
        { name := some "", env := some [("A", " x ")] }).add
      { name := some "deb  ", coverage := some true, platform := some "p" }
    m.Reachable ∧ m.IsPrintable ∧ Table.Fits 52 m.context (Table.rows m) true ∧
      Table.unboxed ((Table.frame 52 m.context (Table.rows m) true).map unstyled) =
        Table.lines m.context (Table.rows m) true := by
  intro m
  have hproper : BuildOptions.IsProper { name := some "", env := some [("A", " x ")] } := by
    rintro _ ⟨rfl⟩
    exact List.pairwise_singleton _ _
  have h : m.Reachable := .add (.add (.empty _ _) hproper) fun env henv => by cases henv
  have hprintable : m.IsPrintable :=
    { tag := by decide
      branch := by decide
      jobs := by decide }
  have hfits : Table.Fits 52 m.context (Table.rows m) true :=
    ⟨by decide +kernel, by decide, fun _ => by decide⟩
  exact ⟨h, hprintable, hfits, (frame_agrees h hprintable hfits).2⟩

end BuildMatrix
