import BuildMatrix.Proofs.Yaml.Indented
import Mathlib.Data.List.Chain
import Mathlib.Data.List.Infix

/-!
# The text of a folded block

In a folded block the lines of a text are broken at single spaces (`Wraps`), and each run of line
feeds has one more, so that a single one stands for a space.  If no line of a text starts with white
space (`IsFlush`), the lines are joined to the same text, wherever they are broken
(`foldedText_linesOf`).
-/

namespace BuildMatrix.Yaml

open ScalarText

/-! ## Lines that start with no white space -/

/-- A text no line of which starts with white space. -/
def IsFlush (cs : List Char) : Prop := ∀ line ∈ linesOf cs, ∀ c ∈ line.head?, isBlank c = false

/-- After a line feed no white space stands in the same line. -/
abbrev FlushAfter (a b : Char) : Prop := a = '\n' → isBlank b = false

theorem head?_linesOf {cs line : List Char} {lines : List (List Char)}
    (h : linesOf cs = line :: lines) :
    (∀ c ∈ line.head?, isBlank c = false) ↔ ∀ c ∈ cs.head?, isBlank c = false := by
  cases cs with
  | nil =>
    obtain ⟨rfl, -⟩ := List.cons.inj h
    rfl
  | cons a rest =>
    by_cases ha : a = '\n'
    · subst ha
      obtain ⟨rfl, -⟩ := List.cons.inj h
      simp [isBlank]
    · obtain ⟨first, more, hrest⟩ := List.exists_cons_of_ne_nil (linesOf_ne_nil rest)
      rw [linesOf_cons ha hrest] at h
      obtain ⟨rfl, -⟩ := List.cons.inj h
      rfl

theorem tail_linesOf_iff {cs : List Char} :
    (∀ line ∈ (linesOf cs).tail, ∀ c ∈ line.head?, isBlank c = false) ↔
      cs.IsChain FlushAfter := by
  induction cs with
  | nil => simp [linesOf]
  | cons a rest ih =>
    obtain ⟨line, lines, hrest⟩ := List.exists_cons_of_ne_nil (linesOf_ne_nil rest)
    rw [hrest, List.tail_cons] at ih
    rw [List.isChain_cons, ← ih]
    by_cases ha : a = '\n'
    · subst ha
      rw [linesOf, List.tail_cons, hrest, List.forall_mem_cons, head?_linesOf hrest]
      simp [FlushAfter]
    · rw [linesOf_cons ha hrest, List.tail_cons]
      simp [FlushAfter, ha]

theorem isFlush_iff {cs : List Char} : IsFlush cs ↔ ('\n' :: cs).IsChain FlushAfter := by
  rw [← tail_linesOf_iff, linesOf, List.tail_cons]
  rfl

/-- A line that starts with no white space is filled, or empty. -/
theorem IsFlush.isFilled {cs line : List Char} (h : IsFlush cs) (hline : line ∈ linesOf cs)
    (hne : line ≠ []) : IsFilled line := by
  obtain ⟨c, rest, rfl⟩ := List.exists_cons_of_ne_nil hne
  refine ⟨c, List.mem_cons_self, ?_⟩
  rintro rfl
  exact absurd (h _ hline ' ' rfl) (by decide)

theorem not_mem_of_isChain {gaps : List Char} (h : gaps.IsChain FlushAfter)
    (hgaps : ∀ c ∈ gaps, isGap c = true) (hlast : gaps.getLast? ≠ some '\n') : '\n' ∉ gaps := by
  induction gaps with
  | nil => exact List.not_mem_nil
  | cons a gaps ih =>
    obtain ⟨hhead, hchain⟩ := List.isChain_cons.mp h
    cases gaps with
    | nil => simpa [eq_comm] using hlast
    | cons b gaps =>
      have hrest := ih hchain (fun c hc => hgaps c (.tail _ hc))
        (by rwa [List.getLast?_cons_cons] at hlast)
      have hgap := hgaps b (.tail _ (.head _))
      have hb : b ≠ '\n' := fun heq => hrest (heq ▸ List.mem_cons_self)
      rw [List.mem_cons, not_or]
      refine ⟨?_, hrest⟩
      rintro rfl
      have hblank : isBlank b = true := by simpa [isGap, isBlank, hb] using hgap
      rw [hhead b rfl rfl] at hblank
      exact absurd hblank Bool.false_ne_true

/-! ## One more line feed in each run -/

theorem head?_doubleRuns (inRun : Bool) (cs : List Char) :
    (doubleRuns inRun cs).head? = cs.head? := by
  fun_cases doubleRuns inRun cs with
  | case1 => rfl
  | case2 => cases inRun <;> rfl
  | case3 => rfl

theorem getLast?_doubleRuns (inRun : Bool) (cs : List Char) :
    (doubleRuns inRun cs).getLast? = cs.getLast? := by
  fun_induction doubleRuns inRun cs with
  | case1 => rfl
  | case2 inRun rest ih =>
    have hfirst : (if inRun then ['\n'] else ['\n', '\n']).getLast? = some '\n' := by
      cases inRun <;> rfl
    rw [List.getLast?_append, ih, hfirst, List.getLast?_cons]
    cases rest.getLast? <;> rfl
  | case3 inRun c rest hc ih => rw [List.getLast?_cons, ih, List.getLast?_cons]

theorem isChain_doubleRuns {cs : List Char} (h : cs.IsChain FlushAfter) (inRun : Bool) :
    (doubleRuns inRun cs).IsChain FlushAfter := by
  fun_induction doubleRuns inRun cs with
  | case1 => exact .nil
  | case2 inRun rest ih =>
    obtain ⟨hhead, hrest⟩ := List.isChain_cons.mp h
    have hfirst : ('\n' :: doubleRuns true rest).IsChain FlushAfter :=
      (ih hrest).cons (by rwa [head?_doubleRuns])
    cases inRun
    · exact hfirst.cons fun b hb _ => by
        obtain rfl : '\n' = b := by simpa using hb
        rfl
    · exact hfirst
  | case3 inRun c rest hc ih =>
    obtain ⟨hhead, hrest⟩ := List.isChain_cons.mp h
    exact (ih hrest).cons (by rwa [head?_doubleRuns])

theorem mem_of_mem_doubleRuns {inRun : Bool} {cs : List Char} {c : Char}
    (h : c ∈ doubleRuns inRun cs) : c ∈ cs := by
  fun_induction doubleRuns inRun cs with
  | case1 => exact h
  | case2 inRun rest ih =>
    obtain hfirst | hrest := List.mem_append.mp h
    · obtain rfl : c = '\n' := by cases inRun <;> simpa using hfirst
      exact List.mem_cons_self
    · exact .tail _ (ih hrest)
  | case3 inRun d rest hd ih =>
    obtain rfl | hrest := List.mem_cons.mp h
    · exact List.mem_cons_self
    · exact .tail _ (ih hrest)

theorem doubleRuns_append_line {line : List Char} (hline : '\n' ∉ line) (inRun : Bool)
    (cs : List Char) : doubleRuns inRun (cs ++ line) = doubleRuns inRun cs ++ line := by
  fun_induction doubleRuns inRun cs with
  | case1 inRun =>
    induction line generalizing inRun with
    | nil => rfl
    | cons c line ih =>
      simp only [List.mem_cons, not_or] at hline
      rw [List.nil_append, doubleRuns]
      · exact congrArg (c :: ·) (ih hline.2 false)
      · exact Ne.symm hline.1
  | case2 inRun rest ih => rw [List.cons_append, doubleRuns, ih, List.append_assoc]
  | case3 inRun c rest hc ih =>
    rw [List.cons_append, doubleRuns, ih, List.cons_append]
    exact hc

/-- A character that does not stand in the first part stands in the second one. -/
theorem exists_of_append_eq {front more line rest : List Char} {c : Char}
    (h : front ++ more = line ++ c :: rest) (hc : c ∉ front) :
    ∃ line', line = front ++ line' ∧ more = line' ++ c :: rest := by
  obtain ⟨line', rfl, hmore⟩ | ⟨back, rfl, hback⟩ := List.append_eq_append_iff.mp h
  · exact ⟨line', rfl, hmore⟩
  · cases back with
    | nil => exact ⟨[], by simp, hback.symm⟩
    | cons d back =>
      obtain ⟨rfl, -⟩ := List.cons.inj hback
      exact absurd (by simp) hc

/-- A space in the text with more line feeds is a space of the text. -/
theorem exists_of_doubleRuns_eq {inRun : Bool} {cs line rest : List Char}
    (h : doubleRuns inRun cs = line ++ ' ' :: rest) :
    ∃ front back, cs = front ++ ' ' :: back ∧ doubleRuns inRun front = line ∧
      doubleRuns false back = rest := by
  fun_induction doubleRuns inRun cs generalizing line with
  | case1 => simp at h
  | case2 inRun more ih =>
    obtain ⟨line, rfl, hline⟩ := exists_of_append_eq h (by cases inRun <;> simp)
    obtain ⟨front, back, rfl, rfl, hback⟩ := ih hline
    exact ⟨'\n' :: front, back, rfl, by rw [doubleRuns], hback⟩
  | case3 inRun c more hc ih =>
    cases line with
    | nil =>
      obtain ⟨rfl, rfl⟩ : c = ' ' ∧ doubleRuns false more = rest := by simpa using h
      exact ⟨[], more, rfl, by rw [doubleRuns], rfl⟩
    | cons a line =>
      obtain ⟨rfl, hline⟩ : c = a ∧ doubleRuns false more = line ++ ' ' :: rest := by simpa using h
      obtain ⟨front, back, rfl, rfl, hback⟩ := ih hline
      refine ⟨c :: front, back, rfl, ?_, hback⟩
      rw [doubleRuns]
      exact hc

/-- The lines of a text with an empty line after each line that is not empty, the last one apart. -/
def spread : List (List Char) → List (List Char)
  | [] => []
  | [line] => [line]
  | [] :: lines => [] :: spread lines
  | line :: lines => line :: [] :: spread lines

theorem spread_empty {lines : List (List Char)} (h : lines ≠ []) :
    spread ([] :: lines) = [] :: spread lines := by
  rw [spread]
  exact h

theorem spread_cons {line : List Char} (hline : line ≠ []) {lines : List (List Char)}
    (h : lines ≠ []) : spread (line :: lines) = line :: [] :: spread lines := by
  rw [spread]
  · exact h
  · exact hline

/-- Behind a line feed, and in the middle of a line. -/
theorem linesOf_doubleRuns (cs : List Char) :
    linesOf (doubleRuns true cs) = spread (linesOf cs) ∧
      ∃ line lines, linesOf cs = line :: lines ∧
        linesOf (doubleRuns false cs) = line :: if lines = [] then [] else [] :: spread lines := by
  induction cs with
  | nil => exact ⟨rfl, [], [], rfl, rfl⟩
  | cons c rest ih =>
    obtain ⟨hrun, line, lines, hlines, hline⟩ := ih
    by_cases hc : c = '\n'
    · subst hc
      have hne := linesOf_ne_nil rest
      refine ⟨?_, [], linesOf rest, rfl, ?_⟩
      · rw [doubleRuns, linesOf, spread_empty hne, ← hrun]
        rfl
      · rw [doubleRuns, if_neg hne, ← hrun]
        rfl
    · have hform (inRun : Bool) : doubleRuns inRun (c :: rest) = c :: doubleRuns false rest := by
        rw [doubleRuns]
        exact hc
      refine ⟨?_, c :: line, lines, linesOf_cons hc hlines, ?_⟩
      · rw [hform, linesOf_cons hc hline, linesOf_cons hc hlines]
        split
        next h => rw [h, spread]
        next h => rw [spread_cons (List.cons_ne_nil c line) h]
      · rw [hform, linesOf_cons hc hline]

/-- The lines of a text with one more line feed in each run. -/
theorem linesOf_doubleRuns_false {cs : List Char} (h : cs.head? ≠ some '\n') :
    linesOf (doubleRuns false cs) = spread (linesOf cs) := by
  obtain ⟨-, line, lines, hlines, hline⟩ := linesOf_doubleRuns cs
  rw [hline, hlines]
  split
  next hnil => rw [hnil, spread]
  next hne =>
    rw [spread_cons _ hne]
    rintro rfl
    cases cs with
    | nil =>
      obtain ⟨-, rfl⟩ := List.cons.inj hlines
      exact hne rfl
    | cons c rest =>
      have hc : c ≠ '\n' := by simpa using h
      obtain ⟨more, hmore⟩ := List.exists_cons_of_ne_nil (linesOf_ne_nil rest)
      obtain ⟨lines', hlines'⟩ := hmore
      rw [linesOf_cons hc hlines'] at hlines
      exact absurd (List.cons.inj hlines).1 (List.cons_ne_nil _ _)

/-! ## Joining the lines again -/

/-- What the lines of a folded block are joined to, if none of them starts with white space. -/
def foldedText : Joint → List (List Char) → List Char
  | _, [] => []
  | .break1, [] :: lines => '\n' :: foldedText .break1 lines
  | _, [] :: lines => foldedText .break1 lines
  | joint, line :: lines => joint.chars ++ line ++ foldedText .space lines

theorem foldedText_cons {line : List Char} (hline : line ≠ []) (joint : Joint)
    (lines : List (List Char)) :
    foldedText joint (line :: lines) = joint.chars ++ line ++ foldedText .space lines := by
  rw [foldedText]
  · exact hline
  · exact fun _ => hline

theorem foldedText_append {front back : List (List Char)} (joint : Joint)
    (hlast : ∃ line ∈ front.getLast?, line ≠ []) :
    foldedText joint (front ++ back) = foldedText joint front ++ foldedText .space back := by
  induction front generalizing joint with
  | nil => simp at hlast
  | cons line front ih =>
    cases front with
    | nil =>
      have hline : line ≠ [] := by simpa using hlast
      rw [List.singleton_append, foldedText_cons hline, foldedText_cons hline, foldedText,
        List.append_nil]
    | cons second front =>
      rw [List.getLast?_cons_cons] at hlast
      cases line with
      | nil =>
        cases joint with
        | break1 => exact congrArg ('\n' :: ·) (ih _ hlast)
        | nothing => exact ih _ hlast
        | space => exact ih _ hlast
        | break2 => exact ih _ hlast
      | cons c line =>
        have hline := List.cons_ne_nil c line
        rw [List.cons_append, foldedText_cons hline, foldedText_cons hline, ih _ hlast,
          ← List.append_assoc]

/-- The empty lines that are put between the lines are left out again. -/
theorem foldedText_spread {lines : List (List Char)} (hlast : ∃ line ∈ lines.getLast?, line ≠ [])
    {joint : Joint} (hfirst : lines.head? = some [] → joint = .break1) :
    foldedText joint (spread lines) = joint.chars ++ joinLines lines := by
  induction lines generalizing joint with
  | nil => simp at hlast
  | cons line lines ih =>
    by_cases hne : lines = []
    · subst hne
      have hline : line ≠ [] := by simpa using hlast
      rw [spread, foldedText_cons hline, foldedText, List.append_nil]
      rfl
    · have hlast' : ∃ line ∈ lines.getLast?, line ≠ [] := by
        obtain ⟨second, more, rfl⟩ := List.exists_cons_of_ne_nil hne
        rwa [List.getLast?_cons_cons] at hlast
      have hrest := ih hlast' (fun _ => (rfl : Joint.break1 = .break1))
      rw [joinLines_cons line hne]
      by_cases hline : line = []
      · subst hline
        obtain rfl := hfirst rfl
        rw [spread_empty hne, foldedText, hrest]
        rfl
      · rw [spread_cons hline hne, foldedText_cons hline, foldedText, hrest]
        · rw [List.append_assoc]
          rfl
        · simp

/-! ## Breaking lines at spaces -/

/-- A text, and the same text with some of its single spaces as line feeds. -/
inductive Wraps : List Char → List Char → Prop
  | whole (cs : List Char) : Wraps cs cs
  | broken {line rest out : List Char} (hlast : ∀ c ∈ line.getLast?, isGap c = false)
    (hhead : StartsSolid rest) (h : Wraps rest out) : Wraps (line ++ ' ' :: rest) (line ++ '\n' :: out)

namespace Wraps

variable {cs out : List Char}

theorem startsSolid (h : Wraps cs out) (hcs : StartsSolid cs) : StartsSolid out := by
  cases h with
  | whole => exact hcs
  | @broken line rest out hlast hhead h =>
    obtain ⟨c, hc, hgap⟩ := hcs
    cases line with
    | nil =>
      obtain rfl : ' ' = c := by simpa using hc
      simp [FoldScan.isGap] at hgap
    | cons a line => exact ⟨c, by simpa using hc, hgap⟩

/-- The lines that are made start with no white space either. -/
theorem isChain (h : Wraps cs out) : cs.IsChain FlushAfter → out.IsChain FlushAfter := by
  induction h with
  | whole => exact id
  | @broken line rest out hlast hhead h ih =>
    intro hcs
    obtain ⟨hline, hrest, -⟩ := List.isChain_append.mp hcs
    refine List.isChain_append.mpr ⟨hline, (ih hrest.tail).cons fun b hb _ => ?_, ?_⟩
    · have := (h.startsSolid hhead).head? b hb
      simp only [FoldScan.isGap, Bool.or_eq_false_iff] at this
      simp [isBlank, this]
    · intro a _ b hb _
      obtain rfl : '\n' = b := by simpa using hb
      rfl

theorem of_cons {c : Char} (h : Wraps (c :: cs) out) (hc : c ≠ ' ') :
    ∃ out', out = c :: out' ∧ Wraps cs out' := by
  generalize htext : c :: cs = text at h
  cases h with
  | whole =>
    subst htext
    exact ⟨cs, rfl, .whole cs⟩
  | @broken line rest out hlast hhead h =>
    cases line with
    | nil =>
      obtain ⟨rfl, -⟩ := List.cons.inj htext
      exact absurd rfl hc
    | cons a line =>
      obtain ⟨rfl, rfl⟩ := List.cons.inj htext
      refine ⟨line ++ '\n' :: out, rfl, .broken (fun b hb => hlast b ?_) hhead h⟩
      rw [Option.mem_def] at hb ⊢
      rw [List.getLast?_cons, hb]
      rfl

theorem of_feeds {k : Nat} (hwraps : Wraps (List.replicate k '\n' ++ cs) out) :
    ∃ out', out = List.replicate k '\n' ++ out' ∧ Wraps cs out' := by
  induction k generalizing out with
  | zero => exact ⟨out, rfl, hwraps⟩
  | succ k ih =>
    obtain ⟨out, rfl, hrest⟩ := hwraps.of_cons (by decide)
    obtain ⟨out, rfl, hout⟩ := ih hrest
    exact ⟨out, rfl, hout⟩

theorem mem {c : Char} (h : Wraps cs out) (hc : c ∈ out) (hfeed : c ≠ '\n') : c ∈ cs := by
  induction h with
  | whole => exact hc
  | broken hlast hhead h ih =>
    simp only [List.mem_append, List.mem_cons, hfeed, false_or] at hc ⊢
    exact hc.imp_right fun hc => .inr (ih hc)

theorem getLast? (h : Wraps cs out) : out.getLast? = cs.getLast? := by
  induction h with
  | whole => rfl
  | @broken line rest out hlast hhead h ih =>
    obtain ⟨c, hc, -⟩ := h.startsSolid hhead
    obtain ⟨d, hd, -⟩ := hhead
    obtain ⟨out, rfl⟩ := List.head?_eq_some_iff.mp hc
    obtain ⟨rest, rfl⟩ := List.head?_eq_some_iff.mp hd
    rw [List.getLast?_append_cons, List.getLast?_append_cons, List.getLast?_cons_cons,
      List.getLast?_cons_cons, ih]

end Wraps

theorem lastLine_ne_nil {cs : List Char} (h : ∃ c ∈ cs.getLast?, c ≠ '\n') :
    ∃ line ∈ (linesOf cs).getLast?, line ≠ [] := by
  obtain ⟨c, hc, hfeed⟩ := h
  obtain ⟨front, rfl⟩ := List.getLast?_eq_some_iff.mp hc
  have hback : '\n' ∉ [c] := by simpa using Ne.symm hfeed
  obtain ⟨line, hline⟩ := exists_getLast?_linesOf front hback
  exact ⟨_, hline, by simp⟩

theorem foldedText_doubleRuns {cs : List Char} (hstart : StartsSolid cs)
    (hend : ∃ c ∈ cs.getLast?, c ≠ '\n') (joint : Joint) :
    foldedText joint (linesOf (doubleRuns false cs)) = joint.chars ++ cs := by
  obtain ⟨c, hc, hgap⟩ := hstart
  obtain ⟨rest, rfl⟩ := List.head?_eq_some_iff.mp hc
  have hfeed : c ≠ '\n' := by
    rintro rfl
    simp [FoldScan.isGap] at hgap
  obtain ⟨line, lines, hlines⟩ := List.exists_cons_of_ne_nil (linesOf_ne_nil rest)
  rw [linesOf_doubleRuns_false (by simpa using hfeed), foldedText_spread (lastLine_ne_nil hend),
    joinLines_linesOf]
  rw [linesOf_cons hfeed hlines]
  simp

/-- However the lines of a text with more line feeds are broken, they are joined to the text. -/
theorem foldedText_linesOf {cs out : List Char} (h : Wraps (doubleRuns false cs) out)
    (hstart : StartsSolid cs) (hend : ∃ c ∈ cs.getLast?, c ≠ '\n') (joint : Joint) :
    foldedText joint (linesOf out) = joint.chars ++ cs := by
  generalize htext : doubleRuns false cs = text at h
  induction h generalizing cs joint with
  | whole =>
    rw [← htext]
    exact foldedText_doubleRuns hstart hend joint
  | @broken line rest out hlast hhead h ih =>
    obtain ⟨front, back, rfl, rfl, rfl⟩ := exists_of_doubleRuns_eq htext
    have hback : StartsSolid back := by
      obtain ⟨c, hc, hgap⟩ := hhead
      exact ⟨c, by rwa [head?_doubleRuns] at hc, hgap⟩
    have hfront : StartsSolid front ∧ ∃ c ∈ front.getLast?, c ≠ '\n' := by
      obtain ⟨c, hc, hgap⟩ := hstart
      rw [getLast?_doubleRuns] at hlast
      obtain rfl | ⟨more, d, rfl⟩ := List.eq_nil_or_concat' front
      · obtain rfl : ' ' = c := by simpa using hc
        exact absurd hgap (by decide)
      · refine ⟨⟨c, ?_, hgap⟩, d, by simp, ?_⟩
        · cases more <;> simpa using hc
        · rintro rfl
          exact absurd (hlast '\n' (by simp)) (by decide)
    have hend' : ∃ c ∈ back.getLast?, c ≠ '\n' := by
      obtain ⟨c, hc, -⟩ := hback
      obtain ⟨back, rfl⟩ := List.head?_eq_some_iff.mp hc
      simpa [List.getLast?_append_cons] using hend
    have hlines : ∃ line ∈ (linesOf (doubleRuns false front)).getLast?, line ≠ [] :=
      lastLine_ne_nil (by rw [getLast?_doubleRuns]; exact hfront.2)
    rw [linesOf_append_feed, foldedText_append joint hlines,
      foldedText_doubleRuns hfront.1 hfront.2, ih hback hend' .space rfl, List.append_assoc]
    rfl

end BuildMatrix.Yaml
