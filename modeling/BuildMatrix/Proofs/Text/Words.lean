import BuildMatrix.Proofs.Text.Trim

/-!
# Words

The words of a text are what stands between its blanks.  Two texts with a blank between them have
the words of both (`words_append_blank`), and all else follows from that: trimming changes no word
(`wordsOf_trim`), and pieces that are joined by spaces have the words of all pieces
(`words_intercalate`).  If the pieces are tight, so is what they are joined to
(`isTight_intercalate`), and two blanks that follow each other lie inside of one piece
(`inPiece_of_blanks`).
-/

namespace BuildMatrix.Text

/-- What stands between the blanks of a run of characters. -/
def words (cs : List Char) : List (List Char) := (cs.splitOnP isBlank).filter (· ≠ [])

/-- The words of a text. -/
def wordsOf (s : String) : List String := (words s.toList).map String.ofList

variable {cs xs ys blanks : List Char} {pieces : List (List Char)} {c d : Char}

/-! ## Words of joined texts -/

@[simp] theorem words_nil : words [] = [] := by simp [words]

/-- A blank separates words. -/
theorem words_append_blank (hc : isBlank c = true) (xs ys : List Char) :
    words (xs ++ c :: ys) = words xs ++ words ys := by
  rw [words, List.splitOnP_append_cons xs ys hc, List.filter_append]
  rfl

/-- What holds no blank is one word. -/
theorem words_eq_singleton (hne : cs ≠ []) (h : ∀ c ∈ cs, isBlank c = false) :
    words cs = [cs] := by
  rw [words, List.splitOnP_eq_singleton h]
  simp [hne]

theorem words_blanks_append (h : ∀ c ∈ blanks, isBlank c = true) (ys : List Char) :
    words (blanks ++ ys) = words ys := by
  induction blanks with
  | nil => rfl
  | cons c rest ih =>
    obtain ⟨hc, hrest⟩ := List.forall_mem_cons.mp h
    have hcut := words_append_blank hc [] (rest ++ ys)
    rw [List.cons_append, ← ih hrest]
    simpa using hcut

theorem words_append_blanks (h : ∀ c ∈ blanks, isBlank c = true) (xs : List Char) :
    words (xs ++ blanks) = words xs := by
  cases blanks with
  | nil => rw [List.append_nil]
  | cons c rest =>
    obtain ⟨hc, hrest⟩ := List.forall_mem_cons.mp h
    have hblank := words_blanks_append hrest []
    rw [words_append_blank hc, ← List.append_nil rest, hblank, words_nil, List.append_nil]

/-- Trimming changes no word. -/
theorem wordsOf_trim (s : String) : wordsOf (trim s) = wordsOf s := by
  obtain ⟨front, back, hfront, hback, hs⟩ := exists_trim s
  rw [wordsOf, wordsOf, hs, words_blanks_append hfront, words_append_blanks hback]

/-- Pieces between spaces keep their words. -/
theorem words_intercalate (pieces : List (List Char)) :
    words ([' '].intercalate pieces) = pieces.flatMap words := by
  induction pieces with
  | nil => exact words_nil
  | cons piece rest ih =>
    cases rest with
    | nil => simp
    | cons next rest =>
      rw [List.intercalate_cons_cons, List.append_assoc, List.singleton_append,
        words_append_blank (by decide), ih]
      rfl

/-- Texts between spaces keep their words. -/
theorem wordsOf_intercalate (texts : List String) :
    wordsOf (" ".intercalate texts) = texts.flatMap wordsOf := by
  have hwords : words (" ".intercalate texts).toList = texts.flatMap (words ·.toList) := by
    rw [String.toList_intercalate, show " ".toList = [' '] from rfl, words_intercalate,
      List.flatMap_map]
  rw [wordsOf, hwords, List.map_flatMap]
  rfl

/-! ## Pieces between spaces -/

/-- Pieces that are there and are tight. -/
def AreTight (pieces : List (List Char)) : Prop := ∀ piece ∈ pieces, piece ≠ [] ∧ IsTight piece

theorem intercalate_ne_nil (h : AreTight pieces) (hne : pieces ≠ []) :
    [' '].intercalate pieces ≠ [] := by
  obtain ⟨piece, rest, rfl⟩ := List.exists_cons_of_ne_nil hne
  obtain ⟨hpiece, -⟩ := h piece (List.mem_cons_self ..)
  cases rest with
  | nil => simpa using hpiece
  | cons next rest => simp [List.intercalate_cons_cons]

/-- What tight pieces are joined to is tight. -/
theorem isTight_intercalate (h : AreTight pieces) : IsTight ([' '].intercalate pieces) := by
  induction pieces with
  | nil => exact ⟨by simp, by simp⟩
  | cons piece rest ih =>
    obtain ⟨⟨hne, hpiece⟩, hrest⟩ := List.forall_mem_cons.mp h
    cases rest with
    | nil => simpa using hpiece
    | cons next rest =>
      rw [List.intercalate_cons_cons]
      have htail := intercalate_ne_nil hrest (List.cons_ne_nil _ _)
      constructor
      · intro c hc
        refine hpiece.head c ?_
        rwa [List.append_assoc, List.head?_append_of_ne_nil _ hne] at hc
      · intro c hc
        refine (ih hrest).last c ?_
        rwa [List.getLast?_append_of_ne_nil _ htail] at hc

/-- Two characters stand inside of a piece, with some text before and after them, when the pieces
are joined by spaces. -/
def InPiece (pieces : List (List Char)) (before : List Char) (c d : Char) (after : List Char) :
    Prop :=
  ∃ earlier piece later us vs,
    pieces = earlier ++ piece :: later ∧ piece = us ++ c :: d :: vs ∧
      before = earlier.flatMap (· ++ [' ']) ++ us ∧ after = vs ++ later.flatMap (' ' :: ·)

theorem InPiece.cons {piece : List Char} (h : InPiece pieces xs c d ys) :
    InPiece (piece :: pieces) (piece ++ ' ' :: xs) c d ys := by
  obtain ⟨earlier, inside, later, us, vs, rfl, hinside, rfl, hafter⟩ := h
  refine ⟨piece :: earlier, inside, later, us, vs, rfl, hinside, ?_, hafter⟩
  simp

theorem flatMap_space (hne : pieces ≠ []) :
    pieces.flatMap (' ' :: ·) = ' ' :: [' '].intercalate pieces := by
  induction pieces with
  | nil => exact absurd rfl hne
  | cons piece rest ih =>
    cases rest with
    | nil => simp
    | cons next rest =>
      rw [List.flatMap_cons, ih (List.cons_ne_nil _ _), List.intercalate_cons_cons]
      simp

/-- Two blanks that follow each other stand inside of one piece: where two pieces meet, there is a
single space between characters that are not blank. -/
theorem inPiece_of_blanks (h : AreTight pieces) (hc : isBlank c = true) (hd : isBlank d = true)
    (heq : [' '].intercalate pieces = xs ++ c :: d :: ys) : InPiece pieces xs c d ys := by
  induction pieces generalizing xs with
  | nil => simp at heq
  | cons piece rest ih =>
    obtain ⟨⟨hne, hpiece⟩, hrest⟩ := List.forall_mem_cons.mp h
    by_cases hlast : rest = []
    · subst hlast
      exact ⟨[], piece, [], xs, ys, rfl, by simpa using heq, rfl, by simp⟩
    rw [List.intercalate_cons_of_ne_nil hlast, List.append_assoc, List.singleton_append] at heq
    -- the second of two blanks does not start the pieces that follow
    have hstart : [' '].intercalate rest ≠ d :: ys := by
      intro hstart
      have hhead := (isTight_intercalate hrest).head d (by rw [hstart]; rfl)
      rw [hd] at hhead
      cases hhead
    rcases List.append_eq_append_iff.mp heq with ⟨as, rfl, has⟩ | ⟨bs, rfl, hbs⟩
    · cases as with
      | nil => exact absurd (List.cons.inj has).2 hstart
      | cons a as =>
        obtain ⟨rfl, hafter⟩ := List.cons.inj has
        exact (ih hrest hafter).cons
    · rcases bs with _ | ⟨b, _ | ⟨b', bs⟩⟩
      · exact absurd (List.cons.inj hbs).2.symm hstart
      · -- nor does the first one end a piece
        obtain ⟨rfl, -⟩ := List.cons.inj hbs
        have hend := hpiece.last c (by simp)
        rw [hc] at hend
        cases hend
      · obtain ⟨rfl, hinner⟩ := List.cons.inj hbs
        obtain ⟨rfl, rfl⟩ := List.cons.inj hinner
        exact ⟨[], _, rest, xs, bs, rfl, rfl, rfl, by rw [flatMap_space hlast]; rfl⟩

end BuildMatrix.Text
