import BuildMatrix.Proofs.Starter.Tree
import BuildMatrix.Proofs.Yaml.Plain

/-!
# The tokens of the starter file

The lexer cuts the fixed parts of the file into the same tokens whatever the image is, and takes up
the image where a value starts.  So it is enough to know how each of the two scalars is cut
(`Spelling.IsCut`, `lex_fileChars`).
-/

namespace BuildMatrix.Yaml.Lexer

/-- In a number of moves the lexer cuts lexemes off a text, and comes from one state to another. -/
def Cuts (k : Nat) (mode : Mode) (m : Memory) (cs : List Char) (ls : List Lexeme) (mode' : Mode)
    (m' : Memory) (cs' : List Char) : Prop :=
  ∀ n, run (n + k) mode m cs = ls ++ run n mode' m' cs'

variable {k l : Nat} {mode mode' mode'' : Mode} {m m' m'' : Memory} {cs cs' cs'' rest : List Char}
  {ls ls' : List Lexeme}

theorem Cuts.trans (h : Cuts k mode m cs ls mode' m' cs') (h' : Cuts l mode' m' cs' ls' mode'' m'' cs'') :
    Cuts (l + k) mode m cs (ls ++ ls') mode'' m'' cs'' := by
  intro n
  rw [← Nat.add_assoc, h, h', List.append_assoc]

theorem cuts_move (mode : Mode) (m : Memory) (hcs : cs ≠ []) :
    Cuts 1 mode m cs (move mode m cs).lexemes (move mode m cs).mode (move mode m cs).memory
      (move mode m cs).rest := by
  intro n
  rw [run]
  exact hcs

/-- The colon of a key in a line, and the space after it. -/
theorem cuts_colon {c : Char} (hc : isBlank c = false) (hflow : m.flowLevel = 0) :
    Cuts 1 .documentNode m (':' :: ' ' :: c :: rest)
      [⟨.mapValue, [':']⟩, ⟨.space, [' ']⟩] .documentNode { m with indentNext := m.indentValue + 1 }
      (c :: rest) := by
  have hmove : moveDocumentNode m (':' :: ' ' :: c :: rest) =
      ⟨[⟨.mapValue, [':']⟩, ⟨.space, [' ']⟩], .documentNode,
        { m with indentNext := m.indentValue + 1 }, c :: rest⟩ := by
    simp only [isBlank, Bool.or_eq_false_iff, beq_eq_false_iff_ne] at hc
    simp [moveDocumentNode, cutProperty?, indicator?, emptyAt, hflow, cutBlanks, lexeme, hc, isBlank]
  have := cuts_move .documentNode m (List.cons_ne_nil ':' (' ' :: c :: rest))
  rwa [move, hmove] at this

/-- A scalar in its line, and the end of the line. -/
theorem cuts_leaf {kind : TokenKind} {text : List Char}
    (h : moveDocumentNode m (text ++ '\n' :: rest) =
      ⟨[⟨kind, text⟩], .document, m, '\n' :: rest⟩) :
    Cuts 3 .documentNode m (text ++ '\n' :: rest) [⟨kind, text⟩, ⟨.newline, ['\n']⟩] .lineStart m
      rest := by
  have hne : text ++ '\n' :: rest ≠ [] := by simp
  have hleaf := cuts_move .documentNode m hne
  have hline := cuts_move .document m (List.cons_ne_nil '\n' rest)
  have hend := cuts_move .documentNode m (List.cons_ne_nil '\n' rest)
  rw [move, h] at hleaf
  exact (hleaf.trans hline).trans hend

end BuildMatrix.Yaml.Lexer

namespace BuildMatrix.Starter

open Yaml Lexer

/-- The text before the image, its colon apart. -/
def headText : String := "checker: src/test/docker/docker-run-checks.sh\ndefaults:\n  image"

/-- The text between the image and the name of the first build, without the arguments. -/
def middleText : String := "  jobs: 2\nbuilds:\n  - name"

/-- The text after the name of the first build. -/
def lastText : String := "  - name: coverage\n    coverage: true\n"

theorem cuts_headText (rest : List Char) :
    Cuts 22 .stream {} (headText.toList ++ ':' :: ' ' :: rest) (headLexemes.take 11) .documentNode
      { indentNext := 1, indentValue := 2 } (':' :: ' ' :: rest) := by
  intro n
  cbv

theorem cuts_argsKey (rest : List Char) (j v : Nat) :
    Cuts 5 .lineStart { indentNext := j + 3, indentValue := v }
      ("  args".toList ++ ':' :: ' ' :: rest) (middleLexemes.take 2) .documentNode
      { indentNext := 2, indentValue := 2 } (':' :: ' ' :: rest) := by
  intro n
  cbv

theorem cuts_middleText (rest : List Char) (j v : Nat) :
    Cuts 22 .lineStart { indentNext := j + 3, indentValue := v }
      (middleText.toList ++ ':' :: ' ' :: rest) ((middleLexemes.drop 6).take 13) .documentNode
      { indentNext := 3, indentValue := 4 } (':' :: ' ' :: rest) := by
  intro n
  cbv

theorem run_lastText (j v n : Nat) :
    run (n + 25) .lineStart { indentNext := j + 3, indentValue := v } lastText.toList =
      lastLexemes := by
  cbv

/-- The arguments as they are set. -/
def argsText : String :=
  "--prefix=/usr --sysconfdir=/etc --with-systemdsystemunitdir=/etc/systemd/system --localstatedir=/var"

theorem isPlain_argsText : IsPlain argsText.toList :=
  ⟨by decide, by decide, by decide, by decide⟩

theorem folded_brokenArgs : Folded 4 argsText.toList brokenArgs.toList := by
  have h := folded_fold 4 6 isPlain_argsText.line
  have hfold : (fold .flow 4 6 argsText.toList).1 = brokenArgs.toList := by
    cbv
  rwa [hfold] at h

/-- The lines after the image and after the name of the first build are indented by two. -/
def Outdented (rest : List Char) : Prop :=
  ∃ c more, rest = ' ' :: ' ' :: c :: more ∧ (c = 'a' ∨ c = '-' ∨ c = 'j')

theorem Outdented.continues {rest : List Char} (h : Outdented rest) {i : Nat} (hi : 2 < i) :
    continues i rest = false := by
  obtain ⟨c, more, rfl, rfl | rfl | rfl⟩ := h
  · simp [Lexer.continues, hi]
    omega
  · simp [Lexer.continues, hi]
    omega
  · simp [Lexer.continues, hi]
    omega

/-- A scalar is cut into its lexemes where it is the value of a key that is indented. -/
structure Spelling.IsCut (s : Spelling) (indent : Nat) : Prop where
  head : ∃ c more, s.chars = c :: more ∧ isBlank c = false
  cut : ∀ rest, Outdented rest → ∃ k j, k ≤ 3 ∧
    Cuts k .documentNode { indentNext := indent + 1, indentValue := indent } (s.chars ++ rest)
      s.lexemes .lineStart { indentNext := j + 3, indentValue := indent } rest

theorem isCut_brokenArgs : (Spelling.plain brokenArgs.toList).IsCut 2 := by
  refine ⟨⟨_, _, rfl, rfl⟩, fun rest hrest => ⟨3, 0, Nat.le_refl 3, ?_⟩⟩
  have hmove := moveDocumentNode_plain (m := { indentNext := 3, indentValue := 2 }) rfl (by decide)
    (by decide) isPlain_argsText folded_brokenArgs (hrest.continues (by decide))
  simpa [Spelling.chars, Spelling.lexemes, lexeme] using cuts_leaf hmove

/-- A key that is indented, and its value. -/
theorem Spelling.IsCut.cuts_colon {s : Spelling} {i : Nat} (h : s.IsCut i) (j : Nat)
    {rest : List Char} (hrest : Outdented rest) :
    ∃ k j', k ≤ 4 ∧ Cuts k .documentNode { indentNext := j, indentValue := i }
      (':' :: ' ' :: (s.chars ++ rest)) ([⟨.mapValue, [':']⟩, ⟨.space, [' ']⟩] ++ s.lexemes) .lineStart
      { indentNext := j' + 3, indentValue := i } rest := by
  obtain ⟨c, more, hchars, hc⟩ := h.head
  obtain ⟨k, j', hk, hcut⟩ := h.cut rest hrest
  rw [hchars] at hcut ⊢
  exact ⟨k + 1, j', by omega, (Lexer.cuts_colon hc rfl).trans hcut⟩

/-- The characters of the file with given ways to write its two scalars. -/
def fileChars (s t : Spelling) : List Char :=
  headText.toList ++ ':' :: ' ' :: (s.chars ++
    ("  args".toList ++ ':' :: ' ' :: ((Spelling.plain brokenArgs.toList).chars ++
      (middleText.toList ++ ':' :: ' ' :: (t.chars ++ lastText.toList)))))

/-- The lexemes of the file. -/
theorem lex_fileChars {s t : Spelling} (hs : s.IsCut 2) (ht : t.IsCut 4) :
    lex (fileChars s t) =
      headLexemes ++ s.lexemes ++ middleLexemes ++ t.lexemes ++ lastLexemes := by
  have hargs : Outdented ("  args".toList ++ ':' :: ' ' ::
      ((Spelling.plain brokenArgs.toList).chars ++
        (middleText.toList ++ ':' :: ' ' :: (t.chars ++ lastText.toList)))) :=
    ⟨_, _, rfl, .inl rfl⟩
  have hjobs : Outdented (middleText.toList ++ ':' :: ' ' :: (t.chars ++ lastText.toList)) :=
    ⟨_, _, rfl, .inr (.inr rfl)⟩
  have hdash : Outdented lastText.toList := ⟨_, _, rfl, .inr (.inl rfl)⟩
  obtain ⟨k₁, j₁, hk₁, h₁⟩ := hs.cuts_colon 1 hargs
  obtain ⟨k₂, j₂, hk₂, h₂⟩ := isCut_brokenArgs.cuts_colon 2 hjobs
  obtain ⟨k₃, j₃, hk₃, h₃⟩ := ht.cuts_colon 3 hdash
  have hfirst := ((((cuts_headText _).trans h₁).trans (cuts_argsKey _ j₁ 2)).trans h₂)
  have hall := (hfirst.trans (cuts_middleText _ j₂ 2)).trans h₃
  have hlength : 50 ≤ (fileChars s t).length := by
    have : headText.toList.length = 63 := by decide
    rw [fileChars, List.length_append]
    omega
  obtain ⟨n, hn⟩ : ∃ n, 6 * (fileChars s t).length + 6 =
      n + 25 + (k₃ + (22 + (k₂ + (5 + (k₁ + 22))))) :=
    ⟨6 * (fileChars s t).length + 6 - 25 - (k₃ + (22 + (k₂ + (5 + (k₁ + 22))))), by omega⟩
  rw [lex, hn]
  refine (hall (n + 25)).trans ?_
  rw [run_lastText]
  simp [headLexemes, middleLexemes, Spelling.lexemes, lexeme]

end BuildMatrix.Starter
