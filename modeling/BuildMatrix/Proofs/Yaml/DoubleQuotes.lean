import BuildMatrix.Proofs.Json.Quote
import BuildMatrix.Proofs.Yaml.Quotes

/-!
# Double quotes

A text in double quotes is written character by character, and may be broken into lines
(`Quoted`).  However it is broken, it is cut off what follows as a whole (`moveDocumentNode_double`)
and is read as the same text (`doubleValue_quoted`).
-/

namespace BuildMatrix.Yaml

open Lexer

/-! ## What is written -/

/-- The ways to write a character in double quotes. -/
inductive Piece (c : Char) : List Char → Prop
  | plain (hquote : c ≠ '"') (hslash : c ≠ '\\') (hline : c ≠ '\n') (hreturn : c ≠ '\r') :
    Piece c [c]
  | letter {e : Char} (he : escaped? e = some c) : Piece c ['\\', e]
  | code {a b : Nat} (ha : a < 16) (hb : b < 16) (hc : c.toNat = a * 16 + b) :
    Piece c ['\\', 'x', a.digitChar, b.digitChar]

/-- What line breaks stand for: a single one for a space, and more of them for one less. -/
def feedsText (k : Nat) : List Char := if k = 0 then [' '] else List.replicate k '\n'

/-- A text, and what is written for it between double quotes: its characters one by one, line breaks
that are followed by indentation, and such line breaks that stand for nothing. -/
inductive Quoted (n : Nat) : List Char → List Char → Prop
  | nil : Quoted n [] []
  | piece {c : Char} {cs piece out : List Char} (hc : Piece c piece)
    (hwhite : piece.head?.any isWhite = true → out.head? ≠ some '\n') (h : Quoted n cs out) :
    Quoted n (c :: cs) (piece ++ out)
  | feeds {cs out : List Char} (k : Nat) (hhead : ∀ c ∈ out.head?, FoldScan.isGap c = false)
    (h : Quoted n cs out) :
    Quoted n (feedsText k ++ cs) (List.replicate k '\n' ++ breakTo n ++ out)
  | splice {cs out : List Char} (hhead : ∀ c ∈ out.head?, FoldScan.isGap c = false)
    (h : Quoted n cs out) : Quoted n cs ('\\' :: breakTo n ++ out)

theorem Piece.not_mem {c : Char} {piece : List Char} (h : Piece c piece) : '\n' ∉ piece := by
  cases h with
  | plain _ _ hline _ => simpa using Ne.symm hline
  | @letter e he =>
    have : e ≠ '\n' := by
      rintro rfl
      simp [escaped?] at he
    simpa using Ne.symm this
  | code ha hb _ =>
    have hfeed {d : Nat} (hd : d < 16) : '\n' ≠ d.digitChar := by
      have key : ∀ d : Fin 16, '\n' ≠ d.val.digitChar := by decide
      exact key ⟨d, hd⟩
    simp [hfeed ha, hfeed hb]

theorem Piece.not_mem_return {c : Char} {piece : List Char} (h : Piece c piece) : '\r' ∉ piece := by
  cases h with
  | plain _ _ _ hreturn => simpa using Ne.symm hreturn
  | @letter e he =>
    have : e ≠ '\r' := by
      rintro rfl
      simp [escaped?] at he
    simpa using Ne.symm this
  | code ha hb _ =>
    have hreturn {d : Nat} (hd : d < 16) : '\r' ≠ d.digitChar := by
      have key : ∀ d : Fin 16, '\r' ≠ d.val.digitChar := by decide
      exact key ⟨d, hd⟩
    simp [hreturn ha, hreturn hb]

variable {n : Nat} {cs out : List Char}

theorem Quoted.not_mem_return (h : Quoted n cs out) : '\r' ∉ out := by
  induction h with
  | nil => simp
  | piece hc _ _ ih => simp [hc.not_mem_return, ih]
  | feeds k _ _ ih => simp [breakTo, ih]
  | splice _ _ ih => simp [breakTo, ih]

/-! ## The lexer -/

theorem closeDouble_cons {c : Char} (hquote : c ≠ '"') (hslash : c ≠ '\\') (rest : List Char) :
    closeDouble (c :: rest) = (closeDouble rest).map fun (text, tail) => (c :: text, tail) := by
  rw [closeDouble]
  · rintro _ _ rfl
    exact absurd rfl hslash
  · exact hquote

theorem closeDouble_piece {c : Char} {piece : List Char} (h : Piece c piece) (rest : List Char) :
    closeDouble (piece ++ rest) =
      (closeDouble rest).map fun (text, tail) => (piece ++ text, tail) := by
  cases h with
  | plain hquote hslash _ _ => exact closeDouble_cons hquote hslash rest
  | letter _ => simp [closeDouble]
  | code ha hb _ =>
    have hdigit {d : Nat} (hd : d < 16) : d.digitChar ≠ '"' ∧ d.digitChar ≠ '\\' := by
      have key : ∀ d : Fin 16, d.val.digitChar ≠ '"' ∧ d.val.digitChar ≠ '\\' := by decide
      exact key ⟨d, hd⟩
    rw [List.cons_append, List.cons_append, closeDouble, List.cons_append, List.cons_append,
      closeDouble_cons (hdigit ha).1 (hdigit ha).2, closeDouble_cons (hdigit hb).1 (hdigit hb).2,
      List.nil_append]
    cases closeDouble rest <;> rfl

theorem closeDouble_line {line : List Char} (hquote : '"' ∉ line) (hslash : '\\' ∉ line)
    (rest : List Char) :
    closeDouble (line ++ rest) =
      (closeDouble rest).map fun (text, tail) => (line ++ text, tail) := by
  induction line with
  | nil => simp
  | cons c line ih =>
    simp only [List.mem_cons, not_or] at hquote hslash
    rw [List.cons_append, closeDouble_cons (Ne.symm hquote.1) (Ne.symm hslash.1), ih hquote.2 hslash.2,
      Option.map_map]
    rfl

theorem closeDouble_quoted (h : Quoted n cs out) (rest : List Char) :
    closeDouble (out ++ '"' :: rest) = some (out ++ ['"'], rest) := by
  induction h with
  | nil => rfl
  | piece hc _ _ ih =>
    rw [List.append_assoc, closeDouble_piece hc, ih]
    simp
  | feeds k _ _ ih =>
    rw [List.append_assoc, closeDouble_line (by simp [breakTo]) (by simp [breakTo]), ih]
    simp
  | @splice cs out _ _ ih =>
    have hbreak : closeDouble (List.replicate n ' ' ++ (out ++ '"' :: rest)) =
        some (List.replicate n ' ' ++ (out ++ ['"']), rest) := by
      rw [closeDouble_line (by simp) (by simp), ih]
      rfl
    rw [breakTo, List.cons_append, List.cons_append, List.cons_append, List.cons_append, closeDouble,
      List.append_assoc, hbreak]
    simp

theorem continues_feeds {i : Nat} (hi : 0 < i) (hn : i ≤ n) (k : Nat) (rest : List Char) :
    continues i (List.replicate k '\n' ++ (List.replicate n ' ' ++ rest)) = true := by
  cases k with
  | zero => exact continues_spaces hi hn rest
  | succ k =>
    rw [continues, if_neg (Nat.ne_of_gt hi)]
    rfl

/-- The lines after line feeds are indented enough to stay in the quotes. -/
theorem cutAtUnindent_feeds {i : Nat} (hi : 0 < i) (hn : i ≤ n) (k : Nat) (after tail : List Char) :
    cutAtUnindent i after (List.replicate k '\n' ++ (List.replicate n ' ' ++ tail)) =
      List.replicate k '\n' ++ (List.replicate n ' ' ++ cutAtUnindent i after tail) := by
  induction k with
  | zero => exact cutAtUnindent_line i after (by simp) (by simp) tail
  | succ k ih =>
    rw [List.replicate_succ, List.cons_append, cutAtUnindent, if_pos, ih, List.cons_append]
    rw [List.append_assoc, List.append_assoc]
    exact continues_feeds hi hn k _

theorem feeds_breakTo (k : Nat) (rest : List Char) :
    List.replicate k '\n' ++ breakTo n ++ rest =
      List.replicate (k + 1) '\n' ++ (List.replicate n ' ' ++ rest) := by
  rw [breakTo, List.replicate_succ', List.append_assoc, List.append_assoc]
  rfl

theorem cutAtUnindent_quoted {i : Nat} (hi : 0 < i) (hn : i ≤ n) (h : Quoted n cs out)
    (after tail : List Char) :
    cutAtUnindent i after (out ++ tail) = out ++ cutAtUnindent i after tail := by
  induction h with
  | nil => rfl
  | piece hc _ _ ih =>
    rw [List.append_assoc, cutAtUnindent_line i after hc.not_mem hc.not_mem_return, ih, List.append_assoc]
  | feeds k _ _ ih =>
    rw [List.append_assoc, feeds_breakTo, cutAtUnindent_feeds hi hn, ih, List.append_assoc, feeds_breakTo]
  | @splice cs out _ _ ih =>
    have hslash : '\\' :: breakTo n ++ out = ['\\'] ++ (List.replicate 0 '\n' ++ breakTo n ++ out) := rfl
    rw [hslash, feeds_breakTo, List.append_assoc, List.append_assoc, List.append_assoc,
      cutAtUnindent_line i after (by simp) (by simp), cutAtUnindent_feeds hi hn, ih, List.append_assoc,
      List.append_assoc, List.append_assoc]

/-- A text in double quotes is cut from its line as a whole. -/
theorem moveDocumentNode_double {m : Memory} {rest : List Char} (hflow : m.flowLevel = 0)
    (hnext : 0 < m.indentNext) (hn : m.indentNext ≤ n) (h : Quoted n cs out) :
    moveDocumentNode m ('"' :: out ++ ['"'] ++ '\n' :: rest) =
      ⟨[⟨.doubleQuoted, '"' :: out ++ ['"']⟩], .document, m, '\n' :: rest⟩ := by
  have hclose := closeDouble_quoted h ('\n' :: rest)
  have hcut : cutAtUnindent m.indentNext ('\n' :: rest) (out ++ ['"']) = out ++ ['"'] := by
    rw [cutAtUnindent_quoted hnext hn h]
    rfl
  have hquoted : cutQuoted m.indentNext ('"' :: (out ++ '"' :: '\n' :: rest)) =
      (⟨.doubleQuoted, '"' :: out ++ ['"']⟩, '\n' :: rest) := by
    simp [cutQuoted, hclose, hcut]
  have hform : '"' :: out ++ ['"'] ++ '\n' :: rest = '"' :: (out ++ '"' :: '\n' :: rest) := by
    simp
  rw [hform]
  simp [moveDocumentNode, cutProperty?, indicator?, lineEndAt, hquoted, modeAfter, hflow]

/-! ## The value -/

/-- A run of white space stands for itself. -/
theorem Quoted.white (h : Quoted n cs out) (hfeed : out.head? ≠ some '\n') :
    ∃ cs', cs = out.takeWhile isWhite ++ cs' ∧ Quoted n cs' (out.dropWhile isWhite) ∧
      (out.dropWhile isWhite).head? ≠ some '\n' := by
  induction h with
  | nil => exact ⟨[], rfl, .nil, hfeed⟩
  | @piece c cs piece out hc hwhite h ih =>
    cases hc with
    | plain hquote hslash hline hreturn =>
      cases hblank : isWhite c with
      | false =>
        refine ⟨c :: cs, by simp [hblank], ?_, by simpa [hblank] using hline⟩
        simpa [hblank] using h.piece (.plain hquote hslash hline hreturn) hwhite
      | true =>
        obtain ⟨cs', hcs, hrest, hhead⟩ := ih (hwhite hblank)
        rw [List.singleton_append, List.takeWhile_cons_of_pos hblank, List.dropWhile_cons_of_pos hblank]
        exact ⟨cs', congrArg (c :: ·) hcs, hrest, hhead⟩
    | letter he => exact ⟨c :: cs, rfl, h.piece (.letter he) hwhite, hfeed⟩
    | code ha hb hc => exact ⟨c :: cs, rfl, h.piece (.code ha hb hc) hwhite, hfeed⟩
  | feeds k =>
    refine absurd ?_ hfeed
    cases k <;> rfl
  | splice hhead h => exact ⟨_, rfl, h.splice hhead, hfeed⟩

theorem doubleCodes_letter {n offset : Nat} {c e : Char} (he : escaped? e = some c)
    (tail : List Char) :
    doubleCodes (n + 1) offset ('\\' :: e :: tail) = do
      return c.toNat :: (← doubleCodes n (offset + 2) tail) := by
  have hline : e ≠ '\n' := by
    rintro rfl
    simp [escaped?] at he
  have hreturn : e ≠ '\r' := by
    rintro rfl
    simp [escaped?] at he
  rw [doubleCodes]
  · rw [he]
  · exact fun h => absurd h hline
  · exact fun _ h => absurd h hreturn

theorem doubleCodes_code {n offset a b : Nat} {c : Char} (ha : a < 16) (hb : b < 16)
    (hc : c.toNat = a * 16 + b) (tail : List Char) :
    doubleCodes (n + 1) offset ('\\' :: 'x' :: a.digitChar :: b.digitChar :: tail) = do
      return c.toNat :: (← doubleCodes n (offset + 4) tail) := by
  have hwidth {d : Nat} (hd : d < 16) : Text.width d.digitChar = 1 := by
    have key : ∀ d : Fin 16, Text.width d.val.digitChar = 1 := by decide
    exact key ⟨d, hd⟩
  have hdigits : Text.takeUnits 2 (a.digitChar :: b.digitChar :: tail) =
      [a.digitChar, b.digitChar] := by
    simp [Text.takeUnits, hwidth ha, hwidth hb]
  have hvalue : codeValue? 2 [a.digitChar, b.digitChar] = some c.toNat := by
    have hle : a * 16 + b ≤ 0x10FFFF := by omega
    simp [codeValue?, Json.hexValue?_digitChar ha, Json.hexValue?_digitChar hb, hc, hle]
  rw [doubleCodes]
  · simp only [escaped?, codeLength?, hdigits, hvalue]
    simp [Text.widthOf, hwidth ha, hwidth hb]
  · simp
  · simp

theorem doubleCodes_plain {n offset : Nat} {c : Char} (hslash : c ≠ '\\') (hline : c ≠ '\n')
    (hreturn : c ≠ '\r') (hwhite : isWhite c = false) {rest : List Char} (hrest : rest ≠ []) :
    doubleCodes (n + 1) offset (c :: rest) = do
      return c.toNat :: (← doubleCodes n (offset + Text.width c) rest) := by
  rw [doubleCodes]
  · rw [hwhite]
    rfl
  · exact hrest
  · exact hline
  · exact fun _ h => absurd h hreturn
  · exact fun _ h => absurd h hslash
  · exact fun _ h => absurd h hslash
  · exact fun _ _ h => absurd h hslash

theorem doubleCodes_white {n offset : Nat} {c : Char} (hwhite : isWhite c = true)
    {rest : List Char} (hrest : rest ≠ []) (hline : (rest.dropWhile isWhite).head? ≠ some '\n')
    (hreturn : (rest.dropWhile isWhite).head? ≠ some '\r') :
    doubleCodes (n + 1) offset (c :: rest) = do
      let codes ← doubleCodes n (offset + (c :: rest.takeWhile isWhite).length)
        (rest.dropWhile isWhite)
      return (c :: rest.takeWhile isWhite).map Char.toNat ++ codes := by
  have hblank : c = ' ' ∨ c = '\t' := by simpa [isWhite] using hwhite
  rw [doubleCodes]
  · rw [if_pos hwhite]
    dsimp only
    congr 1
    funext codes
    split
    next heq => exact absurd (by rw [heq]; rfl) hline
    next heq => exact absurd (by rw [heq]; rfl) hreturn
    next => rfl
  · exact hrest
  · rintro rfl
    simp at hblank
  · rintro _ rfl
    simp at hblank
  · rintro _ rfl
    simp at hblank
  · rintro _ rfl
    simp at hblank
  · rintro _ _ rfl
    simp at hblank

theorem takeWhile_white_quote (out : List Char) :
    (out ++ ['"']).takeWhile isWhite = out.takeWhile isWhite := by
  rw [List.takeWhile_append]
  split
  next h =>
    rw [(List.takeWhile_prefix isWhite).eq_of_length h]
    exact List.append_nil _
  next => rfl

theorem dropWhile_white_quote (out : List Char) :
    (out ++ ['"']).dropWhile isWhite = out.dropWhile isWhite ++ ['"'] := by
  rw [List.dropWhile_append]
  split <;> simp_all [isWhite]

theorem foldBreak_solid {tail : List Char} (hgap : ∀ c ∈ tail.head?, FoldScan.isGap c = false)
    (hreturn : tail.head? ≠ some '\r') : foldBreak tail = ([], tail) := by
  cases tail with
  | nil => rfl
  | cons c tail =>
    have hc := hgap c rfl
    rw [foldBreak, if_neg]
    · rw [isWhite_of_isGap hc]
      exact Bool.false_ne_true
    · rintro rfl
      exact absurd hc (by decide)
    · rintro _ rfl
      exact absurd rfl hreturn

theorem foldBreak_spaces (n : Nat) (tail : List Char) :
    foldBreak (List.replicate n ' ' ++ tail) = foldBreak tail := by
  induction n with
  | zero => rfl
  | succ n ih =>
    rw [List.replicate_succ, List.cons_append, foldBreak, if_pos (by decide), ih]
    · decide
    · simp

theorem foldBreak_feeds (k : Nat) {tail : List Char}
    (hgap : ∀ c ∈ tail.head?, FoldScan.isGap c = false) (hreturn : tail.head? ≠ some '\r') :
    foldBreak (List.replicate k '\n' ++ (List.replicate n ' ' ++ tail)) =
      (List.replicate k '\n', tail) := by
  induction k with
  | zero => exact (foldBreak_spaces n tail).trans (foldBreak_solid hgap hreturn)
  | succ k ih =>
    rw [List.replicate_succ, List.cons_append, foldBreak, ih]

/-- Line breaks are folded, and the indentation behind them is passed over. -/
theorem doubleCodes_feeds (n m offset : Nat) {tail : List Char}
    (hgap : ∀ c ∈ tail.head?, FoldScan.isGap c = false) (hreturn : tail.head? ≠ some '\r')
    (hne : tail ≠ []) (k : Nat) :
    ∃ after, doubleCodes (m + 1) offset (List.replicate k '\n' ++ breakTo n ++ tail) = do
      let codes ← doubleCodes m after tail
      return (feedsText k).map Char.toNat ++ codes := by
  have hfold : (if (List.replicate k '\n').isEmpty then [' '] else List.replicate k '\n') =
      feedsText k := by
    cases k <;> rfl
  rw [feeds_breakTo, List.replicate_succ, List.cons_append, doubleCodes, foldBreak_feeds k hgap hreturn]
  · dsimp only
    rw [hfold]
    exact ⟨_, rfl⟩
  · simp [hne]

theorem doubleCodes_splice (n m offset : Nat) {tail : List Char}
    (hgap : ∀ c ∈ tail.head?, FoldScan.isGap c = false) :
    ∃ after, doubleCodes (m + 1) offset ('\\' :: breakTo n ++ tail) = doubleCodes m after tail := by
  have hdrop : (List.replicate n ' ' ++ tail).dropWhile isWhite = tail := by
    rw [List.dropWhile_append_of_pos (by simp [isWhite]),
      dropWhile_of_head? fun c hc => isWhite_of_isGap (hgap c hc)]
  rw [breakTo, List.cons_append, List.cons_append, doubleCodes, hdrop]
  exact ⟨_, rfl⟩

theorem Quoted.quote_head (h : Quoted n cs out)
    (hhead : ∀ c ∈ out.head?, FoldScan.isGap c = false) :
    (∀ c ∈ (out ++ ['"']).head?, FoldScan.isGap c = false) ∧ (out ++ ['"']).head? ≠ some '\r' := by
  have hreturn := h.not_mem_return
  cases out with
  | nil => exact ⟨by simp [FoldScan.isGap], by simp⟩
  | cons c out =>
    simp only [List.mem_cons, not_or] at hreturn
    exact ⟨hhead, by simpa using Ne.symm hreturn.1⟩

/-- A text in double quotes is read as the codes of its characters. -/
theorem doubleCodes_quoted (m : Nat) :
    ∀ {offset : Nat} {cs out : List Char} {rs : List Report}, Quoted n cs out → out.length < m →
      (doubleCodes m offset (out ++ ['"'])).run rs = (cs.map Char.toNat, rs) := by
  induction m with
  | zero =>
    intro _ _ _ _ _ h
    exact absurd h (Nat.not_lt_zero _)
  | succ m ih =>
    intro offset cs out rs h hlength
    have hreturn := h.not_mem_return
    cases h with
    | nil => rfl
    | @piece c cs piece out hc hfeed h =>
      cases hc with
      | plain hquote hslash hline hnot =>
        simp only [List.cons_append, List.nil_append, List.length_cons] at hlength ⊢
        cases hwhite : isWhite c with
        | false =>
          rw [doubleCodes_plain hslash hline hnot hwhite (by simp), StateT.run_bind, ih h (by omega)]
          rfl
        | true =>
          obtain ⟨cs', rfl, hrest, hhead⟩ := h.white (hfeed hwhite)
          have hlt := (List.dropWhile_sublist isWhite (l := out)).length_le
          have hsuffix : '\r' ∉ out.dropWhile isWhite := by
            simp only [List.cons_append, List.nil_append, List.mem_cons, not_or] at hreturn
            exact fun hmem => hreturn.2 ((List.dropWhile_sublist isWhite).mem hmem)
          have hends {d : Char} (hd : d ≠ '"') (hout : (out.dropWhile isWhite).head? ≠ some d) :
              ((out ++ ['"']).dropWhile isWhite).head? ≠ some d := by
            rw [dropWhile_white_quote]
            cases hdrop : out.dropWhile isWhite with
            | nil => simpa using Ne.symm hd
            | cons a more => simpa [hdrop] using hout
          rw [doubleCodes_white hwhite (by simp) (hends (by decide) hhead)
            (hends (by decide) fun hr => hsuffix (List.mem_of_mem_head? hr)), takeWhile_white_quote,
            dropWhile_white_quote, StateT.run_bind, ih hrest (by omega)]
          simp
          rfl
      | letter he =>
        simp only [List.cons_append, List.nil_append, List.length_cons] at hlength ⊢
        rw [doubleCodes_letter he, StateT.run_bind, ih h (by omega)]
        rfl
      | code ha hb hc =>
        simp only [List.cons_append, List.nil_append, List.length_cons] at hlength ⊢
        rw [doubleCodes_code ha hb hc, StateT.run_bind, ih h (by omega)]
        rfl
    | @feeds cs out k hhead h =>
      simp only [List.length_append, breakTo, List.length_cons] at hlength
      obtain ⟨hgap, hnot⟩ := h.quote_head hhead
      obtain ⟨after, hcodes⟩ := doubleCodes_feeds n m offset hgap hnot (by simp) k
      rw [List.append_assoc, hcodes, StateT.run_bind, ih h (by omega)]
      simp
      rfl
    | @splice cs out hhead h =>
      simp only [List.length_append, breakTo, List.length_cons] at hlength
      obtain ⟨after, hcodes⟩ := doubleCodes_splice n m offset (h.quote_head hhead).1
      rw [List.append_assoc, hcodes, ih h (by omega)]

theorem ofCodes_map_toNat (cs : List Char) : ofCodes (cs.map Char.toNat) = cs := by
  induction cs with
  | nil => rfl
  | cons c cs ih =>
    cases cs with
    | nil => simp [ofCodes]
    | cons d cs =>
      have hpair : Json.surrogatePair? c.toNat d.toNat = none := by
        have hvalid : c.toNat < 0xD800 ∨ 0xDFFF < c.toNat ∧ c.toNat < 0x110000 := c.valid
        rw [Json.surrogatePair?, if_neg (by omega)]
      simp only [List.map_cons] at ih ⊢
      rw [ofCodes, hpair, ih]
      simp

/-- A text in double quotes is read as the text that it was written for. -/
theorem doubleValue_quoted {t : Token} (htext : t.text = '"' :: out ++ ['"']) (h : Quoted n cs out)
    (rs : List Report) : (doubleValue t).run rs = (cs, rs) := by
  have hclosed : (t.text.getLast? != some '"' || t.text.length == 1) = false := by
    simp [htext, List.getLast?_cons]
  have hinner : t.text.drop 1 = out ++ ['"'] := by
    simp [htext]
  have hlength : out.length < t.text.length := by
    rw [htext, List.length_append, List.length_cons]
    omega
  rw [doubleValue, hclosed, hinner, StateT.run_bind, doubleCodes_quoted _ h hlength]
  show (ofCodes (cs.map Char.toNat), rs) = (cs, rs)
  rw [ofCodes_map_toNat]

end BuildMatrix.Yaml
