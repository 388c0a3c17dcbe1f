import BuildMatrix.Proofs.Yaml.Broken
import BuildMatrix.Yaml.ScalarText
import BuildMatrix.Yaml.Token.Lexer
import Mathlib.Data.List.Chain

/-!
# Plain scalars

A text that is written plain is cut from its line as one scalar, however its lines were broken
(`moveDocumentNode_plain`), and is read as the same text (`plainValue_folded`,
`ofPlain_eq_string`).
-/

namespace BuildMatrix.Yaml

open ScalarText

theorem hasClash_eq_false {cs : List Char} :
    hasClash cs = false ↔ cs.IsChain (clash · · = false) := by
  induction cs with
  | nil => simp [hasClash]
  | cons a cs ih =>
    cases cs with
    | nil => simp [hasClash]
    | cons b rest => simp [hasClash, ih]

/-- A text that stays whole as a plain scalar wherever it stands in a line. -/
structure Smooth (cs : List Char) : Prop where
  nonempty : cs ≠ []
  head : ∀ c ∈ cs.head?, isGap c = false
  chain : cs.IsChain (clash · · = false)
  last : ∀ c ∈ cs.getLast?, isGap c = false ∧ c ≠ ':'
  noReturn : '\r' ∉ cs

theorem Smooth.of_append {line rest : List Char} (h : Smooth (line ++ ' ' :: rest))
    (hlast : ∀ c ∈ line.getLast?, isGap c = false) (hhead : ∀ c ∈ rest.head?, isGap c = false) :
    Smooth line ∧ Smooth rest := by
  obtain ⟨-, hstart, hchain, hstop, hreturn⟩ := h
  obtain ⟨hline, hrest, hspace⟩ := List.isChain_append.mp hchain
  have hreturns : '\r' ∉ line ∧ '\r' ∉ rest := by simpa using hreturn
  constructor
  · refine ⟨?_, fun c hc => ?_, hline, fun c hc => ⟨hlast c hc, ?_⟩, hreturns.1⟩
    · rintro rfl
      simp [isGap] at hstart
    · refine hstart c ?_
      rw [Option.mem_def] at hc ⊢
      rw [List.head?_append, hc]
      rfl
    · rintro rfl
      have := hspace _ hc ' ' rfl
      simp [clash, isBlank] at this
  · refine ⟨?_, hhead, hrest.tail, fun c hc => hstop c ?_, hreturns.2⟩
    · rintro rfl
      simp [isGap] at hstop
    · rw [Option.mem_def] at hc ⊢
      rw [List.getLast?_append, List.getLast?_cons, hc]
      rfl

/-! ## Cutting -/

namespace Lexer

variable {i k p : Nat} {c : Char} {rest : List Char}

theorem plainLength_colon (h : emptyAt rest = false) :
    plainLength i false k p (':' :: rest) = plainLength i false (k + p + 1) 0 rest := by
  simp [plainLength, h]

theorem plainLength_blank (hc : isBlank c = true) (h : rest.head? ≠ some '#') :
    plainLength i false k p (c :: rest) = plainLength i false k (p + 1) rest := by
  obtain rfl | rfl : c = ' ' ∨ c = '\t' := by simpa [isBlank] using hc
  · simp [plainLength, h]
  · simp [plainLength, h]

theorem plainLength_other (hgap : ScalarText.isGap c = false) (hcolon : c ≠ ':')
    (hreturn : c ≠ '\r') :
    plainLength i false k p (c :: rest) = plainLength i false (k + p + 1) 0 rest := by
  simp only [ScalarText.isGap, Bool.or_eq_false_iff, beq_eq_false_iff_ne] at hgap
  rw [plainLength]
  · simp [hgap]
  · exact hcolon
  · rintro _ rfl
    exact absurd rfl hreturn
  · exact hreturn

theorem plainLength_feed (h : rest.head? ≠ some '#') (hc : continues i rest = true) :
    plainLength i false k p ('\n' :: rest) = plainLength i false k (p + 1) rest := by
  simp [plainLength, h, hc]

theorem plainLength_end (hc : continues i rest = false) :
    plainLength i false k p ('\n' :: rest) = k := by
  simp [plainLength, hc]

theorem plainLength_spaces (h : rest.head? ≠ some '#') (n : Nat) :
    plainLength i false k p (List.replicate n ' ' ++ rest) = plainLength i false k (p + n) rest := by
  induction n generalizing p with
  | zero => rfl
  | succ n ih =>
    have hhead : (List.replicate n ' ' ++ rest).head? ≠ some '#' := by
      cases n with
      | zero => exact h
      | succ n => simp [List.replicate_succ]
    rw [List.replicate_succ, List.cons_append, plainLength_blank rfl hhead, ih, Nat.add_assoc,
      Nat.add_comm 1 n]

/-- A line that is indented enough belongs to the scalar. -/
theorem continues_spaces {j : Nat} (hi : 0 < i) (h : i ≤ j) (rest : List Char) :
    continues i (List.replicate j ' ' ++ rest) = true := by
  rw [continues, if_neg (Nat.ne_of_gt hi)]
  split
  · rfl
  · rfl
  · have hlength : j ≤ ((List.replicate j ' ' ++ rest).takeWhile (· == ' ')).length := by
      rw [List.takeWhile_append_of_pos (by simp)]
      simp
    simpa using h.trans hlength

theorem plainLength_line {line : List Char} (hchain : line.IsChain (clash · · = false))
    (hlast : ∀ c ∈ line.getLast?, ScalarText.isGap c = false ∧ c ≠ ':') (hfeed : '\n' ∉ line)
    (hreturn : '\r' ∉ line) (tail : List Char) :
    ∀ {k p : Nat}, line ≠ [] → plainLength i false k p (line ++ tail) =
      plainLength i false (k + p + line.length) 0 tail := by
  induction line with
  | nil => exact fun hnil => absurd rfl hnil
  | cons a line ih =>
    intro k p _
    simp only [List.mem_cons, not_or] at hfeed hreturn
    cases line with
    | nil =>
      obtain ⟨hgap, hcolon⟩ := hlast a rfl
      exact plainLength_other hgap hcolon (Ne.symm hreturn.1)
    | cons b line =>
      have hclash := hchain.rel
      have hrest := @ih hchain.tail (fun c hc => hlast c (by simpa using hc)) hfeed.2 hreturn.2
      simp only [clash, Bool.or_eq_false_iff, Bool.and_eq_false_iff] at hclash
      simp only [List.mem_cons, not_or] at hfeed hreturn
      rw [List.cons_append]
      by_cases hcolon : a = ':'
      · subst hcolon
        have hempty : emptyAt (b :: line ++ tail) = false := by
          have := hclash.1.1
          simp [emptyAt, ScalarText.isBlank, Ne.symm hfeed.2.1, Ne.symm hreturn.2.1] at this ⊢
          exact this
        rw [plainLength_colon hempty, hrest (List.cons_ne_nil _ _)]
        simp only [List.length_cons]
        congr 1
        omega
      · cases hgap : ScalarText.isGap a with
        | false =>
          rw [plainLength_other hgap hcolon (Ne.symm hreturn.1), hrest (List.cons_ne_nil _ _)]
          simp only [List.length_cons]
          congr 1
          omega
        | true =>
          have hblank : isBlank a = true := by
            simpa [ScalarText.isGap, isBlank, Ne.symm hfeed.1] using hgap
          have hhash : (b :: line ++ tail).head? ≠ some '#' := by
            simpa [hgap] using hclash.2
          rw [plainLength_blank hblank hhash, hrest (List.cons_ne_nil _ _)]
          simp only [List.length_cons]
          congr 1
          omega

/-- A plain scalar is taken up to the end of its last line. -/
theorem plainLength_folded {indent : Nat} (hi : 0 < i) (hindent : i ≤ indent) {cs out : List Char}
    (h : Folded indent cs out) (hrest : continues i rest = false) :
    ∀ {k p : Nat}, Smooth cs →
      plainLength i false k p (out ++ '\n' :: rest) = k + p + out.length := by
  induction h with
  | @whole cs hcs =>
    intro k p hs
    rw [plainLength_line hs.chain hs.last hcs hs.noReturn _ hs.nonempty, plainLength_end hrest]
  | @broken line more out hline hlast hhead h ih =>
    intro k p hs
    obtain ⟨hfront, hback⟩ := hs.of_append hlast hhead
    have hhash : (out ++ '\n' :: rest).head? ≠ some '#' := by
      obtain ⟨-, htail, -⟩ := List.isChain_append.mp hs.chain
      have hclash := (List.isChain_cons.mp htail).1
      intro hsome
      rw [List.head?_append, h.head? hhead] at hsome
      cases hmore : more.head? with
      | none => simp [hmore] at hsome
      | some c =>
        obtain rfl : c = '#' := by simpa [hmore] using hsome
        have := hclash _ hmore
        simp [clash, ScalarText.isGap] at this
    have hstart : (List.replicate indent ' ' ++ (out ++ '\n' :: rest)).head? ≠ some '#' := by
      obtain ⟨n, rfl⟩ := Nat.exists_eq_add_of_lt (Nat.lt_of_lt_of_le hi hindent)
      simp [List.replicate_succ]
    rw [breakTo, List.append_assoc, List.append_assoc,
      plainLength_line hfront.chain hfront.last hline hfront.noReturn _ hfront.nonempty,
      List.cons_append, List.append_assoc,
      plainLength_feed hstart (continues_spaces hi hindent _), plainLength_spaces hhash, ih hback]
    simp
    omega

end Lexer

/-! ## Reading -/

/-- What a text is that may be written as a plain scalar. -/
structure IsPlain (cs : List Char) : Prop where
  nonempty : cs ≠ []
  unquoted : needsQuotes cs = false
  line : '\n' ∉ cs
  noReturn : '\r' ∉ cs

namespace IsPlain

variable {cs : List Char} {c : Char}

theorem head (h : IsPlain cs) : ∀ c ∈ cs.head?, isReserved c = false := by
  have := h.unquoted
  simp only [needsQuotes, Bool.or_eq_false_iff] at this
  intro c hc
  simpa [Option.mem_def.mp hc] using this.1.1.1

theorem smooth (h : IsPlain cs) : Smooth cs := by
  have hquotes := h.unquoted
  simp only [needsQuotes, Bool.or_eq_false_iff] at hquotes
  refine ⟨h.nonempty, fun c hc => ?_, hasClash_eq_false.mp hquotes.1.2, fun c hc => ?_, h.noReturn⟩
  · have := h.head c hc
    simp only [isReserved, Bool.or_eq_false_iff] at this
    exact this.1
  · have := hquotes.2
    rw [Option.mem_def.mp hc] at this
    simp only [Option.any_some, Bool.or_eq_false_iff, beq_eq_false_iff_ne] at this
    exact this.1

/-- A mark that could start an item is followed by a character. -/
theorem second (h : IsPlain (c :: cs)) (hc : (Lexer.indicator? c).isSome) :
    ∃ b rest, cs = b :: rest ∧ b ≠ ' ' ∧ ∀ more, Lexer.emptyAt (b :: more) = false := by
  have hquotes := h.unquoted
  have hline := h.line
  have hreturn := h.noReturn
  have hmark : c = '-' ∨ c = '?' ∨ c = ':' := by
    unfold Lexer.indicator? at hc
    split at hc <;> simp_all
  cases cs with
  | nil =>
    obtain rfl | rfl | rfl := hmark <;> simp [needsQuotes] at hquotes
  | cons b rest =>
    have hblank : isBlank b = false := by
      obtain rfl | rfl | rfl := hmark
      · simp [needsQuotes] at hquotes
        exact hquotes.1.1.2
      · simp [needsQuotes] at hquotes
        exact hquotes.1.1.2
      · have := h.smooth.chain.rel
        simpa [clash, isGap, isBlank] using this
    simp only [List.mem_cons, not_or] at hline hreturn
    simp only [isBlank, Bool.or_eq_false_iff, beq_eq_false_iff_ne] at hblank
    refine ⟨b, rest, rfl, hblank.1, fun more => ?_⟩
    simp [Lexer.emptyAt, hblank, Ne.symm hline.2.1, Ne.symm hreturn.2.1]

end IsPlain

namespace Lexer

/-- A plain scalar is cut from its line as a whole. -/
theorem moveDocumentNode_plain {m : Memory} {indent : Nat} {cs out rest : List Char}
    (hflow : m.flowLevel = 0) (hnext : 0 < m.indentNext) (hindent : m.indentNext ≤ indent)
    (hcs : IsPlain cs) (h : Folded indent cs out) (hrest : continues m.indentNext rest = false) :
    moveDocumentNode m (out ++ '\n' :: rest) =
      ⟨[⟨.scalar, out⟩], .document, m, '\n' :: rest⟩ := by
  cases cs with
  | nil => exact absurd rfl hcs.nonempty
  | cons c cs =>
    have hreserved := hcs.head c rfl
    have hspace : c ≠ ' ' := by
      rintro rfl
      simp [isReserved, ScalarText.isGap] at hreserved
    have hlength := plainLength_folded hnext hindent h hrest (k := 0) (p := 0) hcs.smooth
    obtain ⟨out, rfl, hout⟩ := h.of_cons hspace
    have hmark (d : Char) (hd : isReserved d = true) : c ≠ d := by
      rintro rfl
      simp [hd] at hreserved
    have hother (d : Char) (hd : isReserved d = true) (t : List Char) :
        c :: out ++ '\n' :: rest ≠ d :: t :=
      fun heq => hmark d hd (List.cons.inj heq).1
    have hproperty : cutProperty? m (c :: out ++ '\n' :: rest) = none := by
      rw [List.cons_append, cutProperty?]
      · cases hc : indicator? c with
        | none => rfl
        | some kind =>
          obtain ⟨b, cs, rfl, hb, hempty⟩ := hcs.second (by simp [hc])
          obtain ⟨out, rfl, -⟩ := hout.of_cons hb
          simp [hempty, hflow]
      · exact hmark '!' rfl
      · exact hmark '&' rfl
    have hreturn : c ≠ '\r' := by
      rintro rfl
      exact hcs.noReturn (.head _)
    have hend : lineEndAt (c :: out ++ '\n' :: rest) = false := by
      rw [List.cons_append, lineEndAt]
      · exact List.cons_ne_nil _ _
      · exact hother '\n' rfl
      · exact fun t heq => hreturn (List.cons.inj heq).1
    rw [moveDocumentNode, hproperty]
    · have htake : (c :: out ++ '\n' :: rest).take (c :: out).length = c :: out :=
        List.take_left
      have hdrop : (c :: out ++ '\n' :: rest).drop (c :: out).length = '\n' :: rest :=
        List.drop_left
      rw [hend, hflow, cutPlain, modeAfter, if_pos hflow]
      simp only [bne_self_eq_false, hlength, Nat.zero_add, htake, hdrop, Bool.false_eq_true,
        ↓reduceIte]
    · exact hother '#' rfl
    · exact hother '\x7b' rfl
    · exact hother '[' rfl
    · exact hother '\x7d' rfl
    · exact hother ']' rfl
    · exact hother '*' rfl
    · exact hother '"' rfl
    · exact hother '\'' rfl
    · exact hother '|' rfl
    · exact hother '>' rfl

end Lexer

/-! ## Reading -/

theorem badStart?_eq_none {cs : List Char} (h : ∀ c ∈ cs.head?, isReserved c = false) :
    badStart? cs = none := by
  unfold badStart?
  split
  case h_8 => rfl
  all_goals exact absurd (h _ rfl) (by decide)

theorem run_bind_of {α β : Type} {x : Reporting α} {f : α → Reporting β} {rs rs' : List Report}
    {a : α} (h : x.run rs = (a, rs')) : (x >>= f).run rs = (f a).run rs' := by
  rw [StateT.run_bind, h]
  rfl

/-- A plain scalar is read as the text that it was written for. -/
theorem plainValue_folded {t : Token} {indent : Nat} {cs : List Char} (hcs : IsPlain cs)
    (h : Folded indent cs t.text) (rs : List Report) : (plainValue t).run rs = (cs, rs) := by
  have hstart : badStart? t.text = none := by
    refine badStart?_eq_none ?_
    rw [h.head? hcs.smooth.head]
    exact hcs.head
  rw [plainValue, hstart, foldLines_folded h hcs.noReturn]
  rfl

namespace Scalar

theorem whole_ne_string (negative : Bool) (base : Nat) (digits : List Char) (s : String) :
    whole negative base digits ≠ .string s := by
  unfold whole
  split <;> simp

theorem based?_ne_string {mark : String} {base : Nat} {cs : List Char} (s : String) :
    based? mark base cs ≠ some (.string s) := by
  unfold based?
  split
  · split
    · simpa using whole_ne_string _ _ _ s
    · simp
  · simp

/-- The form of a tag of a plain scalar does not give a text. -/
theorem ofTag?_ne_string (cs : List Char) (tag : PlainTag) (s : String) :
    ofTag? .v12 cs tag ≠ some (.string s) := by
  cases tag with
  | null =>
    simp only [ofTag?, null?]
    split <;> simp
  | bool =>
    simp only [ofTag?, bool?, reduceCtorEq, ↓reduceIte]
    split
    · simp
    · split <;> simp
  | int =>
    simp only [ofTag?, int12?, reduceCtorEq, ↓reduceIte]
    split
    next heq => exact heq ▸ based?_ne_string s
    next =>
      split
      · simpa using whole_ne_string _ _ _ s
      · exact based?_ne_string s
  | float =>
    simp only [ofTag?, float12?, reduceCtorEq, ↓reduceIte]
    split
    · simp
    · split <;> split <;> simp
  | timestamp =>
    simp only [ofTag?]
    split <;> simp
  | merge =>
    simp only [ofTag?]
    split <;> simp

/-- Keys are not special in version 1.2. -/
theorem ofPlain_atKey (cs : List Char) : ofPlain .v12 true cs = ofPlain .v12 false cs := by
  rw [ofPlain, ofPlain, plainTags, plainTags, if_neg (by simp), if_neg (by simp)]

end Scalar

/-- A plain text that is not a value of another kind is a text. -/
theorem ofPlain_eq_string {cs : List Char} (h : isValue cs = false) :
    Scalar.ofPlain .v12 false cs = .string (.ofList cs) := by
  unfold isValue at h
  unfold Scalar.ofPlain at h ⊢
  cases hfind : (Scalar.plainTags .v12 false).findSome? (Scalar.ofTag? .v12 cs) with
  | none => rfl
  | some v =>
    obtain ⟨tag, -, htag⟩ := List.exists_of_findSome?_eq_some hfind
    cases v with
    | string s => exact absurd htag (Scalar.ofTag?_ne_string cs tag s)
    | _ => simp [hfind] at h

end BuildMatrix.Yaml
