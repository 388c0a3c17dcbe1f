import Mathlib.Data.List.Basic
import BuildMatrix.Prompt

/-!
# Which text a question is answered with

The attempts at a question are told apart by their numbers.  The text that stands in the prompt at
an attempt is the one typed last, or the one that stood there at first (`textAt`).  A text is
submitted by the first attempt at which it is not blank, if nothing was cancelled before
(`submitted_eq_some_iff`); a cancel before that ends the question without one
(`submitted_of_cancels`).
-/

namespace BuildMatrix.TextAnswer

/-- The text that an attempt types. -/
def typed? : TextAnswer → Option String
  | .typed text => some text
  | .enter | .cancel => none

/-- The text that stands in the prompt at an attempt, the first of them having number zero. -/
def textAt (standing : String) (answers : List TextAnswer) (k : Nat) : String :=
  (((answers.take (k + 1)).filterMap typed?).getLast?).getD standing

/-- An attempt is made: no attempt before it was a cancel or had a text to submit. -/
def IsMade (standing : String) (answers : List TextAnswer) (k : Nat) : Prop :=
  ∀ j < k, answers[j]? ≠ some .cancel ∧ Text.isBlankText (textAt standing answers j) = true

/-- An attempt submits a text. -/
structure Submits (standing : String) (answers : List TextAnswer) (k : Nat) (text : String) :
    Prop where
  made : IsMade standing answers k
  attempt : ∃ answer, answers[k]? = some answer ∧ answer ≠ .cancel
  stands : textAt standing answers k = text
  filled : Text.isBlankText text = false

/-- An attempt cancels the question. -/
structure Cancels (standing : String) (answers : List TextAnswer) (k : Nat) : Prop where
  made : IsMade standing answers k
  attempt : answers[k]? = some .cancel

/-! ## The first attempt and the rest -/

variable {standing text : String} {answer : TextAnswer} {rest : List TextAnswer} {k : Nat}

theorem textAt_zero : textAt standing (answer :: rest) 0 = answer.typed?.getD standing := by
  cases answer <;> rfl

/-- After the first attempt, the text that it left stands in the prompt. -/
theorem textAt_succ :
    textAt standing (answer :: rest) (k + 1) = textAt (answer.typed?.getD standing) rest k := by
  unfold textAt
  rw [List.take_succ_cons]
  cases answer with
  | typed text => simp [typed?, List.getLast?_cons]
  | enter => simp [typed?]
  | cancel => simp [typed?]

theorem submitted_cons (h : answer ≠ .cancel) :
    submitted standing (answer :: rest) =
      if Text.isBlankText (answer.typed?.getD standing) = true then
        submitted (answer.typed?.getD standing) rest
      else some (answer.typed?.getD standing) := by
  cases answer with
  | typed text => rfl
  | enter => rfl
  | cancel => exact absurd rfl h

theorem isMade_succ :
    IsMade standing (answer :: rest) (k + 1) ↔
      (answer ≠ .cancel ∧ Text.isBlankText (answer.typed?.getD standing) = true) ∧
        IsMade (answer.typed?.getD standing) rest k := by
  constructor
  · intro h
    refine ⟨?_, fun j hj => ?_⟩
    · have hfirst := h 0 (Nat.succ_pos k)
      rw [textAt_zero] at hfirst
      simpa using hfirst
    · have hnext := h (j + 1) (Nat.succ_lt_succ hj)
      rw [textAt_succ] at hnext
      simpa using hnext
  · rintro ⟨hfirst, hrest⟩ j hj
    cases j with
    | zero =>
      rw [textAt_zero]
      simpa using hfirst
    | succ j =>
      rw [textAt_succ]
      simpa using hrest j (Nat.lt_of_succ_lt_succ hj)

theorem submits_zero :
    Submits standing (answer :: rest) 0 text ↔
      answer ≠ .cancel ∧ answer.typed?.getD standing = text ∧ Text.isBlankText text = false := by
  constructor
  · rintro ⟨-, ⟨_, ⟨⟩, hcancel⟩, htext, hfilled⟩
    exact ⟨hcancel, textAt_zero ▸ htext, hfilled⟩
  · rintro ⟨hcancel, htext, hfilled⟩
    exact ⟨fun j hj => absurd hj (Nat.not_lt_zero j), ⟨answer, rfl, hcancel⟩,
      textAt_zero.trans htext, hfilled⟩

theorem submits_succ :
    Submits standing (answer :: rest) (k + 1) text ↔
      (answer ≠ .cancel ∧ Text.isBlankText (answer.typed?.getD standing) = true) ∧
        Submits (answer.typed?.getD standing) rest k text := by
  constructor
  · rintro ⟨hmade, hattempt, htext, hfilled⟩
    obtain ⟨hfirst, hmade⟩ := isMade_succ.mp hmade
    exact ⟨hfirst, hmade, hattempt, textAt_succ ▸ htext, hfilled⟩
  · rintro ⟨hfirst, hmade, hattempt, htext, hfilled⟩
    exact ⟨isMade_succ.mpr ⟨hfirst, hmade⟩, hattempt, textAt_succ.trans htext, hfilled⟩

/-! ## The answer -/

/-- The answer is the text of the first attempt that submits one. -/
theorem submitted_eq_some_iff {answers : List TextAnswer} :
    submitted standing answers = some text ↔ ∃ k, Submits standing answers k text := by
  induction answers generalizing standing with
  | nil =>
    refine iff_of_false (by simp [submitted]) ?_
    rintro ⟨k, -, ⟨answer, hanswer, -⟩, -⟩
    simp at hanswer
  | cons answer rest ih =>
    by_cases hcancel : answer = .cancel
    · subst hcancel
      refine iff_of_false (by simp [submitted]) ?_
      rintro ⟨k, hk⟩
      cases k with
      | zero => exact (submits_zero.mp hk).1 rfl
      | succ k => exact (submits_succ.mp hk).1.1 rfl
    rw [submitted_cons hcancel]
    by_cases hblank : Text.isBlankText (answer.typed?.getD standing) = true
    · rw [if_pos hblank, ih]
      constructor
      · rintro ⟨k, hk⟩
        exact ⟨k + 1, submits_succ.mpr ⟨⟨hcancel, hblank⟩, hk⟩⟩
      · rintro ⟨k, hk⟩
        cases k with
        | zero =>
          obtain ⟨-, htext, hfilled⟩ := submits_zero.mp hk
          rw [htext, hfilled] at hblank
          cases hblank
        | succ k => exact ⟨k, (submits_succ.mp hk).2⟩
    · rw [if_neg hblank, Option.some.injEq]
      constructor
      · rintro rfl
        exact ⟨0, submits_zero.mpr ⟨hcancel, rfl, by simpa using hblank⟩⟩
      · rintro ⟨k, hk⟩
        cases k with
        | zero => exact (submits_zero.mp hk).2.1
        | succ k => exact absurd (submits_succ.mp hk).1.2 hblank

/-- A cancel ends the question without an answer. -/
theorem submitted_of_cancels {answers : List TextAnswer} (h : Cancels standing answers k) :
    submitted standing answers = none := by
  induction answers generalizing standing k with
  | nil => rfl
  | cons answer rest ih =>
    obtain ⟨hmade, hattempt⟩ := h
    cases k with
    | zero =>
      obtain rfl : answer = .cancel := by simpa using hattempt
      rfl
    | succ k =>
      obtain ⟨⟨hcancel, hblank⟩, hmade⟩ := isMade_succ.mp hmade
      rw [submitted_cons hcancel, if_pos hblank]
      exact ih ⟨hmade, by simpa using hattempt⟩

end BuildMatrix.TextAnswer
