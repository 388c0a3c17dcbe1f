import BuildMatrix.Proofs.Config.Grammar

/-!
# What a result keeps of the value that it was made from

A value is told by what stands at each of its addresses (`Value.at?`, `Value.Node`).  A result that
has all of that, but for one name in the environments, and nothing but stock settings beyond it
keeps the value (`Value.Keeps`).  This is seen part by part: a result keeps a value if what each step
leads to in the one keeps what the step leads to in the other (`Value.Keeps.parts`), where a part
that is not there is kept by nothing, or by the stock value that stands in for it.
-/

namespace BuildMatrix.Value

/-! ## What is where in a value -/

/-- The part of a value that one step leads to. -/
def child? : Value → PathStep → Option Value
  | .object fields, .key name => Record.get? fields name
  | .array items, .index i => items[i]?
  | _, _ => none

/-- The part of a value at an address. -/
def at? (v : Value) : Address → Option Value
  | [] => some v
  | step :: rest => (v.child? step).bind fun part => at? part rest

/-- What stands at an address: a list of some length, an object, or a value without parts. -/
inductive Node where
  | list (length : Nat)
  | object
  | leaf (v : Value)

/-- A value without what its parts are. -/
def node : Value → Node
  | .array items => .list items.length
  | .object _ => .object
  | v => .leaf v

/-- The value without an entry of its own. -/
def without (v : Value) (name : String) : Value :=
  match v with
  | .object fields => .object (Record.without fields name)
  | v => v

theorem at?_append (v : Value) (a b : Address) :
    v.at? (a ++ b) = (v.at? a).bind fun part => part.at? b := by
  induction a generalizing v with
  | nil => rfl
  | cons step rest ih =>
    simp only [List.cons_append, at?, ih, Option.bind_assoc]

theorem node_without (v : Value) (name : String) : (v.without name).node = v.node := by
  cases v <;> rfl

theorem child?_without (v : Value) (name : String) (step : PathStep) :
    (v.without name).child? step = if step = .key name then none else v.child? step := by
  cases v with
  | object fields =>
    cases step with
    | index i => rfl
    | key other =>
      simp only [PathStep.key.injEq]
      exact Record.get?_without name other
  | array items => cases step <;> simp [without, child?]
  | _ => simp [without, child?]

theorem child?_eq_none {v : Value} (h : v.node = .leaf v) (step : PathStep) :
    v.child? step = none := by
  cases v with
  | object fields => cases h
  | array items => cases h
  | _ => rfl

/-! ## What a result keeps -/

/-- An address at or below an entry `__proto__` of an environment. -/
def Dropped (isEnv : Address → Prop) (a : Address) : Prop :=
  ∃ e, isEnv e ∧ e ++ [.key "__proto__"] <+: a

/-- A result has what a value has, in the same places, and beyond it no more than stock settings in
places where the value has nothing.  Only the entries `__proto__` of the environments are gone; the
others stand in the order in which they stood. -/
structure Keeps (isEnv : Address → Prop) (stock v result : Option Value) : Prop where
  same : ∀ a, ¬ Dropped isEnv a →
    (result.bind (·.at? a)).map node =
      ((v.bind (·.at? a)).or (stock.bind (·.at? a))).map node
  gone : ∀ a, Dropped isEnv a → result.bind (·.at? a) = none
  entries : ∀ a, isEnv a →
    result.bind (·.at? a) = (v.bind (·.at? a)).map (·.without "__proto__")

namespace Keeps

variable {isEnv isEnv' : Address → Prop} {stock : Option Value}

theorem not_dropped_nil : ¬ Dropped isEnv [] := by
  rintro ⟨e, -, hprefix⟩
  simp at hprefix

theorem dropped_cons_iff {step : PathStep} {rest : Address} (h : ¬ isEnv []) :
    Dropped isEnv (step :: rest) ↔ Dropped (fun e => isEnv (step :: e)) rest := by
  constructor
  · rintro ⟨e, he, hprefix⟩
    cases e with
    | nil => exact absurd he h
    | cons first e =>
      obtain ⟨hfirst, hrest⟩ := List.cons_prefix_cons.mp hprefix
      exact ⟨e, hfirst ▸ he, hrest⟩
  · rintro ⟨e, he, hprefix⟩
    exact ⟨step :: e, he, List.cons_prefix_cons.mpr ⟨rfl, hprefix⟩⟩

theorem congr {v result : Option Value} (h : Keeps isEnv stock v result)
    (henv : ∀ e, isEnv' e ↔ isEnv e) : Keeps isEnv' stock v result := by
  rwa [show isEnv' = isEnv from funext fun e => propext (henv e)]

/-- Where there is nothing, nothing is kept. -/
theorem nothing : Keeps isEnv none none none where
  same _ _ := rfl
  gone _ _ := rfl
  entries _ _ := rfl

/-- A result keeps what its parts keep. -/
theorem parts {v result : Value} (hnode : result.node = v.node) (henv : ¬ isEnv [])
    (h : ∀ step, Keeps (fun e => isEnv (step :: e)) (stock.bind (·.child? step)) (v.child? step)
      (result.child? step)) : Keeps isEnv stock (some v) (some result) where
  same a ha := by
    cases a with
    | nil => exact congrArg some hnode
    | cons step rest =>
      have hrest := (h step).same rest ((dropped_cons_iff henv).not.mp ha)
      rwa [Option.bind_assoc] at hrest
  gone a ha := by
    cases a with
    | nil => exact absurd ha not_dropped_nil
    | cons step rest => exact (h step).gone rest ((dropped_cons_iff henv).mp ha)
  entries a ha := by
    cases a with
    | nil => exact absurd ha henv
    | cons step rest => exact (h step).entries rest ha

/-- A value without environments is kept as it is. -/
theorem given (henv : ∀ e, ¬ isEnv e) (v : Option Value) : Keeps isEnv none v v where
  same a _ := by simp
  gone a := fun ⟨e, he, _⟩ => absurd he (henv e)
  entries a ha := absurd ha (henv a)

/-- A stock value without environments stands in for one that is not there. -/
theorem standIn {d : Value} (henv : ∀ e, isEnv e → d.at? e = none) :
    Keeps isEnv (some d) none (some d) where
  same a _ := rfl
  gone a := by
    rintro ⟨e, he, rest, rfl⟩
    -- below a place that does not exist there is nothing either
    rw [List.append_assoc, Option.bind_some, at?_append, henv e he, Option.bind_none]
  entries a ha := henv a ha

/-- A stock value without parts stands in for one that is not there. -/
theorem orStock (henv : ∀ e, ¬ isEnv e) {d : Value} (hleaf : d.node = .leaf d)
    (v : Option Value) : Keeps isEnv (some d) v (some (v.getD d)) := by
  cases v with
  | none => exact standIn fun e he => absurd he (henv e)
  | some v =>
    refine parts rfl (henv []) fun step => ?_
    rw [Option.bind_some, child?_eq_none hleaf]
    exact given (fun e => henv (step :: e)) _

/-- An environment is kept but for one name. -/
theorem env (henv : ∀ e, isEnv e ↔ e = []) (v : Option Value) :
    Keeps isEnv none v (v.map (·.without "__proto__")) := by
  have hdropped : ∀ a, Dropped isEnv a ↔ [.key "__proto__"] <+: a := by
    intro a
    constructor
    · rintro ⟨e, he, hprefix⟩
      rwa [(henv e).mp he] at hprefix
    · exact fun hprefix => ⟨[], (henv []).mpr rfl, hprefix⟩
  cases v with
  | none => exact nothing
  | some v =>
    refine ⟨fun a ha => ?_, fun a ha => ?_, fun a ha => ?_⟩
    · cases a with
      | nil => exact congrArg some (node_without v _)
      | cons step rest =>
        have hne : step ≠ .key "__proto__" := fun hstep =>
          ha ((hdropped _).mpr (List.cons_prefix_cons.mpr ⟨hstep.symm, List.nil_prefix⟩))
        simp [at?, child?_without, hne]
    · obtain ⟨rest, rfl⟩ := (hdropped a).mp ha
      simp [at?, child?_without]
    · rw [(henv a).mp ha]
      rfl

end Keeps

end BuildMatrix.Value
