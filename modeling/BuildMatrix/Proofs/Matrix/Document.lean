import BuildMatrix.Matrix.Output
import BuildMatrix.Proofs.Json.Alike
import BuildMatrix.Proofs.Matrix.Reachable

/-!
# The printed forms of a matrix determine its document

The compact text of a reachable matrix reads back as its document, field by field and in the same
order (`compact_faithful`).  The indented text forgets the order of keys and nothing else: two
reachable matrices have the same indented text exactly if their documents are alike
(`pretty_canonical`).
-/

namespace BuildMatrix

namespace Matrix

/-! ## The compact text -/

/-- The compact text of a reachable matrix spells its document. -/
theorem Reachable.spells_compact {m : Matrix} (h : m.Reachable) :
    m.document.Spells m.compact.toList := by
  rw [compact, Json.compact, String.toList_ofList]
  exact Json.spells_chars h.isPlain_document

/-- The compact text of a reachable matrix reads back as its document, so two reachable matrices
with one compact text have one document. -/
theorem compact_faithful {m : Matrix} (h : m.Reachable) :
    Json.read m.compact = .ok m.document ∧
      ∀ m' : Matrix, m'.Reachable → m.compact = m'.compact → m.document = m'.document := by
  refine ⟨Json.read_of_spells h.spells_compact, fun m' h' heq => ?_⟩
  have hspells := h'.spells_compact
  rw [← heq] at hspells
  exact h.spells_compact.unique hspells

/-- The compact text is faithful to a tag with a quote, a name with a line break and a control
character, and an environment whose names are array indexes or `__proto__`. -/
theorem compact_faithful_escapes :
    let m := ((Matrix.empty (some "refs/tags/v\"1") {}).add
      { name := some "a\\\n\x01é😀"
        env := some [("2", "x"), ("10", "\t"), ("__proto__", "")]
        coverage := some true }).add {}
    m.Reachable ∧ Json.read m.compact = .ok m.document := by
  intro m
  have h : m.Reachable := by
    refine .add (.add (.empty _ _) fun env henv => ?_) fun env henv => ?_
    · obtain rfl := Option.some.inj henv
      decide
    · cases henv
  exact ⟨h, (compact_faithful h).1⟩

/-! ## The indented text -/

/-- The indented text of a reachable matrix spells its document with sorted keys. -/
theorem Reachable.spells_pretty {m : Matrix} (h : m.Reachable) :
    m.document.sortKeys.Spells m.pretty.toList := by
  rw [pretty, Json.pretty, String.toList_ofList]
  exact Json.spells_prettyChars 0 h.isPlain_document.sortKeys

/-- The indented text depends on the document with sorted keys alone. -/
theorem pretty_eq_of_alike {m m' : Matrix} (h : m.Reachable) (h' : m'.Reachable)
    (ha : m.document.Alike m'.document) : m.pretty = m'.pretty := by
  have hsorted : m.document.sortKeys = m'.document.sortKeys :=
    Json.sortKeys_eq_of_alike h.isPlain_document h'.isPlain_document ha
  rw [pretty, pretty, Json.pretty, Json.pretty, hsorted]

/-- Reading the indented text gives a value that is alike to the document. -/
theorem Reachable.read_pretty {m : Matrix} (h : m.Reachable) :
    ∃ v, Json.read m.pretty = .ok v ∧ v.Alike m.document :=
  ⟨m.document.sortKeys, Json.read_of_spells h.spells_pretty,
    (Json.alike_sortKeys h.isPlain_document).symm⟩

end Matrix

/-! ## The order of the entries of an environment -/

/-- Options that agree in everything but the order of the entries of their environments. -/
structure BuildOptions.SameEntries (a b : BuildOptions) : Prop where
  others : { a with env := none } = { b with env := none }
  env : (a.env.getD []).Perm (b.env.getD [])

/-- Jobs that agree in everything but the order of the entries of their environments. -/
structure Job.SameEntries (a b : Job) : Prop where
  others : { a with env := [] } = { b with env := [] }
  env : a.env.Perm b.env

namespace Job

theorem withCoverage_perm {env env' : Record String} (h : env.Perm env') (hn : env.Ordered)
    (coverage : Bool) : (withCoverage env coverage).Perm (withCoverage env' coverage) := by
  unfold withCoverage
  split
  · exact Record.set_perm_set h hn.nodup_names _ _
  · exact h

/-- Options that differ in the order of entries make jobs that differ in it at most. -/
theorem SameEntries.ofOptions {a b : BuildOptions} (h : a.SameEntries b) (ha : a.IsProper)
    (context : RunContext) (defaults : Defaults) :
    (ofOptions context defaults a).SameEntries (ofOptions context defaults b) := by
  have hordered : Record.Ordered (a.env.getD []) := by
    cases henv : a.env with
    | none => exact Record.ordered_nil
    | some env => exact ha env henv
  obtain ⟨hothers, henv⟩ := h
  simp only [BuildOptions.mk.injEq] at hothers
  obtain ⟨hname, himage, hargs, hjobs, -, hcoverage, hplatform, hcommand⟩ := hothers
  have hperm := withCoverage_perm henv hordered (b.coverage.getD false)
  constructor
  · simp only [Job.ofOptions, hname, himage, hargs, hjobs, hcoverage, hplatform, hcommand,
      isReleaseBuild, Record.has_eq_of_perm hperm]
  · simpa only [Job.ofOptions, hcoverage] using hperm

/-- The records of such jobs are alike. -/
theorem SameEntries.alike_record {a b : Job} (h : a.SameEntries b) :
    a.record.Alike b.record := by
  obtain ⟨hothers, henv⟩ := h
  simp only [Job.mk.injEq] at hothers
  obtain ⟨hname, himage, hcommand, -, htag, hbranch, hcoverage, hbuildx, hrelease⟩ := hothers
  have henv' : (Json.ofRecord a.env).Alike (Json.ofRecord b.env) :=
    .object (henv.map _) (Json.AlikeFields.refl _)
  have happend : ∀ {fs gs : List (String × Json)} (before : List (String × Json)),
      Json.AlikeFields fs gs → Json.AlikeFields (before ++ fs) (before ++ gs) := by
    intro fs gs before hfields
    induction before with
    | nil => exact hfields
    | cons f rest ih => exact .cons (.refl _) ih
  rw [record_eq, record_eq]
  refine .object (.refl _) ?_
  simp only [fields, hname, himage, hcommand, htag, hbranch, hcoverage, hbuildx, hrelease,
    List.append_assoc]
  exact happend _ (.cons henv' (.refl _))

end Job

namespace Matrix

/-- Adding jobs whose options differ in the order of entries adds jobs that differ in it at
most. -/
theorem forall₂_addAll {os os' : List BuildOptions} (ho : List.Forall₂ BuildOptions.SameEntries os os')
    (hp : ∀ o ∈ os, o.IsProper) {m m' : Matrix} (hcontext : m.context = m'.context)
    (hdefaults : m.defaults = m'.defaults) (hjobs : List.Forall₂ Job.SameEntries m.jobs m'.jobs) :
    List.Forall₂ Job.SameEntries (m.addAll os).jobs (m'.addAll os').jobs := by
  induction ho generalizing m m' with
  | nil => exact hjobs
  | @cons o o' os os' hoo _ ih =>
    refine ih (fun p hm => hp p (List.mem_cons_of_mem _ hm)) hcontext hdefaults ?_
    refine List.rel_append hjobs (.cons ?_ .nil)
    rw [job, job, hcontext, hdefaults]
    exact Job.SameEntries.ofOptions hoo (hp o (by simp)) _ _

/-- Documents of jobs that differ in the order of entries are alike. -/
theorem alike_document {m m' : Matrix} (h : List.Forall₂ Job.SameEntries m.jobs m'.jobs) :
    m.document.Alike m'.document := by
  have hitems : ∀ {xs ys : List Job}, List.Forall₂ Job.SameEntries xs ys →
      Json.AlikeItems (xs.map Job.record) (ys.map Job.record) := by
    intro xs ys hxy
    induction hxy with
    | nil => exact .nil
    | cons hjob _ ih => exact .cons hjob.alike_record ih
  exact .object (.refl _) (.cons (.array (hitems h)) .nil)

/-- The indented text is a canonical form of the document: it is the same for two reachable
matrices exactly if their documents are alike, it reads back as a value alike to the document, and
the order in which the entries of an environment are handed over does not change it. -/
theorem pretty_canonical {m m' : Matrix} (h : m.Reachable) (h' : m'.Reachable) :
    (m.pretty = m'.pretty ↔ m.document.Alike m'.document) ∧
      (∃ v, Json.read m.pretty = .ok v ∧ v.Alike m.document) ∧
      ∀ os os' : List BuildOptions, List.Forall₂ BuildOptions.SameEntries os os' →
        (∀ o ∈ os, o.IsProper) → (∀ o ∈ os', o.IsProper) →
        (m.addAll os).pretty = (m.addAll os').pretty := by
  refine ⟨⟨fun heq => ?_, pretty_eq_of_alike h h'⟩, h.read_pretty, ?_⟩
  · have hspells := h'.spells_pretty
    rw [← heq] at hspells
    rw [Json.alike_iff_sortKeys_eq h.isPlain_document h'.isPlain_document]
    exact h.spells_pretty.unique hspells
  · intro os os' hos hp hp'
    refine pretty_eq_of_alike (h.addAll hp) (h.addAll hp') (alike_document ?_)
    refine forall₂_addAll hos hp rfl rfl (List.forall₂_same.mpr fun job _ => ?_)
    exact ⟨rfl, .refl _⟩

/-- Options whose environments have one set of entries in two orders give one indented text. -/
theorem pretty_canonical_entries :
    let m := (Matrix.empty (some "refs/heads/main") {}).add { name := some "a\nb" }
    let o : BuildOptions :=
      { env := some [("7", "\n"), ("b", "1"), ("COVERAGE", "x")], coverage := some true }
    let o' : BuildOptions :=
      { env := some [("7", "\n"), ("COVERAGE", "x"), ("b", "1")], coverage := some true }
    m.Reachable ∧ o.IsProper ∧ o'.IsProper ∧ o.SameEntries o' ∧ o ≠ o' ∧
      (m.addAll [o]).pretty = (m.addAll [o']).pretty := by
  intro m o o'
  have h : m.Reachable := .add (.empty _ _) fun env henv => by cases henv
  have ho : o.IsProper := fun env henv => by
    obtain rfl := Option.some.inj henv
    decide
  have ho' : o'.IsProper := fun env henv => by
    obtain rfl := Option.some.inj henv
    decide
  have hoo : o.SameEntries o' := ⟨rfl, .cons _ (.swap _ _ _)⟩
  refine ⟨h, ho, ho', hoo, by decide, ?_⟩
  exact (pretty_canonical h h).2.2 [o] [o'] (.cons hoo .nil) (by simpa using ho)
    (by simpa using ho')

end Matrix

end BuildMatrix
