import BuildMatrix.Proofs.Files.Writing

/-!
# Which file a configuration comes from

A configuration is loaded with two questions to the files: whether there is anything at a path, and
what the text there is.  Answers to these questions are a view (`FileView`), and a view may answer
them in any way: something may be there that cannot be read.  What is loaded is what the selected
file gives, a configuration or an error (`FileView.load_eq`), and one file is selected
(`FileView.Selects`), so an error never leads on to another file (`Config.load_selected`).  Two
file systems that hold the same on the way to a file give the same text for it
(`Files.read_congr`).
-/

namespace BuildMatrix

/-! ## Files as they are seen -/

/-- What can be found out about files: whether there is anything at a path, and the text of the file
there, or why there is none to be had. -/
structure FileView where
  has : Path → Bool
  read : Path → Except FileError String

/-- What can be found out about the files of a file system. -/
def Files.view (files : Files) : FileView := ⟨files.has, files.read⟩

namespace FileView

open Config

/-- The configuration in the file at a path. -/
def config (view : FileView) (path : Path) : Except LoadError Config :=
  match view.read path with
  | .error e => .error (.file e)
  | .ok text => (Config.read text).mapError .content

/-- The file that is to be used, and whether it is the packaged one. -/
def source (view : FileView) (package directory : Path) (named : Option String) : Path × Bool :=
  match named.filter (· ≠ "") with
  | some written => (directory.resolve written, false)
  | none =>
    if view.has (fileIn directory) then (fileIn directory, false) else (stockIn package, true)

/-- The configuration of a run. -/
def load (view : FileView) (package directory : Path) (named : Option String) :
    Except LoadError Loaded :=
  let (path, builtin) := view.source package directory named
  (view.config path).map fun config => { config, path, builtin }

end FileView

/-- Loading a configuration looks at the files through their view only. -/
theorem Config.load_eq_view (files : Files) (package directory : Path) (named : Option String) :
    Config.load files package directory named = files.view.load package directory named := rfl

namespace FileView

open Config

variable {view view' : FileView} {package directory path : Path} {named : Option String}
  {builtin : Bool}

/-! ## The file that is selected -/

/-- Nothing is named, or the empty text is. -/
def Unnamed (named : Option String) : Prop := named = none ∨ named = some ""

/-- The file that is to be used is the one that is named; without one, that of the directory if
there is anything under its name; and the packaged one only if there is nothing. -/
inductive Selects (view : FileView) (package directory : Path) (named : Option String) :
    Path → Bool → Prop
  | named {written : String} : named = some written → written ≠ "" →
      Selects view package directory named (directory.resolve written) false
  | own : Unnamed named → view.has (fileIn directory) = true →
      Selects view package directory named (fileIn directory) false
  | stock : Unnamed named → view.has (fileIn directory) = false →
      Selects view package directory named (stockIn package) true

theorem filter_eq_none (h : Unnamed named) : named.filter (· ≠ "") = none := by
  rcases h with rfl | rfl <;> rfl

theorem Selects.source_eq (h : view.Selects package directory named path builtin) :
    view.source package directory named = (path, builtin) := by
  unfold source
  cases h with
  | @named written hnamed hwritten =>
    have hfilter : named.filter (· ≠ "") = some written := by
      rw [hnamed, Option.filter_some, if_pos (by simpa using hwritten)]
    rw [hfilter]
  | own hunnamed hhas => rw [filter_eq_none hunnamed, if_pos hhas]
  | stock hunnamed hhas => rw [filter_eq_none hunnamed, hhas, if_neg Bool.false_ne_true]

/-- Some file is selected. -/
theorem exists_selects (view : FileView) (package directory : Path) (named : Option String) :
    ∃ path builtin, view.Selects package directory named path builtin := by
  have hlast : Unnamed named →
      ∃ path builtin, view.Selects package directory named path builtin := by
    intro hunnamed
    cases hhas : view.has (fileIn directory) with
    | true => exact ⟨_, _, .own hunnamed hhas⟩
    | false => exact ⟨_, _, .stock hunnamed hhas⟩
  cases hnamed : named with
  | none => exact hnamed ▸ hlast (.inl hnamed)
  | some written =>
    by_cases hwritten : written = ""
    · subst hwritten
      exact hnamed ▸ hlast (.inr hnamed)
    · exact ⟨_, _, .named rfl hwritten⟩

/-- Only one is. -/
theorem Selects.unique {path' : Path} {builtin' : Bool}
    (h : view.Selects package directory named path builtin)
    (h' : view.Selects package directory named path' builtin') :
    path' = path ∧ builtin' = builtin :=
  Prod.mk.inj (h'.source_eq.symm.trans h.source_eq)

/-- The packaged file is selected only in the last case. -/
theorem Selects.builtin_iff (h : view.Selects package directory named path builtin) :
    builtin = true ↔ Unnamed named ∧ view.has (fileIn directory) = false := by
  cases h with
  | named hnamed hwritten => simp [Unnamed, hnamed, hwritten]
  | own hunnamed hhas => simp [hhas]
  | stock hunnamed hhas => simp [hunnamed, hhas]

/-- Views that agree on whether the directory has a file of its own select the same file; if one is
named, they do so anyway. -/
theorem Selects.congr (h : view.Selects package directory named path builtin)
    (hhas : Unnamed named → view'.has (fileIn directory) = view.has (fileIn directory)) :
    view'.Selects package directory named path builtin := by
  cases h with
  | named hnamed hwritten => exact .named hnamed hwritten
  | own hunnamed hown => exact .own hunnamed ((hhas hunnamed).trans hown)
  | stock hunnamed hown => exact .stock hunnamed ((hhas hunnamed).trans hown)

/-! ## What is loaded -/

theorem mapError_eq_ok {ε ε' α : Type} {f : ε → ε'} {x : Except ε α} {a : α}
    (h : x.mapError f = .ok a) : x = .ok a := by
  cases x with
  | error e => cases h
  | ok b => exact congrArg Except.ok (Except.ok.inj h)

theorem config_eq_ok {config : Config} (h : view.config path = .ok config) :
    ∃ text, view.read path = .ok text ∧ Config.read text = .ok config := by
  unfold FileView.config at h
  cases hread : view.read path with
  | error e => simp [hread] at h
  | ok text =>
    simp only [hread] at h
    exact ⟨text, rfl, mapError_eq_ok h⟩

/-- What is loaded is what the selected file gives. -/
theorem load_eq (h : view.Selects package directory named path builtin) :
    view.load package directory named =
      (view.config path).map fun config => { config, path, builtin } := by
  rw [load, h.source_eq]

theorem load_eq_ok (h : view.Selects package directory named path builtin) {loaded : Loaded}
    (hload : view.load package directory named = .ok loaded) :
    loaded.path = path ∧ loaded.builtin = builtin ∧
      ∃ text, view.read path = .ok text ∧ Config.read text = .ok loaded.config := by
  rw [load_eq h] at hload
  cases hconfig : view.config path with
  | error e => simp [hconfig, Except.map] at hload
  | ok config =>
    rw [hconfig] at hload
    obtain rfl := Except.ok.inj hload
    exact ⟨rfl, rfl, config_eq_ok hconfig⟩

/-- Two views that agree on the selected file and on whether the directory has a file of its own
lead to the same configuration or error. -/
theorem load_congr (h : view.Selects package directory named path builtin)
    (hhas : Unnamed named → view'.has (fileIn directory) = view.has (fileIn directory))
    (hread : view'.read path = view.read path) :
    view'.load package directory named = view.load package directory named := by
  rw [load_eq h, load_eq (h.congr hhas), FileView.config, FileView.config, hread]

end FileView

/-! ## File systems that look the same -/

namespace Files

variable {files files' : Files} {path : Path}

/-- Two file systems hold the same at a path and in all places on the way to it. -/
def SameOnWay (path : Path) (files files' : Files) : Prop :=
  ∀ steps, steps <+: path → files'.get? (Path.place steps) = files.get? (Path.place steps)

theorem follow_congr {written : String} {here : Path} {steps : List String}
    (h : ∀ front, front <+: steps →
      files'.get? (front.foldl Path.step here) = files.get? (front.foldl Path.step here)) :
    files'.follow written here steps = files.follow written here steps := by
  induction steps generalizing here with
  | nil => rfl
  | cons name rest ih =>
    have hhere : files'.get? here = files.get? here := h [] List.nil_prefix
    have hrest : files'.follow written (here.step name) rest =
        files.follow written (here.step name) rest :=
      ih fun front hfront => h (name :: front) (List.cons_prefix_cons.mpr ⟨rfl, hfront⟩)
    rw [follow, follow, hhere, hrest]

theorem reach_congr (h : SameOnWay path files files') : files'.reach path = files.reach path :=
  follow_congr h

/-- What is reached stands at the place of the path. -/
theorem get?_congr (h : SameOnWay path files files') {place : Path}
    (hreach : files.reach path = .ok place) : files'.get? place = files.get? place := by
  obtain rfl : place = path.place := follow_eq_ok hreach
  exact h path List.prefix_rfl

theorem read_congr (h : SameOnWay path files files') : files'.read path = files.read path := by
  rw [read, read, reach_congr h]
  cases hreach : files.reach path with
  | error e => rfl
  | ok place =>
    dsimp only
    rw [get?_congr h hreach]

end Files

/-! ## No way past the selected file -/

namespace Config

open FileView (Unnamed)
open Files (SameOnWay)

/-- One file is selected, whatever it holds: the file that is named, or else that of the directory
if there is anything under its name, or else the packaged one.  What is loaded is the configuration
in this file, or the error that reading or checking it ends with; the path of a configuration is that
of the file whose text it was read from, and it is said to be built in exactly if the packaged file
is selected.  Nothing else counts: files that are seen alike at the selected path, and alike as to
whether the directory has a file of its own if none is named, lead to the same result. -/
theorem load_selected :
    (∀ (view : FileView) (package directory : Path) (named : Option String),
      ∃ path builtin, view.Selects package directory named path builtin ∧
        (∀ path' builtin', view.Selects package directory named path' builtin' →
          path' = path ∧ builtin' = builtin) ∧
        (builtin = true ↔ Unnamed named ∧ view.has (fileIn directory) = false) ∧
        view.load package directory named =
          (view.config path).map (fun config => { config, path, builtin }) ∧
        (∀ loaded, view.load package directory named = .ok loaded →
          loaded.path = path ∧ loaded.builtin = builtin ∧
            ∃ text, view.read path = .ok text ∧ Config.read text = .ok loaded.config) ∧
        ∀ view' : FileView, view'.read path = view.read path →
          (Unnamed named → view'.has (fileIn directory) = view.has (fileIn directory)) →
          view'.load package directory named = view.load package directory named) ∧
      ∀ (files : Files) (package directory : Path) (named : Option String),
        load files package directory named = files.view.load package directory named ∧
          ∀ files' path builtin, files.view.Selects package directory named path builtin →
            SameOnWay path files files' →
            (Unnamed named → files'.has (fileIn directory) = files.has (fileIn directory)) →
            load files' package directory named = load files package directory named := by
  constructor
  · intro view package directory named
    obtain ⟨path, builtin, h⟩ := view.exists_selects package directory named
    exact ⟨path, builtin, h, fun _ _ h' => h.unique h', h.builtin_iff, FileView.load_eq h,
      fun _ hload => FileView.load_eq_ok h hload,
      fun _ hread hhas => FileView.load_congr h hhas hread⟩
  · intro files package directory named
    refine ⟨load_eq_view files package directory named, fun files' path builtin h hsame hhas => ?_⟩
    rw [load_eq_view, load_eq_view]
    exact FileView.load_congr h hhas (Files.read_congr hsame)

/-- The file of a directory is there and cannot be read, or has a list of builds that is none; the
packaged file, which could be read, does not stand in for it. -/
theorem load_selected_own :
    let own : Path := ["w", ".ci-matrix.yml"]
    let view : FileView :=
      { has := fun _ => true
        read := fun path => if path = own then .error (.refused "EACCES") else .ok "" }
    let files : Files := ⟨fun path =>
      if path = own then some (.file "builds: none\n")
      else if path = ["p", "matrix.default.yml"] then some (.file "")
      else if path.length ≤ 1 then some .directory
      else none⟩
    let files' := files.put ["p", "matrix.default.yml"] none
    (∃ e, view.load ["p"] ["w"] none = .error (.file e)) ∧
      (view.load ["p"] ["w"] (some "other.yml")).isOk = true ∧
      (load files ["p"] ["w"] (some "")).isOk = false ∧
      load files' ["p"] ["w"] (some "") = load files ["p"] ["w"] (some "") := by
  intro own view files files'
  obtain ⟨hviews, hfiles⟩ := load_selected
  refine ⟨?_, ?_, ?_, ?_⟩
  · obtain ⟨path, builtin, -, hunique, -, hload, -⟩ := hviews view ["p"] ["w"] none
    obtain ⟨rfl, rfl⟩ := hunique own false (.own (.inl rfl) rfl)
    exact ⟨.refused "EACCES", hload⟩
  · obtain ⟨path, builtin, -, hunique, -, hload, -⟩ := hviews view ["p"] ["w"] (some "other.yml")
    obtain ⟨rfl, rfl⟩ := hunique _ false (.named rfl (by decide))
    rw [hload]
    decide +kernel
  · decide +kernel
  · refine (hfiles files ["p"] ["w"] (some "")).2 files' own false (.own (.inr rfl) (by decide)) ?_
      fun _ => by decide
    intro steps hsteps
    refine Files.get?_put_of_ne files none ?_
    rcases List.prefix_cons_iff.mp hsteps with rfl | ⟨rest, rfl, hrest⟩
    · decide
    · rcases List.prefix_cons_iff.mp hrest with rfl | ⟨last, rfl, hlast⟩
      · decide
      · obtain rfl := List.prefix_nil.mp hlast
        decide

end Config

end BuildMatrix
