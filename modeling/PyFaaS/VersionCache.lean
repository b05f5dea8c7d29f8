import PyFaaS.CodeValidator
import PyFaaS.FileTree
import PyFaaS.Runs

/-!
# The version cache of the runners

Runners of one version share `SOPM_CACHE_DIR`: the extracted source with the archive
and its marker beside it, and the installed dependencies with theirs. Each file is
truncated before it is written, a directory is removed file by file, and a runner may
be killed between any two steps, when it leaves a running pip behind. A marker is a
file like others: a member of the archive, or a file of a package, can create it.
-/

namespace PyFaaS.VersionCache
open FileTree Runs
open CodeValidator (suspicious)

/-! ## The archive and the requirements -/

/-- What all the runners have in common. `target` is the path that zipfile makes of
a member's name, and `install` are the files that pip puts into its target for the
requirements it reads. `archive` and the markers are the paths of `source.zip`,
`.sopm-extracted` and `.sopm-installed`. -/
structure Version (P C : Type) where
  members : List (Text × C)
  target : Text → P
  archive : P
  extractedMarker : P
  installedMarker : P
  requirements : P
  install : C → List (P × C)
  distinct : ∀ c, ((install c).map Prod.fst).Nodup

variable {P C K : Type} [DecidableEq P] [DecidableEq K]

def getinfo (members : List (Text × C)) (name : Text) : Option C := members.reverse.lookup name

def Version.writes (v : Version P C) : List (P × C) :=
  v.members.filterMap fun m =>
    if suspicious m.1 then none else (getinfo v.members m.1).map fun c => (v.target m.1, c)

def Version.files (v : Version P C) : Tree P C := fill empty v.writes

/-! ## States -/

/-- Where `main` of a runner stands; `alive` tells whether it still waits for its pip. -/
inductive Phase (P C : Type) where
  | starting
  | downloading
  | downloaded
  | extracting (rest : List (P × C))
  | writing (path : P) (c : C) (rest : List (P × C))
  | extracted
  | requiring
  | removing
  | removed
  | installing (alive : Bool) (rest : List (P × C))
  | placing (alive : Bool) (path : P) (c : C) (rest : List (P × C))
  | running (deps : Bool)

/-- `archiveFile` is whole if it is the object of the version. The markers tell what the
tests of the runners find; `extracted` and `installed` record that a runner has got to
the end of the work and written one. -/
structure State (P C K : Type) where
  archiveFile : Option (File Unit)
  src : Tree P C
  extractedMarker : Bool
  extracted : Bool
  deps : Tree P C
  installedMarker : Bool
  installed : Bool
  runner : K → Option (Phase P C)
  imports : List (K × P × Option (File C))

inductive Action (P C K : Type) where
  | start (k : K)
  | testMarker (k : K)
  | tearArchive (k : K)
  | download (k : K)
  | openArchive (k : K) (items : List (P × C))
  | truncate (k : K)
  | write (k : K)
  | markExtracted (k : K)
  | checkRequirements (k : K)
  | checkInstalled (k : K)
  | removeFile (k : K) (path : P)
  | makeDirectory (k : K)
  | readRequirements (k : K) (items : List (P × C))
  | place (k : K)
  | skip (k : K)
  | placed (k : K)
  | markInstalled (k : K)
  | importFile (k : K) (path : P)
  | abandonPip (k : K)
  | stop (k : K)

def initial : State P C K := ⟨none, empty, false, false, empty, false, false, fun _ => none, []⟩

def State.enter (s : State P C K) (k : K) (ph : Option (Phase P C)) : State P C K :=
  { s with runner := Function.update s.runner k ph }

/-- A member is opened for writing: at the path of the archive the archive is lost, at
that of the marker the marker is there. -/
def State.opened (s : State P C K) (v : Version P C) (path : P) : State P C K :=
  { s with
    archiveFile := if path = v.archive then some .torn else s.archiveFile
    src := put s.src path .torn
    extractedMarker := s.extractedMarker || decide (path = v.extractedMarker) }

/-- The object replaces `source.zip` at the end of its download. What is read of a member
is the member, or the read raises. An exception ends a runner as a crash does, and the
files stay as they are. The archive and its marker are no files that a handler imports. -/
inductive Step (v : Version P C) (s : State P C K) : Action P C K → State P C K → Prop where
  | start {k : K} (hk : s.runner k = none) : Step v s (.start k) (s.enter k (some .starting))
  | testMarker {k : K} (hk : s.runner k = some .starting) :
      Step v s (.testMarker k) (s.enter k (some (if s.extractedMarker then .extracted else .downloading)))
  | tearArchive {k : K} (hk : s.runner k = some .downloading) :
      Step v s (.tearArchive k) { s with archiveFile := some .torn }
  | download {k : K} (hk : s.runner k = some .downloading) :
      Step v s (.download k) { s.enter k (some .downloaded) with archiveFile := some (.whole ()) }
  | openArchive {k : K} {items : List (P × C)} (hk : s.runner k = some .downloaded)
      (hitems : s.archiveFile = some (.whole ()) → items = v.writes) :
      Step v s (.openArchive k items) (s.enter k (some (.extracting items)))
  | truncate {k : K} {path : P} {c : C} {rest : List (P × C)}
      (hk : s.runner k = some (.extracting ((path, c) :: rest))) :
      Step v s (.truncate k) ((s.opened v path).enter k (some (.writing path c rest)))
  | write {k : K} {path : P} {c : C} {rest : List (P × C)} (hk : s.runner k = some (.writing path c rest)) :
      Step v s (.write k) { s.enter k (some (.extracting rest)) with src := put s.src path (.whole c) }
  | markExtracted {k : K} (hk : s.runner k = some (.extracting [])) :
      Step v s (.markExtracted k)
        { s.enter k (some .extracted) with extractedMarker := true, extracted := true }
  | checkRequirements {k : K} (hk : s.runner k = some .extracted) :
      Step v s (.checkRequirements k)
        (s.enter k (some (if (s.src v.requirements).isSome then .requiring else .running false)))
  | checkInstalled {k : K} (hk : s.runner k = some .requiring) :
      Step v s (.checkInstalled k) (s.enter k (some (if s.installedMarker then .running true else .removing)))
  | removeFile {k : K} {path : P} (hk : s.runner k = some .removing) :
      Step v s (.removeFile k path)
        { s with
          deps := erase s.deps path
          installedMarker := s.installedMarker && decide (path ≠ v.installedMarker) }
  | makeDirectory {k : K} (hk : s.runner k = some .removing) (hdeps : s.deps = empty)
      (hmarker : s.installedMarker = false) : Step v s (.makeDirectory k) (s.enter k (some .removed))
  | readRequirements {k : K} {items : List (P × C)} (hk : s.runner k = some .removed)
      (hitems : ∀ c, s.src v.requirements = some (.whole c) → items = v.install c) :
      Step v s (.readRequirements k items) (s.enter k (some (.installing true items)))
  | place {k : K} {alive : Bool} {path : P} {c : C} {rest : List (P × C)}
      (hk : s.runner k = some (.installing alive ((path, c) :: rest))) (hpath : s.deps path = none) :
      Step v s (.place k)
        { s.enter k (some (.placing alive path c rest)) with
          deps := put s.deps path .torn
          installedMarker := s.installedMarker || decide (path = v.installedMarker) }
  | skip {k : K} {alive : Bool} {path : P} {c : C} {rest : List (P × C)}
      (hk : s.runner k = some (.installing alive ((path, c) :: rest))) (hpath : s.deps path ≠ none) :
      Step v s (.skip k) (s.enter k (some (.installing alive rest)))
  | placed {k : K} {alive : Bool} {path : P} {c : C} {rest : List (P × C)}
      (hk : s.runner k = some (.placing alive path c rest)) :
      Step v s (.placed k) { s.enter k (some (.installing alive rest)) with deps := put s.deps path (.whole c) }
  | markInstalled {k : K} (hk : s.runner k = some (.installing true [])) :
      Step v s (.markInstalled k)
        { s.enter k (some (.running true)) with installedMarker := true, installed := true }
  | importFile {k : K} {path : P} {deps : Bool} (hk : s.runner k = some (.running deps))
      (harchive : path ≠ v.archive) (hmarker : path ≠ v.extractedMarker) :
      Step v s (.importFile k path) { s with imports := (k, path, s.src path) :: s.imports }
  | abandonInstalling {k : K} {rest : List (P × C)} (hk : s.runner k = some (.installing true rest)) :
      Step v s (.abandonPip k) (s.enter k (some (.installing false rest)))
  | abandonPlacing {k : K} {path : P} {c : C} {rest : List (P × C)}
      (hk : s.runner k = some (.placing true path c rest)) :
      Step v s (.abandonPip k) (s.enter k (some (.placing false path c rest)))
  | stop {k : K} : Step v s (.stop k) (s.enter k none)

/-! ## Safety -/

def Complete (v : Version P C) (deps : Tree P C) : Prop :=
  ∃ c, v.files v.requirements = some (.whole c) ∧ deps = fill empty (v.install c)

def Phase.fetching : Phase P C → Bool
  | .downloading | .downloaded | .extracting _ | .writing _ _ _ => true
  | _ => false

def Phase.refilling : Phase P C → Bool
  | .removing | .removed | .installing _ _ | .placing _ _ _ _ => true
  | _ => false

/-- A runner that finds a marker missing is the only one at work for this marker, and a
marker that it finds has been written at the end of that work. -/
def Alone (s : State P C K) (p : Action P C K × State P C K) : Prop :=
  match p.1 with
  | .testMarker k => if s.extractedMarker then s.extracted = true
      else ∀ other ph, other ≠ k → s.runner other = some ph → ph.fetching = false
  | .checkInstalled k => if s.installedMarker then s.installed = true
      else ∀ other ph, other ≠ k → s.runner other = some ph → ph.refilling = false
  | _ => True

/-! ## The invariant -/

def PhaseOk (v : Version P C) (s : State P C K) : Phase P C → Prop
  | .starting => True
  | .downloading => s.extracted = false
  | .downloaded => s.extracted = false ∧ s.archiveFile = some (.whole ())
  | .extracting rest => s.extracted = false ∧ rest <:+ v.writes ∧ fill s.src rest = v.files
  | .writing path c rest => s.extracted = false ∧ (path, c) :: rest <:+ v.writes ∧
      fill s.src ((path, c) :: rest) = v.files
  | .extracted => s.extracted = true
  | .requiring => s.extracted = true ∧ v.files v.requirements ≠ none
  | .removing => s.extracted = true ∧ v.files v.requirements ≠ none ∧ s.installed = false
  | .removed => s.extracted = true ∧ v.files v.requirements ≠ none ∧ s.installed = false ∧ s.deps = empty
  | .installing _ rest => s.extracted = true ∧ s.installed = false ∧ ∃ c done,
      v.files v.requirements = some (.whole c) ∧ v.install c = done ++ rest ∧ s.deps = fill empty done
  | .placing _ path c rest => s.extracted = true ∧ s.installed = false ∧ ∃ c' done,
      v.files v.requirements = some (.whole c') ∧ v.install c' = done ++ (path, c) :: rest ∧
        s.deps = put (fill empty done) path .torn
  | .running deps => s.extracted = true ∧ (deps = true → s.installed = true)

structure Shared (v : Version P C) (s : State P C K) : Prop where
  source : s.extracted = true → s.src = v.files ∧ s.extractedMarker = true
  outside : ∀ path, path ∉ v.writes.map Prod.fst → s.src path = none
  installed : s.installed = true → Complete v s.deps ∧ s.installedMarker = true
  imports : ∀ k path f, (k, path, f) ∈ s.imports → f = v.files path

def NoOther (selects : Phase P C → Bool) (runner : K → Option (Phase P C)) (k : K) : Prop :=
  ∀ other ph, other ≠ k → runner other = some ph → selects ph = false

def AtMostOne (selects : Phase P C → Bool) (runner : K → Option (Phase P C)) : Prop :=
  ∀ k ph, runner k = some ph → selects ph = true → NoOther selects runner k

structure Inv (v : Version P C) (s : State P C K) : Prop where
  shared : Shared v s
  phases : ∀ k ph, s.runner k = some ph → PhaseOk v s ph
  fetcher : AtMostOne Phase.fetching s.runner
  refiller : AtMostOne Phase.refilling s.runner

variable {v : Version P C} {s t : State P C K} {k : K} {ph : Phase P C}

omit [DecidableEq P] in
theorem AtMostOne.update {selects : Phase P C → Bool} {runner : K → Option (Phase P C)}
    (h : AtMostOne selects runner) (hph : selects ph = true → NoOther selects runner k) :
    AtMostOne selects (Function.update runner k (some ph)) := by
  intro first ph₁ h₁ hs₁ second ph₂ hne h₂
  by_cases hfirst : first = k
  · subst hfirst
    rw [Function.update_self] at h₁
    rw [Function.update_of_ne hne] at h₂
    cases h₁
    exact hph hs₁ second ph₂ hne h₂
  · rw [Function.update_of_ne hfirst] at h₁
    by_cases hsecond : second = k
    · subst hsecond
      rw [Function.update_self] at h₂
      cases h₂
      by_contra hs₂
      have hnot := hph (by simpa using hs₂) first ph₁ hfirst h₁
      rw [hs₁] at hnot
      cases hnot
    · rw [Function.update_of_ne hsecond] at h₂
      exact h first ph₁ h₁ hs₁ second ph₂ hne h₂

omit [DecidableEq P] in
theorem AtMostOne.remove {selects : Phase P C → Bool} {runner : K → Option (Phase P C)}
    (h : AtMostOne selects runner) : AtMostOne selects (Function.update runner k none) := by
  intro first ph₁ h₁ hs₁ second ph₂ hne h₂
  have hold : ∀ other ph, Function.update runner k none other = some ph → runner other = some ph := by
    intro other ph hother
    by_cases hk : other = k
    · subst hk
      rw [Function.update_self] at hother
      cases hother
    · rwa [Function.update_of_ne hk] at hother
  exact h first ph₁ (hold first ph₁ h₁) hs₁ second ph₂ hne (hold second ph₂ h₂)

omit [DecidableEq K] in
theorem inv_initial : Inv v (initial : State P C K) where
  shared := ⟨nofun, fun _ _ => rfl, nofun, nofun⟩
  phases _ _ h := by cases h
  fetcher _ _ h := by cases h
  refiller _ _ h := by cases h

omit [DecidableEq K] in
theorem PhaseOk.starting (h : PhaseOk v s ph) (hextracted : s.extracted = false) (hph : ph.fetching = false) :
    ph = .starting := by
  cases ph <;> simp_all [PhaseOk, Phase.fetching]

omit [DecidableEq K] in
theorem PhaseOk.of_deps (h : PhaseOk v s ph) (hph : ph.refilling = false) (harchive : t.archiveFile = s.archiveFile)
    (hsrc : t.src = s.src) (hextracted : t.extracted = s.extracted)
    (hinstalled : s.installed = true → t.installed = true) : PhaseOk v t ph := by
  cases ph with
  | removing | removed | installing | placing => cases hph
  | running deps => exact ⟨hextracted.trans h.1, fun hdeps => hinstalled (h.2 hdeps)⟩
  | _ => simp_all [PhaseOk]

theorem Inv.enter (h : Inv v s) (hrunner : t.runner = Function.update s.runner k (some ph))
    (hshared : Shared v t) (hok : PhaseOk v t ph)
    (hothers : ∀ other ph', other ≠ k → s.runner other = some ph' → PhaseOk v t ph')
    (hfetch : ph.fetching = true → NoOther Phase.fetching s.runner k)
    (hrefill : ph.refilling = true → NoOther Phase.refilling s.runner k) : Inv v t := by
  refine ⟨hshared, ?_, hrunner ▸ h.fetcher.update hfetch, hrunner ▸ h.refiller.update hrefill⟩
  intro other ph' hph'
  rw [hrunner] at hph'
  by_cases hne : other = k
  · subst hne
    rw [Function.update_self] at hph'
    cases hph'
    exact hok
  · rw [Function.update_of_ne hne] at hph'
    exact hothers other ph' hne hph'

theorem Inv.move (h : Inv v s) (hok : PhaseOk v s ph)
    (hfetch : ph.fetching = true → NoOther Phase.fetching s.runner k)
    (hrefill : ph.refilling = true → NoOther Phase.refilling s.runner k) : Inv v (s.enter k (some ph)) := by
  have hrunner : (s.enter k (some ph)).runner = Function.update s.runner k (some ph) := rfl
  apply h.enter hrunner
  · exact ⟨h.shared.source, h.shared.outside, h.shared.installed, h.shared.imports⟩
  · cases ph <;> exact hok
  · intro other ph' _ hother
    have hkept := h.phases other ph' hother
    cases ph' <;> exact hkept
  · exact hfetch
  · exact hrefill

/-- The only runner at work on the source leaves every other one in `starting`. -/
theorem Inv.fetch (h : Inv v s) {old : Phase P C} (hk : s.runner k = some old) (hold : old.fetching = true)
    (hextracted : s.extracted = false) (hrunner : t.runner = Function.update s.runner k (some ph))
    (hshared : Shared v t) (hok : PhaseOk v t ph) (hrefill : ph.refilling = false) : Inv v t := by
  have halone := h.fetcher k old hk hold
  apply h.enter hrunner hshared hok
  · intro other ph' hne hother
    rw [(h.phases other ph' hother).starting hextracted (halone other ph' hne hother)]
    trivial
  · exact fun _ => halone
  · intro htrue
    rw [hrefill] at htrue
    cases htrue

theorem Inv.refill (h : Inv v s) {old : Phase P C} (hk : s.runner k = some old) (hold : old.refilling = true)
    (hrunner : t.runner = Function.update s.runner k (some ph)) (hshared : Shared v t) (hok : PhaseOk v t ph)
    (harchive : t.archiveFile = s.archiveFile) (hsrc : t.src = s.src) (hextracted : t.extracted = s.extracted)
    (hinstalled : s.installed = true → t.installed = true) (hfetch : ph.fetching = false) :
    Inv v t := by
  have halone := h.refiller k old hk hold
  apply h.enter hrunner hshared hok
  · intro other ph' hne hother
    exact (h.phases other ph' hother).of_deps (halone other ph' hne hother) harchive hsrc hextracted hinstalled
  · intro htrue
    rw [hfetch] at htrue
    cases htrue
  · exact fun _ => halone

theorem Inv.stop (h : Inv v s) : Inv v (s.enter k none) := by
  refine ⟨⟨h.shared.source, h.shared.outside, h.shared.installed, h.shared.imports⟩, ?_, h.fetcher.remove,
    h.refiller.remove⟩
  intro other ph hph
  by_cases hne : other = k
  · subst hne
    simp [State.enter] at hph
  · have hold : s.runner other = some ph := by simpa [State.enter, hne] using hph
    have hok := h.phases other ph hold
    cases ph <;> exact hok

/-! ## Steps on the source -/

theorem files_whole {path : P} {f : File C} (h : v.files path = some f) : ∃ c, f = .whole c :=
  whole_of_fill_empty h

omit [DecidableEq K] in
theorem Shared.fetch (h : Shared v s) (hextracted : t.extracted = false) {path : P} {c : C} {rest : List (P × C)}
    (hrest : (path, c) :: rest <:+ v.writes) {f : File C} (hsrc : t.src = FileTree.put s.src path f)
    (hdeps : t.deps = s.deps) (hmarker : t.installedMarker = s.installedMarker)
    (hinstalled : t.installed = s.installed) (himports : t.imports = s.imports) : Shared v t := by
  refine ⟨fun htrue => ?_, fun other hother => ?_, ?_, himports ▸ h.imports⟩
  · rw [hextracted] at htrue
    cases htrue
  · have hmem : path ∈ v.writes.map Prod.fst := List.mem_map.mpr ⟨(path, c), hrest.mem List.mem_cons_self, rfl⟩
    have hne : other ≠ path := fun heq => hother (heq ▸ hmem)
    rw [hsrc, put_of_ne hne]
    exact h.outside other hother
  · rw [hdeps, hmarker, hinstalled]
    exact h.installed

theorem Inv.testMarker (h : Inv v s) (halone : Alone s (.testMarker k, t)) :
    Inv v (s.enter k (some (if s.extractedMarker then .extracted else .downloading))) := by
  unfold Alone at halone
  by_cases hmarker : s.extractedMarker = true
  · simp only [hmarker, if_true] at halone ⊢
    exact h.move halone nofun nofun
  · simp only [hmarker] at halone ⊢
    have hextracted : s.extracted = false := by
      by_contra hdone
      exact hmarker (h.shared.source (by simpa using hdone)).2
    exact h.move hextracted (fun _ => halone) nofun

theorem Inv.tearArchive (h : Inv v s) (hk : s.runner k = some .downloading) :
    Inv v { s with archiveFile := some .torn } := by
  have hextracted : s.extracted = false := h.phases _ _ hk
  have hrunner : s.runner = Function.update s.runner k (some .downloading) := by
    rw [← hk, Function.update_eq_self]
  exact h.fetch hk rfl hextracted hrunner
    ⟨h.shared.source, h.shared.outside, h.shared.installed, h.shared.imports⟩ hextracted rfl

theorem Inv.download (h : Inv v s) (hk : s.runner k = some .downloading) :
    Inv v { s.enter k (some .downloaded) with archiveFile := some (.whole ()) } := by
  have hextracted : s.extracted = false := h.phases _ _ hk
  exact h.fetch hk rfl hextracted rfl
    ⟨h.shared.source, h.shared.outside, h.shared.installed, h.shared.imports⟩ ⟨hextracted, rfl⟩ rfl

theorem Inv.openArchive (h : Inv v s) {items : List (P × C)} (hk : s.runner k = some .downloaded)
    (hitems : s.archiveFile = some (.whole ()) → items = v.writes) : Inv v (s.enter k (some (.extracting items))) := by
  obtain ⟨hextracted, hwhole⟩ := h.phases _ _ hk
  rw [hitems hwhole]
  exact h.move ⟨hextracted, List.suffix_rfl, fill_congr h.shared.outside⟩ (fun _ => h.fetcher _ _ hk rfl) nofun

theorem Inv.truncate (h : Inv v s) {path : P} {c : C} {rest : List (P × C)}
    (hk : s.runner k = some (.extracting ((path, c) :: rest))) :
    Inv v ((s.opened v path).enter k (some (.writing path c rest))) := by
  obtain ⟨hextracted, hrest, hfill⟩ := h.phases _ _ hk
  exact h.fetch hk rfl hextracted rfl (h.shared.fetch hextracted hrest rfl rfl rfl rfl rfl)
    ⟨hextracted, hrest, fill_put_torn.trans hfill⟩ rfl

theorem Inv.write (h : Inv v s) {path : P} {c : C} {rest : List (P × C)}
    (hk : s.runner k = some (.writing path c rest)) :
    Inv v { s.enter k (some (.extracting rest)) with src := put s.src path (.whole c) } := by
  obtain ⟨hextracted, hrest, hfill⟩ := h.phases _ _ hk
  exact h.fetch hk rfl hextracted rfl (h.shared.fetch hextracted hrest rfl rfl rfl rfl rfl)
    ⟨hextracted, (List.suffix_cons _ _).trans hrest, hfill⟩ rfl

theorem Inv.markExtracted (h : Inv v s) (hk : s.runner k = some (.extracting [])) :
    Inv v { s.enter k (some .extracted) with extractedMarker := true, extracted := true } := by
  obtain ⟨hextracted, -, hfill⟩ := h.phases _ _ hk
  exact h.fetch hk rfl hextracted rfl
    ⟨fun _ => ⟨hfill, rfl⟩, h.shared.outside, h.shared.installed, h.shared.imports⟩ rfl rfl

omit [DecidableEq K] in
theorem Inv.importFile (h : Inv v s) {path : P} {deps : Bool} (hk : s.runner k = some (.running deps)) :
    Inv v { s with imports := (k, path, s.src path) :: s.imports } := by
  refine ⟨⟨h.shared.source, h.shared.outside, h.shared.installed, ?_⟩, ?_, h.fetcher, h.refiller⟩
  · intro k' path' f himport
    rcases List.mem_cons.mp himport with hnew | hold
    · cases hnew
      rw [(h.shared.source (h.phases _ _ hk).1).1]
    · exact h.shared.imports k' path' f hold
  · intro other ph hother
    have hok := h.phases other ph hother
    cases ph <;> exact hok

/-! ## Steps on the dependencies -/

omit [DecidableEq K] in
theorem Shared.refill (h : Shared v s) (hinstalled : t.installed = false) (hsrc : t.src = s.src)
    (hmarker : t.extractedMarker = s.extractedMarker) (hextracted : t.extracted = s.extracted)
    (himports : t.imports = s.imports) : Shared v t := by
  refine ⟨?_, hsrc ▸ h.outside, fun htrue => ?_, himports ▸ h.imports⟩
  · rw [hsrc, hmarker, hextracted]
    exact h.source
  · rw [hinstalled] at htrue
    cases htrue

theorem next_absent {c c' : C} {path : P} {done rest : List (P × C)} (h : v.install c = done ++ (path, c') :: rest) :
    fill (empty : Tree P C) done path = none := by
  apply fill_outside
  intro hmem
  have hdistinct := v.distinct c
  rw [h, List.map_append, List.nodup_append] at hdistinct
  exact hdistinct.2.2 path hmem path (by simp) rfl

theorem Inv.checkRequirements (h : Inv v s) (hk : s.runner k = some .extracted) :
    Inv v (s.enter k (some (if (s.src v.requirements).isSome then .requiring else .running false))) := by
  have hextracted : s.extracted = true := h.phases _ _ hk
  split_ifs with hsome
  · rw [(h.shared.source hextracted).1] at hsome
    exact h.move ⟨hextracted, Option.isSome_iff_ne_none.mp hsome⟩ nofun nofun
  · exact h.move ⟨hextracted, nofun⟩ nofun nofun

theorem Inv.checkInstalled (h : Inv v s) (halone : Alone s (.checkInstalled k, t))
    (hk : s.runner k = some .requiring) :
    Inv v (s.enter k (some (if s.installedMarker then .running true else .removing))) := by
  obtain ⟨hextracted, hsome⟩ := h.phases _ _ hk
  unfold Alone at halone
  by_cases hmarker : s.installedMarker = true
  · simp only [hmarker, if_true] at halone ⊢
    exact h.move ⟨hextracted, fun _ => halone⟩ nofun nofun
  · simp only [hmarker] at halone ⊢
    have hinstalled : s.installed = false := by
      by_contra hdone
      exact hmarker (h.shared.installed (by simpa using hdone)).2
    exact h.move ⟨hextracted, hsome, hinstalled⟩ nofun fun _ => halone

theorem Inv.removeFile (h : Inv v s) {path : P} (hk : s.runner k = some .removing) :
    Inv v { s with
      deps := erase s.deps path
      installedMarker := s.installedMarker && decide (path ≠ v.installedMarker) } := by
  obtain ⟨hextracted, hsome, hinstalled⟩ := h.phases _ _ hk
  have hrunner : s.runner = Function.update s.runner k (some .removing) := by
    rw [← hk, Function.update_eq_self]
  exact h.refill hk rfl hrunner (h.shared.refill hinstalled rfl rfl rfl rfl) ⟨hextracted, hsome, hinstalled⟩ rfl rfl
    rfl id rfl

theorem Inv.makeDirectory (h : Inv v s) (hk : s.runner k = some .removing) (hdeps : s.deps = empty) :
    Inv v (s.enter k (some .removed)) := by
  obtain ⟨hextracted, hsome, hinstalled⟩ := h.phases _ _ hk
  exact h.move ⟨hextracted, hsome, hinstalled, hdeps⟩ nofun fun _ => h.refiller _ _ hk rfl

theorem Inv.readRequirements (h : Inv v s) {items : List (P × C)} (hk : s.runner k = some .removed)
    (hitems : ∀ c, s.src v.requirements = some (.whole c) → items = v.install c) :
    Inv v (s.enter k (some (.installing true items))) := by
  obtain ⟨hextracted, hsome, hinstalled, hdeps⟩ := h.phases _ _ hk
  obtain ⟨f, hf⟩ := Option.ne_none_iff_exists'.mp hsome
  obtain ⟨c, rfl⟩ := files_whole hf
  have hread : s.src v.requirements = some (.whole c) := by rw [(h.shared.source hextracted).1, hf]
  refine h.move ⟨hextracted, hinstalled, c, [], hf, ?_, hdeps⟩ nofun fun _ => h.refiller _ _ hk rfl
  exact (hitems c hread).symm

theorem Inv.place (h : Inv v s) {alive : Bool} {path : P} {c : C} {rest : List (P × C)}
    (hk : s.runner k = some (.installing alive ((path, c) :: rest))) :
    Inv v { s.enter k (some (.placing alive path c rest)) with
      deps := put s.deps path .torn
      installedMarker := s.installedMarker || decide (path = v.installedMarker) } := by
  obtain ⟨hextracted, hinstalled, c', done, hf, hitems, hdeps⟩ := h.phases _ _ hk
  refine h.refill hk rfl rfl (h.shared.refill hinstalled rfl rfl rfl rfl) ?_ rfl rfl rfl id rfl
  exact ⟨hextracted, hinstalled, c', done, hf, hitems, by rw [← hdeps]⟩

omit [DecidableEq K] in
theorem Inv.not_skip (h : Inv v s) {alive : Bool} {path : P} {c : C} {rest : List (P × C)}
    (hk : s.runner k = some (.installing alive ((path, c) :: rest))) : s.deps path = none := by
  obtain ⟨-, -, c', done, -, hitems, hdeps⟩ := h.phases _ _ hk
  rw [hdeps, next_absent hitems]

theorem Inv.placed (h : Inv v s) {alive : Bool} {path : P} {c : C} {rest : List (P × C)}
    (hk : s.runner k = some (.placing alive path c rest)) :
    Inv v { s.enter k (some (.installing alive rest)) with deps := put s.deps path (.whole c) } := by
  obtain ⟨hextracted, hinstalled, c', done, hf, hitems, hdeps⟩ := h.phases _ _ hk
  refine h.refill hk rfl rfl (h.shared.refill hinstalled rfl rfl rfl rfl) ?_ rfl rfl rfl id rfl
  refine ⟨hextracted, hinstalled, c', done ++ [(path, c)], hf, by simp [hitems], ?_⟩
  change put s.deps path (.whole c) = _
  rw [hdeps, put_put, fill_snoc]

theorem Inv.markInstalled (h : Inv v s) (hk : s.runner k = some (.installing true [])) :
    Inv v { s.enter k (some (.running true)) with installedMarker := true, installed := true } := by
  obtain ⟨hextracted, -, c, done, hf, hitems, hdeps⟩ := h.phases _ _ hk
  have hcomplete : Complete v s.deps := ⟨c, hf, by rw [hdeps, hitems, List.append_nil]⟩
  exact h.refill hk rfl rfl ⟨h.shared.source, h.shared.outside, fun _ => ⟨hcomplete, rfl⟩, h.shared.imports⟩
    ⟨hextracted, fun _ => rfl⟩ rfl rfl rfl (fun _ => rfl) rfl

theorem Inv.abandonInstalling (h : Inv v s) {rest : List (P × C)} (hk : s.runner k = some (.installing true rest)) :
    Inv v (s.enter k (some (.installing false rest))) := by
  have hok : PhaseOk v s (.installing false rest) := h.phases _ (.installing true rest) hk
  exact h.move hok nofun fun _ => h.refiller _ _ hk rfl

theorem Inv.abandonPlacing (h : Inv v s) {path : P} {c : C} {rest : List (P × C)}
    (hk : s.runner k = some (.placing true path c rest)) : Inv v (s.enter k (some (.placing false path c rest))) := by
  have hok : PhaseOk v s (.placing false path c rest) := h.phases _ (.placing true path c rest) hk
  exact h.move hok nofun fun _ => h.refiller _ _ hk rfl

theorem Inv.step {a : Action P C K} (h : Inv v s) (halone : Alone s (a, t)) (hstep : Step v s a t) : Inv v t := by
  cases hstep with
  | start hk => exact h.move trivial nofun nofun
  | testMarker hk => exact h.testMarker halone
  | tearArchive hk => exact h.tearArchive hk
  | download hk => exact h.download hk
  | openArchive hk hitems => exact h.openArchive hk hitems
  | truncate hk => exact h.truncate hk
  | write hk => exact h.write hk
  | markExtracted hk => exact h.markExtracted hk
  | checkRequirements hk => exact h.checkRequirements hk
  | checkInstalled hk => exact h.checkInstalled halone hk
  | removeFile hk => exact h.removeFile hk
  | makeDirectory hk hdeps => exact h.makeDirectory hk hdeps
  | readRequirements hk hitems => exact h.readRequirements hk hitems
  | place hk => exact h.place hk
  | skip hk hpath => exact absurd (h.not_skip hk) hpath
  | placed hk => exact h.placed hk
  | markInstalled hk => exact h.markInstalled hk
  | importFile hk => exact h.importFile hk
  | abandonInstalling hk => exact h.abandonInstalling hk
  | abandonPlacing hk => exact h.abandonPlacing hk
  | stop => exact h.stop

end PyFaaS.VersionCache
