import PyFaaS.ArchiveExtraction
import PyFaaS.ArtifactCleanup
import PyFaaS.WriteOnce

/-!
# The bytes behind a version

`create_version` stores an accepted archive under a path of its own and commits the row
later; `delete_function` removes the objects one by one before it commits. Any number of
these requests run at once and may fail between two calls. Nobody compares the hash of a
download, and nobody has to: the object of a row is the accepted archive or is gone.
-/

namespace PyFaaS.ArtifactIntegrity
open Api Database Transactions WriteOnce
open ArchiveExtraction (Data)
open ArtifactCleanup (UuidText artifactPath_inj)
open Runs (Run Fires)
open ValidatorExceptions (Libraries validateArchive)

/-! ## `ArtifactStorage` -/

abbrev Bucket := Text → Option Data

/-- SHA-256 as `hexdigest` and the libraries of the validator. -/
structure Tools where
  settings : ApiSettings
  sha256 : Data → Text
  lib : Libraries Text

section
variable (T : Tools)

def uploadArtifact (functionId versionId : Uuid) (data : Data) (bucket : Bucket) : (Text × Text × ℕ) × Bucket :=
  let path := artifactPath T.settings functionId versionId
  ((path, T.sha256 data, data.length), put path data bucket)

def downloadArtifact (artifactPath : Text) (bucket : Bucket) : Option Data := bucket artifactPath

def deleteArtifact (artifactPath : Text) (bucket : Bucket) : Bucket := remove artifactPath bucket

def verifyArtifactHash (artifactPath expectedHash : Text) (bucket : Bucket) : Option Bool :=
  (downloadArtifact artifactPath bucket).map fun data => decide (T.sha256 data = expectedHash)

/-! ## The requests -/

/-- A `create_version` that has passed its checks and drawn the id of its version. -/
structure Upload where
  functionId : Uuid
  versionId : Uuid
  versionNumber : ℕ
  data : Data
  form : VersionForm
  createdAt : Time

def Upload.path (x : Upload) : Text := artifactPath T.settings x.functionId x.versionId

def Upload.row (x : Upload) : FunctionVersion where
  id := x.versionId
  functionId := x.functionId
  versionNumber := x.versionNumber
  entrypoint := x.form.entrypoint
  artifactPath := x.path T
  artifactHash := T.sha256 x.data
  artifactSize := x.data.length
  environment := .obj []
  timeout := x.form.timeout.toNat
  memoryMb := x.form.memoryMb.toNat
  isActive := true
  changeNotes := x.form.changeNotes
  createdAt := x.createdAt

def accepts (data : Data) : Bool :=
  match validateArchive T.lib data with
  | .ok r => r.isValid
  | .error _ => false

def Upload.checked (x : Upload) : Bool :=
  x.form.valid && decide (x.data.length ≤ T.settings.maxFunctionSizeBytes) && accepts T x.data

/-- The requests are keyed by the id of the new version and by a number. `uploads` are the
ones between their `put_object` and their commit, `deletes` those behind their statements,
with the paths that they have still to remove. -/
structure State where
  bucket : Bucket
  rows : List FunctionVersion
  taken : List Uuid
  uploads : Uuid → Option Upload
  deletes : ℕ → Option (Uuid × List Text)

def start : State := ⟨fun _ => none, [], [], fun _ => none, fun _ => none⟩

inductive Event where
  | store (x : Upload)
  | commitUpload (versionId : Uuid)
  | failUpload (versionId : Uuid)
  | selectVersions (request : ℕ) (functionId : Uuid)
  | removeNext (request : ℕ)
  | commitDelete (request : ℕ)
  | failDelete (request : ℕ)

def step (s : State) : Event → Option State
  | .store x =>
    -- uuid4 draws no id twice
    if x.checked T = true ∧ x.versionId ∉ s.taken then
      some { s with
        bucket := (uploadArtifact T x.functionId x.versionId x.data s.bucket).2
        taken := x.versionId :: s.taken
        uploads := Function.update s.uploads x.versionId (some x) }
    else none
  | .commitUpload versionId =>
    (s.uploads versionId).map fun x =>
      { s with rows := s.rows ++ [x.row T], uploads := Function.update s.uploads versionId none }
  | .failUpload versionId =>
    (s.uploads versionId).map fun _ => { s with uploads := Function.update s.uploads versionId none }
  | .selectVersions request functionId =>
    if s.deletes request = none then
      some { s with deletes := Function.update s.deletes request (some (functionId,
        (s.rows.filter fun v => decide (v.functionId = functionId)).map FunctionVersion.artifactPath)) }
    else none
  | .removeNext request =>
    match s.deletes request with
    | some (functionId, path :: paths) =>
      some { s with
        bucket := deleteArtifact path s.bucket
        deletes := Function.update s.deletes request (some (functionId, paths)) }
    | _ => none
  | .commitDelete request =>
    match s.deletes request with
    | some (functionId, []) =>
      some { s with
        rows := s.rows.filter fun v => !decide (v.functionId = functionId)
        deletes := Function.update s.deletes request none }
    | _ => none
  | .failDelete request =>
    (s.deletes request).map fun _ => { s with deletes := Function.update s.deletes request none }

end

variable {T : Tools} {s t : State} {e : Event} {es : List Event} {x : Upload} {functionId : Uuid}

/-! ## The route makes these calls -/

structure Upload.Of (T : Tools) (x : Upload) (archive : Archive) : Prop where
  size : archive.size = x.data.length
  sha256 : archive.sha256 = T.sha256 x.data
  verdict : archive.rejection.isNone = accepts T x.data

theorem createVersion_row {user : Uuid} {g : Given} {db db' : Database} {a : Response} {archive : Archive}
    (h : createVersion T.settings user g x.functionId archive x.form db = .ok (a, db')) (hx : x.Of T archive)
    (hid : x.versionId = g.newId) (hnow : x.createdAt = g.now)
    (hnumber : x.versionNumber = nextVersionNumber (versionsOf x.functionId db)) :
    x.checked T = true ∧ a = .version (x.row T) ∧ x.row T ∈ db'.versions := by
  obtain ⟨fn, s', hget, hrest⟩ := bind_ok.mp h
  obtain ⟨rfl, hfn⟩ := getFunctionOr404_ok hget
  simp only [query_bind, require_bind_ok, write_bind, return_ok, hfn.id] at hrest
  obtain ⟨hform, hsize, haccepted, -, -, hret⟩ := hrest
  obtain ⟨rfl, rfl⟩ := Prod.mk.inj hret
  have hrow : x.row T =
      { id := g.newId
        functionId := x.functionId
        versionNumber := nextVersionNumber (versionsOf x.functionId db)
        entrypoint := x.form.entrypoint
        artifactPath := artifactPath T.settings x.functionId g.newId
        artifactHash := archive.sha256
        artifactSize := archive.size
        environment := .obj []
        timeout := x.form.timeout.toNat
        memoryMb := x.form.memoryMb.toNat
        isActive := true
        changeNotes := x.form.changeNotes
        createdAt := g.now } := by
    rw [← hid, ← hnow, ← hnumber, hx.size, hx.sha256]
    rfl
  refine ⟨?_, congrArg Response.version hrow.symm, ?_⟩
  · rw [Upload.checked, hform, ← hx.size, hsize, ← hx.verdict, haccepted]
    rfl
  · rw [hrow]
    exact List.mem_append_right _ (List.mem_singleton_self _)

/-! ## What a step can do -/

inductive Took (T : Tools) (s : State) : Event → State → Prop where
  | store {x : Upload} (hx : x.checked T = true) (hfresh : x.versionId ∉ s.taken) :
      Took T s (.store x)
        { s with
          bucket := put (x.path T) x.data s.bucket
          taken := x.versionId :: s.taken
          uploads := Function.update s.uploads x.versionId (some x) }
  | commitUpload {versionId : Uuid} {x : Upload} (hx : s.uploads versionId = some x) :
      Took T s (.commitUpload versionId)
        { s with rows := s.rows ++ [x.row T], uploads := Function.update s.uploads versionId none }
  | failUpload {versionId : Uuid} :
      Took T s (.failUpload versionId) { s with uploads := Function.update s.uploads versionId none }
  | selectVersions {request : ℕ} {functionId : Uuid} :
      Took T s (.selectVersions request functionId)
        { s with deletes := Function.update s.deletes request (some (functionId,
            (s.rows.filter fun v => decide (v.functionId = functionId)).map FunctionVersion.artifactPath)) }
  | removeNext {request : ℕ} {functionId : Uuid} {path : Text} {paths : List Text}
      (hd : s.deletes request = some (functionId, path :: paths)) :
      Took T s (.removeNext request)
        { s with
          bucket := remove path s.bucket
          deletes := Function.update s.deletes request (some (functionId, paths)) }
  | commitDelete {request : ℕ} {functionId : Uuid} :
      Took T s (.commitDelete request)
        { s with
          rows := s.rows.filter fun v => !decide (v.functionId = functionId)
          deletes := Function.update s.deletes request none }
  | failDelete {request : ℕ} :
      Took T s (.failDelete request) { s with deletes := Function.update s.deletes request none }

theorem step_took (h : Fires (step T) s e t) : Took T s e t := by
  have h : step T s e = some t := h
  cases e with
  | store x =>
    simp only [step] at h
    split_ifs at h with hx
    cases h
    exact .store hx.1 hx.2
  | commitUpload versionId =>
    obtain ⟨x, hx, rfl⟩ := Option.map_eq_some_iff.mp h
    exact .commitUpload hx
  | failUpload versionId =>
    obtain ⟨x, -, rfl⟩ := Option.map_eq_some_iff.mp h
    exact .failUpload
  | selectVersions request functionId =>
    simp only [step] at h
    split_ifs at h
    cases h
    exact .selectVersions
  | removeNext request =>
    simp only [step] at h
    split at h
    · rename_i functionId path paths hd
      cases h
      exact .removeNext hd
    · cases h
  | commitDelete request =>
    simp only [step] at h
    split at h
    · cases h
      exact .commitDelete
    · cases h
  | failDelete request =>
    obtain ⟨x, -, rfl⟩ := Option.map_eq_some_iff.mp h
    exact .failDelete

/-! ## Nothing is overwritten -/

def TakenPath (T : Tools) (s : State) (path : Text) : Prop :=
  ∃ functionId versionId, path = artifactPath T.settings functionId versionId ∧ versionId ∈ s.taken

theorem path_fresh (htext : UuidText T.settings) (hfresh : x.versionId ∉ s.taken) : ¬ TakenPath T s (x.path T) := by
  intro h
  obtain ⟨functionId, versionId, hpath, htaken⟩ := h
  rw [← (artifactPath_inj htext hpath).2] at htaken
  exact hfresh htaken

theorem step_shrinks (htext : UuidText T.settings) (h : Took T s e t) :
    Shrinks (TakenPath T s) s.bucket t.bucket ∧ s.taken ⊆ t.taken := by
  cases h with
  | store hx hfresh => exact ⟨.put (path_fresh htext hfresh), List.subset_cons_self ..⟩
  | removeNext => exact ⟨.remove, List.Subset.refl _⟩
  | commitUpload => exact ⟨.refl, List.Subset.refl _⟩
  | failUpload => exact ⟨.refl, List.Subset.refl _⟩
  | selectVersions => exact ⟨.refl, List.Subset.refl _⟩
  | commitDelete => exact ⟨.refl, List.Subset.refl _⟩
  | failDelete => exact ⟨.refl, List.Subset.refl _⟩

theorem takenPath_mono (h : s.taken ⊆ t.taken) (path : Text) (hpath : TakenPath T s path) : TakenPath T t path := by
  obtain ⟨functionId, versionId, rfl, htaken⟩ := hpath
  exact ⟨functionId, versionId, rfl, h htaken⟩

theorem run_shrinks (htext : UuidText T.settings) (h : Run (Fires (step T)) s es t) :
    Shrinks (TakenPath T s) s.bucket t.bucket ∧ s.taken ⊆ t.taken := by
  induction h with
  | nil s => exact ⟨.refl, List.Subset.refl _⟩
  | cons hstep _ ih =>
    obtain ⟨hfirst, htaken⟩ := step_shrinks htext (step_took hstep)
    exact ⟨hfirst.trans (ih.1.mono (takenPath_mono htaken)), List.Subset.trans htaken ih.2⟩

/-! ## The bytes of a request -/

structure Sound (T : Tools) (s : State) (x : Upload) : Prop where
  checked : x.checked T = true
  taken : x.versionId ∈ s.taken
  holds : ∀ data, s.bucket (x.path T) = some data → data = x.data

structure Intact (T : Tools) (s : State) : Prop where
  rows : ∀ v ∈ s.rows, ∃ x : Upload, v = x.row T ∧ Sound T s x
  uploads : ∀ versionId x, s.uploads versionId = some x → Sound T s x

theorem Sound.path_taken (h : Sound T s x) : TakenPath T s (x.path T) := ⟨_, _, rfl, h.taken⟩

theorem Sound.later (h : Sound T s x) (hshrinks : Shrinks (TakenPath T s) s.bucket t.bucket)
    (htaken : s.taken ⊆ t.taken) : Sound T t x :=
  ⟨h.checked, htaken h.taken, fun _ hdata => hshrinks.read h.path_taken h.holds hdata⟩

theorem uploads_update {uploads : Uuid → Option Upload} {versionId versionId' : Uuid} {x' : Upload}
    (h : Function.update uploads versionId none versionId' = some x') : uploads versionId' = some x' := by
  by_cases hid : versionId' = versionId
  · rw [hid, Function.update_self] at h
    cases h
  · rwa [Function.update_of_ne hid] at h

theorem uploads_stored {uploads : Uuid → Option Upload} {versionId : Uuid} {x' : Upload}
    (h : Function.update uploads x.versionId (some x) versionId = some x') : x' = x ∨ uploads versionId = some x' := by
  by_cases hid : versionId = x.versionId
  · rw [hid, Function.update_self] at h
    exact Or.inl (Option.some.inj h).symm
  · rw [Function.update_of_ne hid] at h
    exact Or.inr h

theorem step_intact (htext : UuidText T.settings) (hs : Intact T s) (h : Took T s e t) : Intact T t := by
  obtain ⟨hshrinks, htaken⟩ := step_shrinks htext h
  have hrows : ∀ v ∈ s.rows, ∃ x : Upload, v = x.row T ∧ Sound T t x := by
    intro v hv
    obtain ⟨x, hrow, hx⟩ := hs.rows v hv
    exact ⟨x, hrow, hx.later hshrinks htaken⟩
  have huploads : ∀ versionId x, s.uploads versionId = some x → Sound T t x :=
    fun versionId x hx => (hs.uploads versionId x hx).later hshrinks htaken
  cases h with
  | @store x hx hfresh =>
    refine ⟨hrows, fun versionId x' hx' => ?_⟩
    rcases uploads_stored hx' with rfl | hx'
    · refine ⟨hx, List.mem_cons_self, fun data hdata => ?_⟩
      have hdata : put (x'.path T) x'.data s.bucket (x'.path T) = some data := hdata
      rw [put, Function.update_self] at hdata
      exact (Option.some.inj hdata).symm
    · exact huploads versionId x' hx'
  | @commitUpload versionId x hx =>
    refine ⟨fun v hv => ?_, fun versionId' x' hx' => huploads versionId' x' (uploads_update hx')⟩
    rcases List.mem_append.mp hv with hv | hv
    · exact hrows v hv
    · exact ⟨x, List.mem_singleton.mp hv, huploads versionId x hx⟩
  | failUpload => exact ⟨hrows, fun versionId' x' hx' => huploads versionId' x' (uploads_update hx')⟩
  | selectVersions => exact ⟨hrows, huploads⟩
  | removeNext => exact ⟨hrows, huploads⟩
  | commitDelete => exact ⟨fun v hv => hrows v (List.mem_of_mem_filter hv), huploads⟩
  | failDelete => exact ⟨hrows, huploads⟩

theorem run_intact (htext : UuidText T.settings) (hs : Intact T s) (h : Run (Fires (step T)) s es t) : Intact T t :=
  h.invariant (fun _ _ _ hs hstep => step_intact htext hs (step_took hstep)) hs

/-! ## Objects of a function that nobody deletes -/

structure Kept (T : Tools) (functionId : Uuid) (s : State) : Prop where
  rows : ∀ v ∈ s.rows, v.functionId = functionId → (s.bucket v.artifactPath).isSome = true
  uploads : ∀ versionId x, s.uploads versionId = some x → x.functionId = functionId →
    (s.bucket (x.path T)).isSome = true
  deletes : ∀ request f paths, s.deletes request = some (f, paths) → ∀ path ∈ paths,
    ∃ other versionId, other ≠ functionId ∧ path = artifactPath T.settings other versionId

theorem path_ne (htext : UuidText T.settings) {versionId : Uuid} {path : Text}
    (h : ∃ other versionId, other ≠ functionId ∧ path = artifactPath T.settings other versionId) :
    artifactPath T.settings functionId versionId ≠ path := by
  intro heq
  obtain ⟨other, versionId', hother, rfl⟩ := h
  exact hother (artifactPath_inj htext heq).1.symm

theorem step_present (htext : UuidText T.settings) (hs : Kept T functionId s) (h : Took T s e t) (versionId : Uuid)
    (hpresent : (s.bucket (artifactPath T.settings functionId versionId)).isSome = true) :
    (t.bucket (artifactPath T.settings functionId versionId)).isSome = true := by
  cases h with
  | store => exact put_isSome hpresent
  | @removeNext request f path paths hd =>
    have hother := hs.deletes request f (path :: paths) hd path List.mem_cons_self
    change (remove path s.bucket (artifactPath T.settings functionId versionId)).isSome = true
    rwa [remove_of_ne (path_ne htext hother)]
  | commitUpload => exact hpresent
  | failUpload => exact hpresent
  | selectVersions => exact hpresent
  | commitDelete => exact hpresent
  | failDelete => exact hpresent

theorem deletes_update {deletes : ℕ → Option (Uuid × List Text)} {request request' : ℕ} {y : Option (Uuid × List Text)}
    {f : Uuid} {paths : List Text} (h : Function.update deletes request y request' = some (f, paths)) :
    y = some (f, paths) ∨ deletes request' = some (f, paths) := by
  by_cases hid : request' = request
  · rw [hid, Function.update_self] at h
    exact Or.inl h
  · rw [Function.update_of_ne hid] at h
    exact Or.inr h

theorem step_kept (htext : UuidText T.settings) (hi : Intact T s) (hs : Kept T functionId s) (h : Took T s e t)
    (he : ∀ request, e ≠ .selectVersions request functionId) : Kept T functionId t := by
  have hrows : ∀ v ∈ s.rows, v.functionId = functionId → (t.bucket v.artifactPath).isSome = true := by
    intro v hv hf
    obtain ⟨x, rfl, -⟩ := hi.rows v hv
    obtain rfl : x.functionId = functionId := hf
    exact step_present htext hs h _ (hs.rows _ hv rfl)
  have huploads : ∀ versionId x, s.uploads versionId = some x → x.functionId = functionId →
      (t.bucket (x.path T)).isSome = true := by
    rintro versionId x hx rfl
    exact step_present htext hs h _ (hs.uploads versionId x hx rfl)
  cases h with
  | @store x hx hfresh =>
    refine ⟨hrows, fun versionId x' hx' hf => ?_, hs.deletes⟩
    rcases uploads_stored hx' with rfl | hx'
    · change (put (x'.path T) x'.data s.bucket (x'.path T)).isSome = true
      rw [put, Function.update_self]
      rfl
    · exact huploads versionId x' hx' hf
  | @commitUpload versionId x hx =>
    refine ⟨fun v hv hf => ?_, fun versionId' x' hx' => huploads versionId' x' (uploads_update hx'), hs.deletes⟩
    rcases List.mem_append.mp hv with hv | hv
    · exact hrows v hv hf
    · rw [List.mem_singleton.mp hv] at hf ⊢
      exact huploads versionId x hx hf
  | failUpload => exact ⟨hrows, fun versionId' x' hx' => huploads versionId' x' (uploads_update hx'), hs.deletes⟩
  | @selectVersions request f =>
    refine ⟨hrows, huploads, fun request' f' paths hd path hpath => ?_⟩
    rcases deletes_update hd with hnew | hold
    · obtain ⟨rfl, rfl⟩ := Prod.mk.inj (Option.some.inj hnew)
      obtain ⟨v, hv, rfl⟩ := List.mem_map.mp hpath
      obtain ⟨hmem, hown⟩ := List.mem_filter.mp hv
      obtain ⟨x, rfl, -⟩ := hi.rows v hmem
      refine ⟨x.functionId, x.versionId, ?_, rfl⟩
      rintro rfl
      exact he request (congrArg (Event.selectVersions request) (of_decide_eq_true hown).symm)
    · exact hs.deletes request' f' paths hold path hpath
  | @removeNext request f path paths hd =>
    refine ⟨hrows, huploads, fun request' f' paths' hd' path' hpath' => ?_⟩
    rcases deletes_update hd' with hnew | hold
    · obtain ⟨-, rfl⟩ := Prod.mk.inj (Option.some.inj hnew)
      exact hs.deletes request f (path :: paths) hd path' (List.mem_cons_of_mem _ hpath')
    · exact hs.deletes request' f' paths' hold path' hpath'
  | @commitDelete request f =>
    refine ⟨fun v hv hf => hrows v (List.mem_of_mem_filter hv) hf, huploads, fun request' f' paths' hd' => ?_⟩
    rcases deletes_update hd' with hnew | hold
    · cases hnew
    · exact hs.deletes request' f' paths' hold
  | @failDelete request =>
    refine ⟨hrows, huploads, fun request' f' paths' hd' => ?_⟩
    rcases deletes_update hd' with hnew | hold
    · cases hnew
    · exact hs.deletes request' f' paths' hold

theorem run_kept (htext : UuidText T.settings) (hi : Intact T s) (hs : Kept T functionId s)
    (h : Run (Fires (step T)) s es t) (hnone : ∀ request, Event.selectVersions request functionId ∉ es) :
    Kept T functionId t ∧ ∀ versionId, (s.bucket (artifactPath T.settings functionId versionId)).isSome = true →
      (t.bucket (artifactPath T.settings functionId versionId)).isSome = true := by
  induction h with
  | nil s => exact ⟨hs, fun _ hpresent => hpresent⟩
  | cons hstep _ ih =>
    have htook := step_took hstep
    obtain ⟨hkept, hrest⟩ := ih (step_intact htext hi htook)
      (step_kept htext hi hs htook fun request heq => hnone request (heq ▸ List.mem_cons_self))
      fun request hmem => hnone request (List.mem_cons_of_mem _ hmem)
    exact ⟨hkept, fun versionId hpresent => hrest versionId (step_present htext hs htook versionId hpresent)⟩

theorem start_intact : Intact T start := by
  constructor
  · intro v hv
    cases hv
  · intro versionId x hx
    cases hx

theorem start_kept : Kept T functionId start := by
  constructor
  · intro v hv
    cases hv
  · intro versionId x hx
    cases hx
  · intro request f paths hd
    cases hd

/-- Whenever the object of a committed row is read later, it is the accepted archive whose
hash and size the row holds, or there is none. It is there as long as no request has begun to
delete the function. -/
theorem artifact_intact (htext : UuidText T.settings) (h : Run (Fires (step T)) start es s) {v : FunctionVersion}
    (hv : v ∈ s.rows) : ∃ data, accepts T data = true ∧ T.sha256 data = v.artifactHash ∧
      data.length = v.artifactSize ∧ ∀ later t, Run (Fires (step T)) s later t →
        (∀ found, downloadArtifact v.artifactPath t.bucket = some found → found = data) ∧
        verifyArtifactHash T v.artifactPath v.artifactHash t.bucket ≠ some false ∧
        ((∀ request, Event.selectVersions request v.functionId ∉ es ++ later) →
          downloadArtifact v.artifactPath t.bucket = some data) := by
  have hintact := run_intact htext start_intact h
  obtain ⟨x, rfl, hx⟩ := hintact.rows v hv
  have haccepted : accepts T x.data = true := (Bool.and_eq_true_iff.mp hx.checked).2
  refine ⟨x.data, haccepted, rfl, rfl, fun later t hlater => ?_⟩
  obtain ⟨hshrinks, htaken⟩ := run_shrinks htext hlater
  have hholds : ∀ found, t.bucket (x.path T) = some found → found = x.data := (hx.later hshrinks htaken).holds
  refine ⟨hholds, ?_, fun hnone => ?_⟩
  · rw [verifyArtifactHash, downloadArtifact]
    cases hfound : t.bucket (x.row T).artifactPath with
    | none => simp
    | some found =>
      rw [hholds found hfound, Option.map_some]
      simp [Upload.row]
  · obtain ⟨hkept, -⟩ := run_kept htext start_intact start_kept h
      fun request hmem => hnone request (List.mem_append_left _ hmem)
    obtain ⟨-, hstays⟩ := run_kept htext hintact hkept hlater
      fun request hmem => hnone request (List.mem_append_right _ hmem)
    obtain ⟨found, hfound⟩ := Option.isSome_iff_exists.mp (hstays x.versionId (hkept.rows _ hv rfl))
    rw [← hholds found hfound]
    exact hfound

/-! A function with one version, while a second upload fails behind its `put_object`. -/

def sampleTools : Tools where
  settings := sampleSettings
  sha256 data := (toString data.length).toList
  lib :=
    { isZipfile := fun _ => true
      zipFile := fun data => .ok [⟨"handler.py".toList, data.length, .ok data⟩]
      decode := fun _ => []
      parse := fun _ _ => .ok (.node ⟨.module, 0, 0⟩ [])
      interrupt := fun _ => none }

def sampleUpload (versionId : Uuid) (data : Data) : Upload :=
  ⟨1, versionId, 1, data, ⟨"handler.handler".toList, 30, 128, none⟩, 0⟩

def sampleEvents : List Event :=
  [.store (sampleUpload 2 [10]), .store (sampleUpload 3 [11, 12]), .commitUpload 2, .failUpload 3]

theorem artifact_intact_sample : ∃ s data, Run (Fires (step sampleTools)) start sampleEvents s ∧
    accepts sampleTools data = true ∧ ∀ later t, Run (Fires (step sampleTools)) s later t →
      (∀ found, downloadArtifact "functions/1/2/source.zip".toList t.bucket = some found → found = data) ∧
      ((∀ request, Event.selectVersions request 1 ∉ sampleEvents ++ later) →
        downloadArtifact "functions/1/2/source.zip".toList t.bucket = some data) := by
  have hrows : (Runs.execute (step sampleTools) start sampleEvents).map State.rows =
      some [(sampleUpload 2 [10]).row sampleTools] := by decide
  obtain ⟨s, hrun, hrow⟩ := Option.map_eq_some_iff.mp hrows
  have hv : (sampleUpload 2 [10]).row sampleTools ∈ s.rows := by
    rw [hrow]
    exact List.mem_singleton_self _
  obtain ⟨data, haccepted, -, -, hlater⟩ :=
    artifact_intact ArtifactCleanup.uuidText_sample (Runs.run_of_execute hrun) hv
  refine ⟨s, data, Runs.run_of_execute hrun, haccepted, fun later t hrest => ?_⟩
  obtain ⟨hsame, -, hthere⟩ := hlater later t hrest
  have hpath : ((sampleUpload 2 [10]).row sampleTools).artifactPath = "functions/1/2/source.zip".toList := by
    decide
  rw [hpath] at hsame hthere
  exact ⟨hsame, hthere⟩

end PyFaaS.ArtifactIntegrity
