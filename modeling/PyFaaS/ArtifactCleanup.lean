import PyFaaS.RouteEffects
import PyFaaS.TenantIsolation
import PyFaaS.TwoStores

/-!
# Versions and stored artifacts

`create_version` uploads before it inserts, and `delete_function` removes the
artifacts one by one before the commit. A failure behind one of these calls rolls
back the rows and leaves the objects as the call has made them.
-/

namespace PyFaaS.ArtifactCleanup
open Api Database Transactions TwoStores
open Runs (Along Throughout)

inductive ArtifactRequest where
  | createFunction (name : Text) (description : Option Text) (tags : Json)
  | createVersion (functionId : Uuid) (archive : Archive) (form : VersionForm)
  | deleteFunction (functionId : Uuid)

def ArtifactRequest.route : ArtifactRequest → UserRequest
  | .createFunction name description tags => .createFunction name description tags
  | .createVersion functionId archive form => .createVersion functionId archive form
  | .deleteFunction functionId => .deleteFunction functionId

abbrev Stored := Database × List Text

abbrev StorageCall := Effect Database (List Text)

def putObject (path : Text) (objects : List Text) : List Text := path :: objects

def removeObject (path : Text) (objects : List Text) : List Text := objects.filter fun object => object != path

/-! ## The calls of the requests -/

/-- `id` stands for the selects at the begin, and for the refresh at the end. -/
def uploadCalls (g : Given) (functionId : Uuid) (version : FunctionVersion) : List StorageCall :=
  [.inner id, .outer (putObject version.artifactPath), .inner (insertVersion version),
    .inner (Database.updateFunction functionId (touchFunction g.now (activateNew g))), .inner id]

def deleteEdits (user : Uuid) (g : Given) (functionId : Uuid) (versionIds : List Uuid) :
    List (Database → Database) :=
  [id, detachExecutions functionId user g.now] ++
    (if versionIds.isEmpty then [] else [detachVersions versionIds g.now]) ++
    [Database.updateFunction functionId (touchFunction g.now clearVersions),
      deleteSchedules fun s => decide (s.functionId = functionId), deleteActivations functionId,
      deleteVersions functionId, deleteFunctionRow functionId]

def deleteCalls (user : Uuid) (g : Given) (functionId : Uuid) (versions : List FunctionVersion) : List StorageCall :=
  (deleteEdits user g functionId (versions.map FunctionVersion.id)).map .inner ++
    ((versions.map FunctionVersion.artifactPath).map removeObject).map .outer

def faultless (g : Given) : Given := { g with storageFails := fun _ => false }

def calls (settings : ApiSettings) (db : Database) (c : Call ArtifactRequest) : List StorageCall :=
  match c.request with
  | .createFunction name description tags =>
    match createFunction settings c.user c.given name description tags db with
    | .ok (_, t) => [.inner id, .inner fun _ => t]
    | .error _ => []
  | .createVersion functionId archive form =>
    match createVersion settings c.user (faultless c.given) functionId archive form db with
    | .ok (.version version, _) => uploadCalls c.given functionId version
    | _ => []
  | .deleteFunction functionId =>
    match deleteFunction c.user (faultless c.given) functionId db with
    | .ok _ => deleteCalls c.user c.given functionId (versionsOf functionId db)
    | .error _ => []

structure Attempted where
  call : Call ArtifactRequest
  took : ℕ

section
variable (settings : ApiSettings)

def next (s : Stored) (a : Attempted) : Stored := attempt (calls settings s.1 a.call) a.took s

def SuppliedAttempt (s : Stored) (a : Attempted) : Prop := SuppliedCall settings s.1 a.call

instance (s : Stored) (a : Attempted) : Decidable (SuppliedAttempt settings s a) :=
  inferInstanceAs (Decidable (SuppliedCall settings s.1 a.call))

def FailsClean (s : Stored) (a : Attempted) : Prop := Clean (calls settings s.1 a.call) a.took

instance (s : Stored) (a : Attempted) : Decidable (FailsClean settings s a) :=
  inferInstanceAs (Decidable (Clean (calls settings s.1 a.call) a.took))

end

def Matching (s : Stored) : Prop := ∀ path, path ∈ s.2 ↔ path ∈ s.1.versions.map FunctionVersion.artifactPath

/-- What `str` makes of UUIDs: different ones differ, and none has a slash. -/
structure UuidText (settings : ApiSettings) : Prop where
  injective : Function.Injective settings.uuidText
  noSlash : ∀ id, '/' ∉ settings.uuidText id

def AllPaths (settings : ApiSettings) (db : Database) : Prop :=
  ∀ v ∈ db.versions, v.artifactPath = artifactPath settings v.functionId v.id

variable {settings : ApiSettings} {db t : Database} {s : Stored} {objects : List Text}
  {u functionId versionId functionId' versionId' : Uuid} {g : Given}

theorem artifactPath_inj (htext : UuidText settings)
    (h : artifactPath settings functionId versionId = artifactPath settings functionId' versionId') :
    functionId = functionId' ∧ versionId = versionId' := by
  unfold artifactPath at h
  have hbare := List.append_cancel_right h
  rw [List.append_assoc, List.append_assoc, List.append_assoc, List.append_assoc] at hbare
  have hparts : settings.uuidText functionId ++ '/' :: settings.uuidText versionId =
      settings.uuidText functionId' ++ '/' :: settings.uuidText versionId' := List.append_cancel_left hbare
  obtain ⟨hfunction, -, hversion⟩ := (List.append_cons_inj_of_notMem (htext.noSlash _) (htext.noSlash _)).mp hparts
  exact ⟨htext.injective hfunction, htext.injective hversion⟩

/-! ## What the calls do when all take effect -/

theorem inner_deleteCalls (versions : List FunctionVersion) :
    inner (deleteCalls u g functionId versions) db =
      deleteStatements u g functionId (versions.map FunctionVersion.id) db := by
  rw [deleteCalls, inner_append, inner_map_outer]
  cases versions with
  | nil => rfl
  | cons v versions => rfl

theorem versions_deleteStatements (versionIds : List Uuid) :
    (deleteStatements u g functionId versionIds db).versions =
      db.versions.filter fun v => !decide (v.functionId = functionId) := by
  have hdeleted : (deleteStatements u g functionId versionIds db).versions =
      (db.versions.filter fun v => !decide (v.functionId = functionId)).filter fun v =>
        !decide (v.functionId = functionId) := by
    unfold deleteStatements
    cases versionIds with
    | nil => rfl
    | cons id ids => rfl
  rw [hdeleted, List.filter_filter]
  simp only [Bool.and_self]

theorem mem_removed {paths : List Text} {path : Text} :
    path ∈ outer ((paths.map removeObject).map (Effect.outer (σ := Database))) objects ↔
      path ∈ objects ∧ path ∉ paths := by
  induction paths generalizing objects with
  | nil => simp [outer]
  | cons p paths ih =>
    have hstep : outer (((p :: paths).map removeObject).map (Effect.outer (σ := Database))) objects =
        outer ((paths.map removeObject).map .outer) (removeObject p objects) := rfl
    rw [hstep, ih, removeObject, List.mem_filter, List.mem_cons, not_or, and_assoc, bne_iff_ne]

theorem calls_createVersion {archive : Archive} {form : VersionForm} {p : Response × Database}
    (h : createVersion settings u (faultless g) functionId archive form db = .ok p) :
    ∃ version, Uploaded settings g functionId db version ∧
      calls settings db ⟨u, .createVersion functionId archive form, g⟩ = uploadCalls g functionId version ∧
      p.2 = Database.updateFunction functionId (touchFunction g.now (activateNew g)) (insertVersion version db) := by
  obtain ⟨a, t⟩ := p
  obtain ⟨fn, version, -, hup, -, ht, ha⟩ := createVersion_ok h
  obtain rfl : a = .version version := ha
  refine ⟨version, ⟨hup.id, hup.function, hup.versionNumber, hup.artifactPath, hup.isActive⟩, ?_, ht⟩
  simp only [calls, h]

theorem calls_of_error {c : Call ArtifactRequest} {e : HttpError}
    (h : c.request.route.handle settings (faultless c.given) c.user db = .error e) : calls settings db c = [] := by
  obtain ⟨user, request, g⟩ := c
  cases request with
  | createFunction name description tags =>
    have h : createFunction settings user g name description tags db = .error e := h
    simp only [calls, h]
  | createVersion functionId archive form =>
    have h : createVersion settings user (faultless g) functionId archive form db = .error e := h
    simp only [calls, h]
  | deleteFunction functionId =>
    have h : deleteFunction user (faultless g) functionId db = .error e := h
    simp only [calls, h]

theorem calls_committed (c : Call ArtifactRequest) :
    inner (calls settings db c) db = after settings ArtifactRequest.route db { c with given := faultless c.given } := by
  cases hrun : c.request.route.handle settings (faultless c.given) c.user db with
  | error e =>
    have hafter : after settings ArtifactRequest.route db { c with given := faultless c.given } = db :=
      perform_of_error hrun
    rw [hafter, calls_of_error hrun]
    rfl
  | ok p =>
    have hafter : after settings ArtifactRequest.route db { c with given := faultless c.given } = p.2 :=
      perform_of_ok hrun
    rw [hafter]
    obtain ⟨user, request, g⟩ := c
    cases request with
    | createFunction name description tags =>
      have hrun : createFunction settings user g name description tags db = .ok p := hrun
      simp only [calls, hrun]
      rfl
    | createVersion functionId archive form =>
      obtain ⟨version, -, hcalls, ht⟩ := calls_createVersion hrun
      rw [ht, hcalls]
      rfl
    | deleteFunction functionId =>
      have hrun : deleteFunction user (faultless g) functionId db = .ok p := hrun
      obtain ⟨fn, -, -, ht⟩ := deleteFunction_ok hrun
      simp only [calls, hrun]
      rw [ht]
      exact inner_deleteCalls _

/-! ## Rows -/

theorem next_rows (s : Stored) (a : Attempted) : (next settings s a).1 = s.1 ∨
    (next settings s a).1 =
      after settings ArtifactRequest.route s.1 { a.call with given := faultless a.call.given } := by
  by_cases hcommit : (calls settings s.1 a.call).length < a.took
  · right
    rw [← calls_committed, next, attempt_committed hcommit]
  · left
    rw [next, attempt_failed hcommit]

theorem next_wellFormed {a : Attempted} (hs : WellFormed s.1) (ha : SuppliedAttempt settings s a) :
    WellFormed (next settings s a).1 := by
  rcases next_rows s a with hrows | hrows
  · rw [hrows]
    exact hs
  · rw [hrows]
    exact after_wellFormed hs ⟨ha.id, ha.hash⟩

theorem after_allPaths (c : Call ArtifactRequest) (h : AllPaths settings db) :
    AllPaths settings (after settings ArtifactRequest.route db c) := by
  refine after_keeps h fun p hrun => ?_
  obtain ⟨u, request, g⟩ := c
  cases request with
  | createFunction name description tags =>
    obtain ⟨-, fn, ht, -⟩ := createFunction_ok hrun
    rw [ht]
    exact h
  | createVersion functionId archive form =>
    obtain ⟨fn, version, -, hup, -, ht, -⟩ := createVersion_ok hrun
    rw [ht]
    intro v hv
    rcases List.mem_append.mp hv with hv | hv
    · exact h v hv
    · rw [List.mem_singleton.mp hv, hup.artifactPath, hup.function, hup.id]
  | deleteFunction functionId =>
    obtain ⟨fn, -, -, ht⟩ := deleteFunction_ok hrun
    intro v hv
    rw [ht, versions_deleteStatements] at hv
    exact h v (List.mem_of_mem_filter hv)

/-! ## Steps -/

theorem outer_uploadCalls (version : FunctionVersion) (n : ℕ) :
    outer ((uploadCalls g functionId version).take (n + 2)) objects = version.artifactPath :: objects := by
  have hrest : ∀ e ∈ ([.inner (insertVersion version),
      .inner (Database.updateFunction functionId (touchFunction g.now (activateNew g))),
      .inner id] : List StorageCall).take n, e.isOuter = false := by
    intro e he
    have hmem := List.mem_of_mem_take he
    simp only [List.mem_cons, List.not_mem_nil, or_false] at hmem
    rcases hmem with rfl | rfl | rfl
    · rfl
    · rfl
    · rfl
  exact outer_of_inner hrest _

theorem clean_uploadCalls {version : FunctionVersion} {took : ℕ}
    (h : ¬ (uploadCalls g functionId version).length < took) :
    Clean (uploadCalls g functionId version) took ↔ took < 2 := by
  constructor
  · intro hclean
    by_contra hlate
    obtain ⟨n, rfl⟩ := Nat.exists_eq_add_of_le' (Nat.le_of_not_lt hlate)
    rcases hclean with hcommit | hinner
    · exact h hcommit
    · cases hinner (.outer (putObject version.artifactPath)) (List.mem_cons_of_mem _ List.mem_cons_self)
  · intro hearly
    right
    intro e he
    have hmem : e ∈ [Effect.inner id] := by
      have htake : (uploadCalls g functionId version).take took = [Effect.inner id].take took := by
        rcases Nat.le_one_iff_eq_zero_or_eq_one.mp (Nat.le_of_lt_succ hearly) with rfl | rfl
        · rfl
        · rfl
      rw [htake] at he
      exact List.mem_of_mem_take he
    rw [List.mem_singleton.mp hmem]
    rfl

theorem matching_upload {version : FunctionVersion} (htext : UuidText settings)
    (hpaths : AllPaths settings s.1) (hfresh : Fresh s.1 g.newId) (h : Matching s)
    (hup : Uploaded settings g functionId s.1 version) (took : ℕ) :
    Matching (attempt (uploadCalls g functionId version) took s) ↔
      Clean (uploadCalls g functionId version) took := by
  by_cases hcommit : (uploadCalls g functionId version).length < took
  · refine ⟨fun _ => Or.inl hcommit, fun _ path => ?_⟩
    rw [attempt_committed hcommit]
    change path ∈ version.artifactPath :: s.2 ↔ path ∈ (s.1.versions ++ [version]).map FunctionVersion.artifactPath
    simp [h path, or_comm]
  · constructor
    · intro hmatching
      rw [clean_uploadCalls hcommit]
      by_contra hlate
      obtain ⟨n, rfl⟩ := Nat.exists_eq_add_of_le' (Nat.le_of_not_lt hlate)
      rw [attempt_failed hcommit, outer_uploadCalls] at hmatching
      obtain ⟨v, hv, hpath⟩ := List.mem_map.mp ((hmatching version.artifactPath).mp List.mem_cons_self)
      rw [hpaths v hv, hup.artifactPath] at hpath
      exact (hfresh.versions v hv).1 (artifactPath_inj htext hpath).2
    · intro hclean
      rcases hclean with hall | hinner
      · exact absurd hall hcommit
      · rw [attempt_untouched hcommit hinner]
        exact h

theorem path_notMem {v : FunctionVersion} (htext : UuidText settings) (hpaths : AllPaths settings db)
    (hv : v ∈ db.versions) (hother : v.functionId ≠ functionId) :
    v.artifactPath ∉ (versionsOf functionId db).map FunctionVersion.artifactPath := by
  intro hmem
  obtain ⟨w, hw, hpath⟩ := List.mem_map.mp hmem
  obtain ⟨hw, hown⟩ := List.mem_filter.mp hw
  rw [hpaths w hw, hpaths v hv] at hpath
  exact hother ((artifactPath_inj htext hpath).1.symm.trans (of_decide_eq_true hown))

def removedPaths (user : Uuid) (g : Given) (functionId : Uuid) (versions : List FunctionVersion) (took : ℕ) :
    List Text :=
  (versions.map FunctionVersion.artifactPath).take
    (took - (deleteEdits user g functionId (versions.map FunctionVersion.id)).length)

theorem mem_outer_deleteCalls {versions : List FunctionVersion} {took : ℕ} {path : Text} :
    path ∈ outer ((deleteCalls u g functionId versions).take took) objects ↔
      path ∈ objects ∧ path ∉ removedPaths u g functionId versions took := by
  rw [deleteCalls, take_calls, ← List.map_take, mem_removed, removedPaths]

theorem clean_deleteCalls {versions : List FunctionVersion} {took : ℕ}
    (h : ¬ (deleteCalls u g functionId versions).length < took) :
    Clean (deleteCalls u g functionId versions) took ↔ removedPaths u g functionId versions took = [] := by
  have hlength : (deleteCalls u g functionId versions).length =
      (deleteEdits u g functionId (versions.map FunctionVersion.id)).length +
        ((versions.map FunctionVersion.artifactPath).map removeObject).length := by
    simp [deleteCalls]
  rw [hlength] at h
  rw [deleteCalls, clean_calls_iff, ← List.map_take, List.map_eq_nil_iff, removedPaths]
  exact or_iff_right h

theorem removedPaths_committed {versions : List FunctionVersion} {took : ℕ}
    (h : (deleteCalls u g functionId versions).length < took) :
    removedPaths u g functionId versions took = versions.map FunctionVersion.artifactPath := by
  apply List.take_of_length_le
  simp only [deleteCalls, List.length_append, List.length_map] at h ⊢
  omega

theorem matching_delete (htext : UuidText settings) (hpaths : AllPaths settings s.1) (h : Matching s) (took : ℕ) :
    Matching (attempt (deleteCalls u g functionId (versionsOf functionId s.1)) took s) ↔
      Clean (deleteCalls u g functionId (versionsOf functionId s.1)) took := by
  by_cases hcommit : (deleteCalls u g functionId (versionsOf functionId s.1)).length < took
  · refine ⟨fun _ => Or.inl hcommit, fun _ path => ?_⟩
    rw [attempt, if_pos hcommit, mem_outer_deleteCalls, removedPaths_committed hcommit, inner_deleteCalls,
      versions_deleteStatements, h path]
    constructor
    · rintro ⟨hrow, hkept⟩
      obtain ⟨v, hv, rfl⟩ := List.mem_map.mp hrow
      refine List.mem_map.mpr ⟨v, List.mem_filter.mpr ⟨hv, ?_⟩, rfl⟩
      rw [Bool.not_eq_true', decide_eq_false_iff_not]
      intro hown
      exact hkept (List.mem_map.mpr ⟨v, List.mem_filter.mpr ⟨hv, decide_eq_true hown⟩, rfl⟩)
    · intro hrow
      obtain ⟨v, hv, rfl⟩ := List.mem_map.mp hrow
      obtain ⟨hv, hother⟩ := List.mem_filter.mp hv
      refine ⟨List.mem_map.mpr ⟨v, hv, rfl⟩, path_notMem htext hpaths hv ?_⟩
      simpa using hother
  · rw [clean_deleteCalls hcommit, attempt_failed hcommit]
    constructor
    · intro hmatching
      by_contra hne
      obtain ⟨path, hpath⟩ := List.exists_mem_of_ne_nil _ hne
      obtain ⟨v, hv, rfl⟩ := List.mem_map.mp (List.mem_of_mem_take hpath)
      have hrow : v.artifactPath ∈ s.1.versions.map FunctionVersion.artifactPath :=
        List.mem_map.mpr ⟨v, List.mem_of_mem_filter hv, rfl⟩
      exact (mem_outer_deleteCalls.mp ((hmatching v.artifactPath).mpr hrow)).2 hpath
    · intro hnone path
      rw [mem_outer_deleteCalls, hnone]
      simp [h path]

theorem matching_inner {cs : List StorageCall} (hinner : ∀ e ∈ cs, e.isOuter = false)
    (hversions : (inner cs s.1).versions = s.1.versions) (h : Matching s) (took : ℕ) :
    Matching (attempt cs took s) ↔ Clean cs took := by
  have htook : ∀ e ∈ cs.take took, e.isOuter = false := fun e he => hinner e (List.mem_of_mem_take he)
  refine ⟨fun _ => Or.inr htook, fun _ path => ?_⟩
  rw [attempt, outer_of_inner htook]
  split_ifs
  · rw [hversions]
    exact h path
  · exact h path

theorem matching_next_iff (htext : UuidText settings) {a : Attempted} (hpaths : AllPaths settings s.1)
    (ha : SuppliedAttempt settings s a) (h : Matching s) :
    Matching (next settings s a) ↔ FailsClean settings s a := by
  rw [next, FailsClean]
  cases hrun : a.call.request.route.handle settings (faultless a.call.given) a.call.user s.1 with
  | error e =>
    rw [calls_of_error hrun]
    exact matching_inner (fun _ he => absurd he List.not_mem_nil) rfl h a.took
  | ok p =>
    obtain ⟨⟨u, request, g⟩, took⟩ := a
    cases request with
    | createFunction name description tags =>
      have hrun : createFunction settings u g name description tags s.1 = .ok p := hrun
      obtain ⟨-, fn, ht, -⟩ := createFunction_ok hrun
      simp only [calls, hrun]
      apply matching_inner _ _ h took
      · simp [Effect.isOuter]
      · change p.2.versions = s.1.versions
        rw [ht]
        rfl
    | createVersion functionId archive form =>
      obtain ⟨version, hup, hcalls, -⟩ := calls_createVersion hrun
      rw [hcalls]
      exact matching_upload htext hpaths ha.id h hup took
    | deleteFunction functionId =>
      have hrun : deleteFunction u (faultless g) functionId s.1 = .ok p := hrun
      simp only [calls, hrun]
      exact matching_delete htext hpaths h took

/-- The paths of the committed rows are the objects of the bucket behind every
request of a sequence exactly if every request commits or fails before a call on
the bucket has taken effect. -/
theorem matching_throughout_iff (htext : UuidText settings) {attempts : List Attempted}
    (hsupplied : Along (next settings) (SuppliedAttempt settings) (empty, []) attempts) :
    Throughout (next settings) Matching (empty, []) attempts ↔
      Along (next settings) (FailsClean settings) (empty, []) attempts := by
  apply Runs.throughout_iff (J := fun s => WellFormed s.1 ∧ AllPaths settings s.1)
  · intro s a hs ha
    refine ⟨next_wellFormed hs.1 ha, ?_⟩
    rcases next_rows s a with hrows | hrows
    · rw [hrows]
      exact hs.2
    · rw [hrows]
      exact after_allPaths _ hs.2
  · exact fun s a hs ha h => matching_next_iff htext hs.2 ha h
  · exact hsupplied
  · exact ⟨wellFormed_empty, nofun⟩
  · exact fun path => by simp [empty]

/-! A function with two versions, as in the requests below. -/

theorem uuidText_sample : UuidText sampleSettings where
  injective := by
    intro a b h
    have hdigits : Nat.toDigits 10 a = Nat.toDigits 10 b := by
      rw [← Nat.toList_repr, ← Nat.toList_repr]
      exact h
    rw [← Nat.ofDigitChars_ten_toDigits (n := a), hdigits, Nat.ofDigitChars_ten_toDigits]
  noSlash id hmem := by
    have hdigit : '/' ∈ Nat.toDigits 10 id := by
      rw [← Nat.toList_repr]
      exact hmem
    exact absurd (Nat.isDigit_of_mem_toDigits (by decide) (by decide) hdigit) (by decide)

def sampleAttempt (request : ArtifactRequest) (newId : Uuid) (took : ℕ) : Attempted :=
  ⟨⟨7, request, sampleGiven newId⟩, took⟩

def sampleVersions : List Attempted :=
  [sampleAttempt (.createFunction "first".toList none (.obj [])) 1 3,
    sampleAttempt (.createVersion 1 ⟨10, [], none⟩ ⟨"handler.handler".toList, 30, 128, none⟩) 2 6,
    sampleAttempt (.createVersion 1 ⟨10, [], none⟩ ⟨"handler.handler".toList, 30, 128, none⟩) 3 6]

/-- A delete that fails at its first removal, and one that goes through. -/
theorem matching_throughout_deleted : Throughout (next sampleSettings) Matching (empty, [])
    (sampleVersions ++ [sampleAttempt (.deleteFunction 1) 9 8, sampleAttempt (.deleteFunction 1) 9 11]) :=
  (matching_throughout_iff uuidText_sample (by decide)).mpr (by decide)

/-- A delete that fails at its second removal keeps both rows and one object. -/
theorem matching_lost : ¬ ∀ (settings : ApiSettings), UuidText settings → ∀ attempts : List Attempted,
    Along (next settings) (SuppliedAttempt settings) (empty, []) attempts →
      Throughout (next settings) Matching (empty, []) attempts := by
  intro hclaim
  have hall := hclaim sampleSettings uuidText_sample (sampleVersions ++ [sampleAttempt (.deleteFunction 1) 9 9])
    (by decide)
  obtain ⟨-, -, -, -, hlast⟩ := hall
  exact absurd ((hlast "functions/1/2/source.zip".toList).mpr (by decide)) (by decide)

end PyFaaS.ArtifactCleanup
