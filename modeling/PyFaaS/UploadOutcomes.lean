import PyFaaS.ArtifactCleanup

/-!
# The outcomes of an upload

`create_version` where no call fails: it answers, or ends in an error that the
client sees with its status. An exception that is no `HTTPException` is answered
by `unhandled_exception_handler`.
-/

namespace PyFaaS.UploadOutcomes
open Api ArtifactCleanup Database Transactions
open TwoStores (attempt attempt_committed)

def status : HttpError → ℕ
  | .exception status _ => status
  | .conflict _ => 409
  | .internal => 500

def ClientError (e : HttpError) : Prop := 400 ≤ status e ∧ status e < 500

structure Upload where
  user : Uuid
  given : Given
  functionId : Uuid
  archive : Archive
  form : VersionForm
  before : Stored

variable (settings : ApiSettings) (c : Upload)

def answer : Except HttpError Response :=
  (createVersion settings c.user (faultless c.given) c.functionId c.archive c.form c.before.1).map Prod.fst

def stored : Stored :=
  let cs := calls settings c.before.1 ⟨c.user, .createVersion c.functionId c.archive c.form, c.given⟩
  attempt cs (cs.length + 1) c.before

structure Created (version : FunctionVersion) : Prop where
  uploaded : Uploaded settings c.given c.functionId c.before.1 version
  versions : (stored settings c).1.versions = c.before.1.versions ++ [version]
  artifact : (stored settings c).2 = version.artifactPath :: c.before.2
  exist : ∃ fn ∈ (stored settings c).1.functions, fn.id = c.functionId ∧ fn.ownerId = c.user
  active : ∀ fn ∈ (stored settings c).1.functions, fn.id = c.functionId → fn.activeVersionId = some version.id
  others : ∀ fn ∈ (stored settings c).1.functions, fn.id ≠ c.functionId → fn ∈ c.before.1.functions
  rest : (stored settings c).1 =
    { c.before.1 with versions := (stored settings c).1.versions, functions := (stored settings c).1.functions }

def Settled : Prop :=
  (∃ version, answer settings c = .ok (.version version) ∧ Created settings c version) ∨
    ∃ e, answer settings c = .error e ∧ ClientError e ∧ stored settings c = c.before

/-! ## The errors of the route -/

variable {settings} {c} {u functionId : Uuid} {g : Given} {e : HttpError}

theorem getFunctionOr404_raises : Raises ClientError (getFunctionOr404 functionId u) := by
  refine .bind (.bind (.query _) fun row => .found row ?_) fun fn => .query _
  simp [ClientError, status, HttpError.notFound]

theorem createVersion_raises {archive : Archive} {form : VersionForm} (hform : form.valid = true) :
    Raises ClientError (createVersion settings u (faultless g) functionId archive form) := by
  unfold createVersion
  refine .bind getFunctionOr404_raises fun fn => ?_
  refine .bind (.require fun h => by simp [hform] at h) fun _ => ?_
  refine .bind (.require fun _ => by simp [ClientError, status]) fun _ => ?_
  refine .bind (.require fun _ => by simp [ClientError, status]) fun _ => ?_
  refine .bind (.query _) fun versions => ?_
  refine .bind (.require fun _ => by simp [ClientError, status]) fun _ => ?_
  refine .bind (.require fun h => by simp [faultless] at h) fun _ => ?_
  exact .bind (.write _) fun _ => .bind (.write _) fun _ => .pure _

/-- A form that the schema refuses ends in an unhandled exception, if the function is there. -/
theorem createVersion_badForm {archive : Archive} {form : VersionForm} {s : Database} {fn : Function}
    (hform : form.valid = false) (hfn : fn ∈ s.functions) (hid : fn.id = functionId) (howner : fn.ownerId = u) :
    createVersion settings u g functionId archive form s = .error .internal := by
  obtain ⟨fn', hget⟩ := getFunctionOr404_of_mem hfn hid howner
  rw [createVersion, bind_run hget, hform]
  rfl

theorem createVersion_missing {archive : Archive} {form : VersionForm} {s : Database}
    (h : ∀ fn ∈ s.functions, fn.id = functionId → fn.ownerId ≠ u) :
    createVersion settings u g functionId archive form s = .error (.notFound "Function") := by
  have hnone : s.functions.find? (fun f => decide (f.id = functionId) && decide (f.ownerId = u)) = none := by
    simpa [List.find?_eq_none] using h
  have hfind : findFunctionOr404 functionId u s = .error (.notFound "Function") := by
    rw [findFunctionOr404, query_bind, hnone]
    rfl
  have hget : getFunctionOr404 functionId u s = .error (.notFound "Function") := bind_error hfind
  rw [createVersion, bind_error hget]

/-! ## The outcomes -/

theorem stored_of_error (h : createVersion settings c.user (faultless c.given) c.functionId c.archive c.form
    c.before.1 = .error e) : stored settings c = c.before := by
  have hcalls : calls settings c.before.1 ⟨c.user, .createVersion c.functionId c.archive c.form, c.given⟩ = [] :=
    calls_of_error h
  simp only [stored, hcalls]
  rfl

theorem settled_of_clientError (h : createVersion settings c.user (faultless c.given) c.functionId c.archive c.form
    c.before.1 = .error e) (hclient : ClientError e) : Settled settings c :=
  Or.inr ⟨e, by rw [answer, h]; rfl, hclient, stored_of_error h⟩

theorem stored_of_ok {version : FunctionVersion} (hcalls : calls settings c.before.1
    ⟨c.user, .createVersion c.functionId c.archive c.form, c.given⟩ = uploadCalls c.given c.functionId version) :
    stored settings c =
      (Database.updateFunction c.functionId (touchFunction c.given.now (activateNew c.given))
        (insertVersion version c.before.1), version.artifactPath :: c.before.2) := by
  simp only [stored, hcalls]
  rw [attempt_committed (Nat.lt_succ_self _)]
  rfl

theorem settled_of_ok {p : Response × Database} (h : createVersion settings c.user (faultless c.given) c.functionId
    c.archive c.form c.before.1 = .ok p) : Settled settings c := by
  obtain ⟨a, t⟩ := p
  obtain ⟨fn, version, hfn, hup, -, -, ha⟩ := createVersion_ok h
  subst ha
  have hcalls : calls settings c.before.1 ⟨c.user, .createVersion c.functionId c.archive c.form, c.given⟩ =
      uploadCalls c.given c.functionId version := by simp only [calls, h]
  have hstored := stored_of_ok hcalls
  have hedit : ∀ row, (touchFunction c.given.now (activateNew c.given) row).activeVersionId = some version.id ∧
      (touchFunction c.given.now (activateNew c.given) row).id = row.id ∧
      (touchFunction c.given.now (activateNew c.given) row).ownerId = row.ownerId := by
    intro row
    rw [touchFunction_eq]
    exact ⟨congrArg some hup.id.symm, rfl, rfl⟩
  left
  refine ⟨version, by rw [answer, h]; rfl, ⟨hup.id, hup.function, hup.versionNumber, hup.artifactPath, hup.isActive⟩,
    by rw [hstored]; rfl, by rw [hstored], ?_, ?_, ?_, by rw [hstored]; rfl⟩
  · rw [hstored]
    have hrow : touchFunction c.given.now (activateNew c.given) fn ∈
        Table.modify c.before.1.functions c.functionId (touchFunction c.given.now (activateNew c.given)) :=
      List.mem_map.mpr ⟨fn, hfn.holds.1, if_pos hfn.id⟩
    exact ⟨_, hrow, (hedit fn).2.1.trans hfn.id, (hedit fn).2.2.trans hfn.holds.2⟩
  · rw [hstored]
    intro row hrow hid
    rcases Table.mem_modify hrow with ⟨-, hne⟩ | ⟨old, -, -, hnew⟩
    · exact absurd hid hne
    · rw [hnew]
      exact (hedit old).1
  · rw [hstored]
    intro row hrow hid
    rcases Table.mem_modify hrow with ⟨hrow, -⟩ | ⟨old, -, hkey, hnew⟩
    · exact hrow
    · rw [hnew, (hedit old).2.1] at hid
      exact absurd hkey hid

theorem not_settled_of_badForm {fn : Function} (hform : c.form.valid = false) (hfn : fn ∈ c.before.1.functions)
    (hid : fn.id = c.functionId) (howner : fn.ownerId = c.user) : ¬ Settled settings c := by
  have hanswer : answer settings c = .error .internal := by
    rw [answer, createVersion_badForm hform hfn hid howner]
    rfl
  intro h
  rcases h with ⟨version, h, -⟩ | ⟨e, h, hclient, -⟩
  · rw [hanswer] at h
    cases h
  · rw [hanswer] at h
    cases h
    simp [ClientError, status] at hclient

/-- An upload settles exactly if the caller has no such function or the schema accepts the form. -/
theorem settled_iff (settings : ApiSettings) (c : Upload) : Settled settings c ↔
    (∀ fn ∈ c.before.1.functions, fn.id = c.functionId → fn.ownerId ≠ c.user) ∨ c.form.valid = true := by
  cases hform : c.form.valid with
  | true =>
    refine iff_of_true ?_ (Or.inr rfl)
    cases hrun : createVersion settings c.user (faultless c.given) c.functionId c.archive c.form c.before.1 with
    | error e => exact settled_of_clientError hrun (createVersion_raises hform _ _ hrun)
    | ok p => exact settled_of_ok hrun
  | false =>
    rw [or_iff_left (by simp)]
    constructor
    · intro h fn hfn hid howner
      exact not_settled_of_badForm hform hfn hid howner h
    · intro h
      have hrun : createVersion settings c.user (faultless c.given) c.functionId c.archive c.form c.before.1 =
        .error (.notFound "Function") := createVersion_missing h
      exact settled_of_clientError hrun (by simp [ClientError, status, HttpError.notFound])

def sampleUpload : Upload where
  user := 7
  given := sampleGiven 2
  functionId := 1
  archive := ⟨10, [], none⟩
  form := ⟨"handler.handler".toList, 0, 128, none⟩
  before := next sampleSettings (empty, []) (sampleAttempt (.createFunction "first".toList none (.obj [])) 1 3)

theorem settled_fails : ¬ Settled sampleSettings sampleUpload := by
  have hform : sampleUpload.form.valid = false := by decide
  have howned : ∃ fn ∈ sampleUpload.before.1.functions, fn.id = sampleUpload.functionId ∧
      fn.ownerId = sampleUpload.user := by decide
  obtain ⟨fn, hfn, hid, howner⟩ := howned
  exact not_settled_of_badForm hform hfn hid howner

end PyFaaS.UploadOutcomes
