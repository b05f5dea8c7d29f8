import PyFaaS.Isolation.Statements
import PyFaaS.Routers.Executions

/-!
# The execution routes are isolated
-/

namespace PyFaaS.Api
open Noninterference Transactions Database
open Execution (Origin)

variable {u : Uuid} {P : Database → Prop} {s : Database} {settings : ApiSettings} {g : Given}

def HoldsExecution (u executionId : Uuid) (s : Database) : Prop :=
  ∃ e ∈ s.executions, e.id = executionId ∧ s.ownsExecution u e = true

theorem HoldsExecution.owns (hs : WellFormed s) {executionId : Uuid} (h : HoldsExecution u executionId s)
    {e : Execution} (he : e ∈ s.executions) (hid : e.id = executionId) : s.ownsExecution u e = true := by
  obtain ⟨e', he', hid', hown⟩ := h
  rwa [List.inj_on_of_nodup_map hs.executionIds he he' (hid.trans hid'.symm)]

/-! ## Submitting -/

theorem chooseExecutionVersion_view {fn : Function} (h : Holds u fn s) (draw : ℕ) (explicit : Option Uuid) :
    chooseExecutionVersion s.versions fn draw explicit =
      chooseExecutionVersion (view u s).versions fn draw explicit := by
  have hfind : ∀ id, s.versions.find? (fun version =>
      decide (version.id = id) && decide (version.functionId = fn.id) && version.isActive) =
        (view u s).versions.find? fun version =>
          decide (version.id = id) && decide (version.functionId = fn.id) && version.isActive := by
    intro id
    apply (version_view h.owns _).1
    intro v _ hv
    simp only [Bool.and_eq_true, decide_eq_true_eq] at hv
    exact hv.1.2
  simp only [chooseExecutionVersion, hfind]

theorem executionRefs_new {fn : Function} {version : FunctionVersion} (hs : WellFormed s) (h : Holds u fn s)
    (hversion : version ∈ s.versions) (hfunction : version.functionId = fn.id) {apiKeyId : Option Uuid}
    (hkey : ∀ k ∈ s.apiKeys, apiKeyId = some k.id → k.ownerId = u) (payload : Json) (timeout : ℕ) :
    s.ExecutionRefs (newFunctionExecution u g fn version apiKeyId payload timeout).row := by
  constructor
  · intro f hf hid
    rw [function_unique hs hf h.1 (Option.some.inj hid).symm, h.2]
    exact Or.inr rfl
  · intro v hv hid
    rw [List.inj_on_of_nodup_map hs.versionIds hv hversion (Option.some.inj hid).symm, hfunction]
    rfl
  · exact nofun
  · intro k hk hid
    rw [hkey k hk hid]
    rfl

theorem ownsExecution_new (fn : Function) (version : FunctionVersion) (apiKeyId : Option Uuid)
    (payload : Json) (timeout : ℕ) :
    s.ownsExecution u (newFunctionExecution u g fn version apiKeyId payload timeout).row = true :=
  ownsExecution_iff.mpr (Or.inr rfl)

theorem submit_isolated {origin : Origin} {n : NewExecution}
    (hP : ∀ s, WellFormed s → P s → s.ownsExecution u n.row = true ∧ s.ExecutionRefs n.row ∧ Fresh s n.id) :
    IsolatedFor u P (submit g origin n) fun _ s => HoldsExecution u n.id s := by
  unfold submit
  refine Isolated.bind (isolated_write (R := fun s => n.row ∈ s.executions ∧ s.ownsExecution u n.row = true) ?_)
    fun _ => ?_
  · intro s hs hp
    obtain ⟨hown, hrefs, hfresh⟩ := hP s hs hp
    exact ⟨insertExecution_confined hs hown hrefs hfresh,
      List.mem_append_right _ (List.mem_singleton_self _), hown⟩
  · cases g.enqueueFails with
    | none =>
      apply (Isolated.pure _).pre
      rintro s - ⟨hrow, hown⟩
      exact ⟨n.row, hrow, rfl, hown⟩
    | some exc =>
      have hsame := Execution.failEnqueue_sameRequest origin exc
      refine Isolated.bind (isolated_write (R := HoldsExecution u n.id) ?_) fun _ => isolated_pure _
      rintro s hs ⟨hrow, hown⟩
      refine ⟨updateExecution_confined hs hrow hown hsame g.now, n.row.failEnqueue origin exc, ?_, rfl, ?_⟩
      · exact List.mem_map.mpr ⟨n.row, hrow, if_pos rfl⟩
      · exact (ownsExecution_sameRequest (hsame n.row) u).trans hown

theorem triggerExecution_isolated (functionId : Uuid) (body : ExecutionTrigger) :
    IsolatedFor u (Supplied settings g) (triggerExecution u g functionId body) fun _ _ => True := by
  unfold triggerExecution
  refine Isolated.bind (findFunctionOr404_isolated functionId) fun fn =>
    Isolated.bind (isolated_query ?_) fun chosen => Isolated.bind (Isolated.found _ _) fun version =>
      Isolated.bind (submit_isolated ?_) fun _ => isolated_return _
  · rintro s hs ⟨-, hfn, -⟩
    exact chooseExecutionVersion_view hfn _ _
  · rintro s hs ⟨⟨⟨hsupplied, hfn, -⟩, hchosen⟩, rfl⟩
    obtain ⟨hversion, hfunction⟩ := chooseExecutionVersion_mem hchosen.symm
    have hnoKey : ∀ k ∈ s.apiKeys, none = some k.id → k.ownerId = u := by
      intro k _ h
      cases h
    exact ⟨ownsExecution_new _ _ _ _ _, executionRefs_new hs hfn hversion hfunction hnoKey _ _,
      hsupplied.id⟩

/-! ## Reading and cancelling -/

theorem executionOwnerClause_view : executionOwnerClause u (view u s) = s.ownsExecution u :=
  ownsExecution_view

theorem listExecutions_isolated (p : Page) (filter : ExecutionFilter) :
    IsolatedFor u P (listExecutions u p filter) fun _ _ => True := by
  unfold listExecutions
  refine Isolated.bind (isolated_query ?_) fun rows => Isolated.bind (Isolated.found _ _) fun _ => isolated_return _
  intro s _ _
  rw [executionOwnerClause_view]
  apply Table.filter_owned
  intro e _ he
  exact (Bool.and_eq_true_iff.mp he).1

theorem holdsExecution_of_find {executionId : Uuid} {p : Execution → Bool} {e : Execution}
    (h : s.executions.find? (fun e => decide (e.id = executionId) && p e) = some e)
    (hp : ∀ e ∈ s.executions, p e = true → s.ownsExecution u e = true) :
    e ∈ s.executions ∧ s.ownsExecution u e = true ∧ e.id = executionId := by
  have hprop := List.find?_some h
  simp only [Bool.and_eq_true, decide_eq_true_eq] at hprop
  have hmem := List.mem_of_find?_eq_some h
  exact ⟨hmem, hp e hmem hprop.2, hprop.1⟩

theorem findExecutionOr404_isolated (executionId : Uuid) :
    IsolatedFor u P (findExecutionOr404 u executionId) fun e s =>
      e ∈ s.executions ∧ s.ownsExecution u e = true ∧ e.id = executionId := by
  unfold findExecutionOr404
  refine Isolated.bind (isolated_query ?_) fun row => (Isolated.found _ _).post ?_
  · intro s _ _
    rw [executionOwnerClause_view]
    apply Table.find?_owned
    intro e _ he
    exact (Bool.and_eq_true_iff.mp he).2
  · rintro e s - ⟨⟨-, hrow⟩, rfl⟩
    exact holdsExecution_of_find hrow.symm fun _ _ h => h

theorem getExecution_isolated (executionId : Uuid) :
    IsolatedFor u P (getExecution u executionId) fun _ _ => True :=
  Isolated.bind (findExecutionOr404_isolated executionId) fun _ =>
    Isolated.bind (Isolated.found _ _) fun _ => isolated_return _

theorem logsOf_isolated {executionId : Uuid} (p : Page) (hP : ∀ s, P s → HoldsExecution u executionId s) :
    IsolatedFor u P (logsOf executionId p) fun _ _ => True := by
  unfold logsOf
  refine Isolated.bind (isolated_query ?_) fun rows => isolated_return _
  intro s _ hp
  obtain ⟨e, he, hid, hown⟩ := hP s hp
  apply Table.filter_owned
  intro log _ hlog
  exact ownsLog_iff.mpr ⟨e, he, hid.trans (of_decide_eq_true hlog).symm, hown⟩

theorem getExecutionLogs_isolated (executionId : Uuid) (p : Page) :
    IsolatedFor u P (getExecutionLogs u executionId p) fun _ _ => True := by
  unfold getExecutionLogs
  refine Isolated.bind (findExecutionOr404_isolated executionId) fun e => logsOf_isolated p ?_
  rintro s ⟨he, hown, -⟩
  exact ⟨e, he, rfl, hown⟩

theorem cancelExecution_isolated (executionId : Uuid) :
    IsolatedFor u P (cancelExecution u g executionId) fun _ _ => True := by
  unfold cancelExecution
  refine Isolated.bind (findExecutionOr404_isolated executionId) fun e => ?_
  cases e.cancelExecution with
  | error err => exact isolated_abort _
  | ok cancelled =>
    refine Isolated.bind (isolated_write (R := fun _ => True) ?_) fun _ => isolated_return _
    rintro s hs ⟨he, hown, -⟩
    refine ⟨updateExecution_confined hs he hown ?_ g.now, trivial⟩
    exact fun e => .refl e

end PyFaaS.Api
