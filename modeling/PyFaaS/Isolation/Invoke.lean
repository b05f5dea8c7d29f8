import PyFaaS.Isolation.Executions
import PyFaaS.Isolation.Functions
import PyFaaS.Isolation.Keys
import PyFaaS.Routers.Invoke

/-!
# The invoke routes are isolated
-/

namespace PyFaaS.Api
open Noninterference Transactions Database

variable {u : Uuid} {P : Database → Prop} {s : Database} {settings : ApiSettings} {g : Given} {key : ApiKey}

theorem listInvokableFunctions_isolated (hkey : key.ownerId = u) :
    IsolatedFor u P (listInvokableFunctions key g) fun _ _ => True := by
  subst hkey
  unfold listInvokableFunctions
  refine Isolated.bind (isolated_query ?_) fun rows => Isolated.bind (Isolated.require _ _) fun _ =>
    Isolated.bind (isolated_query ?_) fun items => isolated_return _
  · intro s _ _
    apply Table.filter_owned
    exact fun _ _ h => h
  · rintro s hs ⟨⟨-, rfl⟩, -⟩
    apply map_withVersions_view hs
    intro f hf
    have hprop := List.mem_filter.mp (List.mem_mergeSort.mp hf)
    exact ⟨hprop.1, of_decide_eq_true hprop.2⟩

theorem apiKeyExecutionOwnerClause_owned (hs : WellFormed s) (hkey : Principal u key s) {e : Execution}
    (he : e ∈ s.executions) (h : apiKeyExecutionOwnerClause key e = true) : s.ownsExecution u e = true := by
  apply ownsExecution_iff.mpr
  rcases Bool.or_eq_true_iff.mp h with h | h
  · obtain ⟨k, hk, hid, rfl⟩ := hkey.row
    have hrow : e.apiKeyId = some k.id := hid ▸ of_decide_eq_true h
    exact Or.inr ((hs.executionRefs e he).key k hk hrow)
  · rw [of_decide_eq_true h, hkey.owner]
    exact Or.inr rfl

theorem findInvokedExecutionOr404_isolated (executionId : Uuid) (hP : ∀ s, P s → Principal u key s) :
    IsolatedFor u P (findInvokedExecutionOr404 key executionId) fun e s =>
      e ∈ s.executions ∧ s.ownsExecution u e = true ∧ e.id = executionId := by
  unfold findInvokedExecutionOr404
  refine Isolated.bind (isolated_query ?_) fun row => (Isolated.found _ _).post ?_
  · intro s hs hp
    apply Table.find?_owned
    intro e he hprop
    exact apiKeyExecutionOwnerClause_owned hs (hP s hp) he (Bool.and_eq_true_iff.mp hprop).2
  · rintro e s hs ⟨⟨hp, hrow⟩, rfl⟩
    exact holdsExecution_of_find hrow.symm fun e he h => apiKeyExecutionOwnerClause_owned hs (hP s hp) he h

theorem getInvokedExecution_isolated (executionId : Uuid) (hP : ∀ s, P s → Principal u key s) :
    IsolatedFor u P (getInvokedExecution key executionId) fun _ _ => True :=
  Isolated.bind (findInvokedExecutionOr404_isolated executionId hP) fun _ =>
    Isolated.bind (Isolated.found _ _) fun _ => isolated_return _

theorem getInvokedExecutionLogs_isolated (executionId : Uuid) (p : Page) (hP : ∀ s, P s → Principal u key s) :
    IsolatedFor u P (getInvokedExecutionLogs key executionId p) fun _ _ => True := by
  unfold getInvokedExecutionLogs
  refine Isolated.bind (findInvokedExecutionOr404_isolated executionId hP) fun e => logsOf_isolated p ?_
  rintro s ⟨he, hown, -⟩
  exact ⟨e, he, rfl, hown⟩

/-! ## Invoking -/

theorem holdsExecution_commitEdit {executionId : Uuid} {edit : Edit} {now : Time} (h : HoldsExecution u executionId s) :
    HoldsExecution u executionId (commitEdit executionId edit now s) := by
  obtain ⟨e, he, rfl, hown⟩ := h
  refine ⟨edit.after e, List.mem_map.mpr ⟨e, he, if_pos rfl⟩, edit.after_id e, ?_⟩
  exact (ownsExecution_sameRequest (edit.after_sameRequest e) u).trans hown

theorem get_execution_view (hs : WellFormed s) {executionId : Uuid} (h : HoldsExecution u executionId s) :
    Table.get? s.executions executionId = Table.get? (view u s).executions executionId := by
  apply Table.find?_owned
  intro e he hid
  exact h.owns hs he (of_decide_eq_true hid)

theorem awaitTerminal_isolated (executionId : Uuid) (edits : List (Edit × Time)) (execution : Execution) :
    IsolatedFor u (HoldsExecution u executionId) (awaitTerminal executionId edits execution)
      fun _ _ => True := by
  induction edits generalizing execution with
  | nil => exact isolated_return _
  | cons edit rest ih =>
    unfold awaitTerminal
    refine Isolated.bind (isolated_write (R := HoldsExecution u executionId) ?_) fun _ =>
      Isolated.bind (isolated_query ?_) fun row => Isolated.bind (Isolated.found _ _) fun refreshed =>
        Isolated.ite (fun _ => isolated_return _) fun _ => (ih refreshed).pre ?_
    · intro s hs h
      refine ⟨?_, holdsExecution_commitEdit h⟩
      obtain ⟨e, he, rfl, hown⟩ := h
      exact commitEdit_confined hs he hown _
    · exact fun s hs h => get_execution_view hs h
    · exact fun s _ h => h.1.1

theorem invokeFunction_isolated (functionId : Uuid) (payload : Json) (wait : Bool) (hkey : key.ownerId = u) :
    IsolatedFor u (fun s => Supplied settings g s ∧ Principal u key s)
      (invokeFunction key g functionId payload wait) fun _ _ => True := by
  subst hkey
  unfold invokeFunction
  refine Isolated.bind (findFunctionOr404_isolated functionId) fun fn =>
    Isolated.bind (isolated_query ?_) fun chosen => Isolated.bind (Isolated.found _ _) fun version =>
      Isolated.bind (submit_isolated ?_) fun execution =>
        Isolated.bind (awaitTerminal_isolated _ _ execution) fun _ => isolated_return _
  · rintro s hs ⟨-, hfn, -⟩
    exact chooseExecutionVersion_view hfn _ _
  · rintro s hs ⟨⟨⟨⟨hsupplied, hprincipal⟩, hfn, -⟩, hchosen⟩, rfl⟩
    obtain ⟨hversion, hfunction⟩ := chooseExecutionVersion_mem hchosen.symm
    have howner : ∀ k ∈ s.apiKeys, some key.id = some k.id → k.ownerId = key.ownerId := by
      intro k hk hid
      exact hprincipal.keyOwner hs hk (Option.some.inj hid).symm
    exact ⟨ownsExecution_new _ _ _ _ _, executionRefs_new hs hfn hversion hfunction howner _ _,
      hsupplied.id⟩

end PyFaaS.Api
