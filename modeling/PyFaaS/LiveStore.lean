import Mathlib.Data.List.Induction
import PyFaaS.Overlays
import PyFaaS.TextLines

/-!
# The live view

What the emitters of `api/services/ws_manager.py` send and what `store/index.ts` of the
dashboard makes of it: a log of the last events, the last queue depth, and a row for every
execution that the events speak of.
-/

namespace PyFaaS.LiveStore
open Overlays

/-! ## Events -/

inductive Scalar where
  | null
  | int (n : ℤ)
  | text (t : Text)
  deriving DecidableEq

abbrev Payload := List (Text × Scalar)

structure WsEvent where
  type : Text
  payload : Payload
  timestamp : Text

def optional : Option Text → Scalar
  | some t => .text t
  | none => .null

inductive Emission where
  | executionStarted (executionId : Text) (functionName workerId : Option Text)
  | executionCompleted (executionId : Text) (functionName : Option Text) (durationMs : Option ℤ) (status : Text)
  | executionFailed (executionId : Text) (functionName error : Option Text)
  | deployment (functionName : Text) (versionNumber : ℤ) (status : Text)
  | workerStatus (workerId status : Text)
  | queueDepthChanged (depth : ℤ)
  | healthChanged (component status : Text)
  deriving DecidableEq

def Emission.type : Emission → Text
  | executionStarted .. => "execution_started".toList
  | executionCompleted .. => "execution_completed".toList
  | executionFailed .. => "execution_failed".toList
  | deployment _ _ status => "deployment_".toList ++ status
  | workerStatus _ status => "worker_".toList ++ status
  | queueDepthChanged _ => "queue_depth_changed".toList
  | healthChanged .. => "health_changed".toList

def Emission.payload : Emission → Payload
  | executionStarted executionId functionName workerId =>
    [("execution_id".toList, .text executionId), ("function_name".toList, optional functionName),
      ("worker_id".toList, optional workerId)]
  | executionCompleted executionId functionName durationMs status =>
    [("execution_id".toList, .text executionId), ("function_name".toList, optional functionName),
      ("duration_ms".toList, durationMs.elim .null .int), ("status".toList, .text status)]
  | executionFailed executionId functionName error =>
    [("execution_id".toList, .text executionId), ("function_name".toList, optional functionName),
      ("error".toList, optional error)]
  | deployment functionName versionNumber _ =>
    [("function_name".toList, .text functionName), ("version_number".toList, .int versionNumber)]
  | workerStatus workerId _ => [("worker_id".toList, .text workerId)]
  | queueDepthChanged depth => [("depth".toList, .int depth)]
  | healthChanged component status => [("component".toList, .text component), ("status".toList, .text status)]

def Emission.event (timestamp : Text) (e : Emission) : WsEvent := ⟨e.type, e.payload, timestamp⟩

/-! ## Messages -/

/-- `payload.k`, with `none` for `undefined`. -/
def Payload.get? (p : Payload) (k : String) : Option Scalar := p.lookup k.toList

def Scalar.render : Scalar → Text
  | .null => "null".toList
  | .int n => (toString n).toList
  | .text t => t

def nullish (a : Option Scalar) (b : Scalar) : Scalar :=
  match a with
  | none | some .null => b
  | some v => v

def template (a : Option Scalar) : Text := a.elim "undefined".toList Scalar.render

def templateOr (a : Option Scalar) (default : String) : Text := (nullish a (.text default.toList)).render

def buildEventMessage (type : Text) (payload : Payload) : Text :=
  if type = "execution_started".toList then
    "Execution started: ".toList ++ templateOr (payload.get? "execution_id") "—" ++ " (".toList ++
      templateOr (payload.get? "function_name") "unknown" ++ ")".toList
  else if type = "execution_completed".toList then
    "Execution completed: ".toList ++ templateOr (payload.get? "execution_id") "—" ++ " in ".toList ++
      templateOr (payload.get? "duration_ms") "?" ++ "ms".toList
  else if type = "execution_failed".toList then
    "Execution FAILED: ".toList ++ templateOr (payload.get? "execution_id") "—" ++ " — ".toList ++
      templateOr (payload.get? "error") "no message"
  else if type = "deployment_started".toList then
    "Deploy started: ".toList ++ templateOr (payload.get? "function_name") "?" ++ " v".toList ++
      template (payload.get? "version_number")
  else if type = "deployment_completed".toList then
    "Deploy complete: ".toList ++ templateOr (payload.get? "function_name") "?" ++ " v".toList ++
      template (payload.get? "version_number")
  else if type = "worker_online".toList then "Worker online: ".toList ++ template (payload.get? "worker_id")
  else if type = "worker_offline".toList then "Worker offline: ".toList ++ template (payload.get? "worker_id")
  else if type = "queue_depth_changed".toList then "Queue depth: ".toList ++ template (payload.get? "depth")
  else if type = "health_changed".toList then
    "Health change: ".toList ++ template (payload.get? "component") ++ " → ".toList ++ template (payload.get? "status")
  else type

/-! ## The store -/

structure LiveEvent where
  id : Text
  type : Text
  message : Text
  timestamp : Text
  deriving DecidableEq

inductive Field where
  | functionId
  | functionName
  | status
  | durationMs
  | startedAt
  | completedAt
  | createdAt
  | workerId
  | errorMessage
  deriving DecidableEq

/-- A `Partial<Execution>`: a member is missing, or there with a value, which may be `undefined`. -/
abbrev Partial := Field → Option (Option Scalar)

structure Store where
  wsConnected : Bool
  liveEvents : List LiveEvent
  liveExecutions : OrderedMap Scalar Partial
  queueDepth : Scalar

def start : Store := ⟨false, [], .empty, .null⟩

def startedPartial (event : WsEvent) : Partial
  | .status => some (some (.text "RUNNING".toList))
  | .functionName => some (some (nullish (event.payload.get? "function_name") .null))
  | .createdAt | .startedAt => some (some (.text event.timestamp))
  | .workerId => some (some (nullish (event.payload.get? "worker_id") .null))
  | .functionId | .durationMs | .completedAt | .errorMessage => some (some .null)

def completedPartial (event : WsEvent) : Partial
  | .status => some (some (nullish (event.payload.get? "status") (.text "COMPLETED".toList)))
  | .durationMs => some (event.payload.get? "duration_ms")
  | .completedAt => some (some (.text event.timestamp))
  | _ => none

def failedPartial (event : WsEvent) : Partial
  | .status => some (some (.text "FAILED".toList))
  | .errorMessage => some (event.payload.get? "error")
  | .completedAt => some (some (.text event.timestamp))
  | _ => none

namespace Store

def setWsConnected (v : Bool) (s : Store) : Store := { s with wsConnected := v }

def upsertLiveExecution (id : Scalar) (patch : Partial) (s : Store) : Store :=
  { s with liveExecutions := s.liveExecutions.upsert id patch }

def updateDepth (event : WsEvent) (s : Store) : Store :=
  match event.payload.get? "depth" with
  | none => s
  | some depth => if event.type = "queue_depth_changed".toList then { s with queueDepth := depth } else s

def updateExecution (type : String) (event : WsEvent) (patch : WsEvent → Partial) (s : Store) : Store :=
  match event.payload.get? "execution_id" with
  | none => s
  | some id => if event.type = type.toList then s.upsertLiveExecution id (patch event) else s

def append (event : LiveEvent) (s : Store) : Store := { s with liveEvents := (event :: s.liveEvents).take 100 }

/-- With the answer of `crypto.randomUUID`. -/
def pushWsEvent (uuid : Text) (event : WsEvent) (s : Store) : Store :=
  ((((s.updateDepth event).updateExecution "execution_started" event startedPartial).updateExecution
    "execution_completed" event completedPartial).updateExecution "execution_failed" event failedPartial).append
    ⟨uuid, event.type, buildEventMessage event.type event.payload, event.timestamp⟩

def clearEvents (s : Store) : Store := { s with liveEvents := [] }

/-- The rows of `executions/page.tsx`: live ones that the page of the API does not hold, then this page. -/
def merged (items : List (Scalar × Partial)) (s : Store) : List (Scalar × Partial) :=
  s.liveExecutions.entries.filter (fun le => !(items.any fun i => decide (i.1 = le.1))) ++ items

end Store

inductive Action where
  | setWsConnected (v : Bool)
  | event (uuid : Text) (e : Emission) (timestamp : Text)
  | clearEvents
  deriving DecidableEq

def next (s : Store) : Action → Store
  | .setWsConnected v => s.setWsConnected v
  | .event uuid e timestamp => s.pushWsEvent uuid (e.event timestamp)
  | .clearEvents => s.clearEvents

/-! ## What the events say -/

def Emission.depth : Emission → Option ℤ
  | queueDepthChanged depth => some depth
  | _ => none

def Emission.update (timestamp : Text) : Emission → Option (Scalar × Partial)
  | executionStarted executionId functionName workerId => some (.text executionId, fun
    | .status => some (some (.text "RUNNING".toList))
    | .functionName => some (some (optional functionName))
    | .workerId => some (some (optional workerId))
    | .createdAt | .startedAt => some (some (.text timestamp))
    | .functionId | .durationMs | .completedAt | .errorMessage => some (some .null))
  | executionCompleted executionId _ durationMs status => some (.text executionId, fun
    | .status => some (some (.text status))
    | .durationMs => some (some (durationMs.elim .null .int))
    | .completedAt => some (some (.text timestamp))
    | _ => none)
  | executionFailed executionId _ error => some (.text executionId, fun
    | .status => some (some (.text "FAILED".toList))
    | .errorMessage => some (some (optional error))
    | .completedAt => some (some (.text timestamp))
    | _ => none)
  | _ => none

def digits (n : ℤ) : Text := (toString n).toList

def Emission.message : Emission → Text
  | executionStarted executionId functionName _ =>
    "Execution started: ".toList ++ executionId ++ " (".toList ++ functionName.getD "unknown".toList ++ ")".toList
  | executionCompleted executionId _ durationMs _ =>
    "Execution completed: ".toList ++ executionId ++ " in ".toList ++ durationMs.elim "?".toList digits ++ "ms".toList
  | executionFailed executionId _ error =>
    "Execution FAILED: ".toList ++ executionId ++ " — ".toList ++ error.getD "no message".toList
  | deployment functionName versionNumber status =>
    if status = "started".toList then "Deploy started: ".toList ++ functionName ++ " v".toList ++ digits versionNumber
    else if status = "completed".toList then
      "Deploy complete: ".toList ++ functionName ++ " v".toList ++ digits versionNumber
    else "deployment_".toList ++ status
  | workerStatus workerId status =>
    if status = "online".toList then "Worker online: ".toList ++ workerId
    else if status = "offline".toList then "Worker offline: ".toList ++ workerId
    else "worker_".toList ++ status
  | queueDepthChanged depth => "Queue depth: ".toList ++ digits depth
  | healthChanged component status => "Health change: ".toList ++ component ++ " → ".toList ++ status

def Emission.entry (uuid timestamp : Text) (e : Emission) : LiveEvent := ⟨uuid, e.type, e.message, timestamp⟩

variable {s : Store} {e : Emission} {t uuid status : Text}

theorem templateOr_optional (x : Option Text) (default : String) :
    templateOr (some (optional x)) default = x.getD default.toList := by
  cases x <;> rfl

theorem get?_cons (k l : String) (v : Scalar) (p : Payload) :
    Payload.get? ((k.toList, v) :: p) l = if l = k then some v else Payload.get? p l := by
  rw [Payload.get?, List.lookup_cons]
  by_cases h : l = k
  · simp [h]
  · have hne : l.toList ≠ k.toList := fun heq => h (String.toList_inj.mp heq)
    rw [if_neg h, beq_false_of_ne hne]
    rfl

theorem prefixed_ne {front : Text} (type : Text) (h : ¬ front <+: type) : front ++ status ≠ type := fun heq =>
  h ⟨status, heq⟩

theorem prefixed_eq {front rest type : Text} (h : type = front ++ rest) : front ++ status = type ↔ status = rest := by
  rw [h, List.append_right_inj]

theorem get?_nil (l : String) : Payload.get? [] l = none := rfl

theorem depth_payload (e : Emission) : e.payload.get? "depth" = e.depth.map .int := by
  cases e <;> simp only [Emission.payload, get?_cons, get?_nil, String.reduceEq, reduceIte] <;> rfl

theorem executionId_payload (e : Emission) : e.payload.get? "execution_id" = (e.update t).map Prod.fst := by
  cases e <;> simp only [Emission.payload, get?_cons, get?_nil, String.reduceEq, reduceIte] <;> rfl

theorem buildEventMessage_event (e : Emission) : buildEventMessage e.type e.payload = e.message := by
  cases e with
  | executionStarted executionId functionName workerId =>
    change buildEventMessage "execution_started".toList _ = _
    rw [buildEventMessage, if_pos rfl]
    simp only [Emission.payload, get?_cons, String.reduceEq, reduceIte, templateOr_optional]
    rfl
  | executionCompleted executionId functionName durationMs status =>
    change buildEventMessage "execution_completed".toList _ = _
    rw [buildEventMessage, if_neg (by decide), if_pos rfl]
    simp only [Emission.payload, get?_cons, String.reduceEq, reduceIte]
    cases durationMs <;> rfl
  | executionFailed executionId functionName error =>
    change buildEventMessage "execution_failed".toList _ = _
    rw [buildEventMessage, if_neg (by decide), if_neg (by decide), if_pos rfl]
    simp only [Emission.payload, get?_cons, String.reduceEq, reduceIte, templateOr_optional]
    rfl
  | deployment functionName versionNumber status =>
    have hother : ∀ type : Text, ¬ "deployment_".toList <+: type → "deployment_".toList ++ status ≠ type := prefixed_ne
    change buildEventMessage ("deployment_".toList ++ status) _ = _
    rw [buildEventMessage, if_neg (hother _ (by decide)), if_neg (hother _ (by decide)),
      if_neg (hother _ (by decide)), if_neg (hother "worker_online".toList (by decide)),
      if_neg (hother "worker_offline".toList (by decide)),
      if_neg (hother "queue_depth_changed".toList (by decide)),
      if_neg (hother "health_changed".toList (by decide))]
    simp only [Emission.payload, get?_cons, String.reduceEq, reduceIte]
    exact if_congr (prefixed_eq (by decide)) rfl (if_congr (prefixed_eq (by decide)) rfl rfl)
  | workerStatus workerId status =>
    have hother : ∀ type : Text, ¬ "worker_".toList <+: type → "worker_".toList ++ status ≠ type := prefixed_ne
    change buildEventMessage ("worker_".toList ++ status) _ = _
    rw [buildEventMessage, if_neg (hother _ (by decide)), if_neg (hother _ (by decide)),
      if_neg (hother _ (by decide)), if_neg (hother _ (by decide)),
      if_neg (hother _ (by decide)),
      if_neg (hother "queue_depth_changed".toList (by decide)),
      if_neg (hother "health_changed".toList (by decide))]
    simp only [Emission.payload, get?_cons, reduceIte]
    exact if_congr (prefixed_eq (by decide)) rfl (if_congr (prefixed_eq (by decide)) rfl rfl)
  | queueDepthChanged depth =>
    change buildEventMessage "queue_depth_changed".toList _ = _
    rw [buildEventMessage, if_neg (by decide), if_neg (by decide), if_neg (by decide),
      if_neg (by decide), if_neg (by decide), if_neg (by decide), if_neg (by decide),
      if_pos rfl]
    simp only [Emission.payload, get?_cons, reduceIte]
    rfl
  | healthChanged component status =>
    change buildEventMessage "health_changed".toList _ = _
    rw [buildEventMessage, if_neg (by decide), if_neg (by decide), if_neg (by decide),
      if_neg (by decide), if_neg (by decide), if_neg (by decide), if_neg (by decide),
      if_neg (by decide), if_pos rfl]
    simp only [Emission.payload, get?_cons, String.reduceEq, reduceIte]
    rfl

/-! ## A push -/

theorem started_event {executionId : Text} {functionName workerId : Option Text} :
    some (Scalar.text executionId,
        startedPartial ((Emission.executionStarted executionId functionName workerId).event t)) =
      (Emission.executionStarted executionId functionName workerId).update t := by
  have hname : nullish (some (optional functionName)) .null = optional functionName := by cases functionName <;> rfl
  have hworker : nullish (some (optional workerId)) .null = optional workerId := by cases workerId <;> rfl
  refine congrArg some (Prod.ext rfl (funext fun k => ?_))
  cases k <;> simp only [startedPartial, Emission.event, Emission.payload, get?_cons, String.reduceEq, reduceIte, hname,
    hworker]

theorem completed_event {executionId status : Text} {functionName : Option Text} {durationMs : Option ℤ} :
    some (Scalar.text executionId,
        completedPartial ((Emission.executionCompleted executionId functionName durationMs status).event t)) =
      (Emission.executionCompleted executionId functionName durationMs status).update t := by
  refine congrArg some (Prod.ext rfl (funext fun k => ?_))
  cases k <;> simp only [completedPartial, Emission.event, Emission.payload, get?_cons, String.reduceEq, reduceIte,
    nullish]

theorem failed_event {executionId : Text} {functionName error : Option Text} :
    some (Scalar.text executionId, failedPartial ((Emission.executionFailed executionId functionName error).event t)) =
      (Emission.executionFailed executionId functionName error).update t := by
  refine congrArg some (Prod.ext rfl (funext fun k => ?_))
  cases k <;> simp only [failedPartial, Emission.event, Emission.payload, get?_cons, String.reduceEq, reduceIte]

def Store.applied (update : Option (Scalar × Partial)) (s : Store) : Store :=
  update.elim s fun x => s.upsertLiveExecution x.1 x.2

def Store.updateExecutions (event : WsEvent) (s : Store) : Store :=
  ((s.updateExecution "execution_started" event startedPartial).updateExecution "execution_completed" event
    completedPartial).updateExecution "execution_failed" event failedPartial

section
variable {type : String} {event : WsEvent} {patch : WsEvent → Partial}

theorem updateExecution_none (h : event.payload.get? "execution_id" = none) :
    s.updateExecution type event patch = s := by
  rw [Store.updateExecution, h]

theorem updateExecution_own {id : Scalar} (hid : event.payload.get? "execution_id" = some id)
    (htype : event.type = type.toList) :
    s.updateExecution type event patch = s.upsertLiveExecution id (patch event) := by
  rw [Store.updateExecution, hid]
  exact if_pos htype

theorem updateExecution_other (own : String) (htype : event.type = own.toList) (h : own ≠ type) :
    s.updateExecution type event patch = s := by
  rw [Store.updateExecution]
  cases event.payload.get? "execution_id" with
  | none => rfl
  | some id => exact if_neg fun heq => h (String.toList_inj.mp (htype.symm.trans heq))
end

theorem updateDepth_event : s.updateDepth (e.event t) = { s with queueDepth := e.depth.elim s.queueDepth .int } := by
  rw [Store.updateDepth, Emission.event, depth_payload]
  cases e with
  | queueDepthChanged depth => exact if_pos rfl
  | _ => rfl

theorem updateExecutions_event : s.updateExecutions (e.event t) = s.applied (e.update t) := by
  have hid : (e.event t).payload.get? "execution_id" = (e.update t).map Prod.fst := executionId_payload e
  unfold Store.updateExecutions
  cases e with
  | executionStarted executionId functionName workerId =>
    rw [updateExecution_other "execution_started" rfl (by decide),
      updateExecution_other "execution_started" rfl (by decide), updateExecution_own hid rfl, ← started_event]
    rfl
  | executionCompleted executionId functionName durationMs status =>
    rw [updateExecution_other "execution_completed" rfl (by decide), updateExecution_own hid rfl,
      updateExecution_other "execution_completed" rfl (by decide), ← completed_event]
    rfl
  | executionFailed executionId functionName error =>
    rw [updateExecution_own hid rfl, updateExecution_other "execution_failed" rfl (by decide),
      updateExecution_other "execution_failed" rfl (by decide), ← failed_event]
    rfl
  | _ =>
    rw [updateExecution_none hid, updateExecution_none hid, updateExecution_none hid]
    rfl

theorem pushWsEvent_event : s.pushWsEvent uuid (e.event t) =
    (({ s with queueDepth := e.depth.elim s.queueDepth .int } : Store).applied (e.update t)).append
      (e.entry uuid t) := by
  have hentry : (⟨uuid, e.type, buildEventMessage e.type e.payload, t⟩ : LiveEvent) = e.entry uuid t := by
    rw [buildEventMessage_event, Emission.entry]
  rw [← updateExecutions_event, ← updateDepth_event, ← hentry]
  rfl

theorem push_executions : (s.pushWsEvent uuid (e.event t)).liveExecutions =
    (e.update t).elim s.liveExecutions fun x => s.liveExecutions.upsert x.1 x.2 := by
  rw [pushWsEvent_event]
  cases e.update t <;> rfl

theorem push_depth : (s.pushWsEvent uuid (e.event t)).queueDepth = e.depth.elim s.queueDepth .int := by
  rw [pushWsEvent_event]
  cases e.update t <;> rfl

theorem push_events : (s.pushWsEvent uuid (e.event t)).liveEvents = (e.entry uuid t :: s.liveEvents).take 100 := by
  rw [pushWsEvent_event]
  cases e.update t <;> rfl

/-! ## Runs -/

def run (actions : List Action) : Store := actions.foldl next start

def Action.entry : Action → Option LiveEvent
  | .event uuid e timestamp => some (e.entry uuid timestamp)
  | _ => none

def Action.depth : Action → Option ℤ
  | .event _ e _ => e.depth
  | _ => none

def Action.update : Action → Option (Scalar × Partial)
  | .event _ e timestamp => e.update timestamp
  | _ => none

def sinceClear (actions : List Action) : List LiveEvent :=
  (actions.reverse.takeWhile fun a => decide (a ≠ .clearEvents)).filterMap Action.entry

structure Follows (actions : List Action) (s : Store) : Prop where
  log : s.liveEvents = (sinceClear actions).take 100
  depth : s.queueDepth = (actions.reverse.findSome? Action.depth).elim .null .int
  order : s.liveExecutions.keys = ((actions.filterMap Action.update).map Prod.fst).eraseDups
  rows : ∀ id field, s.liveExecutions.field id field =
    lastWrite ((actions.filterMap Action.update).filter fun x => decide (x.1 = id)) id field
  page : ∀ items : List (Scalar × Partial), (items.map Prod.fst).Nodup → ((s.merged items).map Prod.fst).Nodup ∧
    ∀ id, id ∈ (s.merged items).map Prod.fst ↔ id ∈ items.map Prod.fst ∨ id ∈ s.liveExecutions.keys

variable {actions : List Action} {a : Action}

theorem run_concat : run (actions ++ [a]) = next (run actions) a := by
  rw [run, List.foldl_append]
  rfl

theorem run_executions : (run actions).liveExecutions = upserts (actions.filterMap Action.update) := by
  induction actions using List.reverseRecOn with
  | nil => rfl
  | append_singleton actions a ih =>
    rw [run_concat, List.filterMap_append]
    cases a with
    | setWsConnected v =>
      rw [List.filterMap_cons_none rfl, List.filterMap_nil, List.append_nil]
      exact ih
    | clearEvents =>
      rw [List.filterMap_cons_none rfl, List.filterMap_nil, List.append_nil]
      exact ih
    | event uuid e timestamp =>
      have hupdate : Action.update (.event uuid e timestamp) = e.update timestamp := rfl
      rw [next, push_executions, ih]
      cases hx : e.update timestamp with
      | none =>
        rw [List.filterMap_cons_none (hupdate.trans hx), List.filterMap_nil, List.append_nil]
        rfl
      | some x =>
        rw [List.filterMap_cons_some (hupdate.trans hx), List.filterMap_nil, upserts_concat]
        rfl

theorem run_depth : (run actions).queueDepth = (actions.reverse.findSome? Action.depth).elim .null .int := by
  induction actions using List.reverseRecOn with
  | nil => rfl
  | append_singleton actions a ih =>
    rw [run_concat, List.reverse_append, List.reverse_singleton, List.singleton_append, List.findSome?_cons]
    cases a with
    | setWsConnected v => exact ih
    | clearEvents => exact ih
    | event uuid e timestamp =>
      rw [next, push_depth, Action.depth]
      cases e.depth with
      | none => exact ih
      | some depth => rfl

theorem run_log : (run actions).liveEvents = (sinceClear actions).take 100 := by
  induction actions using List.reverseRecOn with
  | nil => rfl
  | append_singleton actions a ih =>
    rw [run_concat, sinceClear, List.reverse_append, List.reverse_singleton, List.singleton_append, List.takeWhile_cons]
    cases a with
    | setWsConnected v => exact ih
    | clearEvents => rfl
    | event uuid e timestamp =>
      change _ = (e.entry uuid timestamp :: sinceClear actions).take 100
      rw [next, push_events, ih, List.take_succ_cons, List.take_succ_cons, List.take_take]
      rfl

theorem merged_ids {items : List (Scalar × Partial)} (h : (items.map Prod.fst).Nodup) :
    ((s.merged items).map Prod.fst).Nodup ∧
      ∀ id, id ∈ (s.merged items).map Prod.fst ↔ id ∈ items.map Prod.fst ∨ id ∈ s.liveExecutions.keys := by
  have hin : ∀ id, (items.any fun i => decide (i.1 = id)) = true ↔ id ∈ items.map Prod.fst := by
    intro id
    simp only [List.any_eq_true, decide_eq_true_eq, List.mem_map]
  constructor
  · rw [Store.merged, List.map_append]
    apply List.nodup_append.mpr
    refine ⟨s.liveExecutions.nodup.sublist (List.filter_sublist.map _), h, ?_⟩
    intro id hlive other hitem heq
    obtain ⟨x, hx, rfl⟩ := List.mem_map.mp hlive
    have hnot := (List.mem_filter.mp hx).2
    rw [(hin x.1).mpr (heq ▸ hitem)] at hnot
    cases hnot
  · intro id
    rw [Store.merged, List.map_append, List.mem_append]
    constructor
    · rintro (hlive | hitem)
      · obtain ⟨x, hx, rfl⟩ := List.mem_map.mp hlive
        exact .inr (List.mem_map_of_mem (List.mem_of_mem_filter hx))
      · exact .inl hitem
    · rintro (hitem | hlive)
      · exact .inr hitem
      · by_cases hitem : id ∈ items.map Prod.fst
        · exact .inr hitem
        · obtain ⟨x, hx, rfl⟩ := List.mem_map.mp hlive
          have hnot : (items.any fun i => decide (i.1 = x.1)) = false := by
            rw [Bool.eq_false_iff]
            exact fun hany => hitem ((hin x.1).mp hany)
          exact .inl (List.mem_map_of_mem (List.mem_filter.mpr ⟨hx, by rw [hnot]; rfl⟩))

/-- The store after any events, however those of several executions interleave. -/
theorem run_follows (actions : List Action) : Follows actions (run actions) where
  log := run_log
  depth := run_depth
  order := by rw [run_executions, keys_upserts]
  rows id field := by rw [run_executions, field_upserts, lastWrite_own]
  page _ h := merged_ids h

end PyFaaS.LiveStore
