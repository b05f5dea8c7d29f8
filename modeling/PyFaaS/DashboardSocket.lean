import Mathlib.Data.List.Nodup
import PyFaaS.Runs

/-!
# The socket of the dashboard

`useWebSocket` keeps its socket, its timers and a mounted flag in refs that outlive an
effect. The browser runs its timers and delivers the events of every socket that the
hook has made, in any order. A close event of an earlier socket may clear the ref that
already holds the next one.
-/

namespace PyFaaS.DashboardSocket
open Runs

/-! ## Sockets and messages -/

inductive ReadyState where
  | connecting
  | opened
  | closing
  | closed
  deriving DecidableEq, Repr

inductive WsEventType where
  | executionStarted
  | executionCompleted
  | executionFailed
  | deploymentStarted
  | deploymentCompleted
  | workerOnline
  | workerOffline
  | queueDepthChanged
  | healthChanged
  | keepalive
  | pong
  deriving DecidableEq, Repr

inductive Message where
  | parsed (type : WsEventType) (number : ℕ)
  | malformed
  deriving DecidableEq, Repr

def Message.event? : Message → Option ℕ
  | .parsed type number => if type ≠ .pong ∧ type ≠ .keepalive then some number else none
  | .malformed => none

structure Options where
  enabled : Bool
  reconnectInterval : ℕ
  deriving DecidableEq, Repr

structure Socket where
  readyState : ReadyState
  options : Options
  inbox : List Message
  deriving DecidableEq, Repr

namespace Socket

def live (w : Socket) : Bool := decide (w.readyState = .connecting) || decide (w.readyState = .opened)

def close (w : Socket) : Socket := if w.live then { w with readyState := .closing } else w

def pending (w : Socket) : List ℕ := w.inbox.filterMap Message.event?

end Socket

inductive Callback where
  | onConnect
  | onDisconnect
  | onEvent (number : ℕ)
  deriving DecidableEq, Repr

def Callback.event? : Callback → Option ℕ
  | .onEvent number => some number
  | _ => none

/-! ## The hook in its page -/

/-- The refs of the hook, and what the browser and the server hold for it. -/
structure Page where
  wsRef : Option ℕ
  reconnectRef : Option ℕ
  mountedRef : Bool
  pingRef : Option ℕ
  sockets : List Socket
  timeouts : List (ℕ × Options)
  intervals : List (ℕ × ℕ)
  nextTimer : ℕ
  effectRan : Bool
  nextEvent : ℕ
  calls : List Callback
  pings : List ℕ
  deriving DecidableEq, Repr

inductive Action where
  | runEffect (o : Options) (constructed : Bool)
  | cleanup
  | socketOpens (i : ℕ)
  | socketFails (i : ℕ)
  | socketCloses (i : ℕ)
  | socketReceives (i : ℕ)
  | timeoutFires (k : ℕ) (constructed : Bool)
  | intervalFires (k : ℕ)
  | broadcast (type : WsEventType) (reaches : ℕ → Bool)
  | answer (i : ℕ) (m : Message)

namespace Page

def start : Page := ⟨none, none, true, none, [], [], [], 0, false, 0, [], []⟩

def isLive (s : Page) (i : ℕ) : Bool := s.sockets[i]?.any Socket.live

def reconnect (o : Options) (s : Page) : Page :=
  { s with
    timeouts := s.timeouts ++ [(s.nextTimer, o)]
    reconnectRef := some s.nextTimer
    nextTimer := s.nextTimer + 1 }

/-- `constructed` tells whether the constructor of `WebSocket` returns. -/
def connect (o : Options) (constructed : Bool) (s : Page) : Page :=
  if !s.mountedRef || !o.enabled then s
  else if s.wsRef.any s.isLive then s
  else if constructed then
    { s with
      wsRef := some s.sockets.length
      sockets := s.sockets ++ [⟨.connecting, o, []⟩] }
  else s.reconnect o

def clearPing (s : Page) : Page := { s with intervals := s.intervals.filter fun t => decide (s.pingRef ≠ some t.1) }

def onopen (i : ℕ) (s : Page) : Page :=
  if s.mountedRef then
    let s := { s with calls := s.calls ++ [Callback.onConnect] }.clearPing
    { s with
      intervals := s.intervals ++ [(s.nextTimer, i)]
      pingRef := some s.nextTimer
      nextTimer := s.nextTimer + 1 }
  else s

def onmessage (m : Message) (s : Page) : Page :=
  if s.mountedRef then { s with calls := s.calls ++ (m.event?.map Callback.onEvent).toList } else s

def onclose (o : Options) (s : Page) : Page :=
  if s.mountedRef then
    { s.clearPing with
      wsRef := none
      calls := s.calls ++ [Callback.onDisconnect] }.reconnect o
  else s

def modifySocket (i : ℕ) (f : Socket → Socket) (s : Page) : Page := { s with sockets := s.sockets.modify i f }

def runEffect (o : Options) (constructed : Bool) (s : Page) : Page :=
  let s := { s with mountedRef := true, effectRan := true }
  if o.enabled then s.connect o constructed else s

def cleanup (s : Page) : Page :=
  let s := { s with
    mountedRef := false
    effectRan := false
    timeouts := s.timeouts.filter fun t => decide (s.reconnectRef ≠ some t.1) }.clearPing
  match s.wsRef with
  | some i => s.modifySocket i Socket.close
  | none => s

def next (s : Page) : Action → Page
  | .runEffect o constructed => if s.effectRan then s else s.runEffect o constructed
  | .cleanup => if s.effectRan then s.cleanup else s
  | .socketOpens i =>
    match s.sockets[i]? with
    | some w =>
      if w.readyState = .connecting then (s.modifySocket i fun w => { w with readyState := .opened }).onopen i else s
    | none => s
  | .socketFails i => s.modifySocket i Socket.close
  | .socketCloses i =>
    match s.sockets[i]? with
    | some w =>
      if w.readyState = .closed then s
      else (s.modifySocket i fun w => { w with readyState := .closed }).onclose w.options
    | none => s
  | .socketReceives i =>
    match s.sockets[i]? with
    | some w =>
      if w.readyState = .opened then
        match w.inbox with
        | m :: rest => (s.modifySocket i fun w => { w with inbox := rest }).onmessage m
        | [] => s
      else s
    | none => s
  | .timeoutFires k constructed =>
    match s.timeouts.lookup k with
    | some o => { s with timeouts := s.timeouts.filter fun t => decide (t.1 ≠ k) }.connect o constructed
    | none => s
  | .intervalFires k =>
    match s.intervals.lookup k with
    | some i =>
      if (s.sockets[i]?.map Socket.readyState) = some .opened then { s with pings := s.pings ++ [i] } else s
    | none => s
  | .broadcast type reaches =>
    { s with
      sockets := s.sockets.mapIdx fun i w =>
        if reaches i then { w with inbox := w.inbox ++ [.parsed type s.nextEvent] } else w
      nextEvent := s.nextEvent + 1 }
  | .answer i m =>
    if m.event? = none then s.modifySocket i fun w => { w with inbox := w.inbox ++ [m] } else s

def delivered (s : Page) : List ℕ := s.calls.filterMap Callback.event?

def Single (s : Page) : Prop := ∀ i, s.isLive i = true → s.wsRef = some i

/-- A close event is handled by the mounted hook while `wsRef` refers to another socket, which is live. -/
def LateClose (s : Page) (a : Action) : Prop :=
  ∃ i w j, a = .socketCloses i ∧ s.sockets[i]? = some w ∧ w.readyState ≠ .closed ∧ s.mountedRef = true ∧
    j ≠ i ∧ s.wsRef = some j ∧ s.isLive j = true

variable {s t u : Page} {a : Action} {o : Options} {w : Socket} {m : Message} {i j : ℕ} {f : Socket → Socket}

/-! ## What one event can do -/

structure Keeps (s t : Page) : Prop where
  sockets : ∀ (i : ℕ) (w' : Socket), t.sockets[i]? = some w' → w'.live = true →
    ∃ w : Socket, s.sockets[i]? = some w ∧ w.live = true ∧ w'.pending = w.pending
  delivered : t.delivered = s.delivered
  nextEvent : t.nextEvent = s.nextEvent

theorem isLive_iff : s.isLive i = true ↔ ∃ w : Socket, s.sockets[i]? = some w ∧ w.live = true := by
  simp only [isLive, Option.any_eq_true]

theorem Keeps.of_eq (hsockets : t.sockets = s.sockets) (hdelivered : t.delivered = s.delivered)
    (hevent : t.nextEvent = s.nextEvent) : Keeps s t :=
  ⟨fun _ w' hw hlive => ⟨w', hsockets ▸ hw, hlive, rfl⟩, hdelivered, hevent⟩

theorem Keeps.refl (s : Page) : Keeps s s := .of_eq rfl rfl rfl

theorem Keeps.trans (h : Keeps s t) (h' : Keeps t u) : Keeps s u := by
  refine ⟨fun i w' hw hlive => ?_, h'.delivered.trans h.delivered, h'.nextEvent.trans h.nextEvent⟩
  obtain ⟨v, hv, hvlive, hpending⟩ := h'.sockets i w' hw hlive
  obtain ⟨w, hw, hwlive, hpending'⟩ := h.sockets i v hv hvlive
  exact ⟨w, hw, hwlive, hpending.trans hpending'⟩

theorem Keeps.isLive (h : Keeps s t) (hlive : t.isLive i = true) : s.isLive i = true := by
  obtain ⟨w', hw', hlive⟩ := isLive_iff.mp hlive
  obtain ⟨w, hw, hlive, -⟩ := h.sockets i w' hw' hlive
  exact isLive_iff.mpr ⟨w, hw, hlive⟩

theorem getElem?_modifySocket :
    (s.modifySocket i f).sockets[j]? = if i = j then s.sockets[j]?.map f else s.sockets[j]? := by
  rw [modifySocket, List.getElem?_modify]
  split_ifs <;> simp

theorem Keeps.modifySocket (hlive : ∀ w, s.sockets[i]? = some w → (f w).live = true → w.live = true)
    (hpending : ∀ w, (f w).pending = w.pending) : Keeps s (s.modifySocket i f) := by
  refine ⟨fun j w' hw' hw'live => ?_, rfl, rfl⟩
  rw [getElem?_modifySocket] at hw'
  split_ifs at hw' with hj
  · obtain ⟨w, hw, rfl⟩ := Option.map_eq_some_iff.mp hw'
    subst hj
    exact ⟨w, hw, hlive w hw hw'live, hpending w⟩
  · exact ⟨w', hw', hw'live, rfl⟩

theorem close_not_live (w : Socket) : w.close.live = false := by
  rw [Socket.close]
  split_ifs with hlive
  · rfl
  · exact Bool.eq_false_iff.mpr hlive

theorem Keeps.close (s : Page) (i : ℕ) : Keeps s (s.modifySocket i Socket.close) := by
  refine .modifySocket (fun w _ hlive => ?_) fun w => ?_
  · rw [close_not_live] at hlive
    cases hlive
  · rw [Socket.close]
    split_ifs <;> rfl

theorem delivered_append (calls : List Callback) :
    (calls ++ [Callback.onConnect]).filterMap Callback.event? = calls.filterMap Callback.event? ∧
      (calls ++ [Callback.onDisconnect]).filterMap Callback.event? = calls.filterMap Callback.event? := by
  simp [Callback.event?]

theorem Keeps.onopen (i : ℕ) (s : Page) : Keeps s (s.onopen i) ∧ (s.onopen i).wsRef = s.wsRef := by
  rw [Page.onopen]
  split_ifs
  · exact ⟨.of_eq rfl (delivered_append s.calls).1 rfl, rfl⟩
  · exact ⟨.refl s, rfl⟩

theorem Keeps.onclose (o : Options) (s : Page) : Keeps s (s.onclose o) := by
  rw [Page.onclose]
  split_ifs
  · exact .of_eq rfl (delivered_append s.calls).2 rfl
  · exact .refl s

theorem onclose_wsRef (o : Options) (s : Page) : (s.onclose o).wsRef = if s.mountedRef then none else s.wsRef := by
  rw [Page.onclose]
  split_ifs <;> rfl

theorem onclose_sockets (o : Options) (s : Page) : (s.onclose o).sockets = s.sockets := by
  rw [Page.onclose]
  split_ifs <;> rfl

inductive Connects (s t : Page) : Prop
  | stays (keeps : Keeps s t) (wsRef : t.wsRef = s.wsRef)
  | creates (o : Options) (free : s.wsRef.any s.isLive = false)
      (sockets : t.sockets = s.sockets ++ [⟨.connecting, o, []⟩]) (wsRef : t.wsRef = some s.sockets.length)
      (delivered : t.delivered = s.delivered) (nextEvent : t.nextEvent = s.nextEvent)

theorem connect_connects (o : Options) (c : Bool) (s : Page) : Connects s (s.connect o c) := by
  rw [connect]
  split_ifs with hidle hlive
  · exact .stays (.refl s) rfl
  · exact .stays (.refl s) rfl
  · exact .creates o (Bool.eq_false_iff.mpr hlive) rfl rfl rfl rfl
  · exact .stays (.of_eq rfl rfl rfl) rfl

structure Receives (s : Page) (i : ℕ) (w : Socket) (m : Message) (t : Page) : Prop where
  socket : s.sockets[i]? = some w
  live : w.live = true
  front : m.event?.toList <+: w.pending
  wsRef : t.wsRef = s.wsRef
  sockets : ∀ (j : ℕ) (w' : Socket), t.sockets[j]? = some w' → ∃ v : Socket, s.sockets[j]? = some v ∧
    w'.live = v.live ∧ (j = i ∧ v.pending = m.event?.toList ++ w'.pending ∨ j ≠ i ∧ v.pending = w'.pending)
  delivered : t.delivered = s.delivered ∨ t.delivered = s.delivered ++ m.event?.toList
  nextEvent : t.nextEvent = s.nextEvent

structure Broadcasts (s t : Page) : Prop where
  wsRef : t.wsRef = s.wsRef
  sockets : ∀ (j : ℕ) (w' : Socket), t.sockets[j]? = some w' → ∃ w : Socket, s.sockets[j]? = some w ∧
    w'.live = w.live ∧ (w'.pending = w.pending ∨ w'.pending = w.pending ++ [s.nextEvent])
  delivered : t.delivered = s.delivered
  nextEvent : t.nextEvent = s.nextEvent + 1

theorem Receives.isLive (h : Receives s i w m t) (hlive : t.isLive j = true) : s.isLive j = true := by
  obtain ⟨w', hw', hlive⟩ := isLive_iff.mp hlive
  obtain ⟨v, hv, hsame, -⟩ := h.sockets j w' hw'
  exact isLive_iff.mpr ⟨v, hv, hsame ▸ hlive⟩

theorem Broadcasts.isLive (h : Broadcasts s t) (hlive : t.isLive j = true) : s.isLive j = true := by
  obtain ⟨w', hw', hlive⟩ := isLive_iff.mp hlive
  obtain ⟨v, hv, hsame, -⟩ := h.sockets j w' hw'
  exact isLive_iff.mpr ⟨v, hv, hsame ▸ hlive⟩

inductive Change (s : Page) (a : Action) (t : Page) : Prop
  | connects (h : Connects s t)
  | closes (i : ℕ) (w : Socket) (action : a = .socketCloses i) (socket : s.sockets[i]? = some w)
      (notClosed : w.readyState ≠ .closed) (mounted : s.mountedRef = true) (keeps : Keeps s t) (wsRef : t.wsRef = none)
      (gone : t.isLive i = false)
  | receives (i : ℕ) (w : Socket) (m : Message) (h : Receives s i w m t)
  | broadcasts (h : Broadcasts s t)

theorem Connects.behind (h : Connects s t) (hsockets : s.sockets = u.sockets) (href : s.wsRef = u.wsRef)
    (hdelivered : s.delivered = u.delivered) (hevent : s.nextEvent = u.nextEvent) : Connects u t := by
  have hkeeps : Keeps u s := .of_eq hsockets hdelivered hevent
  cases h with
  | stays keeps wsRef => exact .stays (hkeeps.trans keeps) (wsRef.trans href)
  | creates o free sockets wsRef delivered nextEvent =>
    have hlive : s.isLive = u.isLive := by
      funext i
      rw [isLive, isLive, hsockets]
    rw [href, hlive] at free
    rw [hsockets] at sockets wsRef
    exact .creates o free sockets wsRef (delivered.trans hdelivered) (nextEvent.trans hevent)

theorem Change.same (s : Page) (a : Action) : Change s a s := .connects (.stays (.refl s) rfl)

theorem runEffect_connects (o : Options) (c : Bool) (s : Page) : Connects s (s.runEffect o c) := by
  rw [runEffect]
  split_ifs
  · exact (connect_connects o c _).behind rfl rfl rfl rfl
  · exact .stays (.of_eq rfl rfl rfl) rfl

theorem cleanup_keeps (s : Page) : Keeps s s.cleanup ∧ s.cleanup.wsRef = s.wsRef := by
  rw [cleanup]
  split
  · refine ⟨Keeps.trans ?_ (.close _ _), rfl⟩
    exact .of_eq rfl rfl rfl
  · exact ⟨.of_eq rfl rfl rfl, rfl⟩

theorem socketOpens_keeps (hw : s.sockets[i]? = some w) (hconnecting : w.readyState = .connecting) :
    Keeps s ((s.modifySocket i fun w => { w with readyState := .opened }).onopen i) := by
  refine Keeps.trans ?_ (Keeps.onopen i _).1
  refine .modifySocket (fun v hv _ => ?_) fun _ => rfl
  obtain rfl : w = v := Option.some.inj (hw.symm.trans hv)
  simp [Socket.live, hconnecting]

theorem socketCloses_change (hw : s.sockets[i]? = some w) (hopen : w.readyState ≠ .closed) :
    Change s (.socketCloses i) ((s.modifySocket i fun w => { w with readyState := .closed }).onclose w.options) := by
  have hkeeps : Keeps s (s.modifySocket i fun w => { w with readyState := .closed }) :=
    .modifySocket (fun v _ hlive => by cases hlive) fun _ => rfl
  have hafter := hkeeps.trans (.onclose w.options _)
  have href := onclose_wsRef w.options (s.modifySocket i fun w => { w with readyState := .closed })
  by_cases hmounted : s.mountedRef = true
  · refine .closes i w rfl hw hopen hmounted hafter (href.trans (if_pos hmounted)) ?_
    apply Bool.eq_false_iff.mpr
    intro hlive
    obtain ⟨w', hw', hlive⟩ := isLive_iff.mp ((Keeps.onclose w.options _).isLive hlive)
    rw [getElem?_modifySocket, if_pos rfl, hw, Option.map_some] at hw'
    cases hw'
    cases hlive
  · exact .connects (.stays hafter (href.trans (if_neg hmounted)))

theorem socketReceives_change {rest : List Message} (hw : s.sockets[i]? = some w) (hopened : w.readyState = .opened)
    (hinbox : w.inbox = m :: rest) :
    Change s a ((s.modifySocket i fun w => { w with inbox := rest }).onmessage m) := by
  have hsockets : ∀ (j : ℕ) (w' : Socket),
      (s.modifySocket i fun w => { w with inbox := rest }).sockets[j]? = some w' → ∃ w : Socket,
        s.sockets[j]? = some w ∧ w'.live = w.live ∧
          (j = i ∧ w.pending = m.event?.toList ++ w'.pending ∨ j ≠ i ∧ w.pending = w'.pending) := by
    intro j w' hw'
    rw [getElem?_modifySocket] at hw'
    split_ifs at hw' with hj
    · subst hj
      rw [hw, Option.map_some] at hw'
      cases hw'
      refine ⟨w, hw, rfl, .inl ⟨rfl, ?_⟩⟩
      cases hevent : m.event? <;> simp [Socket.pending, hinbox, hevent]
    · exact ⟨w', hw', rfl, .inr ⟨fun h => hj h.symm, rfl⟩⟩
  have hfront : m.event?.toList <+: w.pending := by
    cases hevent : m.event? <;> simp [Socket.pending, hinbox, hevent]
  have hlive : w.live = true := by simp [Socket.live, hopened]
  rw [onmessage]
  split_ifs
  · refine .receives i w m ⟨hw, hlive, hfront, rfl, hsockets, .inr ?_, rfl⟩
    cases hevent : m.event? <;> simp [delivered, modifySocket, Callback.event?]
  · exact .receives i w m ⟨hw, hlive, hfront, rfl, hsockets, .inl rfl, rfl⟩

theorem broadcast_change (type : WsEventType) (reaches : ℕ → Bool) :
    Change s (.broadcast type reaches) (s.next (.broadcast type reaches)) := by
  refine .broadcasts ⟨rfl, fun j w' hw' => ?_, rfl, rfl⟩
  simp only [next, List.getElem?_mapIdx] at hw'
  obtain ⟨w, hw, rfl⟩ := Option.map_eq_some_iff.mp hw'
  refine ⟨w, hw, ?_⟩
  split_ifs
  · refine ⟨rfl, ?_⟩
    by_cases hshown : type ≠ .pong ∧ type ≠ .keepalive
    · right
      simp [Socket.pending, Message.event?, hshown]
    · left
      simp [Socket.pending, Message.event?, hshown]
  · exact ⟨rfl, .inl rfl⟩

theorem next_change (s : Page) (a : Action) : Change s a (s.next a) := by
  cases a with
  | runEffect o constructed =>
    simp only [next]
    split_ifs
    · exact .same s _
    · exact .connects (runEffect_connects o constructed s)
  | cleanup =>
    simp only [next]
    split_ifs
    · exact .connects (.stays (cleanup_keeps s).1 (cleanup_keeps s).2)
    · exact .same s _
  | socketOpens i =>
    simp only [next]
    split
    next w hw =>
      split_ifs with hconnecting
      · exact .connects (.stays (socketOpens_keeps hw hconnecting) (Keeps.onopen i _).2)
      · exact .same s _
    next => exact .same s _
  | socketFails i => exact .connects (.stays (.close s i) rfl)
  | socketCloses i =>
    simp only [next]
    split
    next w hw =>
      split_ifs with hclosed
      · exact .same s _
      · exact socketCloses_change hw hclosed
    next => exact .same s _
  | socketReceives i =>
    simp only [next]
    split
    next w hw =>
      split_ifs with hopened
      · split
        next m rest hinbox => exact socketReceives_change hw hopened hinbox
        next => exact .same s _
      · exact .same s _
    next => exact .same s _
  | timeoutFires k constructed =>
    simp only [next]
    split
    next o _ => exact .connects ((connect_connects o constructed _).behind rfl rfl rfl rfl)
    next => exact .same s _
  | intervalFires k =>
    simp only [next]
    split
    next =>
      split_ifs
      · exact .connects (.stays (.of_eq rfl rfl rfl) rfl)
      · exact .same s _
    next => exact .same s _
  | broadcast type reaches => exact broadcast_change type reaches
  | answer i m =>
    simp only [next]
    split_ifs with hevent
    · refine .connects (.stays (.modifySocket (fun _ _ hlive => hlive) fun w => ?_) rfl)
      simp [Socket.pending, hevent]
    · exact .same s _

/-! ## One live socket -/

theorem Single.step (h : s.Single) (hlate : ¬s.LateClose a) : (s.next a).Single := by
  intro i hlive
  cases next_change s a with
  | connects hconnects =>
    cases hconnects with
    | stays keeps wsRef => rw [wsRef, h i (keeps.isLive hlive)]
    | creates o free sockets wsRef delivered nextEvent =>
      obtain ⟨w, hw, hw'⟩ := isLive_iff.mp hlive
      rw [sockets] at hw
      by_cases hold : i < s.sockets.length
      · -- an earlier live socket is the one of `wsRef`, which is free
        rw [List.getElem?_append_left hold] at hw
        have hlive : s.isLive i = true := isLive_iff.mpr ⟨w, hw, hw'⟩
        rw [h i hlive, Option.any_some, hlive] at free
        cases free
      · obtain ⟨hlength, -⟩ := List.getElem?_eq_some_iff.mp hw
        rw [List.length_append, List.length_singleton] at hlength
        have hlast : i = s.sockets.length := by omega
        rw [wsRef, hlast]
  | closes k w action socket notClosed mounted keeps wsRef gone =>
    have hne : i ≠ k := by
      rintro rfl
      rw [gone] at hlive
      cases hlive
    exact absurd ⟨k, w, i, action, socket, notClosed, mounted, hne, h i (keeps.isLive hlive), keeps.isLive hlive⟩ hlate
  | receives _ _ _ hreceives => rw [hreceives.wsRef, h i (hreceives.isLive hlive)]
  | broadcasts hbroadcasts => rw [hbroadcasts.wsRef, h i (hbroadcasts.isLive hlive)]

theorem LateClose.not_single (hlate : s.LateClose a) : ¬(s.next a).Single := by
  obtain ⟨i, w, j, rfl, hw, hopen, hmounted, hne, -, hlive⟩ := hlate
  intro hsingle
  have hnext : s.next (.socketCloses i) =
      (s.modifySocket i fun w => { w with readyState := .closed }).onclose w.options := by
    simp only [next, hw, if_neg hopen]
  have hkept : (s.next (.socketCloses i)).isLive j = true := by
    obtain ⟨v, hv, hvlive⟩ := isLive_iff.mp hlive
    refine isLive_iff.mpr ⟨v, ?_, hvlive⟩
    rw [hnext, onclose_sockets, getElem?_modifySocket, if_neg (fun h => hne h.symm), hv]
  have href : (s.next (.socketCloses i)).wsRef = none := by
    rw [hnext, onclose_wsRef]
    exact if_pos hmounted
  have hsome := hsingle j hkept
  rw [href] at hsome
  cases hsome

/-! ## Each event once -/

/-- The events that are on their way to a live socket have numbers of their own and were not delivered. -/
structure Fresh (s : Page) : Prop where
  delivered : s.delivered.Nodup
  numbered : ∀ n ∈ s.delivered, n < s.nextEvent
  pending : ∀ (i : ℕ) (w : Socket), s.sockets[i]? = some w → w.live = true →
    w.pending.Nodup ∧ ∀ n ∈ w.pending, n < s.nextEvent ∧ n ∉ s.delivered

theorem Fresh.keeps (h : Fresh s) (hkeeps : Keeps s t) : Fresh t := by
  refine ⟨hkeeps.delivered ▸ h.delivered, fun n hn => ?_, fun i w' hw' hlive => ?_⟩
  · rw [hkeeps.delivered] at hn
    rw [hkeeps.nextEvent]
    exact h.numbered n hn
  · obtain ⟨w, hw, hwlive, hpending⟩ := hkeeps.sockets i w' hw' hlive
    rw [hpending, hkeeps.delivered, hkeeps.nextEvent]
    exact h.pending i w hw hwlive

theorem Fresh.connects (h : Fresh s) (hconnects : Connects s t) : Fresh t := by
  cases hconnects with
  | stays keeps _ => exact h.keeps keeps
  | creates o free sockets wsRef delivered nextEvent =>
    refine ⟨delivered ▸ h.delivered, fun n hn => ?_, fun i w' hw' hlive => ?_⟩
    · rw [nextEvent]
      exact h.numbered n (delivered ▸ hn)
    · rw [sockets, List.getElem?_append] at hw'
      rw [delivered, nextEvent]
      split_ifs at hw' with hold
      · exact h.pending i w' hw' hlive
      · -- the new socket has received nothing
        rw [List.mem_singleton.mp (List.mem_of_getElem? hw')]
        simp [Socket.pending]

/-- Only the socket of `wsRef` is live, so the event that it takes is on its way nowhere else. -/
theorem Fresh.receives (h : Fresh s) (hsingle : s.Single) (hreceives : Receives s i w m t) : Fresh t := by
  obtain ⟨hnodup, hold⟩ := h.pending i w hreceives.socket hreceives.live
  have hfront : ∀ n ∈ m.event?.toList, n < s.nextEvent ∧ n ∉ s.delivered :=
    fun n hn => hold n (hreceives.front.subset hn)
  have hmem : ∀ n ∈ t.delivered, n ∈ s.delivered ∨ n ∈ m.event?.toList := by
    intro n hn
    rcases hreceives.delivered with hdelivered | hdelivered <;> rw [hdelivered] at hn
    · exact .inl hn
    · exact List.mem_append.mp hn
  refine ⟨?_, fun n hn => ?_, fun j w' hw' hlive => ?_⟩
  · rcases hreceives.delivered with hdelivered | hdelivered <;> rw [hdelivered]
    · exact h.delivered
    · exact h.delivered.append (hnodup.sublist hreceives.front.sublist) fun n hn hnew => (hfront n hnew).2 hn
  · rw [hreceives.nextEvent]
    rcases hmem n hn with hn | hn
    · exact h.numbered n hn
    · exact (hfront n hn).1
  · rw [hreceives.nextEvent]
    obtain ⟨v, hv, -, hpending⟩ := hreceives.sockets j w' hw'
    have hj : j = i := by
      have href := hsingle j (hreceives.isLive (isLive_iff.mpr ⟨w', hw', hlive⟩))
      rw [hsingle i (isLive_iff.mpr ⟨w, hreceives.socket, hreceives.live⟩)] at href
      exact (Option.some.inj href).symm
    subst hj
    have hw : w.pending = m.event?.toList ++ w'.pending := by
      obtain rfl : w = v := Option.some.inj (hreceives.socket.symm.trans hv)
      simpa using hpending
    rw [hw] at hnodup hold
    obtain ⟨-, hrest, hdisjoint⟩ := List.nodup_append'.mp hnodup
    refine ⟨hrest, fun n hn => ⟨(hold n (List.mem_append_right _ hn)).1, fun hafter => ?_⟩⟩
    rcases hmem n hafter with hbefore | hnow
    · exact (hold n (List.mem_append_right _ hn)).2 hbefore
    · exact hdisjoint hnow hn

theorem Fresh.broadcasts (h : Fresh s) (hbroadcasts : Broadcasts s t) : Fresh t := by
  have hlater : ∀ n, n < s.nextEvent → n < t.nextEvent := by
    intro n hn
    have hnext := hbroadcasts.nextEvent
    omega
  refine ⟨hbroadcasts.delivered ▸ h.delivered, fun n hn => ?_, fun i w' hw' hlive => ?_⟩
  · exact hlater n (h.numbered n (hbroadcasts.delivered ▸ hn))
  · obtain ⟨w, hw, hsame, hpending⟩ := hbroadcasts.sockets i w' hw'
    obtain ⟨hnodup, hold⟩ := h.pending i w hw (hsame ▸ hlive)
    rw [hbroadcasts.delivered]
    rcases hpending with hpending | hpending <;> rw [hpending]
    · exact ⟨hnodup, fun n hn => ⟨hlater n (hold n hn).1, (hold n hn).2⟩⟩
    · have hfresh : s.nextEvent ∉ w.pending := fun hmem => lt_irrefl _ (hold _ hmem).1
      refine ⟨hnodup.append (List.nodup_singleton _) (List.disjoint_singleton.mpr hfresh), fun n hn => ?_⟩
      rcases List.mem_append.mp hn with hn | hn
      · exact ⟨hlater n (hold n hn).1, (hold n hn).2⟩
      · rw [List.mem_singleton.mp hn, hbroadcasts.nextEvent]
        exact ⟨Nat.lt_succ_self _, fun hmem => lt_irrefl _ (h.numbered _ hmem)⟩

theorem Fresh.step (h : Fresh s) (hsingle : s.Single) (a : Action) : Fresh (s.next a) := by
  cases next_change s a with
  | connects hconnects => exact h.connects hconnects
  | closes _ _ _ _ _ _ keeps => exact h.keeps keeps
  | receives _ _ _ hreceives => exact h.receives hsingle hreceives
  | broadcasts hbroadcasts => exact h.broadcasts hbroadcasts

theorem fresh_start : Fresh start := by
  refine ⟨List.nodup_nil, fun n hn => ?_, fun i w hw _ => ?_⟩
  · cases hn
  · cases hw

theorem single_start : start.Single := fun i hlive => by cases hlive

/-- There is one live socket all along, and no event is delivered twice, exactly if no close event
of an earlier socket is handled while a newer one is live. -/
theorem keepsOneSocket_iff (actions : List Action) :
    Throughout next (fun s => s.Single ∧ s.delivered.Nodup) start actions ↔
      Along next (fun s a => ¬s.LateClose a) start actions := by
  have hsingle : Throughout next Single start actions ↔ Along next (fun s a => ¬s.LateClose a) start actions := by
    refine throughout_iff (J := fun _ => True) (H := fun _ _ => True) (fun _ _ _ _ => trivial) ?_ (.of_true actions)
      trivial single_start
    intro s a _ _ h
    exact ⟨fun hnext hlate => hlate.not_single hnext, h.step⟩
  constructor
  · intro h
    exact hsingle.mp (h.imp fun _ hs => hs.1)
  · intro h
    have hfresh : Throughout next (fun s => s.Single ∧ Fresh s) start actions :=
      throughout_of_step (fun s a hlate hs => ⟨hs.1.step hlate, hs.2.step hs.1 a⟩) h ⟨single_start, fresh_start⟩
    exact hfresh.imp fun _ hs => ⟨hs.1, hs.2.delivered⟩

def remount : List Action :=
  [.runEffect ⟨true, 3000⟩ true, .socketOpens 0, .cleanup, .runEffect ⟨true, 3000⟩ true, .socketOpens 1,
    .socketCloses 0, .timeoutFires 2 true, .socketOpens 2, .broadcast .healthChanged fun _ => true,
    .socketReceives 1, .socketReceives 2]

theorem remount_delivers_twice : ¬∀ actions, Throughout next (fun s => s.Single ∧ s.delivered.Nodup) start actions := by
  intro h
  have hall := h remount
  have hlast := hall.2.2.2.2.2.2.2.2.2.2.2
  exact absurd hlast.2 (by decide)

end Page
end PyFaaS.DashboardSocket
