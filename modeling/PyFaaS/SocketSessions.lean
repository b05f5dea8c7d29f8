import Mathlib.Data.List.Induction
import PyFaaS.WsManager

/-!
# Sessions of the event stream

Each websocket of `ws_dashboard` (`api/routers/dashboard.py`) runs one handler beside the
broadcasts of the manager. Whatever its reads and writes raise, a session that has ended is in
no connection set and hears no later broadcast.
-/

namespace PyFaaS.SocketSessions
open Runs WsManager

inductive Frame where
  | pong
  | keepalive
  deriving DecidableEq

/-- What `wait_for(ws.receive_text(), timeout=30.0)` comes to. -/
inductive Received where
  | text (data : Text)
  | timeout
  | disconnected
  | raised
  deriving DecidableEq

inductive Sent where
  | ok
  | timeout
  | raised
  deriving DecidableEq

inductive Phase where
  | unopened
  | joining
  | receiving
  | sending (frame : Frame)
  | ended
  deriving DecidableEq

def Phase.serving : Phase → Bool
  | .receiving | .sending _ => true
  | .unopened | .joining | .ended => false

structure Server (C B : Type) where
  manager : Manager C B
  phase : C → Phase
  frames : C → List Frame

inductive Action (C B : Type) where
  | opens (c : C)
  | accepts (c : C) (raises : Bool)
  | receives (c : C) (got : Received)
  | sends (c : C) (sent : Sent)
  | broadcasts (a : WsManager.Action C B)

def internal {C B : Type} : WsManager.Action C B → Bool
  | .broadcast .. | .startSend .. | .endSend .. | .resume _ | .wake => true
  | .connect _ | .accept .. | .disconnect _ => false

namespace Server
variable {C B : Type} [DecidableEq C] [DecidableEq B]

omit [DecidableEq C] [DecidableEq B] in
def start : Server C B := ⟨Manager.fresh, fun _ => .unopened, fun _ => []⟩

omit [DecidableEq B] in
def goto (s : Server C B) (c : C) (p : Phase) : Server C B := { s with phase := Function.update s.phase c p }

def leave (s : Server C B) (c : C) : Option (Server C B) :=
  (s.manager.step (.disconnect c)).map fun m => { s.goto c .ended with manager := m }

/-- The handler reads again once `connect` has returned. -/
def step (s : Server C B) : Action C B → Option (Server C B)
  | .opens c =>
    if s.phase c = .unopened then (s.manager.step (.connect c)).map fun m => { s.goto c .joining with manager := m }
    else none
  | .accepts c raises =>
    if s.phase c = .joining then
      (s.manager.step (.accept c raises)).map fun m =>
        { s.goto c (if raises then .ended else .receiving) with manager := m }
    else none
  | .receives c got =>
    if s.phase c = .receiving ∧ s.manager.joins c = .connected then
      match got with
      | .text data => if data = "ping".toList then some (s.goto c (.sending .pong)) else some s
      | .timeout => some (s.goto c (.sending .keepalive))
      | .disconnected | .raised => s.leave c
    else none
  | .sends c sent =>
    match s.phase c with
    | .sending frame =>
      match frame, sent with
      | _, .ok => some { s.goto c .receiving with frames := Function.update s.frames c (s.frames c ++ [frame]) }
      -- the reply stands under the `try` of the read, the keepalive does not
      | .pong, .timeout => some (s.goto c (.sending .keepalive))
      | .keepalive, .timeout | _, .raised => s.leave c
    | _ => none
  | .broadcasts a => if internal a then (s.manager.step a).map fun m => { s with manager := m } else none

end Server

/-! ## What a broadcast changes -/

section
variable {E : Type} {log events : List E} {x y : E}

theorem before_append (h : y ∉ events) : Before (log ++ events) x y ↔ Before log x y := by
  induction events using List.reverseRecOn with
  | nil => rw [List.append_nil]
  | append_singleton events z ih =>
    rw [List.mem_append, List.mem_singleton, not_or] at h
    rw [← List.append_assoc, before_concat, ih h.1, or_iff_left]
    rintro ⟨rfl, -⟩
    exact h.2 rfl

end

variable {C B : Type} [DecidableEq C] [DecidableEq B] {m m' : Manager C B} {a : WsManager.Action C B}

structure Bystanding (m m' : Manager C B) (events : List (Event C B)) : Prop where
  log : m'.log = m.log ++ events
  joins : m'.joins = m.joins
  added : ∀ c, .added c ∉ events
  discarded : ∀ c, .discarded c ∉ events
  started : ∀ b, .started b ∈ events → m.casts b = .idle
  copies : ∀ b message clients, (m'.casts b).snapshot = some (message, clients) →
    (m.casts b).snapshot = some (message, clients) ∨ m.casts b = .idle ∧ clients = m.connections

omit [DecidableEq C] in
theorem snapshot_kept {b b' : B} {cast : Cast C} {copy : Text × Finset C}
    (hsame : cast.snapshot = (m.casts b).snapshot ∨ cast.snapshot = none)
    (h : (Function.update m.casts b cast b').snapshot = some copy) : (m.casts b').snapshot = some copy := by
  by_cases hb : b' = b
  · rw [hb, Function.update_self] at h
    rcases hsame with hsame | hnone
    · rw [hb, ← hsame, h]
    · rw [hnone] at h
      cases h
  · rwa [Function.update_of_ne hb] at h

theorem internal_bystanding (hlocked : m.locked = false) (hwaiters : m.waiters = []) (ha : internal a = true)
    (h : m.step a = some m') : ∃ events, Bystanding m m' events := by
  cases a with
  | connect c => cases ha
  | accept c raises => cases ha
  | disconnect c => cases ha
  | broadcast b dumps =>
    cases hcast : m.casts b <;> simp only [Manager.step, hcast, reduceCtorEq] at h
    have hskip : Bystanding m { m with casts := Function.update m.casts b (.done none), log := m.log ++ [.started b] }
        [.started b] :=
      { log := rfl
        joins := rfl
        added := by simp
        discarded := by simp
        started := by simp [hcast]
        copies := fun b' message clients hcopy => .inl (snapshot_kept (.inr rfl) hcopy) }
    split_ifs at h with hempty
    · cases h
      exact ⟨_, hskip⟩
    · cases dumps with
      | none =>
        cases h
        exact ⟨_, hskip⟩
      | some message =>
        cases h
        simp only [Manager.enter_of_free, hlocked, hwaiters, Manager.body, Function.update_idem]
        refine ⟨[.started b], rfl, rfl, by simp, by simp, by simp [hcast], fun b' message' clients hcopy => ?_⟩
        simp only at hcopy
        by_cases hb : b' = b
        · rw [hb, Function.update_self, Cast.snapshot, Option.some.injEq, Prod.mk.injEq] at hcopy
          exact .inr ⟨hb ▸ hcast, hcopy.2.symm⟩
        · rw [Function.update_of_ne hb] at hcopy
          exact .inl hcopy
  | startSend b c =>
    cases hcast : m.casts b <;> simp only [Manager.step, hcast, reduceCtorEq, Option.ite_none_right_eq_some] at h
    obtain ⟨hold, h⟩ := h
    cases h
    exact ⟨[.sent b c _], rfl, rfl, by simp, by simp, by simp, fun b' message clients hcopy => .inl hcopy⟩
  | endSend b c raises =>
    simp only [Manager.step, Option.ite_none_right_eq_some] at h
    obtain ⟨hold, h⟩ := h
    cases h
    exact ⟨[], (List.append_nil _).symm, rfl, by simp, by simp, by simp, fun b' message clients hcopy => .inl hcopy⟩
  | resume b =>
    cases hcast : m.casts b <;> simp only [Manager.step, hcast, reduceCtorEq, Option.ite_none_right_eq_some] at h
    rename_i message clients
    obtain ⟨hended, h⟩ := h
    cases h
    have hsame : (Cast.done (some (message, clients))).snapshot = (m.casts b).snapshot := by rw [hcast]; rfl
    simp only [Manager.collect]
    split_ifs with hdead
    · exact ⟨[], (List.append_nil _).symm, rfl, by simp, by simp, by simp,
        fun b' message' clients' hcopy => .inl (snapshot_kept (.inl hsame) hcopy)⟩
    · simp only [Manager.enter_of_free, hlocked, hwaiters, Manager.body, Function.update_idem, Function.update_self,
        Cast.snapshot]
      refine ⟨[.removed b _], rfl, rfl, by simp, by simp, by simp, fun b' message' clients' hcopy => .inl ?_⟩
      exact snapshot_kept (.inl hsame) hcopy
  | wake => simp only [Manager.step, hwaiters, reduceCtorEq] at h

/-! ## What a session has behind it -/

def Phase.Fits : Phase → Join → Prop
  | .unopened, j => j = .idle
  | .joining, j => j = .accepting
  | .receiving, j | .sending _, j => j = .connected
  | .ended, j => j = .refused ∨ j = .connected

structure Tracked (s : Server C B) : Prop where
  coherent : s.manager.Coherent
  fits : ∀ c, (s.phase c).Fits (s.manager.joins c)
  discarded : ∀ c, .discarded c ∈ s.manager.log ↔ s.phase c = .ended ∧ s.manager.joins c = .connected
  ordered : ∀ c, .discarded c ∈ s.manager.log → Before s.manager.log (.added c) (.discarded c)
  silent : ∀ b message clients c, (s.manager.casts b).snapshot = some (message, clients) → c ∈ clients →
    ¬Before s.manager.log (.discarded c) (.started b)

namespace Tracked
variable {s t : Server C B} {c : C}

theorem start : Tracked (Server.start : Server C B) := by
  refine ⟨Manager.Coherent.fresh, fun _ => rfl, ?_, ?_, ?_⟩ <;> simp [Server.start, Manager.fresh, Cast.snapshot]

theorem connected (h : Tracked s) (hserving : (s.phase c).serving = true) : s.manager.joins c = .connected := by
  have hfits := h.fits c
  cases hphase : s.phase c <;> simp_all [Phase.serving, Phase.Fits]

theorem listed (h : Tracked s) : c ∈ s.manager.connections ↔
    (s.phase c).serving = true ∧ ∀ b dead, .removed b dead ∈ s.manager.log → c ∉ dead := by
  rw [h.coherent.members, h.coherent.connected]
  have hfits := h.fits c
  constructor
  · rintro ⟨hconnected, hnot, hdead⟩
    refine ⟨?_, hdead⟩
    cases hphase : s.phase c with
    | ended => exact absurd (h.ordered c ((h.discarded c).mpr ⟨hphase, hconnected⟩)) hnot
    | unopened => simp [hphase, Phase.Fits, hconnected] at hfits
    | joining => simp [hphase, Phase.Fits, hconnected] at hfits
    | receiving => rfl
    | sending frame => rfl
  · rintro ⟨hserving, hdead⟩
    refine ⟨h.connected hserving, fun hbefore => ?_, hdead⟩
    have hended := ((h.discarded c).mp (List.Sublist.subset hbefore (by simp))).1
    rw [hended] at hserving
    cases hserving

theorem attempts (h : Tracked s) {j : Join} {p : Phase} (hphase : s.phase c = .unopened ∨ s.phase c = .joining)
    (hfits : p.Fits j) (hj : j ≠ .connected) {m : Manager C B}
    (hm : m = { s.manager with joins := Function.update s.manager.joins c j }) :
    Tracked { s.goto c p with manager := m } := by
  subst hm
  have hold : s.manager.joins c ≠ .connected := by
    have holdFits := h.fits c
    rcases hphase with hphase | hphase <;> simp_all [Phase.Fits]
  have hended : s.phase c ≠ .ended := by
    rcases hphase with hphase | hphase <;> simp [hphase]
  refine ⟨h.coherent.joins hold hj, fun d => ?_, fun d => ?_, h.ordered, h.silent⟩
  · by_cases hd : d = c
    · simpa [Server.goto, hd] using hfits
    · simpa [Server.goto, hd] using h.fits d
  · by_cases hd : d = c
    · simp [Server.goto, hd, h.discarded, hended, hj]
    · simp [Server.goto, hd, h.discarded]

theorem joins (h : Tracked s) (hphase : s.phase c = .joining) {m : Manager C B} (hm : m = s.manager.body (.add c)) :
    Tracked { s.goto c .receiving with manager := m } := by
  subst hm
  have hold : s.manager.joins c ≠ .connected := by
    have hfits := h.fits c
    simp_all [Phase.Fits]
  have hnot : .discarded c ∉ s.manager.log := by simp [h.discarded, hphase]
  refine ⟨h.coherent.adds hold, fun d => ?_, fun d => ?_, fun d => ?_, fun b message clients d hcopy hd => ?_⟩
  · by_cases hd : d = c
    · simp [Server.goto, Manager.body, hd, Phase.Fits]
    · simpa [Server.goto, Manager.body, hd] using h.fits d
  · by_cases hd : d = c
    · simp [Server.goto, Manager.body, hd, hnot]
    · simp [Server.goto, Manager.body, hd, h.discarded]
  · simpa [Manager.body] using h.ordered d
  · simpa [Manager.body] using h.silent b message clients d hcopy hd

theorem leaves (h : Tracked s) (hserving : (s.phase c).serving = true) (ht : s.leave c = some t) : Tracked t := by
  obtain ⟨m, hm, rfl⟩ := Option.map_eq_some_iff.mp ht
  simp only [Manager.step, Manager.enter_of_free h.coherent.unlocked h.coherent.nobodyWaits, Option.some.injEq] at hm
  subst hm
  have hconnected := h.connected hserving
  refine ⟨h.coherent.discards c, fun d => ?_, fun d => ?_, fun d hd => ?_, fun b message clients d hcopy hd => ?_⟩
  · by_cases hd : d = c
    · simp [Server.goto, Manager.body, hd, Phase.Fits, hconnected]
    · simpa [Server.goto, Manager.body, hd] using h.fits d
  · by_cases hd : d = c
    · simp [Server.goto, Manager.body, hd, hconnected]
    · simp [Server.goto, Manager.body, hd, h.discarded]
  · simp only [Manager.body, List.mem_append, List.mem_singleton, Event.discarded.injEq] at hd
    simp only [Manager.body, before_concat, Event.discarded.injEq]
    rcases hd with hd | rfl
    · exact .inl (h.ordered d hd)
    · exact .inr ⟨rfl, (h.coherent.connected d).mpr hconnected⟩
  · simpa [Manager.body] using h.silent b message clients d hcopy hd

theorem broadcasts (h : Tracked s) {a : WsManager.Action C B} {m : Manager C B} (ha : internal a = true)
    (hm : s.manager.step a = some m) : Tracked { s with manager := m } := by
  obtain ⟨events, hevents⟩ := internal_bystanding h.coherent.unlocked h.coherent.nobodyWaits ha hm
  have hdiscarded : ∀ c, .discarded c ∈ m.log ↔ .discarded c ∈ s.manager.log := by
    intro c
    rw [hevents.log, List.mem_append, or_iff_left (hevents.discarded c)]
  refine ⟨h.coherent.step hm, fun c => ?_, fun c => ?_, fun c hc => ?_, fun b message clients c hcopy hc => ?_⟩
  · rw [hevents.joins]
    exact h.fits c
  · rw [hdiscarded, hevents.joins]
    exact h.discarded c
  · rw [hevents.log, before_append (hevents.discarded c)]
    exact h.ordered c ((hdiscarded c).mp hc)
  · rcases hevents.copies b message clients hcopy with hcopy | ⟨hidle, rfl⟩
    · have hnot : .started b ∉ events := by
        intro hstarted
        have hidle := hevents.started b hstarted
        simp [hidle, Cast.snapshot] at hcopy
      rw [hevents.log, before_append hnot]
      exact h.silent b message clients c hcopy hc
    · -- a client of the copy is in its session, so that nothing has discarded it
      intro hbefore
      have hended := ((h.discarded c).mp ((hdiscarded c).mp hbefore.mem)).1
      have hserving := (h.listed.mp hc).1
      rw [hended] at hserving
      cases hserving

theorem goto (h : Tracked s) {p : Phase} (hserving : (s.phase c).serving = true) (hp : p.serving = true)
    {frames : C → List Frame} : Tracked { s.goto c p with frames := frames } := by
  have hconnected := h.connected hserving
  refine ⟨h.coherent, fun d => ?_, fun d => ?_, h.ordered, h.silent⟩
  · by_cases hd : d = c
    · cases p <;> simp_all [Server.goto, Phase.Fits, Phase.serving]
    · simpa [Server.goto, hd] using h.fits d
  · by_cases hd : d = c
    · have hold : s.phase c ≠ .ended := fun he => by simp [he, Phase.serving] at hserving
      have hnew : p ≠ .ended := fun he => by simp [he, Phase.serving] at hp
      simp [Server.goto, hd, h.discarded, hold, hnew]
    · simp [Server.goto, hd, h.discarded]

theorem step (h : Tracked s) {a : Action C B} (hstep : Fires Server.step s a t) : Tracked t := by
  cases a with
  | opens c =>
    simp only [Fires, Server.step, Option.ite_none_right_eq_some, Option.map_eq_some_iff] at hstep
    obtain ⟨hphase, m, hm, rfl⟩ := hstep
    simp only [Manager.step, Option.ite_none_right_eq_some, Option.some.injEq] at hm
    have hfits : Phase.joining.Fits .accepting := rfl
    exact h.attempts (.inl hphase) hfits (by simp) hm.2.symm
  | accepts c raises =>
    simp only [Fires, Server.step, Option.ite_none_right_eq_some, Option.map_eq_some_iff] at hstep
    obtain ⟨hphase, m, hm, rfl⟩ := hstep
    simp only [Manager.step, Option.ite_none_right_eq_some] at hm
    obtain ⟨-, hm⟩ := hm
    cases raises with
    | true =>
      have hfits : Phase.ended.Fits .refused := Or.inl rfl
      exact h.attempts (.inr hphase) hfits (by simp) (Option.some.inj hm).symm
    | false =>
      apply h.joins hphase
      rw [← Option.some.inj hm]
      simp only [Manager.enter_of_free, h.coherent.unlocked, h.coherent.nobodyWaits,
        Manager.body, Function.update_idem]
  | receives c got =>
    simp only [Fires, Server.step, Option.ite_none_right_eq_some] at hstep
    obtain ⟨⟨hphase, -⟩, hstep⟩ := hstep
    have hserving : (s.phase c).serving = true := by rw [hphase]; rfl
    cases got with
    | text data =>
      simp only at hstep
      split_ifs at hstep
      · cases hstep
        exact h.goto hserving rfl
      · cases hstep
        exact h
    | timeout =>
      cases hstep
      exact h.goto hserving rfl
    | disconnected => exact h.leaves hserving hstep
    | raised => exact h.leaves hserving hstep
  | sends c sent =>
    cases hphase : s.phase c <;> simp only [Fires, Server.step, hphase, reduceCtorEq] at hstep
    case sending frame =>
      have hserving : (s.phase c).serving = true := by rw [hphase]; rfl
      cases sent with
      | ok =>
        cases hstep
        exact h.goto hserving rfl
      | raised => exact h.leaves hserving hstep
      | timeout =>
        cases frame with
        | pong =>
          cases hstep
          exact h.goto hserving rfl
        | keepalive => exact h.leaves hserving hstep
  | broadcasts a =>
    simp only [Fires, Server.step, Option.ite_none_right_eq_some, Option.map_eq_some_iff] at hstep
    obtain ⟨ha, m, hm, rfl⟩ := hstep
    exact h.broadcasts ha hm

theorem reachable (h : Reachable (Fires Server.step) (fun s => s = Server.start) s) : Tracked s :=
  h.invariant (I := Tracked) (fun s (hs : s = Server.start) => hs ▸ start) fun _ _ _ hs hstep => hs.step hstep

end Tracked

structure Sound (s : Server C B) : Prop where
  listed : ∀ c, c ∈ s.manager.connections ↔
    (s.phase c).serving = true ∧ ∀ b dead, .removed b dead ∈ s.manager.log → c ∉ dead
  silent : ∀ b c message, .sent b c message ∈ s.manager.log →
    .added c ∈ s.manager.log ∧ ¬Before s.manager.log (.discarded c) (.started b)
  drained : (∀ c, (s.phase c).serving = false) → s.manager.connections = ∅

/-- However sessions and broadcasts interleave and whatever they raise. -/
theorem sessions_sound {s : Server C B} (h : Reachable (Fires Server.step) (fun s => s = Server.start) s) :
    Sound s := by
  have htracked := Tracked.reachable h
  refine ⟨fun c => htracked.listed, fun b c message hsent => ?_, fun hserving => ?_⟩
  · obtain ⟨hbegun, clients, hcopy⟩ := (htracked.coherent.delivered b c message).mp hsent
    have hnone : s.manager.sends b c ≠ .none := fun hnone => by simp [hnone, Send.begun] at hbegun
    obtain ⟨message', clients', hcopy', hc⟩ := (htracked.coherent.scheduled b c).mp hnone
    exact ⟨(htracked.coherent.copied b message' clients' hcopy' c hc).1,
      htracked.silent b message' clients' c hcopy' hc⟩
  · apply Finset.eq_empty_of_forall_notMem
    intro c hc
    have hserves := (htracked.listed.mp hc).1
    rw [hserving c] at hserves
    cases hserves

/-- One client pings and leaves while a broadcast to both is under way; the next one is for the other alone. -/
def pingThenLeave : List (Action Bool Bool) :=
  [.opens false, .opens true, .accepts true false, .accepts false false, .receives false (.text "ping".toList),
    .broadcasts (.broadcast false (some "x".toList)), .sends false .ok, .broadcasts (.startSend false false),
    .receives false .disconnected, .broadcasts (.startSend false true), .broadcasts (.endSend false false false),
    .broadcasts (.broadcast true (some "y".toList)), .broadcasts (.startSend true true)]

theorem sessions_sound_sample : ∃ t : Server Bool Bool, Run (Fires Server.step) Server.start pingThenLeave t ∧
    t.manager.connections = {true} ∧ t.frames false = [.pong] ∧ Sound t := by
  have hrun :=
    run_of_execute (Option.some_get (x := execute Server.step Server.start pingThenLeave) (by decide)).symm
  exact ⟨_, hrun, by decide, by decide, sessions_sound ⟨_, _, rfl, hrun⟩⟩

end PyFaaS.SocketSessions
