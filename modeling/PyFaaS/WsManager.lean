import Mathlib.Data.Finset.Basic
import Mathlib.Data.Finset.Filter
import Mathlib.Logic.Function.Basic
import PyFaaS.Runs
import PyFaaS.TextLines

/-!
# Broadcasts of a `ConnectionManager`

The calls of `api/services/ws_manager.py` on one manager run as tasks of one event loop.
A call goes on until it suspends: in `accept`, in `gather`, or at the lock while another
call has it. The sends of a `gather` are tasks of their own.
-/

namespace PyFaaS.WsManager
open Runs
open scoped List

/-! ## Order in a log -/

def Before {E : Type} (log : List E) (x y : E) : Prop := [x, y] <+ log

theorem Before.mem {E : Type} {log : List E} {x y : E} (h : Before log x y) : x ∈ log :=
  List.Sublist.subset h (by simp)

@[simp] theorem not_before_nil {E : Type} {x y : E} : ¬Before [] x y := by simp [Before]

@[simp] theorem before_concat {E : Type} {log : List E} {x y z : E} :
    Before (log ++ [z]) x y ↔ Before log x y ∨ z = y ∧ x ∈ log := by
  constructor
  · intro h
    obtain ⟨l₁, l₂, hl, h₁, h₂⟩ := List.sublist_append_iff.mp h
    match l₁, l₂, hl with
    | [], _, rfl => simpa using h₂.length_le
    | [_], _, rfl =>
      simp only [List.singleton_sublist, List.mem_singleton] at h₁ h₂
      exact .inr ⟨h₂.symm, h₁⟩
    | [_, _], [], rfl => exact .inl h₁
  · intro h
    rcases h with h | ⟨rfl, hmem⟩
    · exact List.Sublist.trans h (List.sublist_append_left _ _)
    · exact (List.singleton_sublist.mpr hmem).append (List.Sublist.refl [z])

/-! ## Calls and their sections -/

inductive Join where
  | idle
  | accepting
  | entering
  | connected
  | refused
  deriving DecidableEq, Repr

def Join.suspended : Join → Bool
  | .accepting | .entering => true
  | .idle | .connected | .refused => false

inductive Cast (C : Type) where
  | idle
  | entering (message : Text)
  | sending (message : Text) (clients : Finset C)
  | removing (message : Text) (clients : Finset C)
  | done (snapshot : Option (Text × Finset C))

def Cast.snapshot {C : Type} : Cast C → Option (Text × Finset C)
  | .idle | .entering _ => none
  | .sending message clients | .removing message clients => some (message, clients)
  | .done snapshot => snapshot

def Cast.suspended {C : Type} : Cast C → Bool
  | .entering _ | .sending .. | .removing .. => true
  | .idle | .done _ => false

inductive Send where
  | none
  | scheduled
  | running
  | returned
  | raised
  deriving DecidableEq, Repr

namespace Send

def begun : Send → Bool
  | .none | .scheduled => false
  | .running | .returned | .raised => true

def ended : Send → Bool
  | .none | .scheduled | .running => false
  | .returned | .raised => true

theorem begun_of_ended {v : Send} (h : v.ended = true) : v.begun = true := by
  cases v <;> simp_all [ended, begun]

@[simp] theorem begun_none : Send.none.begun = false := rfl

@[simp] theorem begun_running : Send.running.begun = true := rfl

end Send

inductive Critical (C B : Type) where
  | add (c : C)
  | discard (c : C)
  | snapshot (b : B) (message : Text)
  | remove (b : B) (dead : Finset C)

inductive Event (C B : Type) where
  | started (b : B)
  | added (c : C)
  | discarded (c : C)
  | sent (b : B) (c : C) (message : Text)
  | removed (b : B) (dead : Finset C)
  deriving DecidableEq

structure Manager (C B : Type) where
  connections : Finset C
  locked : Bool
  waiters : List (Critical C B)
  joins : C → Join
  casts : B → Cast C
  sends : B → C → Send
  log : List (Event C B)

inductive Action (C B : Type) where
  | connect (c : C)
  | accept (c : C) (raises : Bool)
  | disconnect (c : C)
  | broadcast (b : B) (dumps : Option Text)
  | startSend (b : B) (c : C)
  | endSend (b : B) (c : C) (raises : Bool)
  | resume (b : B)
  | wake

namespace Manager
variable {C B : Type} [DecidableEq C] [DecidableEq B]

omit [DecidableEq C] [DecidableEq B] in
def fresh : Manager C B := ⟨∅, false, [], fun _ => .idle, fun _ => .idle, fun _ _ => .none, []⟩

def body (s : Manager C B) : Critical C B → Manager C B
  | .add c =>
    { s with
      connections := insert c s.connections
      joins := Function.update s.joins c .connected
      log := s.log ++ [.added c] }
  | .discard c => { s with connections := s.connections.erase c, log := s.log ++ [.discarded c] }
  | .snapshot b message =>
    { s with
      casts := Function.update s.casts b (.sending message s.connections)
      sends := Function.update s.sends b fun c => if c ∈ s.connections then .scheduled else .none }
  | .remove b dead =>
    { s with
      connections := s.connections \ dead
      casts := Function.update s.casts b (.done (s.casts b).snapshot)
      log := s.log ++ [.removed b dead] }

/-- The lock is released behind a body that does not suspend. -/
def critical (s : Manager C B) (w : Critical C B) : Manager C B :=
  { ({ s with locked := true }.body w) with locked := false }

/-- `asyncio.Lock`: a free lock that nobody waits for is taken at once. -/
def enter (s : Manager C B) (w : Critical C B) : Manager C B :=
  if s.locked || !s.waiters.isEmpty then { s with waiters := s.waiters ++ [w] } else s.critical w

/-- `connection_set -= dead` behind the `gather`, where all the results are in. -/
def collect (s : Manager C B) (b : B) (message : Text) (clients : Finset C) : Manager C B :=
  let dead := clients.filter fun c => s.sends b c = .raised
  if dead = ∅ then { s with casts := Function.update s.casts b (.done (some (message, clients))) }
  else { s with casts := Function.update s.casts b (.removing message clients) }.enter (.remove b dead)

/-- A task goes on up to where it suspends next. -/
def step (s : Manager C B) : Action C B → Option (Manager C B)
  | .connect c =>
    if s.joins c = .idle then some { s with joins := Function.update s.joins c .accepting } else none
  | .accept c raises =>
    if s.joins c = .accepting then
      if raises then some { s with joins := Function.update s.joins c .refused }
      else some ({ s with joins := Function.update s.joins c .entering }.enter (.add c))
    else none
  | .disconnect c => some (s.enter (.discard c))
  | .broadcast b dumps =>
    match s.casts b with
    | .idle =>
      let s := { s with log := s.log ++ [Event.started b] }
      if s.connections = ∅ then some { s with casts := Function.update s.casts b (.done none) }
      else match dumps with
        | some message =>
          some ({ s with casts := Function.update s.casts b (.entering message) }.enter (.snapshot b message))
        | none => some { s with casts := Function.update s.casts b (.done none) }
    | _ => none
  | .startSend b c =>
    match s.casts b with
    | .sending message _ =>
      if s.sends b c = .scheduled then
        some { s with
          sends := Function.update s.sends b (Function.update (s.sends b) c .running)
          log := s.log ++ [.sent b c message] }
      else none
    | _ => none
  | .endSend b c raises =>
    if s.sends b c = .running then
      some { s with
        sends := Function.update s.sends b (Function.update (s.sends b) c (if raises then .raised else .returned)) }
    else none
  | .resume b =>
    match s.casts b with
    | .sending message clients =>
      if ∀ c ∈ clients, (s.sends b c).ended = true then some (s.collect b message clients) else none
    | _ => none
  | .wake =>
    match s.waiters with
    | w :: rest => if s.locked then none else some ({ s with waiters := rest }.critical w)
    | [] => none

/-! ## What a step changes -/

def mark (s : Manager C B) (b : B) (c : C) (v : Send) : Manager C B :=
  { s with sends := Function.update s.sends b (Function.update (s.sends b) c v) }

@[simp] theorem mark_sends (s : Manager C B) (b b' : B) (c c' : C) (v : Send) :
    (s.mark b c v).sends b' c' = if b' = b ∧ c' = c then v else s.sends b' c' := by
  by_cases hb : b' = b
  · subst hb
    simp [mark, Function.update_apply]
  · simp [mark, hb]

@[simp] theorem mark_casts (s : Manager C B) (b : B) (c : C) (v : Send) : (s.mark b c v).casts = s.casts := rfl

@[simp] theorem mark_log (s : Manager C B) (b : B) (c : C) (v : Send) : (s.mark b c v).log = s.log := rfl

omit [DecidableEq B] in
def dead (s : Manager C B) (b : B) (clients : Finset C) : Finset C := clients.filter fun c => s.sends b c = .raised

inductive Change (s : Manager C B) : Manager C B → Prop
  | joins (c : C) (j : Join) (hold : s.joins c ≠ .connected) (hnew : j ≠ .connected) :
    Change s { s with joins := Function.update s.joins c j }
  | adds (c : C) (hold : s.joins c ≠ .connected) :
    Change s (s.body (.add c))
  | discards (c : C) : Change s (s.body (.discard c))
  | skips (b : B) (hold : s.casts b = .idle) :
    Change s { s with casts := Function.update s.casts b (.done none), log := s.log ++ [.started b] }
  | copies (b : B) (message : Text) (hold : s.casts b = .idle) :
    Change s ({ s with log := s.log ++ [Event.started b] }.body (.snapshot b message))
  | sends (b : B) (c : C) (message : Text) (clients : Finset C) (hcast : s.casts b = .sending message clients)
    (hold : s.sends b c = .scheduled) :
    Change s { s.mark b c .running with log := s.log ++ [.sent b c message] }
  | ends (b : B) (c : C) (v : Send) (hold : s.sends b c = .running) (hnew : v.ended = true) :
    Change s (s.mark b c v)
  | finishes (b : B) (message : Text) (clients : Finset C) (hcast : s.casts b = .sending message clients)
    (hended : ∀ c ∈ clients, (s.sends b c).ended = true) (hdead : s.dead b clients = ∅) :
    Change s { s with casts := Function.update s.casts b (.done (some (message, clients))) }
  | removes (b : B) (message : Text) (clients : Finset C) (hcast : s.casts b = .sending message clients)
    (hended : ∀ c ∈ clients, (s.sends b c).ended = true) :
    Change s
      { s with
        connections := s.connections \ s.dead b clients
        casts := Function.update s.casts b (.done (some (message, clients)))
        log := s.log ++ [.removed b (s.dead b clients)] }

theorem enter_of_free {s : Manager C B} (hlocked : s.locked = false) (hwaiters : s.waiters = []) (w : Critical C B) :
    s.enter w = s.body w := by
  obtain ⟨connections, locked, waiters, joins, casts, sends, log⟩ := s
  subst hlocked hwaiters
  cases w <;> rfl

theorem step_change {s t : Manager C B} {a : Action C B} (hlocked : s.locked = false) (hwaiters : s.waiters = [])
    (h : s.step a = some t) : Change s t := by
  cases a with
  | connect c =>
    simp only [step, Option.ite_none_right_eq_some, Option.some.injEq] at h
    obtain ⟨hidle, rfl⟩ := h
    exact .joins c .accepting (by simp [hidle]) (by simp)
  | accept c raises =>
    simp only [step, Option.ite_none_right_eq_some] at h
    obtain ⟨haccepting, h⟩ := h
    have hold : s.joins c ≠ .connected := by simp [haccepting]
    split_ifs at h with hraises
    · cases h
      exact .joins c .refused hold (by simp)
    · cases h
      simpa only [enter_of_free, hlocked, hwaiters, body, Function.update_idem] using Change.adds c hold
  | disconnect c =>
    cases h
    rw [enter_of_free hlocked hwaiters]
    exact .discards c
  | broadcast b dumps =>
    cases hcast : s.casts b <;> simp only [step, hcast, reduceCtorEq] at h
    split_ifs at h with hempty
    · cases h
      exact .skips b hcast
    · cases dumps with
      | none =>
        cases h
        exact .skips b hcast
      | some message =>
        cases h
        simpa only [enter_of_free, hlocked, hwaiters, body, Function.update_idem] using Change.copies b message hcast
  | startSend b c =>
    cases hcast : s.casts b <;> simp only [step, hcast, reduceCtorEq, Option.ite_none_right_eq_some] at h
    obtain ⟨hold, h⟩ := h
    cases h
    exact .sends b c _ _ hcast hold
  | endSend b c raises =>
    simp only [step, Option.ite_none_right_eq_some] at h
    obtain ⟨hold, h⟩ := h
    cases h
    exact .ends b c _ hold (by cases raises <;> rfl)
  | resume b =>
    cases hcast : s.casts b <;> simp only [step, hcast, reduceCtorEq, Option.ite_none_right_eq_some] at h
    obtain ⟨hended, h⟩ := h
    cases h
    simp only [collect]
    split_ifs with hdead
    · exact .finishes b _ _ hcast hended hdead
    · simpa only [enter_of_free, hlocked, hwaiters, body, Function.update_idem, Function.update_self, Cast.snapshot,
        Manager.dead] using Change.removes b _ _ hcast hended
  | wake =>
    simp only [step, hwaiters, reduceCtorEq] at h

/-! ## The history of a manager -/

structure Coherent (s : Manager C B) : Prop where
  unlocked : s.locked = false
  nobodyWaits : s.waiters = []
  connected : ∀ c, .added c ∈ s.log ↔ s.joins c = .connected
  started : ∀ b, .started b ∈ s.log ↔ s.casts b ≠ .idle
  copied : ∀ b message clients, (s.casts b).snapshot = some (message, clients) →
    ∀ c ∈ clients, .added c ∈ s.log ∧ ¬Before s.log (.started b) (.added c)
  scheduled : ∀ b c, s.sends b c ≠ .none ↔
    ∃ message clients, (s.casts b).snapshot = some (message, clients) ∧ c ∈ clients
  delivered : ∀ b c message, .sent b c message ∈ s.log ↔
    (s.sends b c).begun = true ∧ ∃ clients, (s.casts b).snapshot = some (message, clients)
  sentOnce : ∀ b c message, s.log.count (.sent b c message) ≤ 1
  answered : ∀ b snapshot c, s.casts b = .done snapshot → s.sends b c ≠ .none → (s.sends b c).ended = true
  removed : ∀ b dead, .removed b dead ∈ s.log →
    (∃ snapshot, s.casts b = .done snapshot) ∧ ∀ c ∈ dead, s.sends b c = .raised
  buried : ∀ b snapshot c, s.casts b = .done snapshot → s.sends b c = .raised →
    ∃ dead, .removed b dead ∈ s.log ∧ c ∈ dead
  members : ∀ c, c ∈ s.connections ↔ .added c ∈ s.log ∧ ¬Before s.log (.added c) (.discarded c) ∧
    ∀ b dead, .removed b dead ∈ s.log → c ∉ dead

namespace Coherent
variable {s t : Manager C B}

theorem fresh : Coherent (fresh : Manager C B) := by
  constructor <;> simp [Manager.fresh, Cast.snapshot, Send.begun]

theorem joins (h : Coherent s) {c : C} {j : Join} (hold : s.joins c ≠ .connected) (hnew : j ≠ .connected) :
    Coherent { s with joins := Function.update s.joins c j } := by
  refine { h with connected := fun d => ?_ }
  by_cases hd : d = c
  · subst hd
    simp [h.connected, hold, hnew]
  · simp [h.connected, hd]

theorem notDead (h : Coherent s) {c : C} (hold : s.joins c ≠ .connected) {b : B} {dead : Finset C}
    (hremoved : .removed b dead ∈ s.log) : c ∉ dead := by
  intro hc
  have hraised := (h.removed b dead hremoved).2 c hc
  obtain ⟨message, clients, hsnapshot, hmem⟩ := (h.scheduled b c).mp (by simp [hraised])
  exact hold ((h.connected c).mp (h.copied b message clients hsnapshot c hmem).1)

theorem adds (h : Coherent s) {c : C} (hold : s.joins c ≠ .connected) : Coherent (s.body (.add c)) := by
  have hnew : .added c ∉ s.log := fun hmem => hold ((h.connected c).mp hmem)
  refine { h with connected := fun d => ?_, started := ?_, copied := ?_, delivered := ?_, sentOnce := ?_, removed := ?_,
                  buried := ?_, members := fun d => ?_ }
  · by_cases hd : d = c
    · subst hd
      simp [body]
    · simp [body, h.connected, hd]
  · simpa [body] using h.started
  · intro b message clients hsnapshot d hd
    obtain ⟨hadded, hbefore⟩ := h.copied b message clients hsnapshot d hd
    have hne : c ≠ d := fun he => hnew (he ▸ hadded)
    simp [body, hadded, hbefore, hne]
  · simpa [body] using h.delivered
  · simpa [body] using h.sentOnce
  · simpa [body] using h.removed
  · simpa [body] using h.buried
  · by_cases hd : d = c
    · subst hd
      have hbefore : ¬Before s.log (.added d) (.discarded d) := fun hbefore => hnew hbefore.mem
      simpa [body, hbefore] using fun b dead => h.notDead hold
    · simp [body, h.members, hd]

theorem discards (h : Coherent s) (c : C) : Coherent (s.body (.discard c)) := by
  refine { h with connected := ?_, started := ?_, copied := ?_, delivered := ?_, sentOnce := ?_, removed := ?_,
                  buried := ?_, members := fun d => ?_ }
  · simpa [body] using h.connected
  · simpa [body] using h.started
  · simpa [body] using h.copied
  · simpa [body] using h.delivered
  · simpa [body] using h.sentOnce
  · simpa [body] using h.removed
  · simpa [body] using h.buried
  · simp only [body, Finset.mem_erase, h.members, List.mem_append, List.mem_singleton, reduceCtorEq, or_false,
      before_concat, Event.discarded.injEq]
    constructor
    · rintro ⟨hne, hadded, hbefore, hdead⟩
      exact ⟨hadded, by simp [hbefore, Ne.symm hne], hdead⟩
    · rintro ⟨hadded, hbefore, hdead⟩
      exact ⟨fun he => hbefore (.inr ⟨he.symm, hadded⟩), hadded, fun h => hbefore (.inl h), hdead⟩

theorem unscheduled (h : Coherent s) {b : B} (hidle : s.casts b = .idle) (c : C) : s.sends b c = .none := by
  by_contra hne
  obtain ⟨message, clients, hsnapshot, -⟩ := (h.scheduled b c).mp hne
  simp [hidle, Cast.snapshot] at hsnapshot

theorem notRemoved (h : Coherent s) {b : B} (hcast : ∀ snapshot, s.casts b ≠ .done snapshot) (dead : Finset C) :
    .removed b dead ∉ s.log := by
  intro hremoved
  obtain ⟨⟨snapshot, hdone⟩, -⟩ := h.removed b dead hremoved
  exact hcast snapshot hdone

theorem skips (h : Coherent s) {b : B} (hold : s.casts b = .idle) :
    Coherent { s with casts := Function.update s.casts b (.done none), log := s.log ++ [.started b] } := by
  have hnone := h.unscheduled hold
  refine { h with connected := ?_, started := fun b' => ?_, copied := fun b' => ?_, scheduled := fun b' c => ?_,
                  delivered := fun b' c message => ?_, sentOnce := ?_, answered := fun b' => ?_,
                  removed := fun b' dead => ?_, buried := fun b' => ?_, members := ?_ }
  · simpa using h.connected
  · by_cases hb : b' = b <;> simp [hb, h.started]
  · by_cases hb : b' = b
    · simp [hb, Cast.snapshot]
    · simpa [hb] using h.copied b'
  · by_cases hb : b' = b
    · simp [hb, hnone, Cast.snapshot]
    · simpa [hb] using h.scheduled b' c
  · by_cases hb : b' = b
    · simp [hb, h.delivered, hnone]
    · simpa [hb] using h.delivered b' c message
  · simpa using h.sentOnce
  · by_cases hb : b' = b
    · simp [hb, hnone]
    · simpa [hb] using h.answered b'
  · by_cases hb : b' = b
    · simp [hb, h.notRemoved (b := b) (by simp [hold])]
    · simpa [hb] using h.removed b' dead
  · by_cases hb : b' = b
    · simp [hb, hnone]
    · simpa [hb] using h.buried b'
  · simpa using h.members

theorem copies (h : Coherent s) {b : B} {message : Text} (hold : s.casts b = .idle) :
    Coherent ({ s with log := s.log ++ [Event.started b] }.body (.snapshot b message)) := by
  have hnone := h.unscheduled hold
  have hstarted : .started b ∉ s.log := by simp [h.started, hold]
  refine { h with connected := ?_, started := fun b' => ?_, copied := fun b' => ?_, scheduled := fun b' c => ?_,
                  delivered := fun b' c message' => ?_, sentOnce := ?_, answered := fun b' => ?_,
                  removed := fun b' dead => ?_, buried := fun b' => ?_, members := ?_ }
  · simpa [body] using h.connected
  · by_cases hb : b' = b <;> simp [body, hb, h.started]
  · by_cases hb : b' = b
    · subst hb
      simp only [body, Function.update_self, Cast.snapshot, Option.some.injEq, Prod.mk.injEq]
      rintro _ _ ⟨rfl, rfl⟩ c hc
      have hbefore : ¬Before s.log (.started b') (.added c) := fun hbefore => hstarted hbefore.mem
      simpa [hbefore] using ((h.members c).mp hc).1
    · simpa [body, hb] using h.copied b'
  · by_cases hb : b' = b
    · simp [body, hb, Cast.snapshot]
    · simpa [body, hb] using h.scheduled b' c
  · by_cases hb : b' = b
    · subst hb
      have hbegun : (if c ∈ s.connections then Send.scheduled else .none).begun = false := by split <;> rfl
      simp [body, h.delivered, hnone, hbegun]
    · simpa [body, hb] using h.delivered b' c message'
  · simpa [body] using h.sentOnce
  · by_cases hb : b' = b
    · simp [body, hb]
    · simpa [body, hb] using h.answered b'
  · by_cases hb : b' = b
    · simp [body, hb, h.notRemoved (b := b) (by simp [hold])]
    · simpa [body, hb] using h.removed b' dead
  · by_cases hb : b' = b
    · simp [body, hb]
    · simpa [body, hb] using h.buried b'
  · simpa [body] using h.members

theorem sends (h : Coherent s) {b : B} {c : C} {message : Text} {clients : Finset C}
    (hcast : s.casts b = .sending message clients) (hold : s.sends b c = .scheduled) :
    Coherent { s.mark b c .running with log := s.log ++ [.sent b c message] } := by
  have hunsent : ∀ message', .sent b c message' ∉ s.log := by simp [h.delivered, hold, Send.begun]
  have hundone : ∀ {b' snapshot}, s.casts b' = .done snapshot → b' ≠ b := by
    intro b' snapshot hdone hb
    simp [hb, hcast] at hdone
  refine { h with connected := ?_, started := ?_, copied := ?_, scheduled := fun b' c' => ?_,
                  delivered := fun b' c' message' => ?_, sentOnce := fun b' c' message' => ?_,
                  answered := fun b' snapshot c' hdone => ?_, removed := fun b' dead hremoved => ?_,
                  buried := fun b' snapshot c' hdone => ?_, members := ?_ }
  · simpa [mark] using h.connected
  · simpa [mark] using h.started
  · simpa [mark] using h.copied
  · rw [mark_sends]
    split_ifs with hc
    · exact iff_of_true (by simp) ((h.scheduled b' c').mp (by simp [hc, hold]))
    · exact h.scheduled b' c'
  · rw [mark_sends]
    split_ifs with hc
    · obtain ⟨rfl, rfl⟩ := hc
      simp [hunsent, hcast, Cast.snapshot, eq_comm]
    · have hother : Event.sent b' c' message' ≠ .sent b c message := by simp; tauto
      simpa [hother] using h.delivered b' c' message'
  · by_cases hsame : Event.sent b c message = .sent b' c' message'
    · rw [← hsame, List.count_append, List.count_eq_zero_of_not_mem (hunsent message)]
      simp
    · simpa [List.count_append, List.count_singleton, hsame] using h.sentOnce b' c' message'
  · simpa [hundone hdone] using h.answered b' snapshot c' hdone
  · obtain ⟨⟨snapshot, hdone⟩, hdead⟩ := h.removed b' dead (by simpa using hremoved)
    exact ⟨⟨snapshot, hdone⟩, by simpa [hundone hdone] using hdead⟩
  · simpa [hundone hdone] using h.buried b' snapshot c' hdone
  · simpa [mark] using h.members

theorem ends (h : Coherent s) {b : B} {c : C} {v : Send} (hold : s.sends b c = .running) (hnew : v.ended = true) :
    Coherent (s.mark b c v) := by
  have hbegun : v.begun = true ∧ v ≠ .none := by cases v <;> simp_all [Send.begun, Send.ended]
  have hundone : ∀ {b' snapshot}, s.casts b' = .done snapshot → b' ≠ b := by
    rintro b' snapshot hdone rfl
    have hended := h.answered b' snapshot c hdone (by simp [hold])
    simp [hold, Send.ended] at hended
  refine { h with scheduled := fun b' c' => ?_, delivered := fun b' c' message => ?_,
                  answered := fun b' snapshot c' hdone => ?_, removed := fun b' dead hremoved => ?_,
                  buried := fun b' snapshot c' hdone => ?_ }
  · rw [mark_sends]
    split_ifs with hc
    · exact iff_of_true hbegun.2 ((h.scheduled b' c').mp (by simp [hc, hold]))
    · exact h.scheduled b' c'
  · rw [mark_sends]
    split_ifs with hc
    · simpa [hc, hold, hbegun] using h.delivered b' c' message
    · exact h.delivered b' c' message
  · simpa [hundone hdone] using h.answered b' snapshot c' hdone
  · obtain ⟨⟨snapshot, hdone⟩, hdead⟩ := h.removed b' dead hremoved
    exact ⟨⟨snapshot, hdone⟩, by simpa [hundone hdone] using hdead⟩
  · simpa [hundone hdone] using h.buried b' snapshot c' hdone

omit [DecidableEq C] in
theorem snapshot_update {casts : B → Cast C} {b : B} {message : Text} {clients : Finset C}
    (hcast : casts b = .sending message clients) (b' : B) :
    (Function.update casts b (.done (some (message, clients))) b').snapshot = (casts b').snapshot := by
  by_cases hb : b' = b
  · simp [hb, hcast, Cast.snapshot]
  · simp [hb]

theorem mem_copy (h : Coherent s) {b : B} {message : Text} {clients : Finset C}
    (hcast : s.casts b = .sending message clients) {c : C} (hnone : s.sends b c ≠ .none) : c ∈ clients := by
  obtain ⟨message', clients', hcopy, hc⟩ := (h.scheduled b c).mp hnone
  simp only [hcast, Cast.snapshot, Option.some.injEq, Prod.mk.injEq] at hcopy
  exact hcopy.2 ▸ hc

theorem mem_dead (h : Coherent s) {b : B} {message : Text} {clients : Finset C}
    (hcast : s.casts b = .sending message clients) {c : C} (hraised : s.sends b c = .raised) :
    c ∈ s.dead b clients :=
  Finset.mem_filter.mpr ⟨h.mem_copy hcast (by simp [hraised]), hraised⟩

theorem ended_of_done (h : Coherent s) {b : B} {message : Text} {clients : Finset C}
    (hcast : s.casts b = .sending message clients) (hended : ∀ c ∈ clients, (s.sends b c).ended = true) {b' : B}
    {snapshot : Option (Text × Finset C)} {c : C}
    (hdone : Function.update s.casts b (.done (some (message, clients))) b' = .done snapshot)
    (hnone : s.sends b' c ≠ .none) : (s.sends b' c).ended = true := by
  by_cases hb : b' = b
  · subst hb
    exact hended c (h.mem_copy hcast hnone)
  · exact h.answered b' snapshot c (by simpa [hb] using hdone) hnone

theorem finishes (h : Coherent s) {b : B} {message : Text} {clients : Finset C}
    (hcast : s.casts b = .sending message clients) (hended : ∀ c ∈ clients, (s.sends b c).ended = true)
    (hdead : s.dead b clients = ∅) :
    Coherent { s with casts := Function.update s.casts b (.done (some (message, clients))) } := by
  have hsnapshot := snapshot_update hcast
  refine { h with started := fun b' => ?_, copied := fun b' => ?_, scheduled := fun b' => ?_,
                  delivered := fun b' => ?_, answered := fun b' snapshot c hdone => h.ended_of_done hcast hended hdone,
                  removed := fun b' dead hremoved => ?_, buried := fun b' snapshot c hdone hraised => ?_ }
  · by_cases hb : b' = b <;> simp [hb, h.started, hcast]
  · simpa only [hsnapshot] using h.copied b'
  · simpa only [hsnapshot] using h.scheduled b'
  · simpa only [hsnapshot] using h.delivered b'
  · obtain ⟨⟨snapshot, hdone⟩, hraised⟩ := h.removed b' dead hremoved
    have hb : b' ≠ b := fun hb => h.notRemoved (by simp [hcast]) dead (hb ▸ hremoved)
    exact ⟨⟨snapshot, by simpa [hb] using hdone⟩, hraised⟩
  · by_cases hb : b' = b
    · subst hb
      have hmem := h.mem_dead hcast hraised
      simp [hdead] at hmem
    · exact h.buried b' snapshot c (by simpa [hb] using hdone) hraised

theorem removes (h : Coherent s) {b : B} {message : Text} {clients : Finset C}
    (hcast : s.casts b = .sending message clients) (hended : ∀ c ∈ clients, (s.sends b c).ended = true) :
    Coherent
      { s with
        connections := s.connections \ s.dead b clients
        casts := Function.update s.casts b (.done (some (message, clients)))
        log := s.log ++ [.removed b (s.dead b clients)] } := by
  have hsnapshot := snapshot_update hcast
  refine { h with connected := ?_, started := fun b' => ?_, copied := fun b' => ?_, scheduled := fun b' => ?_,
                  delivered := fun b' => ?_, sentOnce := ?_,
                  answered := fun b' snapshot c hdone => h.ended_of_done hcast hended hdone,
                  removed := fun b' dead hremoved => ?_, buried := fun b' snapshot c hdone hraised => ?_,
                  members := fun c => ?_ }
  · simpa using h.connected
  · by_cases hb : b' = b <;> simp [hb, h.started, hcast]
  · simpa [hsnapshot] using h.copied b'
  · simpa only [hsnapshot] using h.scheduled b'
  · simpa [hsnapshot] using h.delivered b'
  · simpa using h.sentOnce
  · simp only [List.mem_append, List.mem_singleton, Event.removed.injEq] at hremoved
    rcases hremoved with hremoved | ⟨rfl, rfl⟩
    · obtain ⟨⟨snapshot, hdone⟩, hraised⟩ := h.removed b' dead hremoved
      have hb : b' ≠ b := fun hb => h.notRemoved (by simp [hcast]) dead (hb ▸ hremoved)
      exact ⟨⟨snapshot, by simpa [hb] using hdone⟩, hraised⟩
    · exact ⟨⟨_, Function.update_self ..⟩, fun c hc => (Finset.mem_filter.mp hc).2⟩
  · by_cases hb : b' = b
    · subst hb
      exact ⟨s.dead b' clients, by simp, h.mem_dead hcast hraised⟩
    · obtain ⟨dead, hremoved, hc⟩ := h.buried b' snapshot c (by simpa [hb] using hdone) hraised
      exact ⟨dead, by simp [hremoved], hc⟩
  · simp only [Finset.mem_sdiff, h.members, List.mem_append, List.mem_singleton, reduceCtorEq, or_false,
      before_concat, false_and, Event.removed.injEq]
    constructor
    · rintro ⟨⟨hadded, hbefore, hother⟩, hdead⟩
      refine ⟨hadded, hbefore, fun b' dead hremoved => ?_⟩
      rcases hremoved with hremoved | ⟨rfl, rfl⟩
      · exact hother b' dead hremoved
      · exact hdead
    · rintro ⟨hadded, hbefore, hdead⟩
      exact ⟨⟨hadded, hbefore, fun b' dead hremoved => hdead b' dead (.inl hremoved)⟩,
        hdead b _ (.inr ⟨rfl, rfl⟩)⟩

theorem step (h : Coherent s) {a : Action C B} (hstep : Fires Manager.step s a t) : Coherent t := by
  cases step_change h.unlocked h.nobodyWaits hstep with
  | joins c j hold hnew => exact h.joins hold hnew
  | adds c hold => exact h.adds hold
  | discards c => exact h.discards c
  | skips b hold => exact h.skips hold
  | copies b message hold => exact h.copies hold
  | sends b c message clients hcast hold => exact h.sends hcast hold
  | ends b c v hold hnew => exact h.ends hold hnew
  | finishes b message clients hcast hended hdead => exact h.finishes hcast hended hdead
  | removes b message clients hcast hended => exact h.removes hcast hended

theorem run {as : List (Action C B)} (h : Run (Fires Manager.step) Manager.fresh as t) : Coherent t :=
  h.invariant (fun _ _ _ hs hstep => hs.step hstep) fresh

theorem sent_count (h : Coherent s) {b : B} {message : Text} {clients : Finset C}
    (hdone : s.casts b = .done (some (message, clients))) (c : C) (message' : Text) :
    s.log.count (.sent b c message') = if c ∈ clients ∧ message' = message then 1 else 0 := by
  have hsnapshot : (s.casts b).snapshot = some (message, clients) := by simp [hdone, Cast.snapshot]
  split_ifs with hsent
  · obtain ⟨hc, rfl⟩ := hsent
    have hended := h.answered b _ c hdone ((h.scheduled b c).mpr ⟨message', clients, hsnapshot, hc⟩)
    have hmem := (h.delivered b c message').mpr ⟨Send.begun_of_ended hended, clients, hsnapshot⟩
    exact le_antisymm (h.sentOnce b c message') (List.count_pos_iff.mpr hmem)
  · refine List.count_eq_zero_of_not_mem fun hmem => hsent ?_
    obtain ⟨hbegun, clients', hcopy⟩ := (h.delivered b c message').mp hmem
    have hnone : s.sends b c ≠ .none := fun hnone => by simp [hnone] at hbegun
    obtain ⟨message'', clients'', hcopy', hc⟩ := (h.scheduled b c).mp hnone
    simp only [hsnapshot, Option.some.injEq, Prod.mk.injEq] at hcopy hcopy'
    exact ⟨hcopy'.2 ▸ hc, hcopy.1.symm⟩

theorem notRemoved_iff (h : Coherent s) (hcasts : ∀ b, (s.casts b).suspended = false) (c : C) :
    (∀ b dead, .removed b dead ∈ s.log → c ∉ dead) ↔ ∀ b, s.sends b c ≠ .raised := by
  constructor
  · intro hdead b hraised
    have hcast := hcasts b
    cases hdone : s.casts b with
    | idle => simp [h.unscheduled hdone] at hraised
    | done snapshot =>
      obtain ⟨dead, hremoved, hc⟩ := h.buried b snapshot c hdone hraised
      exact hdead b dead hremoved hc
    | entering => simp [hdone, Cast.suspended] at hcast
    | sending => simp [hdone, Cast.suspended] at hcast
    | removing => simp [hdone, Cast.suspended] at hcast
  · intro hsends b dead hremoved hc
    exact hsends b ((h.removed b dead hremoved).2 c hc)

end Coherent

/-! ## Whole runs -/

def Settled (s : Manager C B) : Prop :=
  (∀ c, (s.joins c).suspended = false) ∧ (∀ b, (s.casts b).suspended = false) ∧ s.waiters = []

/-- A disconnect counts from behind the `add` of its client on: before it there is nothing to
discard. -/
theorem connections_settle {t : Manager C B} {as : List (Action C B)} (h : Run (Fires step) fresh as t) :
    (∀ b message clients, t.casts b = .done (some (message, clients)) →
      ∀ c message', t.log.count (.sent b c message') = if c ∈ clients ∧ message' = message then 1 else 0) ∧
    (t.Settled → ∀ c, c ∈ t.connections ↔
      .added c ∈ t.log ∧ ¬Before t.log (.added c) (.discarded c) ∧ ∀ b, t.sends b c ≠ .raised) ∧
    (∀ b c dead, Before t.log (.started b) (.added c) → .removed b dead ∈ t.log → c ∉ dead) := by
  have hcoherent := Coherent.run h
  refine ⟨fun b message clients hdone => hcoherent.sent_count hdone, fun hsettled c => ?_, ?_⟩
  · rw [hcoherent.members, hcoherent.notRemoved_iff hsettled.2.1]
  · intro b c dead hbefore hremoved hc
    have hraised := (hcoherent.removed b dead hremoved).2 c hc
    obtain ⟨message, clients, hsnapshot, hmem⟩ := (hcoherent.scheduled b c).mp (by simp [hraised])
    exact (hcoherent.copied b message clients hsnapshot c hmem).2 hbefore

/-- Two clients, of which the second connects while the send to the first is under way and fails. -/
def meanwhile : List (Action Bool Unit) :=
  [.connect false, .accept false false, .broadcast () (some "x".toList), .startSend () false, .connect true,
    .accept true false, .endSend () false true, .resume ()]

theorem meanwhile_settles : ∃ t : Manager Bool Unit, Run (Fires step) fresh meanwhile t ∧
    t.connections = {true} ∧ ∀ c, c ∈ t.connections ↔
      .added c ∈ t.log ∧ ¬Before t.log (.added c) (.discarded c) ∧ ∀ b, t.sends b c ≠ .raised := by
  have hrun := run_of_execute (Option.some_get (x := execute step fresh meanwhile) (by decide)).symm
  have hcasts : ∀ b, (((execute step fresh meanwhile).get (by decide)).casts b).suspended = false := by
    intro b
    cases b
    decide
  exact ⟨_, hrun, by decide, (connections_settle hrun).2.1 ⟨by decide, hcasts, by decide⟩⟩

end Manager
end PyFaaS.WsManager
