import PyFaaS.EphemeralRate
import PyFaaS.Platform

/-!
# The concurrency limit of ephemeral executions

A request counts the active executions of its key and inserts its own later, in
between of which the other requests of the key go on. The limit holds as long as
every insert still finds the key below it.
-/

namespace PyFaaS.EphemeralConcurrency
open EphemeralRate Runs

def activeStatuses : List ExecutionStatus := [.pending, .queued, .running]

def isActive (keyId : Uuid) (e : Execution) : Bool :=
  decide (e.apiKeyId = some keyId) && decide (e.executionType = .ephemeral) && decide (e.status ∈ activeStatuses)

def activeCount (keyId : Uuid) (db : ExecutionTable) : ℕ := (db.executions.filter (isActive keyId)).length

/-- The awaits of `execute_ephemeral` up to the commit of the new row; from there
on the request is one of the platform. -/
inductive LimitPhase where
  | incrementing (keyId : Uuid)
  | counting (keyId : Uuid)
  | inserting (keyId : Uuid)
  deriving DecidableEq

structure State (W Q : Type) where
  platform : Platform W Q
  requests : Q → Option LimitPhase

inductive Action (W Q : Type) where
  | begin (q : Q) (keyId : Uuid)
  | incr (q : Q) (count : ℕ)
  | count (q : Q)
  | insert (q : Q) (n : NewExecution)
  | abandon (q : Q)
  | platform (a : Platform.Action W Q)

variable {W Q : Type}

def initial : State W Q := ⟨.initial, fun _ => none⟩

variable [DecidableEq W] [DecidableEq Q]

def State.setRequest (s : State W Q) (q : Q) (phase : Option LimitPhase) : State W Q :=
  { s with requests := Function.update s.requests q phase }

/-- The other routes and the scheduler create executions of functions. -/
inductive Step (settings : EphemeralSettings) (s : State W Q) : Action W Q → State W Q → Prop where
  | begin {q : Q} {keyId : Uuid} (hq : s.requests q = none) :
      Step settings s (.begin q keyId) (s.setRequest q (some (.incrementing keyId)))
  /-- the answer of INCR, with that of EXPIRE behind a first one -/
  | incr {q : Q} {keyId : Uuid} {count : ℕ} (hq : s.requests q = some (.incrementing keyId)) :
      Step settings s (.incr q count)
        (s.setRequest q (if settings.ephemeralRateLimitPerMinute < count then none else some (.counting keyId)))
  | count {q : Q} {keyId : Uuid} (hq : s.requests q = some (.counting keyId)) :
      Step settings s (.count q)
        (s.setRequest q (if settings.ephemeralConcurrencyLimit ≤ activeCount keyId s.platform.db then none
          else some (.inserting keyId)))
  | insert {q : Q} {keyId : Uuid} {n : NewExecution} {p : Platform W Q}
      (hq : s.requests q = some (.inserting keyId)) (htype : n.executionType = .ephemeral)
      (hkey : n.apiKeyId = some keyId) (hstep : Platform.Step s.platform (.create q .ephemeral n) p) :
      Step settings s (.insert q n) { s.setRequest q none with platform := p }
  | abandon {q : Q} : Step settings s (.abandon q) (s.setRequest q none)
  | platform {a : Platform.Action W Q} {p : Platform W Q}
      (hother : ∀ q origin n, a = .create q origin n → n.executionType = .function)
      (hstep : Platform.Step s.platform a p) : Step settings s (.platform a) { s with platform := p }

def WithinLimit (settings : EphemeralSettings) (s : State W Q) : Prop :=
  ∀ keyId, activeCount keyId s.platform.db ≤ settings.ephemeralConcurrencyLimit

/-- The count that let the request through has not been used up at its insert. -/
def InsertsBelow (settings : EphemeralSettings) (s : State W Q) (p : Action W Q × State W Q) : Prop :=
  ∀ q n keyId, p.1 = .insert q n → n.apiKeyId = some keyId →
    activeCount keyId s.platform.db < settings.ephemeralConcurrencyLimit

variable {settings : EphemeralSettings} {s t : State W Q} {a : Action W Q} {keyId : Uuid}

/-! ## The count -/

theorem isActive_row (n : NewExecution) (keyId : Uuid) :
    isActive keyId n.row = (decide (n.apiKeyId = some keyId) && decide (n.executionType = .ephemeral)) :=
  Bool.and_true _

theorem isActive_of_after {edit : Edit} {e : Execution} (h : isActive keyId (edit.after e) = true) :
    isActive keyId e = true := by
  obtain ⟨-, -, -, -, hkey, htype, -⟩ := edit.after_sameRequest e
  simp only [isActive, Bool.and_eq_true, decide_eq_true_eq, activeStatuses, List.mem_cons,
    List.not_mem_nil, or_false] at h ⊢
  rw [hkey, htype] at h
  refine ⟨h.1, ?_⟩
  cases edit.after_moved e with
  | cancelled hedit hopen hstatus => simp [hstatus] at h
  | started hqueued hstatus hat => exact Or.inr (Or.inl hqueued)
  | ended hstatus => rcases hstatus with hstatus | hstatus | hstatus <;> simp [hstatus] at h
  | kept hstatus hat => exact hstatus ▸ h.2

theorem activeCount_insert (db : ExecutionTable) {e : Execution} (fresh : db.row e.id = none) (keyId : Uuid) :
    activeCount keyId (db.insert e fresh) = activeCount keyId db + (isActive keyId e).toNat := by
  rw [activeCount, ExecutionTable.insert, List.filter_append, List.length_append, List.filter_singleton]
  cases isActive keyId e <;> rfl

theorem activeCount_commit_le (db : ExecutionTable) (edit : Edit) (keyId : Uuid) :
    activeCount keyId (db.commit edit) ≤ activeCount keyId db := by
  rw [activeCount, ExecutionTable.commit, List.filter_map, List.length_map, activeCount]
  apply List.Sublist.length_le
  apply List.monotone_filter_right
  exact fun _ he => isActive_of_after he

/-! ## Steps -/

theorem Platform.Step.activeCount_le {p p' : Platform W Q} {a : Platform.Action W Q}
    (hother : ∀ q origin n, a = .create q origin n → n.executionType = .function)
    (h : Platform.Step p a p') (keyId : Uuid) : activeCount keyId p'.db ≤ activeCount keyId p.db := by
  rcases h.edits with hdb | ⟨q, origin, n, fresh, rfl, hdb⟩ | ⟨edit, hdb, -⟩
  · rw [hdb]
  · rw [hdb, activeCount_insert, isActive_row, hother q origin n rfl]
    simp
  · rw [hdb]
    exact activeCount_commit_le _ _ _

omit [DecidableEq W] [DecidableEq Q] in
theorem insertsBelow_of_ne (h : ∀ q n, a ≠ .insert q n) : InsertsBelow settings s (a, t) :=
  fun q n _ hinsert => absurd hinsert (h q n)

theorem withinLimit_iff (h : WithinLimit settings s) (hstep : Step settings s a t) :
    WithinLimit settings t ↔ InsertsBelow settings s (a, t) := by
  cases hstep with
  | begin hq => exact ⟨fun _ => insertsBelow_of_ne (by simp), fun _ => h⟩
  | incr hq => exact ⟨fun _ => insertsBelow_of_ne (by simp), fun _ => h⟩
  | count hq => exact ⟨fun _ => insertsBelow_of_ne (by simp), fun _ => h⟩
  | abandon => exact ⟨fun _ => insertsBelow_of_ne (by simp), fun _ => h⟩
  | platform hother hstep =>
    refine ⟨fun _ => insertsBelow_of_ne (by simp), fun _ keyId => ?_⟩
    exact (Platform.Step.activeCount_le hother hstep keyId).trans (h keyId)
  | @insert q keyId n p hq htype hkey hstep =>
    cases hstep with
    | create hnone fresh =>
      have hcount : ∀ k, activeCount k (s.platform.db.insert n.row fresh) =
          activeCount k s.platform.db + (decide (k = keyId)).toNat := by
        intro k
        rw [activeCount_insert, isActive_row, htype, hkey]
        simp [eq_comm]
      constructor
      · intro hwithin q' n' k hinsert hk
        obtain ⟨rfl, rfl⟩ := Action.insert.inj hinsert
        obtain rfl : keyId = k := Option.some.inj (hkey.symm.trans hk)
        have hnew := hwithin keyId
        change activeCount keyId (s.platform.db.insert n.row fresh) ≤ _ at hnew
        rw [hcount, decide_eq_true rfl] at hnew
        exact hnew
      · intro hbelow k
        change activeCount k (s.platform.db.insert n.row fresh) ≤ _
        rw [hcount]
        by_cases hk : k = keyId
        · subst hk
          rw [decide_eq_true rfl]
          exact hbelow q n k rfl hkey
        · simpa [hk] using h k

def sampleLimits : EphemeralSettings := ⟨fun id => (toString id).toList, 20, 1⟩

end PyFaaS.EphemeralConcurrency
