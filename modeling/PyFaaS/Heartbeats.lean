import PyFaaS.Dashboard
import PyFaaS.Entrypoints
import PyFaaS.Leases

/-!
# The heartbeats of the workers

`heartbeat` writes a key of the worker that lives for 90 seconds. The dashboard lists
the keys and then reads them one by one, and calls a worker stale whose time stamp
lies 120 seconds back.
-/

namespace PyFaaS.Heartbeats
open Dashboard (Health checkRunnerPool getOverview Readings)
open Leases (Store Recorded Write)
open Runs

/-! ## The writers -/

def keyPrefix : Text := "sopm:worker:".toList

def keySuffix : Text := ":heartbeat".toList

def heartbeatKey (workerId : Text) : Text := keyPrefix ++ workerId ++ keySuffix

def micros (seconds : ℤ) : ℤ := seconds * 1000000

def ttl : ℤ := micros 90

def wholeSeconds (clock : ℤ) : ℤ := clock / 1000000

def isWorkerKey (key : Text) : Bool :=
  keyPrefix.isPrefixOf key && keySuffix.isSuffixOf (key.drop keyPrefix.length)

/-- A worker reads its own clock, at most `skew` behind the clock of Redis. The
other keys of the platform are no heartbeats. -/
inductive Step (skew : ℤ) (s : Store Text ℤ) : Unit → Store Text ℤ → Prop
  | heartbeat (workerId : Text) (clock : ℤ) (hskew : s.now - skew ≤ clock) (hclock : micros 1 ≤ clock) :
      Step skew s () (s.apply (.set (heartbeatKey workerId) (wholeSeconds clock) ttl))
  | other (key : Text) (value : ℤ) (expiry : ℤ) (hkey : isWorkerKey key = false) :
      Step skew s () (s.apply (.set key value expiry))
  | advance (now : ℤ) (h : s.now ≤ now) : Step skew s () (s.apply (.advance now))

abbrev Reaches (skew : ℤ) (s t : Store Text ℤ) : Prop := ∃ steps, Run (Step skew) s steps t

def Beats (s : Store Text ℤ) (workerId : Text) : Prop :=
  ∃ w ∈ s.writes, w.key = heartbeatKey workerId ∧ s.now < w.at_ + ttl

/-! ## `get_worker_metrics` -/

inductive WorkerStatus where
  | online
  | stale
  deriving DecidableEq

/-- The age before `round(age_s, 1)`. -/
structure WorkerRow where
  workerId : Text
  lastHeartbeat : Option ℤ
  age : ℤ
  status : WorkerStatus
  deriving DecidableEq

structure WorkerMetrics where
  workers : List WorkerRow
  total : ℕ
  online : ℕ
  deriving DecidableEq

/-- What Redis and the clock answer; `none` where the client raises. -/
structure WorkerReadings where
  keys : Option (List Text)
  nowTs : ℤ
  values : List (Option (Option ℤ))

/-- One key of the loop. A decimal text is truthy; the index may raise. -/
def workerRow (nowTs : ℤ) (key : Text) (val : Option ℤ) : Option WorkerRow :=
  let workerId := if ':' ∈ key then (key.splitOn ':')[2]? else some key
  let lastSeen := val.getD 0
  let age := nowTs - micros lastSeen
  workerId.map fun workerId =>
    { workerId := workerId
      lastHeartbeat := if lastSeen = 0 then none else some lastSeen
      age := age
      status := if age < micros 120 then .online else .stale }

def workerRows (nowTs : ℤ) : List Text → List (Option (Option ℤ)) → Option (List WorkerRow)
  | [], _ => some []
  | _ :: _, [] | _ :: _, none :: _ => none
  | key :: keys, some val :: values => do
    let row ← workerRow nowTs key val
    let rows ← workerRows nowTs keys values
    return row :: rows

def getWorkerMetrics (r : WorkerReadings) : WorkerMetrics :=
  match r.keys.bind fun keys => workerRows r.nowTs keys r.values with
  | none => ⟨[], 0, 0⟩
  | some workers => ⟨workers, workers.length, workers.countP fun w => decide (w.status = .online)⟩

/-! ## The requests -/

/-- The reply to `KEYS`, in any order. -/
structure Lists (s : Store Text ℤ) (keys : List Text) : Prop where
  nodup : keys.Nodup
  live : ∀ key, key ∈ keys ↔ isWorkerKey key = true ∧ s.Live key

/-- The replies to one `GET` after another, with other commands between them. -/
inductive Reads (skew : ℤ) : Store Text ℤ → List Text → List (Option (Option ℤ)) → Prop
  | nil (s : Store Text ℤ) : Reads skew s [] []
  | cons {s t : Store Text ℤ} {key : Text} {keys : List Text} {values : List (Option (Option ℤ))} :
      Reaches skew s t → Reads skew t keys values → Reads skew s (key :: keys) (some (t.get key) :: values)

variable {skew nowTs : ℤ} {s t u : Store Text ℤ} {key workerId : Text} {keys : List Text}
  {values : List (Option (Option ℤ))}

/-! ## The keys -/

theorem isWorkerKey_iff : isWorkerKey key = true ↔ ∃ workerId, key = heartbeatKey workerId := by
  rw [isWorkerKey, Bool.and_eq_true, List.isPrefixOf_iff_prefix, List.isSuffixOf_iff_suffix]
  constructor
  · rintro ⟨⟨rest, rfl⟩, hsuffix⟩
    rw [List.drop_left] at hsuffix
    obtain ⟨workerId, rfl⟩ := hsuffix
    exact ⟨workerId, by rw [heartbeatKey, List.append_assoc]⟩
  · rintro ⟨workerId, rfl⟩
    rw [heartbeatKey, List.append_assoc, List.drop_left]
    exact ⟨List.prefix_append .., List.suffix_append ..⟩

theorem heartbeatKey_injective : Function.Injective heartbeatKey := fun _ _ h =>
  List.append_cancel_left (List.append_cancel_right h)

def shown (workerId : Text) : Text := workerId.takeWhile fun c => decide (c ≠ ':')

theorem splitOn_append (x y : Text) : (x ++ ':' :: y).splitOn ':' = x.splitOn ':' ++ y.splitOn ':' := by
  simp only [List.splitOn_eq_splitOnP]
  exact List.splitOnP_append_cons _ _ (beq_self_eq_true ':')

theorem splitOn_head (x : Text) (rest : List Text) : (x.splitOn ':' ++ rest)[0]? = some (shown x) := by
  induction x with
  | nil => rfl
  | cons c x ih =>
    by_cases hc : c = ':'
    · subst hc
      have hsplit := splitOn_append [] x
      rw [List.nil_append] at hsplit
      rw [hsplit]
      rfl
    · cases hsplit : x.splitOn ':' with
      | nil =>
        rw [List.splitOn_eq_splitOnP] at hsplit
        exact absurd hsplit (List.splitOnP_ne_nil _ _)
      | cons first others =>
        rw [hsplit] at ih
        have hfirst : first = shown x := by simpa using ih
        rw [List.splitOn_eq_splitOnP] at hsplit ⊢
        simp [List.splitOnP_cons_eq_if_modifyHead, hc, hsplit, hfirst, shown]

theorem heartbeatKey_parts : (heartbeatKey workerId).splitOn ':' =
    "sopm".toList :: "worker".toList :: (workerId.splitOn ':' ++ ["heartbeat".toList]) := by
  have hprefix : keyPrefix = "sopm".toList ++ ':' :: ("worker".toList ++ [':']) := rfl
  have hsuffix : keySuffix = ':' :: "heartbeat".toList := rfl
  rw [heartbeatKey, hprefix, hsuffix, List.append_assoc, List.append_assoc, List.cons_append, List.append_assoc,
    List.singleton_append, splitOn_append, splitOn_append, splitOn_append]
  rfl

theorem workerRow_eq (nowTs : ℤ) (workerId : Text) (val : Option ℤ) : workerRow nowTs (heartbeatKey workerId) val =
    some { workerId := shown workerId
           lastHeartbeat := if val.getD 0 = 0 then none else some (val.getD 0)
           age := nowTs - micros (val.getD 0)
           status := if nowTs - micros (val.getD 0) < micros 120 then .online else .stale } := by
  have hcolon : ':' ∈ heartbeatKey workerId := by
    rw [heartbeatKey]
    exact List.mem_append_right _ (by decide)
  have hthird : ((heartbeatKey workerId).splitOn ':')[2]? = some (shown workerId) := by
    rw [heartbeatKey_parts]
    exact splitOn_head workerId _
  simp only [workerRow, hcolon, if_true, hthird, Option.map_some]

/-! ## The time stamps -/

def Stamped (skew : ℤ) (s : Store Text ℤ) : Prop :=
  ∀ w ∈ s.writes, isWorkerKey w.key = true →
    w.ttl = ttl ∧ 1 ≤ w.value ∧ w.at_ - skew - micros 1 < micros w.value

theorem stamped_set {value : ℤ} {expiry : ℤ} (hs : Stamped skew s)
    (h : isWorkerKey key = true → expiry = ttl ∧ 1 ≤ value ∧ s.now - skew - micros 1 < micros value) :
    Stamped skew (s.apply (.set key value expiry)) := by
  intro w hw hkey
  rcases List.mem_cons.mp hw with rfl | hold
  · exact h hkey
  · exact hs w hold hkey

structure Kept (skew : ℤ) (s : Store Text ℤ) : Prop where
  recorded : Recorded s
  stamped : Stamped skew s

theorem Kept.step {a : Unit} (hs : Kept skew s) (h : Step skew s a t) : Kept skew t := by
  cases h with
  | heartbeat workerId clock hskew hclock =>
    refine ⟨hs.recorded.set _ _, stamped_set hs.stamped fun _ => ⟨rfl, ?_, ?_⟩⟩
    · simp only [wholeSeconds, micros] at hclock ⊢
      omega
    · simp only [wholeSeconds, micros] at hskew ⊢
      omega
  | other key value expiry hkey =>
    refine ⟨hs.recorded.set _ _, stamped_set hs.stamped fun hworker => ?_⟩
    rw [hkey] at hworker
    cases hworker
  | advance now hnow => exact ⟨hs.recorded.advance hnow, hs.stamped⟩

theorem Kept.run (hs : Kept skew s) (h : Reaches skew s t) : Kept skew t := by
  obtain ⟨steps, hrun⟩ := h
  exact hrun.invariant (fun _ _ _ hs hstep => hs.step hstep) hs

theorem Kept.empty (now : ℤ) : Kept skew (Store.empty now) :=
  ⟨Recorded.empty now, fun _ hw => absurd hw List.not_mem_nil⟩

theorem Kept.live_iff (hs : Kept skew s) : s.Live (heartbeatKey workerId) ↔ Beats s workerId := by
  refine Leases.live_iff hs.recorded fun w hw hkey => (hs.stamped w hw ?_).1
  rw [hkey]
  exact isWorkerKey_iff.mpr ⟨workerId, rfl⟩

theorem now_le (h : Reaches skew s t) : s.now ≤ t.now := by
  obtain ⟨steps, hrun⟩ := h
  refine hrun.compare (I := fun _ => True) (C := fun s t => s.now ≤ t.now) (fun _ => le_rfl)
    (fun _ _ _ => le_trans) (fun _ _ _ _ _ => trivial) (fun s a t _ hstep => ?_) trivial
  cases hstep with
  | heartbeat | other => exact le_rfl
  | advance now hnow => exact hnow

/-! ## The rows -/

/-- The row tells whether the key was still there for the `GET`, which came at or
behind the `KEYS`. -/
def Reports (skew : ℤ) (s : Store Text ℤ) (workerId : Text) (row : WorkerRow) : Prop :=
  row.workerId = shown workerId ∧ ∃ t, Reaches skew s t ∧
    (row.status = .online ∧ row.lastHeartbeat ≠ none ∧ Beats t workerId ∨
      row.status = .stale ∧ row.lastHeartbeat = none ∧ ¬ Beats t workerId)

theorem row_reports (workerId : Text) (hskew : 2 * skew ≤ micros 29) (hs : Kept skew s) (hread : Reaches skew s t)
    (hnow : nowTs ≤ s.now + skew) (hepoch : micros 120 ≤ nowTs) :
    ∃ row, workerRow nowTs (heartbeatKey workerId) (t.get (heartbeatKey workerId)) = some row ∧
      row.workerId = shown workerId ∧
      (row.status = .online ∧ row.lastHeartbeat ≠ none ∧ Beats t workerId ∨
        row.status = .stale ∧ row.lastHeartbeat = none ∧ ¬ Beats t workerId) := by
  have ht := hs.run hread
  refine ⟨_, workerRow_eq nowTs workerId _, rfl, ?_⟩
  cases hget : t.get (heartbeatKey workerId) with
  | none =>
    right
    have hstale : ¬ nowTs - micros 0 < micros 120 := by
      simp only [micros] at *
      omega
    refine ⟨by simp [hstale], by simp, fun hbeats => ?_⟩
    have hlive := ht.live_iff.mpr hbeats
    rw [Store.Live, hget] at hlive
    cases hlive
  | some value =>
    left
    obtain ⟨w, hw, hkey, rfl, hthere⟩ := Leases.get_some ht.recorded hget
    have hworker : isWorkerKey w.key = true := isWorkerKey_iff.mpr ⟨workerId, hkey⟩
    obtain ⟨httl, hpositive, hstamp⟩ := ht.stamped w hw hworker
    have hlater := now_le hread
    rw [httl] at hthere
    have honline : nowTs - micros w.value < micros 120 := by
      simp only [ttl, micros] at *
      omega
    have hne : w.value ≠ 0 := by omega
    exact ⟨by simp [honline], by simp [hne], w, hw, hkey, hthere⟩

theorem Reaches.trans (h : Reaches skew s t) (h' : Reaches skew t u) : Reaches skew s u := by
  obtain ⟨first, hfirst⟩ := h
  obtain ⟨later, hlater⟩ := h'
  exact ⟨first ++ later, hfirst.append hlater⟩

theorem rows_report (hskew : 2 * skew ≤ micros 29) (hs : Kept skew s) (hnow : nowTs ≤ s.now + skew)
    (hepoch : micros 120 ≤ nowTs) {ids : List Text} (hread : Reaches skew s t)
    (hreads : Reads skew t (ids.map heartbeatKey) values) :
    ∃ rows, workerRows nowTs (ids.map heartbeatKey) values = some rows ∧ List.Forall₂ (Reports skew s) ids rows := by
  induction ids generalizing t values with
  | nil => exact ⟨[], rfl, .nil⟩
  | cons workerId ids ih =>
    cases hreads with
    | cons hnext hrest =>
      have hlater := hread.trans hnext
      obtain ⟨row, hrow, hshown, hstatus⟩ := row_reports workerId hskew hs hlater hnow hepoch
      obtain ⟨rows, hrows, hall⟩ := ih hlater hrest
      refine ⟨row :: rows, ?_, .cons ⟨hshown, _, hlater, hstatus⟩ hall⟩
      simp [workerRows, hrow, hrows]

theorem exists_ids (h : ∀ key ∈ keys, isWorkerKey key = true) : ∃ ids : List Text, keys = ids.map heartbeatKey := by
  induction keys with
  | nil => exact ⟨[], rfl⟩
  | cons key keys ih =>
    obtain ⟨workerId, rfl⟩ := isWorkerKey_iff.mp (h key (List.mem_cons_self ..))
    obtain ⟨ids, rfl⟩ := ih fun k hk => h k (List.mem_cons_of_mem _ hk)
    exact ⟨workerId :: ids, rfl⟩

theorem listed_iff (hs : Kept skew s) {ids : List Text} (h : Lists s (ids.map heartbeatKey)) :
    ids.Nodup ∧ ∀ workerId, workerId ∈ ids ↔ Beats s workerId := by
  refine ⟨h.nodup.of_map _, fun workerId => ?_⟩
  have hmem : workerId ∈ ids ↔ heartbeatKey workerId ∈ ids.map heartbeatKey :=
    (List.mem_map_of_injective heartbeatKey_injective).symm
  rw [hmem, h.live, hs.live_iff]
  exact and_iff_right (isWorkerKey_iff.mpr ⟨workerId, rfl⟩)

/-- The dashboard counts the workers that wrote within the last 90 seconds, each once.
It shows each of them as online as long as its key is there for the `GET`, and as
stale, without a time stamp, only where the key has expired before. -/
theorem heartbeats_shown {start : ℤ} (db : Database) (r : Readings) (hskew : 2 * skew ≤ micros 29)
    (hs : Reaches skew (Store.empty start) s) (hkeys : Lists s keys) (hnow : nowTs ≤ t.now + skew)
    (hepoch : micros 120 ≤ nowTs) (hread : Reaches skew s t) (hreads : Reads skew t keys values) :
    ∃ ids : List Text, ids.Nodup ∧ (∀ workerId, workerId ∈ ids ↔ Beats s workerId) ∧
      List.Forall₂ (Reports skew t) ids (getWorkerMetrics ⟨some keys, nowTs, values⟩).workers ∧
      (getWorkerMetrics ⟨some keys, nowTs, values⟩).total = ids.length ∧
      (r.workerKeys = some keys → (getOverview r db).activeWorkers = ids.length) ∧
      (checkRunnerPool (some keys) = .healthy ↔ ∃ workerId, Beats s workerId) := by
  have hkept := (Kept.empty start).run hs
  obtain ⟨ids, rfl⟩ := exists_ids fun key hkey => ((hkeys.live key).mp hkey).1
  obtain ⟨hnodup, hmem⟩ := listed_iff hkept hkeys
  obtain ⟨rows, hrows, hall⟩ := rows_report hskew (hkept.run hread) hnow hepoch ⟨[], .nil t⟩ hreads
  have hmetrics : (getWorkerMetrics ⟨some (ids.map heartbeatKey), nowTs, values⟩).workers = rows ∧
      (getWorkerMetrics ⟨some (ids.map heartbeatKey), nowTs, values⟩).total = rows.length := by
    simp [getWorkerMetrics, hrows]
  rw [hmetrics.1, hmetrics.2]
  refine ⟨ids, hnodup, hmem, hall, hall.length_eq.symm, fun hr => ?_, ?_⟩
  · simp [getOverview, hr]
  · simp only [← hmem, checkRunnerPool, List.length_map]
    cases ids <;> simp

/-! ## A sample -/

def sampleWorker : Text := "a1b2-0".toList

def beaten : Store Text ℤ := (Store.empty (micros 1000)).apply (.set (heartbeatKey sampleWorker) 1000 ttl)

theorem beaten_reached : Reaches 0 (Store.empty (micros 1000)) beaten :=
  ⟨_, .single (.heartbeat sampleWorker (micros 1000) (by decide) (by decide))⟩

theorem beaten_lists : Lists beaten [heartbeatKey sampleWorker] := by
  refine ⟨List.nodup_singleton _, fun key => ?_⟩
  rw [List.mem_singleton]
  by_cases hkey : key = heartbeatKey sampleWorker
  · subst hkey
    refine iff_of_true rfl ⟨isWorkerKey_iff.mpr ⟨sampleWorker, rfl⟩, ?_⟩
    simp [Store.Live, Store.get, beaten, Store.apply, Store.empty, ttl, micros]
  · refine iff_of_false hkey fun hlive => ?_
    simp [Store.Live, Store.get, beaten, Store.apply, Store.empty, hkey] at hlive

theorem heartbeats_shown_sample : ∃ ids : List Text, ids.Nodup ∧ (∀ workerId, workerId ∈ ids ↔ Beats beaten workerId) ∧
    List.Forall₂ (Reports 0 beaten) ids (getWorkerMetrics ⟨some [heartbeatKey sampleWorker], micros 1000,
      [some (beaten.get (heartbeatKey sampleWorker))]⟩).workers ∧
    (getWorkerMetrics ⟨some [heartbeatKey sampleWorker], micros 1000,
      [some (beaten.get (heartbeatKey sampleWorker))]⟩).total = ids.length ∧
    ((⟨0, 0, 0, 0, none, some [heartbeatKey sampleWorker], none, true, true⟩ : Readings).workerKeys =
        some [heartbeatKey sampleWorker] →
      (getOverview ⟨0, 0, 0, 0, none, some [heartbeatKey sampleWorker], none, true, true⟩
        Database.empty).activeWorkers = ids.length) ∧
    (checkRunnerPool (some [heartbeatKey sampleWorker]) = .healthy ↔ ∃ workerId, Beats beaten workerId) :=
  heartbeats_shown Database.empty ⟨0, 0, 0, 0, none, some [heartbeatKey sampleWorker], none, true, true⟩ (by decide)
    beaten_reached beaten_lists (by decide) (by decide) ⟨[], .nil beaten⟩ (.cons ⟨[], .nil beaten⟩ (.nil beaten))

end PyFaaS.Heartbeats
