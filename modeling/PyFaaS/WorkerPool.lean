import PyFaaS.AckJob
import PyFaaS.Fleet
import PyFaaS.JobDequeue
import PyFaaS.Runs

/-!
# The worker processes: polling, the signal and the end

`run_workers` starts the loops of `Worker.run` and waits for the signal, which sets
the event of every worker. A loop looks at it between two polls only. Every command
to Redis may raise with or without effect, and the client library sends one again
behind a time-out. An acknowledgement reads the processing set page by page. A
cancelled task stops at its next step. The heartbeat and recovery tasks beside the
loops are left out.
-/

namespace PyFaaS.WorkerPool
open AckJob (Names)
open JobDequeue (Store)
open Runs

inductive Reply where
  | ok
  | resent (executed : Bool)
  | raised (executed : Bool)

def Reply.executed : Reply → Bool
  | .ok => true
  | .resent executed | .raised executed => executed

/-- The attempts that `redis_retry` makes behind this one, and how often the command
in hand may be sent again. -/
structure Budget where
  attempts : ℕ
  sends : ℕ
  deriving DecidableEq

inductive Phase where
  | created
  | checking
  | popping (left : Budget)
  | inserting (left : Budget) (job : Text) (score : ℚ)
  | counting (left : Budget) (job : Json)
  | processing (job : Json)
  | scanning (left : Budget) (jobId : Text) (unseen : ℕ)
  | removing (left : Budget) (jobId member : Text)
  | sleeping
  | stopped
  deriving DecidableEq

inductive Action where
  | start
  | check
  | bzpopmin (reply : Reply)
  | zadd (reply : Reply)
  | zcard (reply : Reply)
  | finish (raises : Bool)
  | zscan (page : List Text) (last : Bool) (reply : Reply)
  | zrem (reply : Reply)
  | wake

/-- The two sets, with the members that were acknowledged, those given up between the
pop and a confirmed insert, and the jobs whose processing has returned. -/
structure Shared where
  store : Store Text
  acked : List Text
  dropped : List Text
  returned : List Text

/-! ## One worker

A command is sent again `sends` times at most, and a scan of the processing set has
at most `pages` pages behind its first. -/

section
variable (sends pages : ℕ)

def Budget.full : Budget := ⟨2, sends⟩

/-- The decorated call begins again, or raises and `run` sleeps. -/
def again (left : Budget) (restart : Budget → Phase) : Phase :=
  match left.attempts with
  | 0 => .sleeping
  | attempts + 1 => restart ⟨attempts, sends⟩

def command (left : Budget) (reply : Reply) (same restart : Budget → Phase) (next : Phase) : Option Phase :=
  match reply with
  | .ok => some next
  | .raised _ => some (again sends left restart)
  | .resent _ =>
    match left.sends with
    | 0 => none
    | k + 1 => some (same ⟨left.attempts, k⟩)

variable (codec : JsonCodec)

/-- `json.loads` behind the insert. The member `null` reads as no job. -/
def loaded (left : Budget) (job : Text) : Phase :=
  match codec.loads job with
  | .error _ => again sends left .popping
  | .ok .null => .checking
  | .ok data => .counting (.full sends) data

def scanned (left : Budget) (jobId : Text) (unseen : ℕ) (page : List Text) (last : Bool) : Phase :=
  match page.findSome? fun m => AckJob.examine codec jobId (m, 0) with
  | some (.ok m) => .removing ⟨left.attempts, sends⟩ jobId m
  | some (.error _) => again sends left (.scanning · jobId pages)
  | none => if last then .checking else .scanning ⟨left.attempts, sends⟩ jobId (unseen - 1)

/-- Where the step leaves the loop. A pop is answered by what the queue holds then. -/
def advance (shutdown : Bool) (popped : Option (Text × ℚ)) : Phase → Action → Option Phase
  | .created, .start => some .checking
  | .checking, .check => some (if shutdown then .stopped else .popping (.full sends))
  | .popping left, .bzpopmin reply =>
    command sends left reply .popping .popping
      (match popped with
      | none => .checking
      | some (job, score) => .inserting ⟨left.attempts, sends⟩ job score)
  | .inserting left job score, .zadd reply =>
    command sends left reply (.inserting · job score) .popping (loaded sends codec left job)
  | .counting left job, .zcard reply =>
    command sends left reply (.counting · job) (.counting · job) (.processing job)
  | .processing _, .finish true => some .sleeping
  | .processing job, .finish false =>
    -- any other id has made `uuid.UUID` raise
    match job.get? "job_id".toList with
    | some (.str jobId) => some (.scanning (.full sends) jobId pages)
    | _ => none
  | .scanning left jobId unseen, .zscan page last reply =>
    if last = false ∧ unseen = 0 then none
    else command sends left reply (.scanning · jobId unseen) (.scanning · jobId pages)
      (scanned sends pages codec left jobId unseen page last)
  | .removing left jobId member, .zrem reply =>
    command sends left reply (.removing · jobId member) (.scanning · jobId pages) .checking
  | .sleeping, .wake => some .checking
  | _, _ => none

end

/-! ## What a step does to the two sets -/

def Shared.pop (s : Shared) (reply : Reply) : Shared :=
  match s.store.queue.popMin with
  | none => s
  | some ((job, _), rest) =>
    { s with
      store := { s.store with queue := rest }
      dropped := match reply with
        | .ok => s.dropped
        | _ => job :: s.dropped }

def Shared.track (s : Shared) (job : Text) (score : ℚ) : Shared :=
  { s with store := { s.store with processing := s.store.processing.add job score } }

def Shared.drop (s : Shared) (job : Text) : Shared := { s with dropped := job :: s.dropped }

def Shared.ack (s : Shared) (m : Text) : Shared :=
  { s with
    store := { s.store with processing := s.store.processing.remove m }
    acked := m :: s.acked }

def Shared.enqueue (s : Shared) (job : Text) (score : ℚ) : Shared :=
  { s with store := { s.store with queue := s.store.queue.add job score } }

def Shared.return (s : Shared) (job : Json) : Shared :=
  match job.get? "job_id".toList with
  | some (.str jobId) => { s with returned := jobId :: s.returned }
  | _ => s

/-- The member in hand is given up when its insert raises without effect. -/
def effect (s : Shared) : Phase → Action → Shared
  | .popping _, .bzpopmin reply => if reply.executed then s.pop reply else s
  | .inserting _ job score, .zadd reply =>
    match reply with
    | .ok | .resent true | .raised true => s.track job score
    | .resent false => s
    | .raised false => s.drop job
  | .processing job, .finish false => s.return job
  | .removing _ _ m, .zrem reply => if reply.executed then s.ack m else s
  | _, _ => s

/-- What a cancelled task leaves behind: a command with an effect that it does not
learn, and nothing (`wake`) where it is in no such command. -/
def Phase.abandons : Phase → Action → Bool
  | .popping _, .bzpopmin (.raised _) => true
  | .inserting _ _ _, .zadd (.raised _) => true
  | .removing _ _ _, .zrem (.raised _) => true
  | .popping _, _ | .inserting _ _ _, _ | .removing _ _ _, _ | .stopped, _ => false
  | _, .wake => true
  | _, _ => false

def workerStep (sends pages : ℕ) (codec : JsonCodec) (shutdown : Bool) (c : Phase × Shared) (a : Action) :
    Option (Phase × Shared) :=
  (advance sends pages codec shutdown (c.2.store.queue.popMin.map Prod.fst) c.1 a).map fun p => (p, effect c.2 c.1 a)

/-! ## The pool -/

inductive Main where
  | waiting
  | gathering
  | cancelling
  | ended
  deriving DecidableEq

structure Pool (n : ℕ) where
  shared : Shared
  phase : Fin n → Phase
  shutdown : Bool
  main : Main
  workerActive : ℤ

inductive Event (n : ℕ) where
  | enqueue (job : Text) (score : ℚ)
  | worker (w : Fin n) (a : Action)
  | cancelled (w : Fin n) (a : Action)
  | signal
  | gather
  | timeout
  | finish

def Phase.active : Phase → ℕ
  | .created | .stopped => 0
  | _ => 1

section
variable {n : ℕ}

def Pool.launched (n : ℕ) (store : Store Text) : Pool n where
  shared := ⟨store, [], [], []⟩
  phase _ := .created
  shutdown := false
  main := .waiting
  workerActive := 0

def Pool.move (s : Pool n) (w : Fin n) (phase : Phase) (shared : Shared) : Pool n :=
  { s with
    shared := shared
    phase := Function.update s.phase w phase
    workerActive := s.workerActive + phase.active - (s.phase w).active }

def Pool.allStopped (s : Pool n) : Bool := decide (∀ w, s.phase w = .stopped)

variable (sends pages : ℕ) (codec : JsonCodec)

def step (s : Pool n) : Event n → Option (Pool n)
  | .enqueue job score => some { s with shared := s.shared.enqueue job score }
  | .worker w a =>
    if s.main = .cancelling then none
    else (workerStep sends pages codec s.shutdown (s.phase w, s.shared) a).map fun c => s.move w c.1 c.2
  | .cancelled w a =>
    if s.main = .cancelling ∧ (s.phase w).abandons a then
      some (s.move w .stopped (effect s.shared (s.phase w) a))
    else none
  | .signal => some { s with shutdown := true }
  | .gather => if s.main = .waiting ∧ s.shutdown then some { s with main := .gathering } else none
  | .timeout => if s.main = .gathering then some { s with main := .cancelling } else none
  | .finish =>
    if (s.main = .gathering ∨ s.main = .cancelling) ∧ s.allStopped then some { s with main := .ended } else none

def Launched (n : ℕ) (s : Pool n) : Prop := ∃ store, s = Pool.launched n store

abbrev Reaches (s : Pool n) : Prop := Reachable (Fires (step sends pages codec)) (Launched n) s

end

variable {n : ℕ} {sends pages : ℕ} {codec : JsonCodec} {shutdown : Bool} {popped : Option (Text × ℚ)} {left : Budget}
  {p p' : Phase} {a : Action} {reply : Reply} {same restart : Budget → Phase} {next : Phase}

/-! ## One command -/

theorem command_cases (h : command sends left reply same restart next = some p') :
    (reply = .ok ∧ p' = next) ∨
    (∃ executed k, reply = .resent executed ∧ left.sends = k + 1 ∧ p' = same ⟨left.attempts, k⟩) ∨
    (∃ executed, reply = .raised executed ∧ p' = again sends left restart) := by
  cases reply with
  | ok => exact Or.inl ⟨rfl, (Option.some.inj h).symm⟩
  | raised executed => exact Or.inr (Or.inr ⟨executed, rfl, (Option.some.inj h).symm⟩)
  | resent executed =>
    cases hsends : left.sends with
    | zero => simp [command, hsends] at h
    | succ k =>
      simp only [command, hsends, Option.some.injEq] at h
      exact Or.inr (Or.inl ⟨executed, k, rfl, rfl, h.symm⟩)

theorem again_spec {P : Phase → Prop} (hsleep : P .sleeping)
    (hrestart : ∀ attempts, left.attempts = attempts + 1 → P (restart ⟨attempts, sends⟩)) :
    P (again sends left restart) := by
  cases hleft : left.attempts with
  | zero => simpa [again, hleft] using hsleep
  | succ attempts => simpa [again, hleft] using hrestart attempts hleft

theorem command_spec {P : Reply → Phase → Prop} (h : command sends left reply same restart next = some p')
    (hnext : P .ok next) (hsame : ∀ executed k, left.sends = k + 1 → P (.resent executed) (same ⟨left.attempts, k⟩))
    (hsleep : ∀ executed, P (.raised executed) .sleeping)
    (hrestart : ∀ executed k, left.attempts = k + 1 → P (.raised executed) (restart ⟨k, sends⟩)) : P reply p' := by
  rcases command_cases h with ⟨rfl, rfl⟩ | ⟨executed, k, rfl, hk, rfl⟩ | ⟨executed, rfl, rfl⟩
  · exact hnext
  · exact hsame executed k hk
  · exact again_spec (hsleep executed) (hrestart executed)

theorem loaded_spec {P : Phase → Prop} {job : Text} (hcheck : P .checking)
    (hcount : ∀ data, P (.counting (.full sends) data)) (hsleep : P .sleeping)
    (hrestart : ∀ k, left.attempts = k + 1 → P (.popping ⟨k, sends⟩)) : P (loaded sends codec left job) := by
  unfold loaded
  split
  · exact again_spec hsleep hrestart
  · exact hcheck
  · exact hcount _

theorem scanned_spec {P : Phase → Prop} {jobId : Text} {unseen : ℕ} {page : List Text} {last : Bool}
    (hremove : ∀ m, Names codec jobId m → P (.removing ⟨left.attempts, sends⟩ jobId m)) (hsleep : P .sleeping)
    (hrestart : ∀ k, left.attempts = k + 1 → P (.scanning ⟨k, sends⟩ jobId pages)) (hcheck : P .checking)
    (hmore : last = false → P (.scanning ⟨left.attempts, sends⟩ jobId (unseen - 1))) :
    P (scanned sends pages codec left jobId unseen page last) := by
  unfold scanned
  split
  · next m hfound =>
    obtain ⟨m', -, hexamine⟩ := List.exists_of_findSome?_eq_some hfound
    obtain ⟨rfl, hnames⟩ := AckJob.examine_ok_iff.mp hexamine
    exact hremove _ hnames
  · exact again_spec hsleep hrestart
  · cases last with
    | true => exact hcheck
    | false => exact hmore rfl

/-! ## An attempt without interference -/

def ofCommand : JobDequeue.Command → Reply
  | .ok => .ok
  | .raisesBefore _ => .raised false
  | .raisesAfter _ => .raised true

def loads (codec : JsonCodec) (x : Text) : Except Text Json :=
  match codec.loads x with
  | .ok data => .ok data
  | .error .decodeError => .error "JSONDecodeError".toList
  | .error (.raised exc) => .error exc

def dequeued (sends : ℕ) (left : Budget) : Except Text (Option Json) → Phase
  | .error _ => again sends left .popping
  | .ok none | .ok (some .null) => .checking
  | .ok (some data) => .counting (.full sends) data

theorem loaded_eq {job : Text} : loaded sends codec ⟨left.attempts, sends⟩ job =
    dequeued sends left ((loads codec job).map some) := by
  unfold loaded loads
  cases hloads : codec.loads job with
  | error err => cases err <;> rfl
  | ok data => cases data <;> rfl

/-- The two models compare members by the order and by equality. -/
theorem tracked_store {s : Shared} {job : Text} {score : ℚ} : (s.track job score).store =
    ⟨s.store.queue, @ScoredSet.add Text ℚ instDecidableEq_mathlib s.store.processing job score⟩ := by
  unfold Shared.track
  congr!

/-- The commands of one worker, with no other step between them, are the attempt. -/
theorem attempt_runs (f : JobDequeue.Faults) (left : Budget) (s : Shared) :
    ∃ actions c, execute (workerStep sends pages codec shutdown) (.popping left, s) actions = some c ∧
      c.1 = dequeued sends left (JobDequeue.attempt (loads codec) f s.store).1 ∧
      c.2.store = (JobDequeue.attempt (loads codec) f s.store).2 := by
  cases hbzpopmin : f.bzpopmin with
  | raisesBefore exc =>
    refine ⟨[.bzpopmin (.raised false)], (again sends left .popping, s), rfl, ?_, ?_⟩
    · cases hpop : s.store.queue.popMin <;> simp only [JobDequeue.attempt, hbzpopmin, hpop, dequeued]
    · cases hpop : s.store.queue.popMin <;> simp only [JobDequeue.attempt, hbzpopmin, hpop]
  | raisesAfter exc =>
    refine ⟨[.bzpopmin (.raised true)], (again sends left .popping, s.pop (.raised true)), rfl, ?_, ?_⟩
    · cases hpop : s.store.queue.popMin <;> simp only [JobDequeue.attempt, hbzpopmin, hpop, dequeued]
    · cases hpop : s.store.queue.popMin <;> simp only [JobDequeue.attempt, hbzpopmin, hpop, Shared.pop]
  | ok =>
    cases hpop : s.store.queue.popMin with
    | none =>
      refine ⟨[.bzpopmin .ok], (.checking, s), ?_, ?_, ?_⟩
      · simp [execute, workerStep, advance, command, hpop, effect, Reply.executed, Shared.pop]
      · simp only [JobDequeue.attempt, hbzpopmin, hpop, dequeued]
      · simp only [JobDequeue.attempt, hbzpopmin, hpop]
    | some popped =>
      obtain ⟨⟨job, score⟩, rest⟩ := popped
      have hpopped : s.pop .ok = { s with store := { s.store with queue := rest } } := by
        simp only [Shared.pop, hpop]
      have htake : workerStep sends pages codec shutdown (.popping left, s) (.bzpopmin .ok) =
          some (.inserting ⟨left.attempts, sends⟩ job score, s.pop .ok) := by
        simp [workerStep, advance, command, hpop, effect, Reply.executed]
      refine ⟨[.bzpopmin .ok, .zadd (ofCommand f.zadd)], ?_⟩
      simp only [execute, htake, Option.bind_some, hpopped]
      cases hzadd : f.zadd with
      | ok =>
        refine ⟨_, rfl, ?_, ?_⟩
        · simp only [JobDequeue.attempt, hbzpopmin, hpop, hzadd]
          exact loaded_eq
        · simp only [JobDequeue.attempt, hbzpopmin, hpop, hzadd]
          exact tracked_store
      | raisesBefore exc =>
        refine ⟨_, rfl, ?_, ?_⟩
        · simp only [JobDequeue.attempt, hbzpopmin, hpop, hzadd]
          rfl
        · simp only [JobDequeue.attempt, hbzpopmin, hpop, hzadd]
          rfl
      | raisesAfter exc =>
        refine ⟨_, rfl, ?_, ?_⟩
        · simp only [JobDequeue.attempt, hbzpopmin, hpop, hzadd]
          rfl
        · simp only [JobDequeue.attempt, hbzpopmin, hpop, hzadd]
          exact tracked_store

/-! ## An acknowledgement without interference -/

section
variable {jobId : Text} {unseen : ℕ} {page : List AckJob.Entry} {last : Bool} {s : Shared}

def acknowledged (sends pages : ℕ) (left : Budget) (jobId : Text) : Except Text Unit → Phase
  | .ok () => .checking
  | .error _ => again sends left (.scanning · jobId pages)

theorem scanned_eq : scanned sends pages codec left jobId unseen (page.map Prod.fst) last =
    match page.findSome? (AckJob.examine codec jobId) with
    | some (.ok m) => .removing ⟨left.attempts, sends⟩ jobId m
    | some (.error _) => again sends left (.scanning · jobId pages)
    | none => if last then .checking else .scanning ⟨left.attempts, sends⟩ jobId (unseen - 1) := by
  rw [scanned, List.findSome?_map]
  rfl

theorem page_runs {r : Except Text Text} (hfound : page.findSome? (AckJob.examine codec jobId) = some r)
    (left : Budget) :
    ∃ actions c, execute (workerStep sends pages codec shutdown) (.scanning left jobId unseen, s) actions = some c ∧
      c.1 = acknowledged sends pages left jobId (AckJob.conclude s.store.processing (some r)).1 ∧
      c.2.store.processing = (AckJob.conclude s.store.processing (some r)).2 := by
  have hread : workerStep sends pages codec shutdown (.scanning left jobId unseen, s)
      (.zscan (page.map Prod.fst) true .ok) =
        some (scanned sends pages codec left jobId unseen (page.map Prod.fst) true, s) := by
    simp [workerStep, advance, command, effect]
  rw [scanned_eq, hfound] at hread
  cases r with
  | error exc =>
    refine ⟨[.zscan (page.map Prod.fst) true .ok], (again sends left (.scanning · jobId pages), s), ?_, rfl, rfl⟩
    rw [execute, hread]
    rfl
  | ok m =>
    refine ⟨[.zscan (page.map Prod.fst) true .ok, .zrem .ok], (.checking, s.ack m), ?_, rfl, rfl⟩
    rw [execute, hread]
    rfl

theorem ack_runs {zscan : CursorScan.Server AckJob.Entry} {call cursor : ℕ} {scan : List (List AckJob.Entry)}
    (h : CursorScan.Pages zscan call cursor scan) (left : Budget) (hunseen : scan.length ≤ unseen + 1) :
    ∃ actions c, execute (workerStep sends pages codec shutdown) (.scanning left jobId unseen, s) actions = some c ∧
      c.1 = acknowledged sends pages left jobId
        (AckJob.conclude s.store.processing (scan.flatten.findSome? (AckJob.examine codec jobId))).1 ∧
      c.2.store.processing =
        (AckJob.conclude s.store.processing (scan.flatten.findSome? (AckJob.examine codec jobId))).2 := by
  induction h generalizing left unseen with
  | @last call cursor page h =>
    rw [List.flatten_singleton]
    cases hfound : page.findSome? (AckJob.examine codec jobId) with
    | some r => exact page_runs hfound left
    | none =>
      refine ⟨[.zscan (page.map Prod.fst) true .ok], (.checking, s), ?_, rfl, rfl⟩
      simp [execute, workerStep, advance, command, effect, scanned_eq, hfound]
  | @more call cursor next page scan h hnext hrest ih =>
    rw [List.flatten_cons, List.findSome?_append]
    cases hfound : page.findSome? (AckJob.examine codec jobId) with
    | some r => exact page_runs hfound left
    | none =>
      -- a scan with a page behind this one has at least two
      have hpositive : scan ≠ [] := by cases hrest <;> simp
      obtain ⟨k, rfl⟩ : ∃ k, unseen = k + 1 := Nat.exists_eq_succ_of_ne_zero fun hzero => by
        rw [hzero, List.length_cons] at hunseen
        exact hpositive (List.length_eq_zero_iff.mp (by omega))
      rw [List.length_cons] at hunseen
      have hrestLength : scan.length ≤ k + 1 := by omega
      obtain ⟨actions, c, hruns, hphase, hstore⟩ :=
        ih ⟨left.attempts, sends⟩ hrestLength
      have hread : workerStep sends pages codec shutdown (.scanning left jobId (k + 1), s)
          (.zscan (page.map Prod.fst) false .ok) = some (.scanning ⟨left.attempts, sends⟩ jobId k, s) := by
        simp [workerStep, advance, command, effect, scanned_eq, hfound]
      refine ⟨.zscan (page.map Prod.fst) false .ok :: actions, c, ?_, hphase, hstore⟩
      rw [execute, hread, Option.bind_some, hruns]

end

/-! ## How far a worker goes on behind the signal -/

def ackRound (sends pages : ℕ) : ℕ := pages * (sends + 1) + 2 * (sends + 1)

def Phase.rank (sends pages : ℕ) : Phase → ℕ
  | .stopped => 0
  | .checking => 1
  | .created | .sleeping => 2
  | .removing left _ _ => left.attempts * ackRound sends pages + left.sends + 3
  | .scanning left _ unseen =>
    left.attempts * ackRound sends pages + unseen * (sends + 1) + left.sends + (sends + 1) + 3
  | .processing _ => 3 * ackRound sends pages + 3
  | .counting left _ => left.attempts * (sends + 1) + left.sends + 3 * ackRound sends pages + 4
  | .inserting left _ _ =>
    left.attempts * (2 * (sends + 1)) + left.sends + 3 * (sends + 1) + 3 * ackRound sends pages + 4
  | .popping left => left.attempts * (2 * (sends + 1)) + left.sends + 4 * (sends + 1) + 3 * ackRound sends pages + 4

def Action.begins : Action → ℕ
  | .zcard .ok => 1
  | _ => 0

def Action.takes : Action → ℕ
  | .bzpopmin reply => reply.executed.toNat
  | _ => 0

def Phase.ahead : Phase → ℕ
  | .popping _ | .inserting _ _ _ | .counting _ _ => 1
  | _ => 0

def Phase.pops (sends : ℕ) : Phase → ℕ
  | .popping left => left.attempts * (sends + 1) + left.sends + 1
  | .inserting left _ _ => left.attempts * (sends + 1)
  | _ => 0

structure Pays (sends pages : ℕ) (p : Phase) (a : Action) (p' : Phase) : Prop where
  rank : p'.rank sends pages < p.rank sends pages
  begins : a.begins + p'.ahead ≤ p.ahead
  takes : a.takes + p'.pops sends ≤ p.pops sends

theorem pays_idle (hrank : p'.rank sends pages < p.rank sends pages) (hbegins : a.begins = 0) (htakes : a.takes = 0)
    (hahead : p'.ahead = 0) (hpops : p'.pops sends = 0) : Pays sends pages p a p' :=
  ⟨hrank, by omega, by omega⟩

theorem rank_pos (h : p ≠ .stopped) : 0 < p.rank sends pages := by
  cases p with
  | stopped => exact absurd rfl h
  | _ =>
    simp only [Phase.rank]
    omega

theorem scanned_pays {jobId : Text} {unseen : ℕ} {page : List Text} {last : Bool}
    (hlast : ¬(last = false ∧ unseen = 0)) : Pays sends pages (.scanning left jobId unseen) (.zscan page last .ok)
      (scanned sends pages codec left jobId unseen page last) := by
  refine scanned_spec (P := Pays sends pages _ _) (fun m _ => ?_) ?_ (fun k hk => ?_) ?_ fun hmore => ?_
  · exact pays_idle (by simp only [Phase.rank]; omega) rfl rfl rfl rfl
  · exact pays_idle (by simp only [Phase.rank]; omega) rfl rfl rfl rfl
  · refine pays_idle ?_ rfl rfl rfl rfl
    simp only [Phase.rank, hk, Nat.succ_mul, ackRound]
    omega
  · exact pays_idle (by simp only [Phase.rank]; omega) rfl rfl rfl rfl
  · refine pays_idle ?_ rfl rfl rfl rfl
    obtain ⟨k, rfl⟩ : ∃ k, unseen = k + 1 := Nat.exists_eq_succ_of_ne_zero fun hzero => hlast ⟨hmore, hzero⟩
    simp only [Phase.rank, Nat.add_sub_cancel, Nat.succ_mul]
    omega

theorem advance_pays (h : advance sends pages codec true popped p a = some p') : Pays sends pages p a p' := by
  have hexecuted : ∀ r : Reply, r.executed.toNat ≤ 1 := fun r => r.executed.toNat_le
  unfold advance at h
  split at h
  · cases h
    exact pays_idle (by simp [Phase.rank]) rfl rfl rfl rfl
  · cases h
    exact pays_idle (by simp [Phase.rank]) rfl rfl rfl rfl
  · refine command_spec (P := fun r q => Pays sends pages _ (.bzpopmin r) q) h ?_ ?_ ?_ ?_
    · have hok := hexecuted .ok
      split <;> constructor <;> simp only [Phase.rank, Action.begins, Phase.ahead, Action.takes, Phase.pops] <;> omega
    · intro executed k hk
      have hsent := hexecuted (.resent executed)
      constructor <;> simp only [Phase.rank, Action.begins, Phase.ahead, Action.takes, Phase.pops] <;> omega
    · intro executed
      have hraised := hexecuted (.raised executed)
      constructor <;> simp only [Phase.rank, Action.begins, Phase.ahead, Action.takes, Phase.pops] <;> omega
    · intro executed k hk
      have hraised := hexecuted (.raised executed)
      constructor <;> simp only [Phase.rank, Action.begins, Phase.ahead, Action.takes, Phase.pops, hk,
        Nat.succ_mul] <;> omega
  · refine command_spec (P := fun r q => Pays sends pages _ (.zadd r) q) h (loaded_spec ?_ ?_ ?_ ?_) ?_ ?_ ?_ <;>
      intros <;> constructor <;> simp only [*, Phase.rank, Budget.full, Action.begins, Phase.ahead, Action.takes,
        Phase.pops, Nat.succ_mul] <;> omega
  · refine command_spec (P := fun r q => Pays sends pages _ (.zcard r) q) h ?_ ?_ ?_ ?_ <;> intros <;>
      constructor <;> simp only [*, Phase.rank, Action.begins, Phase.ahead, Action.takes, Phase.pops,
        Nat.succ_mul] <;> omega
  · cases h
    exact pays_idle (by simp only [Phase.rank]; omega) rfl rfl rfl rfl
  · split at h
    · cases h
      exact pays_idle (by simp only [Phase.rank, Budget.full, ackRound]; omega) rfl rfl rfl rfl
    · cases h
  · split_ifs at h with hlast
    refine command_spec (P := fun r q => Pays sends pages _ (.zscan _ _ r) q) h (scanned_pays hlast) ?_ ?_ ?_ <;>
      intros <;> constructor <;> simp only [*, Phase.rank, Action.begins, Phase.ahead, Action.takes, Phase.pops,
        Nat.succ_mul, ackRound] <;> omega
  · refine command_spec (P := fun r q => Pays sends pages _ (.zrem r) q) h ?_ ?_ ?_ ?_ <;> intros <;>
      constructor <;> simp only [*, Phase.rank, Action.begins, Phase.ahead, Action.takes, Phase.pops,
        Nat.succ_mul, ackRound] <;> omega
  · cases h
    exact pays_idle (by simp [Phase.rank]) rfl rfl rfl rfl
  · cases h

theorem abandons_cases (h : p.abandons a = true) :
    (∃ left executed, p = .popping left ∧ a = .bzpopmin (.raised executed)) ∨
    (∃ left job score executed, p = .inserting left job score ∧ a = .zadd (.raised executed)) ∨
    (∃ left jobId m executed, p = .removing left jobId m ∧ a = .zrem (.raised executed)) ∨
    (a = .wake ∧ p ≠ .stopped ∧ ∀ left job score, p ≠ .inserting left job score) := by
  unfold Phase.abandons at h
  split at h
  · next left executed => exact Or.inl ⟨left, executed, rfl, rfl⟩
  · next left job score executed => exact Or.inr (Or.inl ⟨left, job, score, executed, rfl, rfl⟩)
  · next left jobId m executed => exact Or.inr (Or.inr (Or.inl ⟨left, jobId, m, executed, rfl, rfl⟩))
  · cases h
  · cases h
  · cases h
  · cases h
  · next hinserting _ hstopped => exact Or.inr (Or.inr (Or.inr ⟨rfl, hstopped, hinserting⟩))
  · cases h

theorem abandons_pays (h : p.abandons a = true) : Pays sends pages p a .stopped := by
  rcases abandons_cases h with ⟨left, executed, rfl, rfl⟩ | ⟨left, job, score, executed, rfl, rfl⟩ |
    ⟨left, jobId, m, executed, rfl, rfl⟩ | ⟨rfl, hstopped, -⟩
  · have hone := executed.toNat_le
    constructor <;> simp only [Phase.rank, Action.begins, Phase.ahead, Action.takes, Phase.pops, Reply.executed] <;>
      omega
  · constructor <;> simp only [Phase.rank, Action.begins, Phase.ahead, Action.takes, Phase.pops] <;> omega
  · exact pays_idle (by simp only [Phase.rank]; omega) rfl rfl rfl rfl
  · exact pays_idle (rank_pos hstopped) rfl rfl rfl rfl

/-! ## The attempts that are left -/

def Budget.Within (sends : ℕ) (left : Budget) : Prop := left.attempts ≤ 2 ∧ left.sends ≤ sends

def Phase.Within (sends pages : ℕ) : Phase → Prop
  | .popping left | .inserting left _ _ | .counting left _ | .removing left _ _ => left.Within sends
  | .scanning left _ unseen => left.Within sends ∧ unseen ≤ pages
  | _ => True

theorem Budget.full_within : (Budget.full sends).Within sends := ⟨le_rfl, le_rfl⟩

theorem Budget.Within.sent {k : ℕ} (h : left.Within sends) (hk : left.sends = k + 1) :
    Budget.Within sends ⟨left.attempts, k⟩ := ⟨h.1, by have := h.2; simp only; omega⟩

theorem Budget.Within.tried {k : ℕ} (h : left.Within sends) (hk : left.attempts = k + 1) :
    Budget.Within sends ⟨k, sends⟩ := ⟨by have := h.1; simp only; omega, le_rfl⟩

theorem advance_within (hp : p.Within sends pages) (h : advance sends pages codec shutdown popped p a = some p') :
    p'.Within sends pages := by
  unfold advance at h
  split at h
  · cases h
    trivial
  · cases h
    split
    · trivial
    · exact Budget.full_within
  · refine command_spec (P := fun _ q => q.Within sends pages) h ?_ ?_ (fun _ => trivial) ?_
    · split
      · trivial
      · exact ⟨hp.1, le_rfl⟩
    · exact fun _ _ hk => hp.sent hk
    · exact fun _ _ hk => hp.tried hk
  · refine command_spec (P := fun _ q => q.Within sends pages) h ?_ ?_ (fun _ => trivial) ?_
    · exact loaded_spec (P := fun q => q.Within sends pages) trivial (fun _ => Budget.full_within) trivial
        fun _ hk => hp.tried hk
    · exact fun _ _ hk => hp.sent hk
    · exact fun _ _ hk => hp.tried hk
  · exact command_spec (P := fun _ q => q.Within sends pages) h trivial (fun _ _ hk => hp.sent hk) (fun _ => trivial)
      fun _ _ hk => hp.tried hk
  · cases h
    trivial
  · split at h
    · cases h
      exact ⟨Budget.full_within, le_rfl⟩
    · cases h
  · split_ifs at h
    obtain ⟨hleft, hunseen⟩ := hp
    refine command_spec (P := fun _ q => q.Within sends pages) h ?_ ?_ (fun _ => trivial) ?_
    · refine scanned_spec (P := fun q => q.Within sends pages) ?_ trivial ?_ trivial ?_
      · exact fun _ _ => ⟨hleft.1, le_rfl⟩
      · exact fun _ hk => ⟨hleft.tried hk, le_rfl⟩
      · exact fun _ => ⟨⟨hleft.1, le_rfl⟩, (Nat.sub_le _ _).trans hunseen⟩
    · exact fun _ _ hk => ⟨hleft.sent hk, hunseen⟩
    · exact fun _ _ hk => ⟨hleft.tried hk, le_rfl⟩
  · exact command_spec (P := fun _ q => q.Within sends pages) h trivial (fun _ _ hk => hp.sent hk) (fun _ => trivial)
      fun _ _ hk => ⟨hp.tried hk, le_rfl⟩
  · cases h
    trivial
  · cases h

def workerBound (sends pages : ℕ) : ℕ := (3 * pages + 15) * (sends + 1) + 3

theorem rank_le (h : p.Within sends pages) : p.rank sends pages ≤ workerBound sends pages := by
  have hround : ∀ left : Budget, left.Within sends → left.attempts * (sends + 1) ≤ 2 * (sends + 1) ∧
      left.attempts * (2 * (sends + 1)) ≤ 2 * (2 * (sends + 1)) ∧
        left.attempts * ackRound sends pages ≤ 2 * ackRound sends pages ∧ left.sends ≤ sends :=
    fun left hleft => ⟨Nat.mul_le_mul_right _ hleft.1, Nat.mul_le_mul_right _ hleft.1,
      Nat.mul_le_mul_right _ hleft.1, hleft.2⟩
  have hbound : workerBound sends pages = 3 * ackRound sends pages + 9 * (sends + 1) + 3 := by
    rw [workerBound, ackRound, Nat.add_mul, Nat.mul_assoc]
    omega
  have hack : ackRound sends pages = pages * (sends + 1) + 2 * (sends + 1) := rfl
  cases p with
  | popping left | inserting left _ _ | counting left _ | removing left _ _ =>
    obtain ⟨hone, htwo, hthree, hsends⟩ := hround left h
    simp only [Phase.rank]
    omega
  | scanning left _ unseen =>
    obtain ⟨hleft, hunseen⟩ := h
    obtain ⟨-, -, hthree, hsends⟩ := hround left hleft
    have hpages : unseen * (sends + 1) ≤ pages * (sends + 1) := Nat.mul_le_mul_right _ hunseen
    simp only [Phase.rank]
    omega
  | _ =>
    simp only [Phase.rank]
    omega

theorem pops_le (h : p.Within sends pages) : p.pops sends ≤ 3 * (sends + 1) := by
  have hround : ∀ left : Budget, left.Within sends → left.attempts * (sends + 1) ≤ 2 * (sends + 1) ∧
      left.sends ≤ sends := fun left hleft => ⟨Nat.mul_le_mul_right _ hleft.1, hleft.2⟩
  cases p with
  | popping left | inserting left _ _ =>
    obtain ⟨hone, hsends⟩ := hround left h
    simp only [Phase.pops]
    omega
  | _ => simp [Phase.pops]

/-! ## A worker is never stuck -/

theorem advance_enabled (sends pages : ℕ) (codec : JsonCodec) (shutdown : Bool) (popped : Option (Text × ℚ))
    (h : p ≠ .stopped) : ∃ a p', advance sends pages codec shutdown popped p a = some p' := by
  cases p with
  | created => exact ⟨.start, _, rfl⟩
  | checking => exact ⟨.check, _, rfl⟩
  | popping left => exact ⟨.bzpopmin .ok, _, rfl⟩
  | inserting left job score => exact ⟨.zadd .ok, _, rfl⟩
  | counting left job => exact ⟨.zcard .ok, _, rfl⟩
  | processing job => exact ⟨.finish true, _, rfl⟩
  | scanning left jobId unseen => exact ⟨.zscan [] true .ok, _, rfl⟩
  | removing left jobId m => exact ⟨.zrem .ok, _, rfl⟩
  | sleeping => exact ⟨.wake, _, rfl⟩
  | stopped => exact absurd rfl h

theorem abandons_enabled (h : p ≠ .stopped) : ∃ a, p.abandons a = true := by
  cases p with
  | popping left => exact ⟨.bzpopmin (.raised true), rfl⟩
  | inserting left job score => exact ⟨.zadd (.raised true), rfl⟩
  | removing left jobId m => exact ⟨.zrem (.raised true), rfl⟩
  | stopped => exact absurd rfl h
  | _ => exact ⟨.wake, rfl⟩

/-- A worker leaves its loop at the check only, and only once the signal is there. -/
theorem advance_goes (h : advance sends pages codec false popped p a = some p') : p' ≠ .stopped := by
  unfold advance at h
  split at h
  · cases h
    simp
  · cases h
    simp
  · refine command_spec (P := fun _ q => q ≠ .stopped) h ?_ (by simp) (by simp) (by simp)
    split <;> simp
  · exact command_spec (P := fun _ q => q ≠ .stopped) h
      (loaded_spec (P := fun q => q ≠ .stopped) (by simp) (by simp) (by simp) (by simp)) (by simp) (by simp) (by simp)
  · exact command_spec (P := fun _ q => q ≠ .stopped) h (by simp) (by simp) (by simp) (by simp)
  · cases h
    simp
  · split at h
    · cases h
      simp
    · cases h
  · split_ifs at h
    exact command_spec (P := fun _ q => q ≠ .stopped) h
      (scanned_spec (P := fun q => q ≠ .stopped) (by simp) (by simp) (by simp) (by simp) (by simp)) (by simp) (by simp)
      (by simp)
  · exact command_spec (P := fun _ q => q ≠ .stopped) h (by simp) (by simp) (by simp) (by simp)
  · cases h
    simp
  · cases h

/-! ## The pool -/

section
variable {s t : Pool n} {w : Fin n} {e : Event n}

theorem step_worker (h : step sends pages codec s (.worker w a) = some t) : s.main ≠ .cancelling ∧
    ∃ p', advance sends pages codec s.shutdown (s.shared.store.queue.popMin.map Prod.fst) (s.phase w) a = some p' ∧
      t = s.move w p' (effect s.shared (s.phase w) a) := by
  simp only [step] at h
  split_ifs at h with hmain
  obtain ⟨c, hc, ht⟩ := Option.map_eq_some_iff.mp h
  obtain ⟨p', hp', rfl⟩ := Option.map_eq_some_iff.mp hc
  exact ⟨hmain, p', hp', ht.symm⟩

theorem step_cancelled (h : step sends pages codec s (.cancelled w a) = some t) : s.main = .cancelling ∧
    (s.phase w).abandons a = true ∧ t = s.move w .stopped (effect s.shared (s.phase w) a) := by
  simp only [step] at h
  split_ifs at h with hcond
  exact ⟨hcond.1, hcond.2, (Option.some.inj h).symm⟩

structure Coherent (sends pages : ℕ) (s : Pool n) : Prop where
  within : ∀ w, (s.phase w).Within sends pages
  gauge : s.workerActive = Fleet.total Phase.active s.phase
  signalled : s.shutdown = false → s.main = .waiting ∧ ∀ w, s.phase w ≠ .stopped
  ended : s.main = .ended → ∀ w, s.phase w = .stopped

theorem Coherent.launched (store : Store Text) : Coherent sends pages (Pool.launched n store) := by
  constructor
  · exact fun w => trivial
  · have hnone : Fleet.total Phase.active (Pool.launched n store).phase = 0 := Fleet.total_zero fun w => rfl
    rw [hnone]
    rfl
  · intro _
    exact ⟨rfl, fun w => by simp [Pool.launched]⟩
  · intro h
    cases h

theorem move_gauge {shared : Shared} (h : s.workerActive = Fleet.total Phase.active s.phase) :
    (s.move w p' shared).workerActive = Fleet.total Phase.active (s.move w p' shared).phase := by
  have hsum := Fleet.total_update Phase.active s.phase w p'
  simp only [Pool.move, h]
  omega

theorem Coherent.step (hs : Coherent sends pages s) (h : Fires (step sends pages codec) s e t) :
    Coherent sends pages t := by
  cases e with
  | enqueue job score =>
    obtain rfl := Option.some.inj h
    exact ⟨hs.within, hs.gauge, hs.signalled, hs.ended⟩
  | signal =>
    obtain rfl := Option.some.inj h
    exact ⟨hs.within, hs.gauge, fun hfalse => absurd hfalse (by simp), hs.ended⟩
  | worker w a =>
    obtain ⟨hmain, p', hp', rfl⟩ := step_worker h
    refine ⟨Fleet.forall_update hs.within (advance_within (hs.within w) hp'), move_gauge hs.gauge, ?_, ?_⟩
    · intro hshutdown
      obtain ⟨hwaiting, hrunning⟩ := hs.signalled hshutdown
      have hfalse : s.shutdown = false := hshutdown
      rw [hfalse] at hp'
      exact ⟨hwaiting, Fleet.forall_update (P := fun q => q ≠ Phase.stopped) hrunning (advance_goes hp')⟩
    · intro hended
      have hstopped := hs.ended hended w
      rw [hstopped] at hp'
      cases hp'
  | cancelled w a =>
    obtain ⟨hmain, ha, rfl⟩ := step_cancelled h
    refine ⟨Fleet.forall_update hs.within trivial, move_gauge hs.gauge, ?_, ?_⟩
    · intro hshutdown
      have hwaiting := (hs.signalled hshutdown).1
      rw [hmain] at hwaiting
      cases hwaiting
    · intro hended
      exact Fleet.forall_update (P := fun q => q = Phase.stopped) (hs.ended hended) rfl
  | gather =>
    simp only [Fires, WorkerPool.step] at h
    split_ifs at h with hcond
    obtain rfl := Option.some.inj h
    refine ⟨hs.within, hs.gauge, fun hfalse => ?_, fun hended => by cases hended⟩
    rw [hcond.2] at hfalse
    cases hfalse
  | timeout =>
    simp only [Fires, WorkerPool.step] at h
    split_ifs at h with hcond
    obtain rfl := Option.some.inj h
    refine ⟨hs.within, hs.gauge, fun hfalse => ?_, fun hended => by cases hended⟩
    have hwaiting := (hs.signalled hfalse).1
    rw [hcond] at hwaiting
    cases hwaiting
  | finish =>
    simp only [Fires, WorkerPool.step] at h
    split_ifs at h with hcond
    obtain rfl := Option.some.inj h
    refine ⟨hs.within, hs.gauge, fun hfalse => ?_, fun _ => of_decide_eq_true hcond.2⟩
    have hwaiting := (hs.signalled hfalse).1
    rw [hwaiting] at hcond
    exact absurd hcond.1 (by simp)

theorem coherent (h : Reaches sends pages codec s) : Coherent sends pages s := by
  refine Reachable.invariant ?_ (fun _ _ _ hs hstep => hs.step hstep) h
  rintro s ⟨store, rfl⟩
  exact Coherent.launched store

/-! ## The end behind the signal -/

def Event.own : Event n → ℕ
  | .enqueue _ _ | .signal => 0
  | _ => 1

def Main.rank : Main → ℕ
  | .waiting => 3
  | .gathering => 2
  | .cancelling => 1
  | .ended => 0

def Pool.rank (sends pages : ℕ) (s : Pool n) : ℕ := Fleet.total (Phase.rank sends pages) s.phase + s.main.rank

theorem shutdown_stays (hs : s.shutdown = true) (h : Fires (step sends pages codec) s e t) : t.shutdown = true := by
  cases e with
  | enqueue job score =>
    obtain rfl := Option.some.inj h
    exact hs
  | signal =>
    obtain rfl := Option.some.inj h
    rfl
  | worker w a =>
    obtain ⟨-, p', -, rfl⟩ := step_worker h
    exact hs
  | cancelled w a =>
    obtain ⟨-, a, -, rfl⟩ := step_cancelled h
    exact hs
  | gather | timeout | finish =>
    simp only [Fires, step] at h
    split_ifs at h
    obtain rfl := Option.some.inj h
    exact hs

theorem move_rank {shared : Shared} (h : p'.rank sends pages < (s.phase w).rank sends pages) :
    1 + (s.move w p' shared).rank sends pages ≤ s.rank sends pages := by
  have hsum := Fleet.total_update (Phase.rank sends pages) s.phase w p'
  simp only [Pool.rank, Pool.move]
  omega

theorem step_pays (hs : s.shutdown = true) (h : Fires (step sends pages codec) s e t) :
    e.own + t.rank sends pages ≤ s.rank sends pages := by
  cases e with
  | enqueue job score =>
    obtain rfl := Option.some.inj h
    simp [Event.own, Pool.rank]
  | signal =>
    obtain rfl := Option.some.inj h
    simp [Event.own, Pool.rank]
  | worker w a =>
    obtain ⟨-, p', hp', rfl⟩ := step_worker h
    rw [hs] at hp'
    exact move_rank (advance_pays hp').rank
  | cancelled w a =>
    obtain ⟨-, ha, rfl⟩ := step_cancelled h
    exact move_rank (abandons_pays ha).rank
  | gather | timeout =>
    simp only [Fires, step] at h
    split_ifs at h with hcond
    obtain rfl := Option.some.inj h
    simp only [Event.own, Pool.rank, hcond, Main.rank]
    omega
  | finish =>
    simp only [Fires, step] at h
    split_ifs at h with hcond
    obtain rfl := Option.some.inj h
    rcases hcond.1 with hmain | hmain <;> simp only [Event.own, Pool.rank, hmain, Main.rank] <;> omega

theorem rank_le_of_coherent (h : Coherent sends pages s) : s.rank sends pages ≤ n * workerBound sends pages + 3 := by
  have hworkers := Fleet.total_le fun w => rank_le (h.within w)
  have hmain : s.main.rank ≤ 3 := by
    cases s.main <;> simp [Main.rank]
  unfold Pool.rank
  omega

theorem own_enabled (sends pages : ℕ) (codec : JsonCodec) (hs : s.shutdown = true) (hmain : s.main ≠ .ended) :
    ∃ e, e.own = 1 ∧ ∃ t, Fires (step sends pages codec) s e t := by
  by_cases hall : ∀ w, s.phase w = .stopped
  · have hstopped : s.allStopped = true := decide_eq_true hall
    cases hphase : s.main with
    | waiting => exact ⟨.gather, rfl, _, if_pos ⟨hphase, hs⟩⟩
    | gathering => exact ⟨.finish, rfl, _, if_pos ⟨Or.inl hphase, hstopped⟩⟩
    | cancelling => exact ⟨.finish, rfl, _, if_pos ⟨Or.inr hphase, hstopped⟩⟩
    | ended => exact absurd hphase hmain
  · obtain ⟨w, hw⟩ := not_forall.mp hall
    by_cases hcancelling : s.main = .cancelling
    · obtain ⟨a, ha⟩ := abandons_enabled hw
      refine ⟨.cancelled w a, rfl, s.move w .stopped (effect s.shared (s.phase w) a), ?_⟩
      simp only [Fires, step, hcancelling, ha, and_self, if_true]
    · obtain ⟨a, p', hp'⟩ := advance_enabled sends pages codec s.shutdown (s.shared.store.queue.popMin.map Prod.fst) hw
      refine ⟨.worker w a, rfl, s.move w p' (effect s.shared (s.phase w) a), ?_⟩
      simp only [Fires, step, workerStep, hcancelling, hp', if_false, Option.map_some]

/-- Behind the signal the pool takes boundedly many steps, whatever fails, and comes
to rest only at the end, with every loop left and the gauge at zero. -/
theorem pool_drains (sends pages : ℕ) (codec : JsonCodec) {s t : Pool n} {events : List (Event n)}
    (hs : Reaches sends pages codec s) (hsignal : s.shutdown = true)
    (hrun : Run (Fires (step sends pages codec)) s events t) :
    (events.map Event.own).sum ≤ n * workerBound sends pages + 3 ∧
      ((∀ e u, Fires (step sends pages codec) t e u → e.own = 0) →
        t.main = .ended ∧ (∀ w, t.phase w = .stopped) ∧ t.workerActive = 0) := by
  have hcoherent := coherent hs
  have hpaid : (events.map Event.own).sum + t.rank sends pages ≤ s.rank sends pages :=
    hrun.cost_le (I := fun s => s.shutdown = true) (fun _ _ _ hs hstep => shutdown_stays hs hstep)
      (fun _ _ _ hs hstep => step_pays hs hstep) hsignal
  have hbound := rank_le_of_coherent hcoherent
  constructor
  · omega
  · intro hrest
    have hshutdown : t.shutdown = true :=
      hrun.invariant (I := fun s => s.shutdown = true) (fun _ _ _ hs hstep => shutdown_stays hs hstep) hsignal
    have hend := hrun.invariant (I := Coherent sends pages) (fun _ _ _ hs hstep => hs.step hstep) hcoherent
    have hmain : t.main = .ended := by
      by_contra hmain
      obtain ⟨e, hown, u, hfires⟩ := own_enabled sends pages codec hshutdown hmain
      have hzero := hrest e u hfires
      omega
    have hstopped := hend.ended hmain
    refine ⟨hmain, hstopped, ?_⟩
    rw [hend.gauge, Fleet.total_zero fun w => by rw [hstopped w]; rfl]
    rfl

def Event.begins (w : Fin n) : Event n → ℕ
  | .worker v a | .cancelled v a => if v = w then a.begins else 0
  | _ => 0

/-- A cancelled task may leave a pop behind that takes a member. -/
def Event.takes (w : Fin n) : Event n → ℕ
  | .worker v a | .cancelled v a => if v = w then a.takes else 0
  | _ => 0

theorem move_pays (shared : Shared) {v : Fin n} (hp : Pays sends pages (s.phase v) a p') :
    (if v = w then a.begins else 0) + ((s.move v p' shared).phase w).ahead ≤ (s.phase w).ahead ∧
      (if v = w then a.takes else 0) + ((s.move v p' shared).phase w).pops sends ≤ (s.phase w).pops sends := by
  by_cases hv : v = w
  · subst hv
    have hphase : (s.move v p' shared).phase v = p' := Function.update_self ..
    rw [hphase, if_pos rfl, if_pos rfl]
    exact ⟨hp.begins, hp.takes⟩
  · have hphase : (s.move v p' shared).phase w = s.phase w := Function.update_of_ne (Ne.symm hv) ..
    rw [hphase, if_neg hv, if_neg hv]
    omega

theorem worker_pays (hs : s.shutdown = true) (h : Fires (step sends pages codec) s e t) :
    e.begins w + (t.phase w).ahead ≤ (s.phase w).ahead ∧
      e.takes w + (t.phase w).pops sends ≤ (s.phase w).pops sends := by
  cases e with
  | enqueue job score =>
    obtain rfl := Option.some.inj h
    simp [Event.begins, Event.takes]
  | signal =>
    obtain rfl := Option.some.inj h
    simp [Event.begins, Event.takes]
  | worker v a =>
    obtain ⟨-, p', hp', rfl⟩ := step_worker h
    rw [hs] at hp'
    exact move_pays _ (advance_pays hp')
  | cancelled v a =>
    obtain ⟨-, ha, rfl⟩ := step_cancelled h
    have hpaid : Pays sends pages (s.phase v) a .stopped := abandons_pays ha
    exact move_pays _ hpaid
  | gather | timeout | finish =>
    simp only [Fires, step] at h
    split_ifs at h
    obtain rfl := Option.some.inj h
    simp [Event.begins, Event.takes]

/-- No failure makes a worker leave its loop. Behind the signal it begins one more job
at most, and only where it is already on its way to one. -/
theorem worker_leaves (sends pages : ℕ) (codec : JsonCodec) {s t : Pool n} {events : List (Event n)}
    (hs : Reaches sends pages codec s) (hrun : Run (Fires (step sends pages codec)) s events t) (w : Fin n) :
    (t.shutdown = false → t.phase w ≠ .stopped) ∧
      (s.shutdown = true → (events.map (Event.begins w)).sum ≤ (s.phase w).ahead ∧
        (events.map (Event.takes w)).sum ≤ 3 * (sends + 1)) := by
  have hcoherent := coherent hs
  have hend := hrun.invariant (I := Coherent sends pages) (fun _ _ _ hs hstep => hs.step hstep) hcoherent
  refine ⟨fun hfalse => (hend.signalled hfalse).2 w, fun hsignal => ?_⟩
  have hbegins : (events.map (Event.begins w)).sum + (t.phase w).ahead ≤ (s.phase w).ahead :=
    hrun.cost_le (I := fun s => s.shutdown = true) (V := fun s => (s.phase w).ahead)
      (fun _ _ _ hs hstep => shutdown_stays hs hstep) (fun _ _ _ hs hstep => (worker_pays hs hstep).1) hsignal
  have htakes : (events.map (Event.takes w)).sum + (t.phase w).pops sends ≤ (s.phase w).pops sends :=
    hrun.cost_le (I := fun s => s.shutdown = true) (V := fun s => (s.phase w).pops sends)
      (fun _ _ _ hs hstep => shutdown_stays hs hstep) (fun _ _ _ hs hstep => (worker_pays hs hstep).2) hsignal
  have hpops := pops_le (hcoherent.within w)
  omega

end

/-! ## Where a member is -/

def Phase.hand : Phase → Option Text
  | .inserting _ job _ => some job
  | _ => none

def Shared.Accounts (s : Shared) (m : Text) : Prop :=
  s.store.queue.Holds m ∨ s.store.processing.Holds m ∨ m ∈ s.acked ∨ m ∈ s.dropped

section
variable {s : Shared} {m job : Text} {score : ℚ}

theorem accounts_pop (reply : Reply) (h : s.Accounts m) :
    (s.pop reply).Accounts m ∨ reply = .ok ∧ ∃ score rest, s.store.queue.popMin = some ((m, score), rest) := by
  unfold Shared.pop
  cases hpop : s.store.queue.popMin with
  | none => exact Or.inl h
  | some popped =>
    obtain ⟨⟨job, score⟩, rest⟩ := popped
    rcases h with hqueue | hprocessing | hacked | hdropped
    · by_cases hm : m = job
      · subst hm
        cases reply with
        | ok => exact Or.inr ⟨rfl, score, rest, rfl⟩
        | resent executed | raised executed => exact Or.inl (Or.inr (Or.inr (Or.inr (List.mem_cons_self ..))))
      · exact Or.inl (Or.inl ((ScoredSet.holds_popMin hpop).mpr ⟨hm, hqueue⟩))
    · exact Or.inl (Or.inr (Or.inl hprocessing))
    · exact Or.inl (Or.inr (Or.inr (Or.inl hacked)))
    · refine Or.inl (Or.inr (Or.inr (Or.inr ?_)))
      cases reply with
      | ok => exact hdropped
      | resent executed | raised executed => exact List.mem_cons_of_mem _ hdropped

theorem accounts_lost (executed : Bool) (h : s.Accounts m) : (s.pop (.raised executed)).Accounts m :=
  (accounts_pop _ h).resolve_right (by simp)

theorem accounts_resent (executed : Bool) (h : s.Accounts m) : (s.pop (.resent executed)).Accounts m :=
  (accounts_pop _ h).resolve_right (by simp)

theorem accounts_track (h : s.Accounts m ∨ m = job) : (s.track job score).Accounts m := by
  rcases h with (hqueue | hprocessing | hacked | hdropped) | rfl
  · exact Or.inl hqueue
  · exact Or.inr (Or.inl (ScoredSet.holds_add.mpr (Or.inr hprocessing)))
  · exact Or.inr (Or.inr (Or.inl hacked))
  · exact Or.inr (Or.inr (Or.inr hdropped))
  · exact Or.inr (Or.inl (ScoredSet.holds_add.mpr (Or.inl rfl)))

theorem accounts_drop (h : s.Accounts m ∨ m = job) : (s.drop job).Accounts m := by
  rcases h with (hqueue | hprocessing | hacked | hdropped) | rfl
  · exact Or.inl hqueue
  · exact Or.inr (Or.inl hprocessing)
  · exact Or.inr (Or.inr (Or.inl hacked))
  · exact Or.inr (Or.inr (Or.inr (List.mem_cons_of_mem _ hdropped)))
  · exact Or.inr (Or.inr (Or.inr (List.mem_cons_self ..)))

theorem accounts_ack {n : Text} (h : s.Accounts m) : (s.ack n).Accounts m := by
  rcases h with hqueue | hprocessing | hacked | hdropped
  · exact Or.inl hqueue
  · by_cases hm : m = n
    · subst hm
      exact Or.inr (Or.inr (Or.inl (List.mem_cons_self ..)))
    · exact Or.inr (Or.inl (ScoredSet.holds_remove.mpr ⟨hm, hprocessing⟩))
  · exact Or.inr (Or.inr (Or.inl (List.mem_cons_of_mem _ hacked)))
  · exact Or.inr (Or.inr (Or.inr hdropped))

theorem accounts_return {data : Json} (h : s.Accounts m) : (s.return data).Accounts m := by
  unfold Shared.return
  split
  · exact h
  · exact h

theorem effect_accounts (h : advance sends pages codec shutdown (s.store.queue.popMin.map Prod.fst) p a = some p')
    (hm : s.Accounts m ∨ p.hand = some m) : (effect s p a).Accounts m ∨ p'.hand = some m := by
  unfold advance at h
  split at h
  · exact Or.inl (hm.resolve_right (by simp [Phase.hand]))
  · exact Or.inl (hm.resolve_right (by simp [Phase.hand]))
  · have hheld := hm.resolve_right (by simp [Phase.hand])
    rcases command_cases h with ⟨rfl, rfl⟩ | ⟨executed, k, rfl, -, rfl⟩ | ⟨executed, rfl, rfl⟩
    · rcases accounts_pop .ok hheld with hkept | ⟨-, score, rest, hpop⟩
      · exact Or.inl hkept
      · rw [hpop]
        exact Or.inr rfl
    · left
      cases executed with
      | false => exact hheld
      | true => exact accounts_resent true hheld
    · left
      cases executed with
      | false => exact hheld
      | true => exact accounts_lost true hheld
  · next job score reply =>
    have hheld : s.Accounts m ∨ m = job := hm.imp_right fun hhand => (Option.some.inj hhand).symm
    rcases command_cases h with ⟨rfl, rfl⟩ | ⟨executed, k, rfl, -, rfl⟩ | ⟨executed, rfl, rfl⟩
    · exact Or.inl (accounts_track hheld)
    · cases executed with
      | false => exact hm
      | true => exact Or.inl (accounts_track hheld)
    · cases executed with
      | false => exact Or.inl (accounts_drop hheld)
      | true => exact Or.inl (accounts_track hheld)
  · exact Or.inl (hm.resolve_right (by simp [Phase.hand]))
  · exact Or.inl (hm.resolve_right (by simp [Phase.hand]))
  · exact Or.inl (accounts_return (hm.resolve_right (by simp [Phase.hand])))
  · exact Or.inl (hm.resolve_right (by simp [Phase.hand]))
  · next reply =>
    have hheld := hm.resolve_right (by simp [Phase.hand])
    left
    simp only [effect]
    cases reply.executed with
    | false => exact hheld
    | true => exact accounts_ack hheld
  · exact Or.inl (hm.resolve_right (by simp [Phase.hand]))
  · cases h

theorem abandons_accounts (h : p.abandons a = true) (hm : s.Accounts m ∨ p.hand = some m) :
    (effect s p a).Accounts m := by
  rcases abandons_cases h with ⟨left, executed, rfl, rfl⟩ | ⟨left, job, score, executed, rfl, rfl⟩ |
    ⟨left, jobId, n, executed, rfl, rfl⟩ | ⟨rfl, -, hinserting⟩
  · have hheld := hm.resolve_right (by simp [Phase.hand])
    cases executed with
    | false => exact hheld
    | true => exact accounts_lost true hheld
  · have hheld : s.Accounts m ∨ m = job := hm.imp_right fun hhand => (Option.some.inj hhand).symm
    cases executed with
    | false => exact accounts_drop hheld
    | true => exact accounts_track hheld
  · have hheld := hm.resolve_right (by simp [Phase.hand])
    cases executed with
    | false => exact hheld
    | true => exact accounts_ack hheld
  · have hheld := hm.resolve_right fun hhand => by
      cases p with
      | inserting left job score => exact hinserting left job score rfl
      | _ => cases hhand
    cases p <;> exact hheld

/-! ## What is given up and what is acknowledged -/

def Action.drops : Action → ℕ
  | .bzpopmin (.resent true) | .bzpopmin (.raised true) | .zadd (.raised false) => 1
  | _ => 0

theorem effect_dropped : (effect s p a).dropped.length ≤ s.dropped.length + a.drops := by
  unfold effect
  split
  · next reply =>
    unfold Shared.pop
    cases s.store.queue.popMin with
    | none => split <;> simp
    | some popped =>
      cases reply with
      | ok => simp [Reply.executed]
      | resent executed | raised executed => cases executed <;> simp [Reply.executed, Action.drops]
  · split <;> simp [Shared.track, Shared.drop, Action.drops]
  · unfold Shared.return
    split <;> simp
  · split <;> simp [Shared.ack]
  · simp

def Settled (codec : JsonCodec) (s : Shared) : Prop := ∀ m ∈ s.acked, ∃ jobId ∈ s.returned, Names codec jobId m

def Phase.Settles (codec : JsonCodec) (returned : List Text) : Phase → Prop
  | .scanning _ jobId _ => jobId ∈ returned
  | .removing _ jobId m => jobId ∈ returned ∧ Names codec jobId m
  | _ => True

theorem effect_returned : s.returned ⊆ (effect s p a).returned := by
  unfold effect
  split
  · unfold Shared.pop
    cases s.store.queue.popMin with
    | none => split <;> simp
    | some popped => split <;> simp
  · split <;> simp [Shared.track, Shared.drop]
  · unfold Shared.return
    split <;> simp
  · split <;> simp [Shared.ack]
  · simp

theorem effect_acked (h : m ∈ (effect s p a).acked) :
    m ∈ s.acked ∨ ∃ left jobId reply, p = .removing left jobId m ∧ a = .zrem reply := by
  unfold effect at h
  split at h
  · left
    unfold Shared.pop at h
    cases hpop : s.store.queue.popMin with
    | none => simpa [hpop] using h
    | some popped => split at h <;> simpa [hpop] using h
  · left
    split at h <;> exact h
  · left
    unfold Shared.return at h
    split at h <;> exact h
  · next left jobId n reply =>
    split at h
    · rcases List.mem_cons.mp h with rfl | hm
      · exact Or.inr ⟨left, jobId, reply, rfl, rfl⟩
      · exact Or.inl hm
    · exact Or.inl h
  · exact Or.inl h

theorem Phase.Settles.mono {returned returned' : List Text} (h : p.Settles codec returned)
    (hsub : returned ⊆ returned') : p.Settles codec returned' := by
  cases p with
  | scanning left jobId unseen => exact hsub h
  | removing left jobId m => exact ⟨hsub h.1, h.2⟩
  | _ => trivial

theorem effect_settled (hs : Settled codec s) (hp : p.Settles codec s.returned) : Settled codec (effect s p a) := by
  intro m hm
  rcases effect_acked hm with hold | ⟨left, jobId, reply, rfl, rfl⟩
  · obtain ⟨jobId, hreturned, hnames⟩ := hs m hold
    exact ⟨jobId, effect_returned hreturned, hnames⟩
  · exact ⟨jobId, effect_returned hp.1, hp.2⟩

theorem advance_settles (h : advance sends pages codec shutdown popped p a = some p')
    (hp : p.Settles codec s.returned) : p'.Settles codec (effect s p a).returned := by
  have hkept : p.Settles codec (effect s p a).returned := hp.mono effect_returned
  unfold advance at h
  split at h
  · cases h
    trivial
  · cases h
    split <;> trivial
  · refine command_spec (P := fun _ q => q.Settles codec _) h ?_ (fun _ _ _ => trivial) (fun _ => trivial)
      fun _ _ _ => trivial
    split <;> trivial
  · exact command_spec (P := fun _ q => q.Settles codec _) h
      (loaded_spec (P := fun q => q.Settles codec _) trivial (fun _ => trivial) trivial fun _ _ => trivial)
      (fun _ _ _ => trivial) (fun _ => trivial) fun _ _ _ => trivial
  · exact command_spec (P := fun _ q => q.Settles codec _) h trivial (fun _ _ _ => trivial) (fun _ => trivial)
      fun _ _ _ => trivial
  · cases h
    trivial
  · split at h
    · next jobId hid =>
      cases h
      simp only [effect, Shared.return, hid, Phase.Settles, List.mem_cons_self]
    · cases h
  · split_ifs at h
    refine command_spec (P := fun _ q => q.Settles codec _) h ?_ (fun _ _ _ => hkept) (fun _ => trivial)
      fun _ _ _ => hkept
    exact scanned_spec (P := fun q => q.Settles codec _) (fun _ hnames => ⟨hkept, hnames⟩) trivial
      (fun _ _ => hkept) trivial fun _ => hkept
  · exact command_spec (P := fun _ q => q.Settles codec _) h trivial (fun _ _ _ => hkept) (fun _ => trivial)
      fun _ _ _ => hkept.1
  · cases h
    trivial
  · cases h

end

/-! ## Runs of the pool -/

section
variable {s t : Pool n} {w : Fin n} {e : Event n} {m : Text}

def Accounted (s : Pool n) (m : Text) : Prop := s.shared.Accounts m ∨ ∃ w, (s.phase w).hand = some m

def Event.accepts (m : Text) : Event n → Prop
  | .enqueue job _ => job = m
  | _ => False

def Event.drops : Event n → ℕ
  | .worker _ a | .cancelled _ a => a.drops
  | _ => 0

theorem move_accounted {shared : Shared} (h : Accounted s m)
    (hown : s.shared.Accounts m ∨ (s.phase w).hand = some m → shared.Accounts m ∨ p'.hand = some m) :
    Accounted (s.move w p' shared) m := by
  have hhand : ∀ q, (Function.update s.phase w q) w = q := fun q => Function.update_self ..
  have hmoved : shared.Accounts m ∨ p'.hand = some m → Accounted (s.move w p' shared) m := by
    intro hnow
    refine hnow.imp_right fun hp => ⟨w, ?_⟩
    change (Function.update s.phase w p' w).hand = some m
    rw [hhand]
    exact hp
  rcases h with hshared | ⟨v, hv⟩
  · exact hmoved (hown (Or.inl hshared))
  · by_cases hvw : v = w
    · subst hvw
      exact hmoved (hown (Or.inr hv))
    · refine Or.inr ⟨v, ?_⟩
      change (Function.update s.phase w p' v).hand = some m
      rw [Function.update_of_ne hvw]
      exact hv

theorem accounted_step (h : Fires (step sends pages codec) s e t) (hm : Accounted s m ∨ e.accepts m) :
    Accounted t m := by
  cases e with
  | enqueue job score =>
    obtain rfl := Option.some.inj h
    rcases hm with (hshared | hhand) | rfl
    · exact Or.inl (hshared.imp_left fun hqueue => ScoredSet.holds_add.mpr (Or.inr hqueue))
    · exact Or.inr hhand
    · exact Or.inl (Or.inl (ScoredSet.holds_add.mpr (Or.inl rfl)))
  | worker w a =>
    obtain ⟨-, p', hp', rfl⟩ := step_worker h
    exact move_accounted (hm.resolve_right fun hfalse => hfalse) (effect_accounts hp')
  | cancelled w a =>
    obtain ⟨-, ha, rfl⟩ := step_cancelled h
    exact move_accounted (hm.resolve_right fun hfalse => hfalse) fun hown => Or.inl (abandons_accounts ha hown)
  | signal =>
    obtain rfl := Option.some.inj h
    exact hm.resolve_right fun hfalse => hfalse
  | gather | timeout | finish =>
    simp only [Fires, step] at h
    split_ifs at h
    obtain rfl := Option.some.inj h
    exact hm.resolve_right fun hfalse => hfalse

theorem dropped_step (h : Fires (step sends pages codec) s e t) :
    t.shared.dropped.length ≤ s.shared.dropped.length + e.drops := by
  cases e with
  | enqueue job score =>
    obtain rfl := Option.some.inj h
    simp [Shared.enqueue]
  | worker w a =>
    obtain ⟨-, p', hp', rfl⟩ := step_worker h
    exact effect_dropped
  | cancelled w a =>
    obtain ⟨-, ha, rfl⟩ := step_cancelled h
    exact effect_dropped
  | signal =>
    obtain rfl := Option.some.inj h
    simp
  | gather | timeout | finish =>
    simp only [Fires, step] at h
    split_ifs at h
    obtain rfl := Option.some.inj h
    simp

structure Processed (codec : JsonCodec) (s : Pool n) : Prop where
  acked : Settled codec s.shared
  acking : ∀ w, (s.phase w).Settles codec s.shared.returned

theorem Processed.launched (store : Store Text) : Processed codec (Pool.launched n store) :=
  ⟨fun _ hm => absurd hm List.not_mem_nil, fun _ => trivial⟩

theorem Processed.step (hs : Processed codec s) (h : Fires (step sends pages codec) s e t) : Processed codec t := by
  cases e with
  | enqueue job score =>
    obtain rfl := Option.some.inj h
    exact ⟨hs.acked, hs.acking⟩
  | worker w a =>
    obtain ⟨-, p', hp', rfl⟩ := step_worker h
    exact ⟨effect_settled hs.acked (hs.acking w),
      Fleet.forall_update (fun v => (hs.acking v).mono effect_returned) (advance_settles hp' (hs.acking w))⟩
  | cancelled w a =>
    obtain ⟨-, ha, rfl⟩ := step_cancelled h
    exact ⟨effect_settled hs.acked (hs.acking w),
      Fleet.forall_update (fun v => (hs.acking v).mono effect_returned) trivial⟩
  | signal =>
    obtain rfl := Option.some.inj h
    exact ⟨hs.acked, hs.acking⟩
  | gather | timeout | finish =>
    simp only [Fires, WorkerPool.step] at h
    split_ifs at h
    obtain rfl := Option.some.inj h
    exact ⟨hs.acked, hs.acking⟩

theorem run_accounted {events : List (Event n)} (h : Run (Fires (step sends pages codec)) s events t)
    (hm : Accounted s m ∨ ∃ score, .enqueue m score ∈ events) : Accounted t m := by
  induction h with
  | nil s => exact hm.resolve_right fun hmem => by simp at hmem
  | cons hstep _ ih =>
    apply ih
    rcases hm with hold | ⟨score, hmem⟩
    · exact Or.inl (accounted_step hstep (Or.inl hold))
    · rcases List.mem_cons.mp hmem with rfl | hlater
      · exact Or.inl (accounted_step hstep (Or.inr rfl))
      · exact Or.inr ⟨score, hlater⟩

/-- No member is gone: one that the queue held or a client inserted is in one of the two
sets, in the hand of a worker, acknowledged behind its processing, or given up, and
there are no more of these than commands whose effect the worker did not learn. -/
theorem members_accounted (sends pages : ℕ) (codec : JsonCodec) {s t : Pool n} {events : List (Event n)}
    (hs : Launched n s) (hrun : Run (Fires (step sends pages codec)) s events t) (m : Text)
    (hm : s.shared.store.Holds m ∨ ∃ score, .enqueue m score ∈ events) :
    Accounted t m ∧ (t.main = .ended → t.shared.Accounts m) ∧
      (m ∈ t.shared.acked → ∃ jobId ∈ t.shared.returned, Names codec jobId m) ∧
      t.shared.dropped.length ≤ (events.map Event.drops).sum := by
  have hcoherent := coherent (⟨s, events, hs, hrun⟩ : Reaches sends pages codec t)
  obtain ⟨store, rfl⟩ := hs
  have hheld : store.Holds m → Accounted (Pool.launched n store) m := by
    intro hstore
    exact Or.inl (hstore.imp_right Or.inl)
  have haccounted := run_accounted hrun (hm.imp_left hheld)
  have hprocessed := hrun.invariant (fun _ _ _ hs hstep => hs.step hstep) (Processed.launched store)
  have hdropped := hrun.gain_le (V := fun s => s.shared.dropped.length) fun _ _ _ hstep => dropped_step hstep
  refine ⟨haccounted, fun hended => ?_, hprocessed.acked m, by simpa [Pool.launched] using hdropped⟩
  refine haccounted.resolve_right fun hhand => ?_
  obtain ⟨w, hw⟩ := hhand
  rw [hcoherent.ended hended w] at hw
  cases hw

end

/-! ## A sample -/

def emptyStore : Store Text := ⟨ScoredSet.empty, ScoredSet.empty⟩

def untilSignal : List (Event 1) :=
  [.enqueue AckJob.sampleMember 0, .worker 0 .start, .worker 0 .check, .worker 0 (.bzpopmin .ok), .worker 0 (.zadd .ok),
    .worker 0 (.zcard .ok), .signal]

def behindSignal : List (Event 1) :=
  [.gather, .worker 0 (.finish false), .worker 0 (.zscan [] false (.raised false)),
    .worker 0 (.zscan ["[]".toList] false .ok), .worker 0 (.zscan [AckJob.sampleMember] true .ok),
    .worker 0 (.zrem .ok),
    .worker 0 .check, .finish]

def runSample (events : List (Event 1)) : Pool 1 :=
  (execute (step 0 1 AckJob.sampleCodec) (Pool.launched 1 emptyStore) events).getD (Pool.launched 1 emptyStore)

theorem untilSignal_runs :
    execute (step 0 1 AckJob.sampleCodec) (Pool.launched 1 emptyStore) untilSignal = some (runSample untilSignal) := by
  rfl

theorem behindSignal_runs : execute (step 0 1 AckJob.sampleCodec) (runSample untilSignal) behindSignal =
    some (runSample (untilSignal ++ behindSignal)) := by
  rfl

theorem untilSignal_reaches : Reaches 0 1 AckJob.sampleCodec (runSample untilSignal) :=
  ⟨_, _, ⟨emptyStore, rfl⟩, run_of_execute untilSignal_runs⟩

theorem pool_drains_sample : (behindSignal.map Event.own).sum ≤ 1 * workerBound 0 1 + 3 ∧
    ((∀ e u, Fires (step 0 1 AckJob.sampleCodec) (runSample (untilSignal ++ behindSignal)) e u → e.own = 0) →
      (runSample (untilSignal ++ behindSignal)).main = .ended ∧
        (∀ w, (runSample (untilSignal ++ behindSignal)).phase w = .stopped) ∧
        (runSample (untilSignal ++ behindSignal)).workerActive = 0) :=
  pool_drains 0 1 AckJob.sampleCodec untilSignal_reaches rfl (run_of_execute behindSignal_runs)

theorem worker_leaves_sample : ((runSample (untilSignal ++ behindSignal)).shutdown = false →
      (runSample (untilSignal ++ behindSignal)).phase 0 ≠ .stopped) ∧
    ((runSample untilSignal).shutdown = true →
      (behindSignal.map (Event.begins 0)).sum ≤ ((runSample untilSignal).phase 0).ahead ∧
        (behindSignal.map (Event.takes 0)).sum ≤ 3 * (0 + 1)) :=
  worker_leaves 0 1 AckJob.sampleCodec untilSignal_reaches (run_of_execute behindSignal_runs) 0

theorem members_accounted_sample :
    Accounted (runSample (untilSignal ++ behindSignal)) AckJob.sampleMember ∧
    ((runSample (untilSignal ++ behindSignal)).main = .ended →
      (runSample (untilSignal ++ behindSignal)).shared.Accounts AckJob.sampleMember) ∧
    (AckJob.sampleMember ∈ (runSample (untilSignal ++ behindSignal)).shared.acked →
      ∃ jobId ∈ (runSample (untilSignal ++ behindSignal)).shared.returned,
        Names AckJob.sampleCodec jobId AckJob.sampleMember) ∧
    (runSample (untilSignal ++ behindSignal)).shared.dropped.length ≤
      ((untilSignal ++ behindSignal).map Event.drops).sum :=
  members_accounted 0 1 AckJob.sampleCodec ⟨emptyStore, rfl⟩
    ((run_of_execute untilSignal_runs).append (run_of_execute behindSignal_runs)) AckJob.sampleMember
    (Or.inr ⟨0, List.mem_cons_self ..⟩)

end PyFaaS.WorkerPool
