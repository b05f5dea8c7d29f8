import Mathlib.Tactic.Linarith
import PyFaaS.JobDequeue
import PyFaaS.Runs

/-!
# The order of the queue

`enqueue_job` puts the priority and the clock reading into one score, and the pop
takes the least score. A state remembers beside the store which calls of
`enqueue_job` the queued jobs come from, in their order.
-/

namespace PyFaaS.JobOrder
open JobDequeue
open Runs (Along)

structure Queued (μ : Type) where
  member : μ
  priority : ℤ
  time : ℚ

def jobScore (priority : ℤ) (now : ℚ) : ℚ := now - priority * 1000000

def Queued.score {μ : Type} (q : Queued μ) : ℚ := jobScore q.priority q.time

structure State (μ : Type) where
  store : Store μ
  jobs : List (Queued μ)
  clock : ℚ

def initial {μ : Type} (now : ℚ) : State μ := ⟨⟨.empty, .empty⟩, [], now⟩

inductive Call where
  | enqueue (jobId : Text) (payload : List (Text × Json)) (priority : ℤ) (now : ℚ)
  | dequeue

section
variable {μ ν : Type} [LinearOrder μ]

/-- `dumps` makes the member of `{"job_id": job_id, **payload}`. -/
def enqueueJob (dumps : Text → List (Text × Json) → μ) (jobId : Text) (payload : List (Text × Json)) (priority : ℤ)
    (now : ℚ) (s : Store μ) : Store μ :=
  { s with queue := s.queue.add (dumps jobId payload) (jobScore priority now) }

/-- No command raises. -/
def dequeue (loads : μ → ν) (s : Store μ) : Except Text (Option ν) × Store μ :=
  dequeueJob (fun m => .ok (loads m)) ⟨.ok, .ok⟩ ⟨.ok, .ok⟩ ⟨.ok, .ok⟩ s

def next (dumps : Text → List (Text × Json) → μ) (loads : μ → ν) (s : State μ) : Call → State μ
  | .enqueue jobId payload priority now =>
    { store := enqueueJob dumps jobId payload priority now s.store
      jobs := (s.jobs.filter fun q => q.member ≠ dumps jobId payload) ++ [⟨dumps jobId payload, priority, now⟩]
      clock := now }
  | .dequeue =>
    { s with
      store := (dequeue loads s.store).2
      jobs := match s.store.queue.popMin with
        | none => s.jobs
        | some ((m, _), _) => s.jobs.filter fun q => q.member ≠ m }

def ClockForward (s : State μ) : Call → Prop
  | .enqueue _ _ _ now => s.clock ≤ now
  | .dequeue => True

end

section
variable {μ ν : Type}

structure First (before : List (Queued μ)) (q : Queued μ) (after : List (Queued μ)) : Prop where
  before : ∀ j ∈ before, j.priority < q.priority
  after : ∀ j ∈ after, j.priority ≤ q.priority

def InOrder [LinearOrder μ] (loads : μ → ν) (s : State μ) : Call → Prop
  | .enqueue _ _ _ _ => True
  | .dequeue => (s.jobs = [] ∧ (dequeue loads s.store).1 = .ok none) ∨
      ∃ before q after, s.jobs = before ++ q :: after ∧ First before q after ∧
        (dequeue loads s.store).1 = .ok (some (loads q.member)) ∧ ¬ (dequeue loads s.store).2.queue.Holds q.member

/-- A job of lower priority has not waited too long before the first one came, and no
job of the same priority and reading has a smaller member. -/
def KeepsOrder [LinearOrder μ] (s : State μ) : Call → Prop
  | .enqueue _ _ _ _ => True
  | .dequeue => ∀ before q after, s.jobs = before ++ q :: after → First before q after →
      (∀ j ∈ before, q.time - j.time < (q.priority - j.priority) * 1000000 ∨
        q.time - j.time = (q.priority - j.priority) * 1000000 ∧ q.member < j.member) ∧
      ∀ j ∈ after, j.priority = q.priority → j.time = q.time → q.member < j.member

end

/-! ## Scores -/

section
variable {μ : Type} [LinearOrder μ] {q j : Queued μ}

def Queued.entry (q : Queued μ) : μ × ℚ := (q.member, q.score)

theorem rank_lt : ScoredSet.rank q.entry < ScoredSet.rank j.entry ↔
    q.score < j.score ∨ q.score = j.score ∧ q.member < j.member := Prod.Lex.toLex_lt_toLex

theorem rank_lt_before : ScoredSet.rank q.entry < ScoredSet.rank j.entry ↔
    q.time - j.time < (q.priority - j.priority) * 1000000 ∨
      q.time - j.time = (q.priority - j.priority) * 1000000 ∧ q.member < j.member := by
  have hlt : q.score < j.score ↔ q.time - j.time < (q.priority - j.priority) * 1000000 := by
    unfold Queued.score jobScore
    constructor <;> intro h <;> linarith
  have heq : q.score = j.score ↔ q.time - j.time = (q.priority - j.priority) * 1000000 := by
    unfold Queued.score jobScore
    constructor <;> intro h <;> linarith
  rw [rank_lt, hlt, heq]

theorem rank_lt_after (hpriority : j.priority ≤ q.priority) (htime : q.time ≤ j.time) :
    ScoredSet.rank q.entry < ScoredSet.rank j.entry ↔
      (j.priority = q.priority → j.time = q.time → q.member < j.member) := by
  have hcast : (j.priority : ℚ) ≤ q.priority := Int.cast_le.mpr hpriority
  rw [rank_lt]
  by_cases hsame : j.priority = q.priority ∧ j.time = q.time
  · have hscore : q.score = j.score := by
      unfold Queued.score
      rw [hsame.1, hsame.2]
    rw [hscore]
    simp [hsame.1, hsame.2]
  · have hscore : q.score < j.score := by
      unfold Queued.score jobScore
      rcases lt_or_eq_of_le hpriority with hlt | heq
      · have hlt : (j.priority : ℚ) < q.priority := Int.cast_lt.mpr hlt
        linarith
      · have hlt : q.time < j.time := lt_of_le_of_ne htime fun h => hsame ⟨heq, h.symm⟩
        linarith
    exact iff_of_true (Or.inl hscore) fun hp ht => absurd ⟨hp, ht⟩ hsame

end

/-! ## The first job of the highest priority -/

section
variable {μ : Type} {jobs before before' after after' : List (Queued μ)} {q q' : Queued μ}

theorem exists_first (h : jobs ≠ []) : ∃ before q after, jobs = before ++ q :: after ∧ First before q after := by
  induction jobs with
  | nil => exact absurd rfl h
  | cons j jobs ih =>
    by_cases hnil : jobs = []
    · exact ⟨[], j, [], by rw [hnil]; rfl, ⟨by simp, by simp⟩⟩
    · obtain ⟨before, q, after, rfl, hfirst⟩ := ih hnil
      by_cases hj : j.priority < q.priority
      · exact ⟨j :: before, q, after, rfl, ⟨List.forall_mem_cons.mpr ⟨hj, hfirst.before⟩, hfirst.after⟩⟩
      · have hle : ∀ x ∈ before ++ q :: after, x.priority ≤ j.priority := by
          intro x hx
          rcases List.mem_append.mp hx with hx | hx
          · have := hfirst.before x hx
            omega
          · rcases List.mem_cons.mp hx with rfl | hx
            · omega
            · have := hfirst.after x hx
              omega
        exact ⟨[], j, before ++ q :: after, rfl, ⟨by simp, hle⟩⟩

theorem first_unique (h : before ++ q :: after = before' ++ q' :: after') (hfirst : First before q after)
    (hfirst' : First before' q' after') : before = before' ∧ q = q' ∧ after = after' := by
  rcases List.append_eq_append_iff.mp h with ⟨xs, rfl, hrest⟩ | ⟨xs, rfl, hrest⟩
  · cases xs with
    | nil =>
      obtain ⟨hq, hafter⟩ := List.cons.inj hrest
      exact ⟨(List.append_nil _).symm, hq, hafter⟩
    | cons x xs =>
      -- the second one would come behind the first and have a greater priority
      obtain ⟨rfl, rfl⟩ := List.cons.inj hrest
      have hlt := hfirst'.before q (by simp)
      have hle := hfirst.after q' (by simp)
      omega
  · cases xs with
    | nil =>
      obtain ⟨hq, hafter⟩ := List.cons.inj hrest
      exact ⟨List.append_nil _, hq.symm, hafter.symm⟩
    | cons x xs =>
      obtain ⟨rfl, rfl⟩ := List.cons.inj hrest
      have hlt := hfirst.before q' (by simp)
      have hle := hfirst'.after q (by simp)
      omega

end

variable {μ ν : Type} [LinearOrder μ] {dumps : Text → List (Text × Json) → μ} {loads : μ → ν} {s : State μ}

/-! ## Runs -/

theorem dequeue_none {store : Store μ} (h : store.queue.popMin = none) : dequeue loads store = (.ok none, store) := by
  apply Retry.retry_ok
  simp only [attempt, h]

theorem dequeue_some {store : Store μ} {m : μ} {score : ℚ} {rest : ScoredSet μ ℚ}
    (h : store.queue.popMin = some ((m, score), rest)) :
    dequeue loads store = (.ok (some (loads m)), ⟨rest, store.processing.add m score⟩) := by
  apply Retry.retry_ok
  simp only [attempt, h, Except.map]

structure Remembers (s : State μ) : Prop where
  entries : ∀ entry, entry ∈ s.store.queue ↔ ∃ q ∈ s.jobs, q.entry = entry
  distinct : (s.jobs.map Queued.member).Nodup
  ordered : s.jobs.Pairwise fun a b => a.time ≤ b.time
  clock : ∀ q ∈ s.jobs, q.time ≤ s.clock

omit [LinearOrder μ] in
theorem remembers_initial (now : ℚ) : Remembers (initial now : State μ) where
  entries entry := ⟨fun h => absurd h (ScoredSet.not_mem_empty entry), fun ⟨_, h, _⟩ => by cases h⟩
  distinct := List.nodup_nil
  ordered := List.Pairwise.nil
  clock := fun _ h => by cases h

theorem entries_without (h : Remembers s) (m : μ) (entry : μ × ℚ) : entry ∈ s.store.queue.remove m ↔
    ∃ q ∈ s.jobs.filter (fun q => q.member ≠ m), q.entry = entry := by
  rw [ScoredSet.mem_remove, h.entries]
  constructor
  · rintro ⟨⟨q, hq, rfl⟩, hne⟩
    exact ⟨q, List.mem_filter.mpr ⟨hq, decide_eq_true hne⟩, rfl⟩
  · rintro ⟨q, hq, rfl⟩
    obtain ⟨hq, hne⟩ := List.mem_filter.mp hq
    exact ⟨⟨q, hq, rfl⟩, of_decide_eq_true hne⟩

theorem remembers_enqueue (h : Remembers s) {jobId : Text} {payload : List (Text × Json)} {priority : ℤ} {now : ℚ}
    (hnow : s.clock ≤ now) : Remembers (next dumps loads s (.enqueue jobId payload priority now)) where
  entries entry := by
    change entry ∈ s.store.queue.add _ _ ↔ ∃ q ∈ (s.jobs.filter fun q : Queued μ => q.member ≠ dumps jobId payload) ++
      [⟨dumps jobId payload, priority, now⟩], q.entry = entry
    rw [ScoredSet.mem_add, ← ScoredSet.mem_remove, entries_without h]
    constructor
    · rintro (rfl | ⟨q, hq, rfl⟩)
      · exact ⟨_, List.mem_append_right _ (List.mem_singleton_self _), rfl⟩
      · exact ⟨q, List.mem_append_left _ hq, rfl⟩
    · rintro ⟨q, hq, rfl⟩
      rcases List.mem_append.mp hq with hq | hq
      · exact Or.inr ⟨q, hq, rfl⟩
      · rw [List.mem_singleton.mp hq]
        exact Or.inl rfl
  distinct := by
    have happend : (next dumps loads s (.enqueue jobId payload priority now)).jobs.map Queued.member =
        (s.jobs.filter fun q => q.member ≠ dumps jobId payload).map Queued.member ++ [dumps jobId payload] :=
      List.map_append
    rw [happend]
    refine List.Nodup.append (h.distinct.sublist (List.filter_sublist.map _)) (List.nodup_singleton _) ?_
    intro m hm hm'
    obtain ⟨q, hq, rfl⟩ := List.mem_map.mp hm
    exact of_decide_eq_true (List.mem_filter.mp hq).2 (List.mem_singleton.mp hm')
  ordered := by
    refine List.pairwise_append.mpr ⟨List.Pairwise.filter _ h.ordered, List.pairwise_singleton _ _, ?_⟩
    intro q hq j hj
    rw [List.mem_singleton.mp hj]
    exact (h.clock q (List.mem_of_mem_filter hq)).trans hnow
  clock := by
    intro q hq
    rcases List.mem_append.mp hq with hq | hq
    · exact (h.clock q (List.mem_of_mem_filter hq)).trans hnow
    · rw [List.mem_singleton.mp hq]
      exact le_refl now

theorem remembers_dequeue (h : Remembers s) : Remembers (next dumps loads s .dequeue) := by
  cases hpop : s.store.queue.popMin with
  | none =>
    have hnext : next dumps loads s .dequeue = s := by simp only [next, hpop, dequeue_none hpop]
    rw [hnext]
    exact h
  | some p =>
    obtain ⟨⟨m, score⟩, rest⟩ := p
    have hnext : next dumps loads s .dequeue =
        { s with
          store := ⟨rest, s.store.processing.add m score⟩
          jobs := s.jobs.filter fun q => q.member ≠ m } := by
      simp only [next, hpop, dequeue_some hpop]
    rw [hnext]
    constructor
    · intro entry
      rw [ScoredSet.popMin_rest hpop]
      exact entries_without h m entry
    · exact h.distinct.sublist (List.filter_sublist.map _)
    · exact h.ordered.filter _
    · exact fun q hq => h.clock q (List.mem_of_mem_filter hq)

theorem remembers_next (h : Remembers s) {c : Call} (hnow : ClockForward s c) : Remembers (next dumps loads s c) := by
  cases c with
  | enqueue jobId payload priority now => exact remembers_enqueue h hnow
  | dequeue => exact remembers_dequeue h

/-! ## Each dequeue -/

theorem inOrder_iff_rank (h : Remembers s) {before after : List (Queued μ)} {q : Queued μ}
    (hjobs : s.jobs = before ++ q :: after) (hfirst : First before q after) :
    InOrder loads s .dequeue ↔ ∀ j ∈ before ++ after, ScoredSet.rank q.entry < ScoredSet.rank j.entry := by
  have hq : q.entry ∈ s.store.queue := (h.entries _).mpr ⟨q, by simp [hjobs], rfl⟩
  have hothers : ∀ j ∈ before ++ after, j ∈ s.jobs ∧ j.member ≠ q.member := by
    intro j hj
    have hdistinct := h.distinct
    rw [hjobs, List.map_append, List.map_cons] at hdistinct
    have hnot := (List.nodup_middle.mp hdistinct).notMem
    rw [← List.map_append] at hnot
    refine ⟨?_, fun hsame => hnot (hsame ▸ List.mem_map_of_mem hj)⟩
    rw [hjobs]
    rcases List.mem_append.mp hj with hj | hj
    · exact List.mem_append_left _ hj
    · exact List.mem_append_right _ (List.mem_cons_of_mem _ hj)
  constructor
  · rintro (⟨hempty, -⟩ | ⟨before', q', after', hjobs', hfirst', -, hgone⟩) j hj
    · rw [hempty] at hjobs
      simp at hjobs
    · obtain ⟨-, rfl, -⟩ := first_unique (hjobs.symm.trans hjobs') hfirst hfirst'
      cases hpop : s.store.queue.popMin with
      | none => exact absurd hq (ScoredSet.popMin_none.mp hpop _)
      | some p =>
        obtain ⟨⟨m, score⟩, rest⟩ := p
        obtain ⟨hj, hne⟩ := hothers j hj
        rw [dequeue_some hpop, ScoredSet.popMin_rest hpop] at hgone
        have hm : q.member = m := by
          by_contra hnot
          exact hgone (ScoredSet.holds_remove.mpr ⟨hnot, ScoredSet.holds_of_mem hq⟩)
        subst hm
        have hentry : q.entry = (q.member, score) := by
          rw [Queued.entry, ScoredSet.score_unique hq (ScoredSet.popMin_mem hpop)]
        rw [hentry]
        refine lt_of_le_of_ne (ScoredSet.popMin_least hpop ((h.entries _).mpr ⟨j, hj, rfl⟩)) fun hrank => hne ?_
        exact (congrArg Prod.fst (ScoredSet.rank_injective hrank)).symm
  · intro hrank
    have hpop : s.store.queue.popMin = some (q.entry, s.store.queue.remove q.member) := by
      apply ScoredSet.popMin_of_least hq
      intro entry hentry
      obtain ⟨j, hj, rfl⟩ := (h.entries entry).mp hentry
      rw [hjobs] at hj
      rcases List.mem_append.mp hj with hj | hj
      · exact (hrank j (List.mem_append_left _ hj)).le
      · rcases List.mem_cons.mp hj with rfl | hj
        · exact le_refl _
        · exact (hrank j (List.mem_append_right _ hj)).le
    have hrun : dequeue loads s.store = _ := dequeue_some hpop
    refine Or.inr ⟨before, q, after, hjobs, hfirst, by rw [hrun], ?_⟩
    rw [hrun]
    exact fun hheld => (ScoredSet.holds_remove.mp hheld).1 rfl

theorem inOrder_iff (h : Remembers s) (c : Call) : InOrder loads s c ↔ KeepsOrder s c := by
  cases c with
  | enqueue jobId payload priority now => exact Iff.rfl
  | dequeue =>
    by_cases hempty : s.jobs = []
    · have hpop : s.store.queue.popMin = none := by
        apply ScoredSet.popMin_none.mpr
        intro entry hentry
        obtain ⟨q, hq, -⟩ := (h.entries entry).mp hentry
        rw [hempty] at hq
        cases hq
      refine iff_of_true (Or.inl ⟨hempty, by rw [dequeue_none hpop]⟩) fun before q after hjobs => ?_
      rw [hempty] at hjobs
      simp at hjobs
    · obtain ⟨before, q, after, hjobs, hfirst⟩ := exists_first hempty
      have hordered := h.ordered
      rw [hjobs] at hordered
      have htimes : ∀ j ∈ after, q.time ≤ j.time :=
        (List.pairwise_cons.mp (List.pairwise_append.mp hordered).2.1).1
      rw [inOrder_iff_rank h hjobs hfirst]
      constructor
      · intro hrank before' q' after' hjobs' hfirst'
        obtain ⟨rfl, rfl, rfl⟩ := first_unique (hjobs.symm.trans hjobs') hfirst hfirst'
        exact ⟨fun j hj => rank_lt_before.mp (hrank j (List.mem_append_left _ hj)),
          fun j hj => (rank_lt_after (hfirst.after j hj) (htimes j hj)).mp (hrank j (List.mem_append_right _ hj))⟩
      · intro hkeeps j hj
        obtain ⟨hbefore, hafter⟩ := hkeeps before q after hjobs hfirst
        rcases List.mem_append.mp hj with hj | hj
        · exact rank_lt_before.mpr (hbefore j hj)
        · exact (rank_lt_after (hfirst.after j hj) (htimes j hj)).mpr (hafter j hj)

/-- Every dequeue of a sequence of calls takes the first job of the highest priority
exactly if no job of lower priority has waited 1 000 000 seconds for each step of
priority and none of the same priority and reading has a smaller member. -/
theorem queue_order_iff {now : ℚ} {calls : List Call}
    (hclock : Along (next dumps loads) ClockForward (initial now : State μ) calls) :
    Along (next dumps loads) (InOrder loads) (initial now) calls ↔
      Along (next dumps loads) KeepsOrder (initial now : State μ) calls := by
  apply Runs.along_iff (J := Remembers) (H := ClockForward)
  · exact fun s c h hnow => remembers_next h hnow
  · exact fun s c h _ => inOrder_iff h c
  · exact hclock
  · exact remembers_initial now

/-! An urgent job a second behind another one, and 1 000 001 seconds behind it. -/

def jobText (jobId : Text) (_ : List (Text × Json)) : Text := jobId

def urgentCalls (wait : ℚ) : List Call :=
  [.enqueue "a".toList [] 0 0, .enqueue "b".toList [] 1 wait, .dequeue]

theorem urgent_split {wait : ℚ} {before after : List (Queued Text)} {q : Queued Text}
    (h : [⟨"a".toList, 0, 0⟩, ⟨"b".toList, 1, wait⟩] = before ++ q :: after) (hfirst : First before q after) :
    before = [⟨"a".toList, 0, 0⟩] ∧ q = ⟨"b".toList, 1, wait⟩ ∧ after = [] := by
  have hurgent : First [⟨"a".toList, 0, 0⟩] (⟨"b".toList, 1, wait⟩ : Queued Text) [] := ⟨by simp, by simp⟩
  exact first_unique h.symm hfirst hurgent

theorem urgent_clock {wait : ℚ} (h : 0 ≤ wait) :
    Along (next jobText id) ClockForward (initial 0 : State Text) (urgentCalls wait) :=
  .cons (le_refl (0 : ℚ)) (.cons h (.cons trivial .nil))

theorem queue_order_iff_urgent :
    Along (next jobText id) (InOrder id) (initial 0 : State Text) (urgentCalls 1) := by
  refine (queue_order_iff (urgent_clock zero_le_one)).mpr (.cons trivial (.cons trivial (.cons ?_ .nil)))
  intro before q after hjobs hfirst
  obtain ⟨rfl, rfl, rfl⟩ := urgent_split hjobs hfirst
  refine ⟨fun j hj => Or.inl ?_, fun j hj => by cases hj⟩
  rw [List.mem_singleton.mp hj]
  norm_num

theorem queue_order_overtaken : ¬ ∀ (dumps : Text → List (Text × Json) → Text) (loads : Text → Text) (now : ℚ)
    (calls : List Call), Along (next dumps loads) ClockForward (initial now : State Text) calls →
      Along (next dumps loads) (InOrder loads) (initial now) calls := by
  intro hclaim
  have hclock : Along (next jobText id) ClockForward (initial 0 : State Text) (urgentCalls 1000001) :=
    urgent_clock (by norm_num)
  obtain ⟨-, -, horder, -⟩ := hclaim jobText id 0 (urgentCalls 1000001) hclock
  obtain ⟨hfirst, hsecond, -⟩ := hclock
  have hremembers : Remembers (next jobText id (next jobText id (initial 0 : State Text) (.enqueue "a".toList [] 0 0))
      (.enqueue "b".toList [] 1 1000001)) :=
    remembers_next (remembers_next (remembers_initial 0) hfirst) hsecond
  obtain ⟨hbefore, -⟩ := (inOrder_iff hremembers .dequeue).mp horder [⟨"a".toList, 0, 0⟩]
    ⟨"b".toList, 1, 1000001⟩ [] rfl ⟨by simp, by simp⟩
  rcases hbefore _ (List.mem_singleton_self _) with hlt | ⟨heq, -⟩
  · norm_num at hlt
  · norm_num at heq

end PyFaaS.JobOrder
