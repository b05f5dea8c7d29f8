import PyFaaS.Scheduler

/-!
# One execution for each due occurrence

While the key of the live holder does not expire and nothing fails between the
two commits of a firing, the replicas exclude each other and the executions of a
schedule lie strictly before its `next_run_at`, but for the one that is being
recorded. A failure between the two commits leaves the occurrence due.
-/

namespace PyFaaS.Scheduler
open Runs
variable {R : Type} [DecidableEq R] {settings : SchedulerSettings} {computeNext : Text → Time → Time}
  {s t : State R} {a : Action R} {as : List (Action R)}

/-- The key does not expire under a replica inside its tick, and no exception,
crash or lost reply falls between the commit of an execution and the commit of
its schedule. -/
def Guarded (s : State R) : Action R → Prop
  | .expire => ∀ r token, (s.replicas r).inside? = some token → s.lock ≠ some token
  | .fireRaises r | .crash r => ∀ f, (s.replicas r).firing? = some f → f.posted = false
  | .createLost _ _ => False
  | _ => True

def occurrences (s : State R) : List (Option Uuid × Time) :=
  s.executions.map fun x => (x.row.scheduleId, x.due)

def Past (s : State R) (sch : Schedule) : Prop :=
  ∀ due next, (some sch.id, due) ∈ occurrences s → sch.nextRunAt = some next →
    due < next ∨ due = next ∧
      ∃ r f, (s.replicas r).firing? = some f ∧ f.posted = true ∧ f.dueRow.fresh = sch

structure Excluded (s : State R) : Prop where
  owner : ∀ r token, (s.replicas r).inside? = some token → s.lock = some token
  drawn : ∀ r token, (s.replicas r).token? = some token → token ∈ s.tokens
  distinct : ∀ r r' token, (s.replicas r).token? = some token →
    (s.replicas r').token? = some token → r = r'

structure Invariant (s : State R) : Prop extends Excluded s where
  loaded : ∀ r f, (s.replicas r).firing? = some f →
    Table.get? s.schedules f.dueRow.fresh.id = some f.dueRow.fresh
  past : ∀ id sch, Table.get? s.schedules id = some sch → Past s sch
  once : (occurrences s).Nodup

omit [DecidableEq R] in
theorem invariant_initial (h : IsInitial s) : Invariant s := by
  obtain ⟨hexecutions, hlock, htokens, hidle⟩ := h
  have hocc : occurrences s = [] := by simp [occurrences, hexecutions]
  refine ⟨⟨?_, ?_, ?_⟩, ?_, ?_, ?_⟩
  · intro r token hr
    rw [hidle r] at hr
    cases hr
  · intro r token hr
    rw [hidle r] at hr
    cases hr
  · intro r r' token hr
    rw [hidle r] at hr
    cases hr
  · intro r f hr
    rw [hidle r] at hr
    cases hr
  · intro id sch _ due next hdue
    rw [hocc] at hdue
    exact absurd hdue List.not_mem_nil
  · rw [hocc]
    exact List.nodup_nil

/-! ## Exclusion -/

namespace Excluded

omit [DecidableEq R] in
theorem exclusive (h : Excluded s) {r r' : R} {f f' : Firing}
    (hr : (s.replicas r).firing? = some f) (hr' : (s.replicas r').firing? = some f') : r = r' := by
  obtain ⟨token, htoken⟩ := Replica.inside?_of_firing? hr
  obtain ⟨token', htoken'⟩ := Replica.inside?_of_firing? hr'
  obtain rfl : token = token' :=
    Option.some.inj ((h.owner r token htoken).symm.trans (h.owner r' token' htoken'))
  exact h.distinct r r' token (Replica.token?_of_inside? htoken) (Replica.token?_of_inside? htoken')

theorem setReplica (h : Excluded s) {r : R} {p : Replica}
    (hinside : ∀ token, p.inside? = some token → s.lock = some token)
    (htoken : ∀ token, p.token? = some token → (s.replicas r).token? = some token) :
    Excluded (s.setReplica r p) := by
  have hback : ∀ q token, ((s.setReplica r p).replicas q).token? = some token →
      (s.replicas q).token? = some token := by
    intro q token hq
    by_cases hqr : q = r
    · subst q
      exact htoken token (by simpa using hq)
    · simpa [hqr] using hq
  refine ⟨?_, fun q token hq => h.drawn q token (hback q token hq),
    fun q q' token hq hq' => h.distinct q q' token (hback q token hq) (hback q' token hq')⟩
  intro q token hq
  by_cases hqr : q = r
  · subst q
    exact hinside token (by simpa using hq)
  · exact h.owner q token (by simpa [hqr] using hq)

theorem draw (h : Excluded s) {r : R} {token : Uuid} (hr : s.replicas r = .idle)
    (fresh : token ∉ s.tokens) : Excluded ((s.setReplica r (.acquiring token)).draw token) := by
  have hcases : ∀ q token', (((s.setReplica r (.acquiring token)).draw token).replicas q).token? =
      some token' → q = r ∧ token' = token ∨ q ≠ r ∧ (s.replicas q).token? = some token' := by
    intro q token' hq
    by_cases hqr : q = r
    · subst q
      exact Or.inl ⟨rfl, (by simpa [Replica.token?] using hq : token = token').symm⟩
    · exact Or.inr ⟨hqr, by simpa [hqr] using hq⟩
  refine ⟨?_, ?_, ?_⟩
  · intro q token' hq
    by_cases hqr : q = r
    · subst q
      simp [Replica.inside?] at hq
    · exact h.owner q token' (by simpa [hqr] using hq)
  · intro q token' hq
    rcases hcases q token' hq with ⟨-, rfl⟩ | ⟨-, hold⟩
    · exact List.mem_cons_self
    · exact List.mem_cons_of_mem _ (h.drawn q token' hold)
  · intro q q' token' hq hq'
    rcases hcases q token' hq with ⟨rfl, rfl⟩ | ⟨hne, hold⟩ <;>
      rcases hcases q' _ hq' with ⟨rfl, hnew⟩ | ⟨hne', hold'⟩
    · rfl
    · exact absurd (h.drawn q' _ hold') fresh
    · exact absurd (h.drawn q _ hold) (hnew ▸ fresh)
    · exact h.distinct q q' token' hold hold'

omit [DecidableEq R] in
theorem setLock (h : Excluded s) {lock : Option Uuid}
    (hkeep : ∀ r token, (s.replicas r).inside? = some token → lock = some token) :
    Excluded (s.setLock lock) := ⟨hkeep, h.drawn, h.distinct⟩

theorem attempt (h : Excluded s) {r : R} {token : Uuid} (hr : s.replicas r = .acquiring token) :
    Excluded ((s.setReplica r (if (DistributedLock.setNx s.lock token).2 then .selecting token
      else .acquiring token)).setLock (DistributedLock.setNx s.lock token).1) := by
  have htoken : ∀ token', some token = some token' → (s.replicas r).token? = some token' := by
    intro token' ht
    rw [hr]
    exact ht
  by_cases hset : (DistributedLock.setNx s.lock token).2 = true
  · obtain ⟨hlock, hkey⟩ := DistributedLock.setNx_acquired hset
    have hfree : Excluded (s.setLock (some token)) := by
      refine h.setLock fun q token' hq => ?_
      rw [h.owner q token' hq] at hlock
      cases hlock
    rw [if_pos hset, hkey]
    exact hfree.setReplica (p := .selecting token) (fun token' ht => ht) htoken
  · rw [if_neg hset]
    have hwaits := h.setReplica (p := .acquiring token) (fun token' ht => by cases ht) htoken
    exact hwaits.setLock fun q token' hq => DistributedLock.setNx_holder (hwaits.owner q token' hq)

theorem idle (h : Excluded s) (r : R) : Excluded (s.setReplica r .idle) :=
  h.setReplica (fun token ht => by cases ht) (fun token ht => by cases ht)

theorem release (h : Excluded s) {r : R} {token : Uuid} (hr : s.replicas r = .releasing token)
    (applied : Bool) : Excluded ((s.setReplica r .idle).setLock
      (if applied then DistributedLock.releaseScript s.lock token else s.lock)) := by
  have hidle := h.idle r
  refine hidle.setLock fun q token' hq => ?_
  have hholder : s.lock = some token' := hidle.owner q token' hq
  have hqr : q ≠ r := by
    rintro rfl
    simp [Replica.inside?] at hq
  have hother : token' ≠ token := by
    rintro rfl
    have hold : (s.replicas q).token? = some token' :=
      Replica.token?_of_inside? (by simpa [hqr] using hq)
    exact hqr (h.distinct q r token' hold (by rw [hr]; rfl))
  split_ifs
  · exact DistributedLock.releaseScript_other hholder hother
  · exact hholder

end Excluded

/-! ## Occurrences -/

namespace Invariant

omit [DecidableEq R] in
theorem upto (h : Invariant s) {r : R} {f : Firing} (hr : (s.replicas r).firing? = some f)
    {due : Time} (hdue : (some f.dueRow.fresh.id, due) ∈ occurrences s) : due ≤ f.dueRow.due := by
  rcases h.past _ _ (h.loaded r f hr) due _ hdue f.dueRow.nextRun with hlt | ⟨heq, -⟩
  · exact Int.le_of_lt hlt
  · exact Int.le_of_eq heq

omit [DecidableEq R] in
theorem before (h : Invariant s) {r : R} {f : Firing} (hr : (s.replicas r).firing? = some f)
    (hposted : f.posted = false) {due : Time}
    (hdue : (some f.dueRow.fresh.id, due) ∈ occurrences s) : due < f.dueRow.due := by
  rcases h.past _ _ (h.loaded r f hr) due _ hdue f.dueRow.nextRun with hlt | ⟨-, r', f', hr', hf', -⟩
  · exact hlt
  · obtain rfl := h.exclusive hr hr'
    obtain rfl := Option.some.inj (hr.symm.trans hr')
    rw [hposted] at hf'
    cases hf'

omit [DecidableEq R] in
theorem sameFirings (h : Invariant s) (hx : Excluded t) (hschedules : t.schedules = s.schedules)
    (hexecutions : t.executions = s.executions)
    (hfirings : ∀ q, (t.replicas q).firing? = (s.replicas q).firing?) : Invariant t := by
  have hocc : occurrences t = occurrences s := by rw [occurrences, hexecutions, occurrences]
  refine ⟨hx, fun r f hf => ?_, fun id sch hsch due next hdue hnext => ?_, hocc ▸ h.once⟩
  · rw [hschedules]
    exact h.loaded r f (hfirings r ▸ hf)
  · rw [hschedules] at hsch
    rcases h.past id sch hsch due next (hocc ▸ hdue) hnext with hlt | ⟨heq, r, f, hf, hp⟩
    · exact Or.inl hlt
    · exact Or.inr ⟨heq, r, f, (hfirings r).symm ▸ hf, hp⟩

theorem setReplica (h : Invariant s) {r : R} {p : Replica}
    (hinside : ∀ token, p.inside? = some token → (s.replicas r).inside? = some token)
    (htoken : ∀ token, p.token? = some token → (s.replicas r).token? = some token)
    (hloaded : ∀ f, p.firing? = some f →
      Table.get? s.schedules f.dueRow.fresh.id = some f.dueRow.fresh)
    (hposted : ∀ f, (s.replicas r).firing? = some f → f.posted = true →
      ∃ f', p.firing? = some f' ∧ f'.posted = true ∧ f'.dueRow = f.dueRow) :
    Invariant (s.setReplica r p) := by
  refine ⟨h.toExcluded.setReplica (fun token hp => h.owner r token (hinside token hp)) htoken,
    ?_, ?_, h.once⟩
  · intro q f hq
    by_cases hqr : q = r
    · subst q
      exact hloaded f (by simpa using hq)
    · exact h.loaded q f (by simpa [hqr] using hq)
  · intro id sch hsch due next hdue hnext
    rcases h.past id sch hsch due next hdue hnext with hlt | ⟨heq, q, f, hq, hf, hfresh⟩
    · exact Or.inl hlt
    · right
      by_cases hqr : q = r
      · subst q
        obtain ⟨f', hf', hposted', hrow⟩ := hposted f hq hf
        exact ⟨heq, r, f', by simpa using hf', hposted', by rw [hrow, hfresh]⟩
      · exact ⟨heq, q, f, by simpa [hqr] using hq, hf, hfresh⟩

theorem leaves (h : Invariant s) {r : R} {p : Replica}
    (hinside : ∀ token, p.inside? = some token → (s.replicas r).inside? = some token)
    (htoken : ∀ token, p.token? = some token → (s.replicas r).token? = some token)
    (hfiring : p.firing? = none)
    (hposted : ∀ f, (s.replicas r).firing? = some f → f.posted = false) :
    Invariant (s.setReplica r p) := by
  refine h.setReplica hinside htoken (fun f hf => ?_) (fun f hf hf' => ?_)
  · rw [hfiring] at hf
    cases hf
  · rw [hposted f hf] at hf'
    cases hf'

theorem fires (h : Invariant s) {r : R} {token : Uuid} {rest : List Uuid} {f f' : Firing}
    (hr : s.replicas r = .firing token rest f) (hrow : f'.dueRow = f.dueRow)
    (hposted : f.posted = true → f'.posted = true) :
    Invariant (s.setReplica r (.firing token rest f')) := by
  have hf : (s.replicas r).firing? = some f := by rw [hr]; rfl
  refine h.setReplica (fun token' ht => ?_) (fun token' ht => ?_) (fun f₁ hf₁ => ?_)
    (fun f₁ hf₁ hp => ?_)
  · rw [hr]
    exact ht
  · rw [hr]
    exact ht
  · obtain rfl := Option.some.inj hf₁
    rw [hrow]
    exact h.loaded r f hf
  · obtain rfl := Option.some.inj (hf.symm.trans hf₁)
    exact ⟨f', rfl, hposted hp, hrow⟩

omit [DecidableEq R] in
theorem setQueue (h : Invariant s) (queue : SortedSet Job) : Invariant (s.setQueue queue) :=
  ⟨⟨h.owner, h.drawn, h.distinct⟩, h.loaded, h.past, h.once⟩

theorem create (h : Invariant s) {r : R} {token id : Uuid} {rest : List Uuid} {d : DueRow}
    {fn : Function} {version : FunctionVersion}
    (hr : s.replicas r = .firing token rest (.creating d fn version)) :
    Invariant ((s.setReplica r (.firing token rest
      (.enqueuing d (newExecution id d fn version) 0))).commitExecution
        (newExecution id d fn version).row d.due) := by
  have hf : (s.replicas r).firing? = some (.creating d fn version) := by rw [hr]; rfl
  have hmoved : Invariant (s.setReplica r (.firing token rest
      (.enqueuing d (newExecution id d fn version) 0))) := h.fires hr rfl (fun _ => rfl)
  have hocc : occurrences ((s.setReplica r (.firing token rest
      (.enqueuing d (newExecution id d fn version) 0))).commitExecution
        (newExecution id d fn version).row d.due) = occurrences s ++ [(some d.fresh.id, d.due)] := by
    simp [occurrences, newExecution, NewExecution.row]
  refine ⟨⟨hmoved.owner, hmoved.drawn, hmoved.distinct⟩, hmoved.loaded, ?_, ?_⟩
  · intro id' sch hsch due next hdue hnext
    rw [hocc, List.mem_append, List.mem_singleton] at hdue
    rcases hdue with hold | hnew
    · exact hmoved.past id' sch hsch due next hold hnext
    · obtain ⟨hid, rfl⟩ := Prod.mk.inj hnew
      have hkey : sch.id = id' := Table.key_of_get? hsch
      have hfresh : sch = d.fresh := by
        have hrow : Table.get? s.schedules d.fresh.id = some d.fresh := h.loaded r _ hf
        rw [← Option.some.inj hid, hkey] at hrow
        exact Option.some.inj (hsch.symm.trans hrow)
      subst sch
      refine Or.inr ⟨Option.some.inj (d.nextRun.symm.trans hnext), r,
        .enqueuing d (newExecution id d fn version) 0, ?_, rfl, rfl⟩
      simp [Replica.firing?]
  · rw [hocc, List.nodup_append]
    refine ⟨h.once, by simp, ?_⟩
    intro x hx y hy hxy
    obtain rfl : y = (some d.fresh.id, d.due) := by simpa using hy
    subst x
    exact absurd (h.before hf rfl hx) (Int.lt_irrefl _)

theorem reschedule (h : Invariant s) {r : R} {token : Uuid} {rest : List Uuid} {f : Firing}
    {g : Schedule → Schedule} {next : Time} (hr : s.replicas r = .firing token rest f)
    (hid : ∀ sch, (g sch).id = sch.id) (hnext : (g f.dueRow.fresh).nextRunAt = some next)
    (hlt : f.dueRow.due < next) :
    Invariant ((s.setReplica r (.looping token rest)).editSchedule f.dueRow.fresh.id g) := by
  have hf : (s.replicas r).firing? = some f := by rw [hr]; rfl
  have hexcluded := h.toExcluded.setReplica (r := r) (p := .looping token rest)
    (fun token' ht => h.owner r token' (by rw [hr]; exact ht)) (fun token' ht => by rw [hr]; exact ht)
  refine ⟨⟨hexcluded.owner, hexcluded.drawn, hexcluded.distinct⟩, ?_, ?_, h.once⟩
  · intro q f' hq
    by_cases hqr : q = r
    · subst q
      simp [Replica.firing?] at hq
    · exact absurd (h.exclusive (by simpa [hqr] using hq) hf) hqr
  · intro id sch hsch due next' hdue hnext'
    by_cases hne : id = f.dueRow.fresh.id
    · subst id
      have hrow := Table.get?_modify_self (t := s.schedules) (k := f.dueRow.fresh.id) hid
      rw [h.loaded r f hf] at hrow
      obtain rfl := Option.some.inj (hsch.symm.trans hrow)
      rw [hid] at hdue
      obtain rfl := Option.some.inj (hnext.symm.trans hnext')
      exact Or.inl (Int.lt_of_le_of_lt (h.upto hf hdue) hlt)
    · have hrow : Table.get? s.schedules id = some sch := by
        rw [← hsch]
        exact (Table.get?_modify_of_ne hid hne).symm
      rcases h.past id sch hrow due next' hdue hnext' with hbefore | ⟨-, q, f', hq, -, hfresh⟩
      · exact Or.inl hbefore
      · obtain rfl := h.exclusive hq hf
        obtain rfl := Option.some.inj (hq.symm.trans hf)
        exact absurd ((Table.key_of_get? hrow).symm.trans (congrArg Schedule.id hfresh.symm)) hne

omit [DecidableEq R] in
theorem failExecution (h : Invariant s) (id : Uuid) (failure : Option Text) :
    Invariant (s.failExecution id failure) := by
  have hocc : occurrences (s.failExecution id failure) = occurrences s := by
    unfold occurrences
    rw [State.failExecution_executions, List.map_map]
    refine List.map_congr_left fun x _ => ?_
    cases failure with
    | none => rfl
    | some exc =>
      simp only [Function.comp]
      split_ifs
      · rfl
      · rfl
  refine ⟨⟨h.owner, h.drawn, h.distinct⟩, h.loaded, ?_, hocc ▸ h.once⟩
  intro id' sch hsch due next hdue
  exact h.past id' sch hsch due next (hocc ▸ hdue)

end Invariant
/-! ## Steps and runs -/

theorem firing?_setReplica {r : R} {p : Replica} (h : p.firing? = (s.replicas r).firing?) (q : R) :
    ((s.setReplica r p).replicas q).firing? = (s.replicas q).firing? := by
  by_cases hqr : q = r
  · subst q
    simpa using h
  · simp [hqr]

theorem Step.invariant (hnext : ∀ cron base, base < computeNext cron base) (h : Invariant s)
    (hguard : Guarded s a) (hstep : Step settings computeNext s a t) : Invariant t := by
  have hlater : ∀ d : DueRow, d.due < computeNext d.fresh.cronExpression d.now :=
    fun d => Int.lt_of_le_of_lt d.reached (hnext _ _)
  cases hstep with
  | beginTick hr fresh =>
    exact h.sameFirings (h.toExcluded.draw hr fresh) rfl rfl (firing?_setReplica (by rw [hr]; rfl))
  | attempt hr =>
    refine h.sameFirings (h.toExcluded.attempt hr) rfl rfl (firing?_setReplica ?_)
    rw [hr]
    split_ifs
    · rfl
    · rfl
  | @attemptLost r token hr =>
    have hidle := h.toExcluded.idle r
    exact h.sameFirings (hidle.setLock fun q token hq =>
      DistributedLock.setNx_holder (hidle.owner q token hq)) rfl rfl
      (firing?_setReplica (by rw [hr]; rfl))
  | giveUp hr =>
    exact h.leaves (fun _ ht => by cases ht) (fun _ ht => by rw [hr]; exact ht) rfl
      (fun _ hf => by rw [hr] at hf; cases hf)
  | select hr =>
    exact h.leaves (fun _ ht => by rw [hr]; exact ht) (fun _ ht => by rw [hr]; exact ht) rfl
      (fun _ hf => by rw [hr] at hf; cases hf)
  | refetchDue hr hrow =>
    refine h.setReplica (fun _ ht => by rw [hr]; exact ht) (fun _ ht => by rw [hr]; exact ht)
      (fun f hf => ?_) (fun _ hf => by rw [hr] at hf; cases hf)
    obtain rfl := Option.some.inj hf
    have hfresh := refetch_some hrow
    rwa [← Table.key_of_get? hfresh] at hfresh
  | refetchSkip hr hrow =>
    exact h.leaves (fun _ ht => by rw [hr]; exact ht) (fun _ ht => by rw [hr]; exact ht) rfl
      (fun _ hf => by rw [hr] at hf; cases hf)
  | routeRun hr hroute => exact h.fires hr rfl (fun hp => by cases hp)
  | routeSkip hr hroute => exact h.fires hr rfl (fun hp => by cases hp)
  | advance hr => exact h.reschedule hr (fun _ => rfl) rfl (hlater _)
  | create hr => exact h.create hr
  | createLost hr => exact hguard.elim
  | enqueueOk hr =>
    refine (h.fires hr ?_ fun _ => ?_).setQueue _
    · rfl
    · rfl
  | enqueueRaises hr =>
    refine (h.fires hr ?_ fun _ => ?_).setQueue _
    · split_ifs
      · rfl
      · rfl
    · split_ifs
      · rfl
      · rfl
  | update hr =>
    exact (h.failExecution _ _).reschedule hr (fun _ => rfl) rfl (hlater _)
  | endLoop hr =>
    exact h.leaves (fun _ ht => by cases ht) (fun _ ht => by rw [hr]; exact ht) rfl
      (fun _ hf => by rw [hr] at hf; cases hf)
  | fireRaises hr =>
    exact h.leaves (fun _ ht => by rw [hr]; exact ht) (fun _ ht => by rw [hr]; exact ht) rfl hguard
  | selectRaises hr =>
    exact h.leaves (fun _ ht => by cases ht) (fun _ ht => by rw [hr]; exact ht) rfl
      (fun _ hf => by rw [hr] at hf; cases hf)
  | attemptRaises hr =>
    exact h.leaves (fun _ ht => by cases ht) (fun _ ht => by cases ht) rfl
      (fun _ hf => by rw [hr] at hf; cases hf)
  | release hr =>
    exact h.sameFirings (h.toExcluded.release hr _) rfl rfl (firing?_setReplica (by rw [hr]; rfl))
  | crash => exact h.leaves (fun _ ht => by cases ht) (fun _ ht => by cases ht) rfl hguard
  | restart hr =>
    exact h.leaves (fun _ ht => by cases ht) (fun _ ht => by cases ht) rfl
      (fun _ hf => by rw [hr] at hf; cases hf)
  | expire =>
    have hx : Excluded (s.setLock none) := h.toExcluded.setLock fun r token hr =>
      absurd (h.owner r token hr) (hguard r token hr)
    exact h.sameFirings hx rfl rfl (fun _ => rfl)
  | rewriteRegistry =>
    exact h.sameFirings ⟨h.owner, h.drawn, h.distinct⟩ rfl rfl (fun _ => rfl)

/-- In a run of any number of replicas in which the key of a live holder does not
expire and nothing fails between the commit of an execution and the commit of
its schedule, no due occurrence has two executions. -/
theorem due_occurrence_fires_once (hnext : ∀ cron base, base < computeNext cron base)
    (hs : IsInitial s)
    (h : Run (fun s a t => Guarded s a ∧ Step settings computeNext s a t) s as t) :
    (occurrences t).Nodup :=
  (h.invariant (fun _ _ _ hi hstep => hstep.2.invariant hnext hi hstep.1)
    (invariant_initial hs)).once

/-! ## Sample runs -/

def sampleState : State Unit where
  schedules := [⟨1, 2, 7, "tick".toList, "* * * * *".toList, .obj [], .active, some 0, none, none, 0, 0, 0⟩]
  functions := [⟨2, 7, "f".toList, none, "python3.12".toList, .active, some 3, none, 0, .obj [], 0, 0⟩]
  versions := [⟨3, 2, 1, "handler.handler".toList, "2/3.zip".toList, [], 0, .obj [], 30, 128, true, none, 0⟩]
  executions := []
  queue := []
  lock := none
  tokens := []
  replicas := fun _ => .idle

def everyMinute (_ : Text) (base : Time) : Time := (base / 60000000 + 1) * 60000000

theorem everyMinute_later (cron : Text) (base : Time) : base < everyMinute cron base := by
  have hminute : ∀ b : ℤ, b < (b / 60000000 + 1) * 60000000 := by
    intro b
    omega
  exact hminute base

theorem sampleState_initial : IsInitial sampleState := ⟨rfl, rfl, rfl, fun _ => rfl⟩

theorem due_occurrence_fires_once_sample :
    ∃ t : State Unit, occurrences t = [(some 1, 0)] ∧ (occurrences t).Nodup := by
  have hrun : Run (fun s a t => Guarded s a ∧ Step ⟨30, 3⟩ everyMinute s a t) sampleState
      [.beginTick () 10, .attempt (), .select () 5, .refetch () 5, .route () 0, .create () 20,
        .enqueue () 0 true none, .update (), .endLoop (), .release () true] _ :=
    .cons ⟨by trivial, .beginTick rfl (by decide)⟩ (.cons ⟨by trivial, .attempt rfl⟩
    (.cons ⟨by trivial, .select rfl⟩ (.cons ⟨by trivial, .refetchDue rfl rfl⟩
    (.cons ⟨by trivial, .routeRun rfl rfl⟩ (.cons ⟨by trivial, .create rfl⟩
    (.cons ⟨by trivial, .enqueueOk rfl⟩ (.cons ⟨by trivial, .update rfl⟩
    (.cons ⟨by trivial, .endLoop rfl⟩ (.cons ⟨by trivial, .release rfl⟩ (.nil _))))))))))
  exact ⟨_, rfl, due_occurrence_fires_once everyMinute_later sampleState_initial hrun⟩

/-- The run of the defect: the refresh or the enqueue behind the commit of the
execution raises, the schedule is rolled back, and the next tick fires again. -/
theorem due_occurrence_fires_twice :
    ¬ ∀ (s t : State Unit) (as : List (Action Unit)), IsInitial s →
      Run (Step ⟨30, 3⟩ everyMinute) s as t → (occurrences t).Nodup := by
  intro hclaim
  have hrun : Run (Step ⟨30, 3⟩ everyMinute) sampleState
      [.beginTick () 10, .attempt (), .select () 5, .refetch () 5, .route () 0, .create () 20,
        .fireRaises (), .endLoop (), .release () true, .beginTick () 11, .attempt (),
        .select () 6, .refetch () 6, .route () 0, .create () 21] _ :=
    .cons (.beginTick rfl (by decide)) (.cons (.attempt rfl) (.cons (.select rfl)
    (.cons (.refetchDue rfl rfl) (.cons (.routeRun rfl rfl) (.cons (.create rfl)
    (.cons (.fireRaises rfl) (.cons (.endLoop rfl) (.cons (.release rfl)
    (.cons (.beginTick rfl (by decide)) (.cons (.attempt rfl) (.cons (.select rfl)
    (.cons (.refetchDue rfl rfl) (.cons (.routeRun rfl rfl) (.cons (.create rfl) (.nil _)))))))))))))))
  have hnodup := hclaim _ _ _ sampleState_initial hrun
  exact absurd hnodup (by decide)

end PyFaaS.Scheduler
