import PyFaaS.ScheduleFiring

/-!
# One tick of one replica

`_process_due_schedules` with `_fire_schedule` as a loop over the schedules that
were due. Every firing has its own clock reading and finds the registry as it is
then, and it may raise anywhere, before or behind the commit of its execution. A
transaction that raises is rolled back.
-/

namespace PyFaaS.Scheduler

inductive Stage where
  | beforeInsert
  | afterInsert
  deriving DecidableEq

/-- What a firing meets; `raises` tells where an exception ends it. -/
structure Turn where
  now : Time
  functions : List Function
  versions : List FunctionVersion
  draw : ℕ
  newId : Uuid
  enqueueFails : Option Text
  raises : Option Stage

inductive Exit where
  | raised
  | notDue
  | functionMissing
  | noVersion
  | missedRun
  | enqueueFailed
  | succeeded
  deriving DecidableEq

def Exit.created : Exit → ℕ
  | .enqueueFailed | .succeeded => 1
  | _ => 0

structure Rows where
  schedules : List Schedule
  executions : List Execution

def Turn.conclude (turn : Turn) (exit : Exit) (w w' : Rows) : Exit × Rows :=
  if turn.raises.isSome then (.raised, w) else (exit, w')

section
variable (settings : SchedulerSettings) (computeNext : Text → Time → Time)

def fireSchedule (turn : Turn) (id : Uuid) (w : Rows) : Exit × Rows :=
  match refetch turn.now (Table.get? w.schedules id) with
  | none => turn.conclude .notDue w w
  | some d =>
    let next := computeNext d.fresh.cronExpression d.now
    let advanced := ⟨Table.modify w.schedules d.fresh.id (advance next), w.executions⟩
    match Table.get? turn.functions d.fresh.functionId with
    | none => turn.conclude .functionMissing w advanced
    | some fn =>
      match chooseExecutionVersion turn.versions fn turn.draw none with
      | none => turn.conclude .noVersion w advanced
      | some version =>
        if missedTooMany settings d then turn.conclude .missedRun w advanced
        else
          let n := newExecution turn.newId d fn version
          let recorded := Table.modify w.schedules d.fresh.id (recordRun d.now next n.id)
          match turn.raises, turn.enqueueFails with
          | some .beforeInsert, _ => (.raised, w)
          | some .afterInsert, _ => (.raised, ⟨w.schedules, w.executions ++ [n.row]⟩)
          | none, some exc => (.enqueueFailed, ⟨recorded, w.executions ++ [n.row.failEnqueue .scheduler exc]⟩)
          | none, none => (.succeeded, ⟨recorded, w.executions ++ [n.row]⟩)

def fireAll (turn : Uuid → Turn) : List Uuid → Rows → List (Uuid × Exit) × Rows
  | [], w => ([], w)
  | id :: ids, w =>
    let fired := fireSchedule settings computeNext (turn id) id w
    let rest := fireAll turn ids fired.2
    ((id, fired.1) :: rest.1, rest.2)

def processDueSchedules (now : Time) (turn : Uuid → Turn) (w : Rows) : List (Uuid × Exit) × Rows :=
  fireAll settings computeNext turn (dueSchedules now w.schedules) w

end

/-! ## One firing -/

def createdFor (id : Uuid) (created : List Execution) : ℕ := created.countP fun e => decide (e.scheduleId = some id)

structure Outcome (turn : Turn) (id : Uuid) (w : Rows) (exit : Exit) (w' : Rows) (created : List Execution) : Prop where
  raised : exit = .raised ↔ turn.raises.isSome = true
  kept : exit = .raised → Table.get? w'.schedules id = Table.get? w.schedules id
  count : exit ≠ .raised → createdFor id created = exit.created
  advanced : exit ≠ .raised → ∀ s, Table.get? w.schedules id = some s → s.status = .active →
    s.nextRunAt.isSome = true → ∃ s' next, Table.get? w'.schedules id = some s' ∧ s'.nextRunAt = some next ∧
      turn.now < next

structure Fires (ids : List Uuid) (w w' : Rows) (created : List Execution) : Prop where
  executions : w'.executions = w.executions ++ created
  owned : ∀ e ∈ created, ∃ id ∈ ids, e.scheduleId = some id
  sameIds : w'.schedules.map Schedule.id = w.schedules.map Schedule.id
  others : ∀ j, j ∉ ids → Table.get? w'.schedules j = Table.get? w.schedules j

variable {settings : SchedulerSettings} {computeNext : Text → Time → Time} {turn : Turn} {id : Uuid} {w : Rows}

theorem refetch_eq_none {now : Time} {s : Schedule} (h : refetch now (some s) = none) (hactive : s.status = .active)
    (hnext : s.nextRunAt.isSome = true) : ∃ next, s.nextRunAt = some next ∧ now < next := by
  obtain ⟨next, hsome⟩ := Option.isSome_iff_exists.mp hnext
  refine ⟨next, hsome, ?_⟩
  by_contra hdue
  unfold refetch at h
  simp only [hactive, ne_eq, not_true_eq_false, if_false] at h
  split at h
  · rename_i hnone
    rw [hsome] at hnone
    cases hnone
  · rename_i due hdue'
    obtain rfl : next = due := Option.some.inj (hsome.symm.trans hdue')
    rw [dif_pos (Int.not_lt.mp hdue)] at h
    cases h

theorem refetch_now {now : Time} {row : Option Schedule} {d : DueRow} (h : refetch now row = some d) : d.now = now := by
  unfold refetch at h
  split at h
  · cases h
  · split_ifs at h
    split at h
    · cases h
    · split_ifs at h
      rw [← Option.some.inj h]

theorem createdFor_own {created : List Execution} (h : ∀ e ∈ created, e.scheduleId = some id) :
    createdFor id created = created.length := by
  rw [createdFor, List.countP_eq_length]
  exact fun e he => decide_eq_true (h e he)

theorem createdFor_other {created : List Execution} {ids : List Uuid}
    (h : ∀ e ∈ created, ∃ j ∈ ids, e.scheduleId = some j) (hid : id ∉ ids) : createdFor id created = 0 := by
  rw [createdFor, List.countP_eq_zero]
  intro e he hown
  obtain ⟨j, hj, hscheduled⟩ := h e he
  rw [hscheduled, decide_eq_true_iff] at hown
  exact hid (Option.some.inj hown ▸ hj)

structure FiringEffect (turn : Turn) (id : Uuid) (w : Rows) (exit : Exit) (w' : Rows) (created : List Execution) :
    Prop where
  fires : Fires [id] w w' created
  outcome : Outcome turn id w exit w' created
  newId : ∀ e ∈ created, e.id = turn.newId

theorem effect_raised {created : List Execution} (h : turn.raises.isSome = true)
    (howned : ∀ e ∈ created, e.scheduleId = some id ∧ e.id = turn.newId) :
    FiringEffect turn id w .raised ⟨w.schedules, w.executions ++ created⟩ created := by
  refine ⟨⟨rfl, fun e he => ⟨id, by simp, (howned e he).1⟩, rfl, fun _ _ => rfl⟩, ⟨?_, fun _ => rfl, ?_, ?_⟩,
    fun e he => (howned e he).2⟩
  · exact iff_of_true rfl h
  · exact fun hne => absurd rfl hne
  · exact fun hne => absurd rfl hne

theorem effect_edited {exit : Exit} {created : List Execution} {row : Schedule} {edit : Schedule → Schedule}
    {next : Time} (hraises : turn.raises = none) (hexit : exit ≠ .raised)
    (hrow : Table.get? w.schedules id = some row) (hid : ∀ s, (edit s).id = s.id)
    (hedit : ∀ s, (edit s).nextRunAt = some next) (hnext : turn.now < next)
    (howned : ∀ e ∈ created, e.scheduleId = some id ∧ e.id = turn.newId) (hcount : created.length = exit.created) :
    FiringEffect turn id w exit ⟨Table.modify w.schedules row.id edit, w.executions ++ created⟩ created := by
  have hkey : row.id = id := Table.key_of_get? hrow
  refine ⟨⟨rfl, fun e he => ⟨id, by simp, (howned e he).1⟩, Table.map_modify hid, fun j hj => ?_⟩,
    ⟨?_, fun h => absurd h hexit, ?_, ?_⟩, fun e he => (howned e he).2⟩
  · exact Table.get?_modify_of_ne hid (hkey ▸ List.ne_of_not_mem_cons hj)
  · simp [hexit, hraises]
  · exact fun _ => (createdFor_own fun e he => (howned e he).1).trans hcount
  · intro _ s hs _ _
    refine ⟨edit s, next, ?_, hedit s, hnext⟩
    have hself := Table.get?_modify_self (t := w.schedules) (k := row.id) hid
    rw [hkey, hs] at hself
    rw [hkey]
    exact hself

theorem effect_notDue (h : refetch turn.now (Table.get? w.schedules id) = none) (hraises : turn.raises = none) :
    FiringEffect turn id w .notDue w [] := by
  refine ⟨⟨(List.append_nil _).symm, by simp, rfl, fun _ _ => rfl⟩, ⟨?_, fun _ => rfl, fun _ => rfl, ?_⟩, by simp⟩
  · simp [hraises]
  intro _ s hs hactive hnext
  rw [hs] at h
  obtain ⟨next, hsome, hlater⟩ := refetch_eq_none h hactive hnext
  exact ⟨s, next, hs, hsome, hlater⟩

theorem effect_conclude {exit : Exit} {w' : Rows} (h : turn.raises = none → FiringEffect turn id w exit w' []) :
    FiringEffect turn id w (turn.conclude exit w w').1 (turn.conclude exit w w').2 [] := by
  cases hraises : turn.raises with
  | none =>
    have hconclude : turn.conclude exit w w' = (exit, w') := by simp [Turn.conclude, hraises]
    rw [hconclude]
    exact h hraises
  | some stage =>
    have hconclude : turn.conclude exit w w' = (.raised, w) := by simp [Turn.conclude, hraises]
    have heffect : FiringEffect turn id w .raised ⟨w.schedules, w.executions ++ []⟩ [] :=
      effect_raised (by simp [hraises]) (by simp)
    rw [hconclude]
    rwa [List.append_nil] at heffect

def Turn.submit (turn : Turn) (n : NewExecution) (recorded : List Schedule) (w : Rows) : Exit × Rows :=
  match turn.raises, turn.enqueueFails with
  | some .beforeInsert, _ => (.raised, w)
  | some .afterInsert, _ => (.raised, ⟨w.schedules, w.executions ++ [n.row]⟩)
  | none, some exc => (.enqueueFailed, ⟨recorded, w.executions ++ [n.row.failEnqueue .scheduler exc]⟩)
  | none, none => (.succeeded, ⟨recorded, w.executions ++ [n.row]⟩)

section
variable (computeNext) {d : DueRow} (hrow : refetch turn.now (Table.get? w.schedules id) = some d)
include hrow

theorem fireSchedule_skips (hroute : route settings turn.functions turn.versions turn.draw d = none) :
    ∃ exit : Exit, exit ≠ .raised ∧ exit.created = 0 ∧ fireSchedule settings computeNext turn id w =
      turn.conclude exit w ⟨Table.modify w.schedules d.fresh.id
        (advance (computeNext d.fresh.cronExpression d.now)), w.executions⟩ := by
  unfold route at hroute
  simp only [fireSchedule, hrow]
  cases hfn : Table.get? turn.functions d.fresh.functionId with
  | none => exact ⟨.functionMissing, by simp, rfl, rfl⟩
  | some fn =>
    cases hversion : chooseExecutionVersion turn.versions fn turn.draw none with
    | none => exact ⟨.noVersion, by simp, rfl, by simp [hversion]⟩
    | some version =>
      cases hmissed : missedTooMany settings d with
      | true => exact ⟨.missedRun, by simp, rfl, by simp [hversion]⟩
      | false => simp [hfn, hversion, hmissed] at hroute

theorem fireSchedule_submits {fn : Function} {version : FunctionVersion}
    (hroute : route settings turn.functions turn.versions turn.draw d = some (fn, version)) :
    fireSchedule settings computeNext turn id w =
      turn.submit (newExecution turn.newId d fn version) (Table.modify w.schedules d.fresh.id
        (recordRun d.now (computeNext d.fresh.cronExpression d.now) turn.newId)) w := by
  unfold route at hroute
  simp only [fireSchedule, hrow]
  cases hfn : Table.get? turn.functions d.fresh.functionId with
  | none => simp [hfn] at hroute
  | some fn' =>
    cases hversion : chooseExecutionVersion turn.versions fn' turn.draw none with
    | none => simp [hfn, hversion] at hroute
    | some version' =>
      cases hmissed : missedTooMany settings d with
      | true => simp [hfn, hversion, hmissed] at hroute
      | false =>
        simp only [hfn, hversion, hmissed, Bool.false_eq_true, if_false, Option.some.injEq, Prod.mk.injEq] at hroute
        obtain ⟨rfl, rfl⟩ := hroute
        simp only [hversion, Bool.false_eq_true, if_false]
        rfl

end

theorem effect_submit {row : Schedule} {n : NewExecution} {edit : Schedule → Schedule} {next : Time}
    (hrow : Table.get? w.schedules id = some row) (hid : ∀ s, (edit s).id = s.id)
    (hedit : ∀ s, (edit s).nextRunAt = some next) (hnext : turn.now < next)
    (howner : n.row.scheduleId = some id ∧ n.row.id = turn.newId) :
    ∃ created, FiringEffect turn id w (turn.submit n (Table.modify w.schedules row.id edit) w).1
      (turn.submit n (Table.modify w.schedules row.id edit) w).2 created := by
  unfold Turn.submit
  cases hraises : turn.raises with
  | some stage =>
    have hraised : turn.raises.isSome = true := by simp [hraises]
    cases stage with
    | beforeInsert =>
      refine ⟨[], ?_⟩
      have heffect : FiringEffect turn id w .raised ⟨w.schedules, w.executions ++ []⟩ [] :=
        effect_raised hraised (by simp)
      rwa [List.append_nil] at heffect
    | afterInsert => exact ⟨[_], effect_raised hraised (List.forall_mem_singleton.mpr howner)⟩
  | none =>
    cases turn.enqueueFails with
    | none =>
      exact ⟨[_], effect_edited hraises (by simp) hrow hid hedit hnext (List.forall_mem_singleton.mpr howner) rfl⟩
    | some exc =>
      exact ⟨[_], effect_edited hraises (by simp) hrow hid hedit hnext (List.forall_mem_singleton.mpr howner) rfl⟩

variable (settings) in
theorem fireSchedule_effect (hnext : ∀ cron base, base < computeNext cron base) (turn : Turn) (id : Uuid) (w : Rows) :
    ∃ created, FiringEffect turn id w (fireSchedule settings computeNext turn id w).1
      (fireSchedule settings computeNext turn id w).2 created := by
  cases hrow : refetch turn.now (Table.get? w.schedules id) with
  | none =>
    have hskips : fireSchedule settings computeNext turn id w = turn.conclude .notDue w w := by
      simp only [fireSchedule, hrow]
    rw [hskips]
    exact ⟨[], effect_conclude (effect_notDue hrow)⟩
  | some d =>
    have hfresh := refetch_some hrow
    have hnow := refetch_now hrow
    have hlater : turn.now < computeNext d.fresh.cronExpression d.now := hnow ▸ hnext _ _
    cases hroute : route settings turn.functions turn.versions turn.draw d with
    | none =>
      obtain ⟨exit, hexit, hcount, hskips⟩ := fireSchedule_skips computeNext hrow hroute
      rw [hskips]
      refine ⟨[], effect_conclude fun hraises => ?_⟩
      have heffect : FiringEffect turn id w exit ⟨Table.modify w.schedules d.fresh.id
          (advance (computeNext d.fresh.cronExpression d.now)), w.executions ++ []⟩ [] :=
        effect_edited hraises hexit hfresh (fun _ => rfl) (fun _ => rfl) hlater (by simp) hcount.symm
      rwa [List.append_nil] at heffect
    | some p =>
      obtain ⟨fn, version⟩ := p
      have hid : d.fresh.id = id := Table.key_of_get? hfresh
      rw [fireSchedule_submits computeNext hrow hroute]
      exact effect_submit hfresh (fun _ => rfl) (fun _ => rfl) hlater ⟨congrArg some hid, rfl⟩

/-! ## The loop -/

theorem Outcome.congr {v v' w' : Rows} {exit : Exit} {created created' : List Execution}
    (h : Outcome turn id w exit w' created) (hbefore : Table.get? v.schedules id = Table.get? w.schedules id)
    (hafter : Table.get? v'.schedules id = Table.get? w'.schedules id)
    (hcount : createdFor id created' = createdFor id created) : Outcome turn id v exit v' created' := by
  refine ⟨h.raised, ?_, ?_, ?_⟩
  · rw [hbefore, hafter]
    exact h.kept
  · rw [hcount]
    exact h.count
  · rw [hbefore, hafter]
    exact h.advanced

theorem fireAll_exits (turn : Uuid → Turn) (ids : List Uuid) (w : Rows) :
    (fireAll settings computeNext turn ids w).1.map Prod.fst = ids := by
  induction ids generalizing w with
  | nil => rfl
  | cons id ids ih => rw [fireAll, List.map_cons, ih]

variable (settings) in
theorem fireAll_outcomes (hnext : ∀ cron base, base < computeNext cron base) (turn : Uuid → Turn) {ids : List Uuid}
    (hids : ids.Nodup) (w : Rows) : ∃ created, Fires ids w (fireAll settings computeNext turn ids w).2 created ∧
      ∀ id ∈ ids, ∃ exit, (id, exit) ∈ (fireAll settings computeNext turn ids w).1 ∧
        Outcome (turn id) id w exit (fireAll settings computeNext turn ids w).2 created := by
  induction ids generalizing w with
  | nil => exact ⟨[], ⟨(List.append_nil _).symm, by simp, rfl, fun _ _ => rfl⟩, by simp⟩
  | cons id ids ih =>
    obtain ⟨hnot, hrest⟩ := List.nodup_cons.mp hids
    obtain ⟨first, hfires, houtcome, -⟩ := fireSchedule_effect settings hnext (turn id) id w
    obtain ⟨more, hmore, hothers⟩ := ih hrest (fireSchedule settings computeNext (turn id) id w).2
    have hcount : ∀ j, createdFor j (first ++ more) = createdFor j first + createdFor j more :=
      fun j => List.countP_append
    refine ⟨first ++ more, ⟨?_, ?_, hmore.sameIds.trans hfires.sameIds, ?_⟩, ?_⟩
    · rw [fireAll, hmore.executions, hfires.executions, List.append_assoc]
    · intro e he
      cases List.mem_append.mp he with
      | inl he =>
        obtain ⟨j, hj, hown⟩ := hfires.owned e he
        exact ⟨j, List.mem_cons.mpr (Or.inl (List.mem_singleton.mp hj)), hown⟩
      | inr he =>
        obtain ⟨j, hj, hown⟩ := hmore.owned e he
        exact ⟨j, List.mem_cons_of_mem _ hj, hown⟩
    · intro j hj
      obtain ⟨hne, hrestj⟩ := List.ne_and_not_mem_of_not_mem_cons hj
      exact (hmore.others j hrestj).trans (hfires.others j (by simpa using hne))
    · rw [List.forall_mem_cons]
      constructor
      · refine ⟨_, List.mem_cons_self, houtcome.congr rfl (hmore.others id hnot) ?_⟩
        rw [hcount, createdFor_other hmore.owned hnot, Nat.add_zero]
      · intro j hj
        have hne : j ≠ id := fun heq => hnot (heq ▸ hj)
        obtain ⟨exit, hexit, hown⟩ := hothers j hj
        refine ⟨exit, List.mem_cons_of_mem _ hexit, hown.congr ?_ rfl ?_⟩
        · exact (hfires.others j (by simpa using hne)).symm
        · rw [hcount, createdFor_other hfires.owned (by simpa using hne), Nat.zero_add]

def Due (now : Time) (s : Schedule) : Prop := s.status = .active ∧ ∃ due, s.nextRunAt = some due ∧ due ≤ now

theorem mem_dueSchedules {now : Time} {schedules : List Schedule} :
    id ∈ dueSchedules now schedules ↔ ∃ s ∈ schedules, Due now s ∧ s.id = id := by
  have hany : ∀ s : Schedule, (s.nextRunAt.any fun due => decide (due ≤ now)) = true ↔
      ∃ due, s.nextRunAt = some due ∧ due ≤ now := by
    intro s
    cases s.nextRunAt <;> simp
  simp only [dueSchedules, List.mem_map, List.mem_filter, Bool.and_eq_true, decide_eq_true_iff, hany, Due, and_assoc]

/-- The loop goes through all schedules that are due, whichever firings raise. A firing that returns leaves a later
`next_run_at` and the executions of its branch, one that raises leaves its schedule, and no other schedule changes. -/
theorem processDueSchedules_isolates (settings : SchedulerSettings) (computeNext : Text → Time → Time)
    (hnext : ∀ cron base, base < computeNext cron base) (now : Time) (turn : Uuid → Turn) (w : Rows)
    (hids : (w.schedules.map Schedule.id).Nodup) :
    ∃ created, (processDueSchedules settings computeNext now turn w).2.executions = w.executions ++ created ∧
      (∀ s ∈ w.schedules, Due now s →
        ∃ exit, (s.id, exit) ∈ (processDueSchedules settings computeNext now turn w).1 ∧
          (∀ other, (s.id, other) ∈ (processDueSchedules settings computeNext now turn w).1 → other = exit) ∧
          (exit = .raised ↔ (turn s.id).raises.isSome = true) ∧
          (exit = .raised → s ∈ (processDueSchedules settings computeNext now turn w).2.schedules) ∧
          (exit ≠ .raised → createdFor s.id created = exit.created ∧
            ∃ s' ∈ (processDueSchedules settings computeNext now turn w).2.schedules, s'.id = s.id ∧
              ∃ next, s'.nextRunAt = some next ∧ (turn s.id).now < next)) ∧
      (∀ e ∈ created, ∃ s ∈ w.schedules, Due now s ∧ e.scheduleId = some s.id) ∧
      (∀ s ∈ w.schedules, ¬ Due now s → s ∈ (processDueSchedules settings computeNext now turn w).2.schedules) ∧
      (processDueSchedules settings computeNext now turn w).2.schedules.map Schedule.id =
        w.schedules.map Schedule.id := by
  have hdue : (dueSchedules now w.schedules).Nodup := hids.sublist (List.filter_sublist.map _)
  have hget : ∀ s ∈ w.schedules, Table.get? w.schedules s.id = some s := fun s hs => Table.get?_of_mem hids hs
  have hkeys : (processDueSchedules settings computeNext now turn w).1.map Prod.fst = dueSchedules now w.schedules :=
    fireAll_exits turn _ w
  obtain ⟨created, hfires, houtcomes⟩ := fireAll_outcomes settings hnext turn hdue w
  refine ⟨created, hfires.executions, fun s hs hsdue => ?_, fun e he => ?_, fun s hs hsdue => ?_, hfires.sameIds⟩
  · obtain ⟨exit, hexit, houtcome⟩ := houtcomes s.id (mem_dueSchedules.mpr ⟨s, hs, hsdue, rfl⟩)
    refine ⟨exit, hexit, fun other hother => ?_, houtcome.raised, fun hraised => ?_, fun hreturned => ?_⟩
    · have hpair := List.inj_on_of_nodup_map (hkeys ▸ hdue) hother hexit rfl
      exact (Prod.mk.inj hpair).2
    · exact List.mem_of_find?_eq_some ((houtcome.kept hraised).trans (hget s hs))
    · obtain ⟨hactive, due, hsome, -⟩ := hsdue
      obtain ⟨s', next, hs', hnext', hlater⟩ :=
        houtcome.advanced hreturned s (hget s hs) hactive (hsome ▸ rfl)
      have hid : s'.id = s.id := Table.key_of_get? hs'
      exact ⟨houtcome.count hreturned, s', List.mem_of_find?_eq_some hs', hid, next, hnext', hlater⟩
  · obtain ⟨id, hid, hown⟩ := hfires.owned e he
    obtain ⟨s, hs, hsdue, hsid⟩ := mem_dueSchedules.mp hid
    exact ⟨s, hs, hsdue, hsid ▸ hown⟩
  · have hnot : s.id ∉ dueSchedules now w.schedules := by
      intro hmem
      obtain ⟨s', hs', hs'due, hid⟩ := mem_dueSchedules.mp hmem
      rw [List.inj_on_of_nodup_map hids hs' hs hid] at hs'due
      exact hsdue hs'due
    exact List.mem_of_find?_eq_some ((hfires.others s.id hnot).trans (hget s hs))

def sampleRow (id : Uuid) (next : Time) : Schedule :=
  ⟨id, 2, 7, "tick".toList, "* * * * *".toList, .obj [], .active, some next, none, none, 0, 0, 0⟩

def sampleTurn (id : Uuid) : Turn :=
  ⟨6, sampleState.functions, sampleState.versions, 0, 20, none, if id = 2 then some .afterInsert else none⟩

/-- Three schedules, the second one of which raises and the third of which is not due. -/
theorem processDueSchedules_isolates_three : ∃ t : Rows,
    t = (processDueSchedules ⟨30, 3⟩ everyMinute 5 sampleTurn ⟨[sampleRow 1 4, sampleRow 2 5, sampleRow 3 7], []⟩).2 ∧
    (∃ s ∈ t.schedules, s.id = 1 ∧ ∃ next, s.nextRunAt = some next ∧ 6 < next) ∧ sampleRow 2 5 ∈ t.schedules ∧
      sampleRow 3 7 ∈ t.schedules := by
  obtain ⟨created, -, hdue, -, hrest, -⟩ := processDueSchedules_isolates ⟨30, 3⟩ everyMinute everyMinute_later 5
    sampleTurn ⟨[sampleRow 1 4, sampleRow 2 5, sampleRow 3 7], []⟩ (by decide)
  obtain ⟨exit, -, -, hraised, -, hreturned⟩ := hdue (sampleRow 1 4) (by simp) ⟨rfl, 4, rfl, by decide⟩
  obtain ⟨exit', -, -, hraised', hkept, -⟩ := hdue (sampleRow 2 5) (by simp) ⟨rfl, 5, rfl, by decide⟩
  refine ⟨_, rfl, (hreturned ?_).2, hkept (hraised'.mpr rfl), hrest (sampleRow 3 7) (by simp) ?_⟩
  · exact fun h => absurd (hraised.mp h) (by decide)
  · intro ⟨_, due, hnext, hle⟩
    cases hnext
    exact absurd hle (by decide)

/-! ## The steps of a replica -/

section
open Runs
variable {R : Type} [DecidableEq R] {s : State R} {r : R} {token : Uuid} {rest : List Uuid} {d : DueRow}
  (settings) (computeNext)

def Shows (s : State R) (w : Rows) : Prop := s.schedules = w.schedules ∧ s.executions.map Fired.row = w.executions

theorem setReplica_self {p : Replica} : (s.setReplica r p).replicas r = p := Function.update_self ..

theorem refetch_runs (hr : s.replicas r = .looping token (id :: rest)) (hw : Shows s w)
    (hrow : refetch turn.now (Table.get? w.schedules id) = some d) : Step settings computeNext s (.refetch r turn.now)
      (s.setReplica r (.firing token rest (.loaded d))) := by
  rw [← hw.1] at hrow
  exact .refetchDue hr hrow

theorem advance_runs (hr : s.replicas r = .looping token (id :: rest)) (hw : Shows s w)
    (hrow : refetch turn.now (Table.get? w.schedules id) = some d)
    (hroute : route settings s.functions s.versions turn.draw d = none) (exit : Exit) :
    ∃ as t, Run (Step settings computeNext) s as t ∧ t.replicas r = .looping token rest ∧
      Shows t (turn.conclude exit w ⟨Table.modify w.schedules d.fresh.id
        (advance (computeNext d.fresh.cronExpression d.now)), w.executions⟩).2 := by
  have hloaded := refetch_runs settings computeNext hr hw hrow
  unfold Turn.conclude
  split_ifs
  · exact ⟨_, _, .cons hloaded (.single (.fireRaises setReplica_self)), setReplica_self, hw⟩
  · refine ⟨_, _, .cons hloaded (.cons (.routeSkip setReplica_self hroute) (.single (.advance setReplica_self))),
      setReplica_self, ?_, hw.2⟩
    exact congrArg (Table.modify · _ _) hw.1

theorem insert_runs {fn : Function} {version : FunctionVersion} (hr : s.replicas r = .looping token (id :: rest))
    (hw : Shows s w) (hrow : refetch turn.now (Table.get? w.schedules id) = some d)
    (hroute : route settings s.functions s.versions turn.draw d = some (fn, version)) :
    ∃ as t, Run (Step settings computeNext) s as t ∧
      t.replicas r = .firing token rest (.enqueuing d (newExecution turn.newId d fn version) 0) ∧
      Shows t ⟨w.schedules, w.executions ++ [(newExecution turn.newId d fn version).row]⟩ := by
  have hloaded := refetch_runs settings computeNext hr hw hrow
  refine ⟨_, _, .cons hloaded (.cons (.routeRun setReplica_self hroute) (.single (.create setReplica_self))),
    setReplica_self, hw.1, ?_⟩
  simp [hw.2]

theorem enqueueRaises_runs {n : NewExecution} {attempts : ℕ}
    (hr : s.replicas r = .firing token rest (.enqueuing d n attempts)) (hw : Shows s w) (exc : Text) :
    ∃ t, Step settings computeNext s (.enqueue r 0 false (some exc)) t ∧ Shows t w ∧
      t.replicas r = .firing token rest (if attempts + 1 < maxAttempts then .enqueuing d n (attempts + 1)
        else .updating d n (some exc)) :=
  ⟨_, .enqueueRaises hr, hw, setReplica_self⟩

theorem enqueue_runs {n : NewExecution} (hr : s.replicas r = .firing token rest (.enqueuing d n 0)) (hw : Shows s w)
    (failure : Option Text) : ∃ as t, Run (Step settings computeNext) s as t ∧
      t.replicas r = .firing token rest (.updating d n failure) ∧ Shows t w := by
  cases failure with
  | none =>
    have hok : Step settings computeNext s (.enqueue r 0 true none) _ := .enqueueOk hr
    exact ⟨_, _, .single hok, setReplica_self, hw⟩
  | some exc =>
    -- all attempts of `enqueue_job`
    obtain ⟨s₁, hfirst, hw₁, hr₁⟩ := enqueueRaises_runs settings computeNext hr hw exc
    obtain ⟨s₂, hsecond, hw₂, hr₂⟩ := enqueueRaises_runs settings computeNext hr₁ hw₁ exc
    obtain ⟨s₃, hthird, hw₃, hr₃⟩ := enqueueRaises_runs settings computeNext hr₂ hw₂ exc
    exact ⟨_, s₃, .cons hfirst (.cons hsecond (.single hthird)), hr₃, hw₃⟩

theorem update_runs {n : NewExecution} {failure : Option Text}
    (hr : s.replicas r = .firing token rest (.updating d n failure))
    (hw : Shows s ⟨w.schedules, w.executions ++ [n.row]⟩) (hnew : ∀ e ∈ w.executions, e.id ≠ n.id) :
    ∃ as t, Run (Step settings computeNext) s as t ∧ t.replicas r = .looping token rest ∧
      Shows t ⟨Table.modify w.schedules d.fresh.id
          (recordRun d.now (computeNext d.fresh.cronExpression d.now) n.id),
        w.executions ++ [failure.elim n.row (Execution.failEnqueue .scheduler · n.row)]⟩ := by
  refine ⟨_, _, .single (.update hr), setReplica_self, congrArg (Table.modify · _ _) hw.1, ?_⟩
  have hedited : (s.failExecution n.id failure).executions.map Fired.row = (s.executions.map Fired.row).map fun e =>
      if e.id = n.id then failure.elim e (Execution.failEnqueue .scheduler · e) else e := by
    rw [State.failExecution_executions, List.map_map, List.map_map]
    apply List.map_congr_left
    intro x _
    cases failure with
    | none => simp
    | some exc =>
      simp only [Function.comp_apply, Option.elim_some]
      split_ifs <;> rfl
  have hkept : w.executions.map (fun e => if e.id = n.id then failure.elim e (Execution.failEnqueue .scheduler · e)
      else e) = w.executions :=
    (List.map_congr_left fun e he => if_neg (hnew e he)).trans (List.map_id' _)
  have hown : n.row.id = n.id := rfl
  change (s.failExecution n.id failure).executions.map Fired.row = _
  rw [hedited, hw.2, List.map_append, hkept, List.map_singleton, if_pos hown]

theorem submit_runs {fn : Function} {version : FunctionVersion} (hr : s.replicas r = .looping token (id :: rest))
    (hw : Shows s w) (hrow : refetch turn.now (Table.get? w.schedules id) = some d)
    (hroute : route settings s.functions s.versions turn.draw d = some (fn, version))
    (hnew : ∀ e ∈ w.executions, e.id ≠ turn.newId) : ∃ as t, Run (Step settings computeNext) s as t ∧
      t.replicas r = .looping token rest ∧ Shows t (turn.submit (newExecution turn.newId d fn version)
        (Table.modify w.schedules d.fresh.id
          (recordRun d.now (computeNext d.fresh.cronExpression d.now) turn.newId)) w).2 := by
  have hloaded := refetch_runs settings computeNext hr hw hrow
  obtain ⟨as, t, hrun, hposted, ht⟩ := insert_runs settings computeNext hr hw hrow hroute
  unfold Turn.submit
  cases turn.raises with
  | some stage =>
    cases stage with
    | beforeInsert => exact ⟨_, _, .cons hloaded (.single (.fireRaises setReplica_self)), setReplica_self, hw⟩
    | afterInsert => exact ⟨_, _, hrun.append (.single (.fireRaises hposted)), setReplica_self, ht⟩
  | none =>
    obtain ⟨bs, t', hqueued, hupdating, ht'⟩ := enqueue_runs settings computeNext hposted ht turn.enqueueFails
    obtain ⟨cs, t'', hupdated, hlooping, ht''⟩ := update_runs settings computeNext hupdating ht' hnew
    refine ⟨_, t'', (hrun.append hqueued).append hupdated, hlooping, ?_⟩
    cases hfails : turn.enqueueFails with
    | none =>
      rw [hfails] at ht''
      exact ht''
    | some exc =>
      rw [hfails] at ht''
      exact ht''

theorem fireSchedule_runs (hr : s.replicas r = .looping token (id :: rest)) (hw : Shows s w)
    (hfunctions : s.functions = turn.functions) (hversions : s.versions = turn.versions)
    (hnew : ∀ e ∈ w.executions, e.id ≠ turn.newId) : ∃ as t, Run (Step settings computeNext) s as t ∧
      t.replicas r = .looping token rest ∧ Shows t (fireSchedule settings computeNext turn id w).2 := by
  cases hrow : refetch turn.now (Table.get? w.schedules id) with
  | none =>
    have hkept : (fireSchedule settings computeNext turn id w).2 = w := by
      simp only [fireSchedule, hrow, Turn.conclude]
      split_ifs <;> rfl
    have hgone : refetch turn.now (Table.get? s.schedules id) = none := by rw [hw.1, hrow]
    refine ⟨_, _, .single (.refetchSkip hr hgone), setReplica_self, ?_⟩
    rw [hkept]
    exact hw
  | some d =>
    have hsame : route settings s.functions s.versions turn.draw d =
        route settings turn.functions turn.versions turn.draw d := by rw [hfunctions, hversions]
    cases hroute : route settings turn.functions turn.versions turn.draw d with
    | none =>
      obtain ⟨exit, -, -, hskips⟩ := fireSchedule_skips computeNext hrow hroute
      rw [hskips]
      exact advance_runs settings computeNext hr hw hrow (hsame.trans hroute) exit
    | some p =>
      obtain ⟨fn, version⟩ := p
      rw [fireSchedule_submits computeNext hrow hroute]
      exact submit_runs settings computeNext hr hw hrow (hsame.trans hroute) hnew

theorem fireAll_runs (hnext : ∀ cron base, base < computeNext cron base) {turn : Uuid → Turn} {ids : List Uuid}
    (hr : s.replicas r = .looping token ids) (hw : Shows s w) (hdistinct : (ids.map fun id => (turn id).newId).Nodup)
    (hnew : ∀ id ∈ ids, ∀ e ∈ w.executions, e.id ≠ (turn id).newId) :
    ∃ as t, Run (Step settings computeNext) s as t ∧ t.replicas r = .looping token [] ∧
      Shows t (fireAll settings computeNext turn ids w).2 := by
  induction ids generalizing s w with
  | nil => exact ⟨[], s, .nil s, hr, hw⟩
  | cons id ids ih =>
    obtain ⟨hnot, hrest⟩ := List.nodup_cons.mp hdistinct
    obtain ⟨hid, hids⟩ := List.forall_mem_cons.mp hnew
    -- the registry is as this firing finds it
    have hregistry : Step settings computeNext s (.rewriteRegistry (turn id).functions (turn id).versions)
        (s.setRegistry (turn id).functions (turn id).versions) := .rewriteRegistry
    obtain ⟨as, t, hrun, hlooping, ht⟩ := fireSchedule_runs settings computeNext
      (s := s.setRegistry (turn id).functions (turn id).versions) hr hw rfl rfl hid
    obtain ⟨first, heffect⟩ := fireSchedule_effect settings hnext (turn id) id w
    have hfresh : ∀ j ∈ ids, ∀ e ∈ (fireSchedule settings computeNext (turn id) id w).2.executions,
        e.id ≠ (turn j).newId := by
      intro j hj e he
      rw [heffect.fires.executions] at he
      cases List.mem_append.mp he with
      | inl he => exact hids j hj e he
      | inr he =>
        rw [heffect.newId e he]
        exact fun heq => hnot (List.mem_map.mpr ⟨j, hj, heq.symm⟩)
    obtain ⟨bs, t', hmore, hdone, ht'⟩ := ih hlooping ht hrest hfresh
    exact ⟨_, t', .cons hregistry (hrun.append hmore), hdone, ht'⟩

/-- The tick is a run of one replica from the select to the end of its loop. -/
theorem processDueSchedules_runs (hnext : ∀ cron base, base < computeNext cron base) {now : Time}
    {turn : Uuid → Turn} (hr : s.replicas r = .selecting token) (hw : Shows s w)
    (hdistinct : ((dueSchedules now w.schedules).map fun id => (turn id).newId).Nodup)
    (hnew : ∀ id ∈ dueSchedules now w.schedules, ∀ e ∈ w.executions, e.id ≠ (turn id).newId) :
    ∃ as t, Run (Step settings computeNext) s as t ∧ t.replicas r = .releasing token ∧
      Shows t (processDueSchedules settings computeNext now turn w).2 := by
  have hselect : Step settings computeNext s (.select r now)
      (s.setReplica r (.looping token (dueSchedules now w.schedules))) := hw.1 ▸ .select hr
  obtain ⟨as, t, hrun, hlooping, ht⟩ := fireAll_runs settings computeNext hnext
    (s := s.setReplica r (.looping token (dueSchedules now w.schedules))) setReplica_self hw hdistinct hnew
  exact ⟨_, _, .cons hselect (hrun.append (.single (.endLoop hlooping))), setReplica_self, ht⟩

end

end PyFaaS.Scheduler
