import PyFaaS.Isolation.Statements
import PyFaaS.Routers.Schedules

/-!
# The schedule routes are isolated
-/

namespace PyFaaS.Api
open Noninterference Transactions Database

variable {u : Uuid} {P : Database → Prop} {s : Database} {settings : ApiSettings} {g : Given}

theorem schedule_owned (hs : WellFormed s) {r : Schedule} (hr : r ∈ s.schedules) (howner : r.ownerId = u) :
    s.ownsFunction u r.functionId = true :=
  howner ▸ hs.scheduleOwner r hr

theorem listSchedules_isolated (p : Page) : IsolatedFor u P (listSchedules u p) fun _ _ => True := by
  unfold listSchedules
  refine Isolated.bind (isolated_query ?_) fun rows => isolated_return _
  intro s hs _
  apply Table.filter_owned
  intro r hr howner
  exact schedule_owned hs hr (of_decide_eq_true howner)

theorem createSchedule_isolated (functionId : Uuid) (body : ScheduleCreate) :
    IsolatedFor u (Supplied settings g) (createSchedule settings u g functionId body) fun _ _ => True := by
  unfold createSchedule
  refine Isolated.bind (findFunctionOr404_isolated functionId) fun fn => Isolated.bind (Isolated.found _ _) fun next =>
    Isolated.bind (isolated_write (R := fun _ => True) ?_) fun _ => isolated_return _
  rintro s hs ⟨⟨hsupplied, hfn, -⟩, -⟩
  exact ⟨insertSchedule_confined hs hfn.owns rfl hsupplied.id, trivial⟩

theorem findScheduleOr404_isolated (scheduleId : Uuid) :
    IsolatedFor u P (findScheduleOr404 u scheduleId) fun r s =>
      r ∈ s.schedules ∧ s.ownsFunction u r.functionId = true := by
  unfold findScheduleOr404
  refine Isolated.bind (isolated_query ?_) fun row => (Isolated.found _ _).post ?_
  · intro s hs _
    apply Table.find?_owned
    intro r hr hprop
    exact schedule_owned hs hr (of_decide_eq_true (Bool.and_eq_true_iff.mp hprop).2)
  · rintro r s hs ⟨⟨-, hrow⟩, rfl⟩
    have hprop := List.find?_some hrow.symm
    have hmem := List.mem_of_find?_eq_some hrow.symm
    exact ⟨hmem, schedule_owned hs hmem (of_decide_eq_true (Bool.and_eq_true_iff.mp hprop).2)⟩

theorem getSchedule_isolated (scheduleId : Uuid) :
    IsolatedFor u P (getSchedule u scheduleId) fun _ _ => True :=
  Isolated.bind (findScheduleOr404_isolated scheduleId) fun _ => isolated_return _

theorem touchSchedule_columns (now : Time) (edit : Schedule → Schedule) (r : Schedule) :
    (touchSchedule now edit r).id = (edit r).id ∧
      (touchSchedule now edit r).functionId = (edit r).functionId ∧
      (touchSchedule now edit r).ownerId = (edit r).ownerId := by
  unfold touchSchedule
  split_ifs with h
  · rw [h]
    exact ⟨rfl, rfl, rfl⟩
  · exact ⟨rfl, rfl, rfl⟩

theorem updateSchedule_isolated (scheduleId : Uuid) (body : ScheduleUpdate) :
    IsolatedFor u P (updateSchedule settings u g scheduleId body) fun _ _ => True := by
  unfold updateSchedule
  refine Isolated.bind (findScheduleOr404_isolated scheduleId) fun r => Isolated.bind (Isolated.found _ _) fun next =>
    Isolated.bind (isolated_write (R := fun _ => True) ?_) fun _ => isolated_return _
  rintro s hs ⟨⟨hr, hown⟩, -⟩
  exact ⟨updateSchedule_confined hs hr hown (touchSchedule_columns g.now (body.edit next)), trivial⟩

theorem deleteSchedule_isolated (scheduleId : Uuid) :
    IsolatedFor u P (deleteSchedule u scheduleId) fun _ _ => True := by
  unfold deleteSchedule
  refine Isolated.bind (findScheduleOr404_isolated scheduleId) fun r =>
    Isolated.bind (isolated_write (R := fun _ => True) ?_) fun _ => isolated_return _
  rintro s hs ⟨hr, hown⟩
  refine ⟨deleteSchedules_confined hs ?_, trivial⟩
  intro r' hr' hid
  rwa [List.inj_on_of_nodup_map hs.scheduleIds hr' hr (of_decide_eq_true hid)]

end PyFaaS.Api
