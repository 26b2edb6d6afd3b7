import GfDit.Scheduler.Balance

/-!
# Dependents

The scheduler lists, under the id of a task, the tasks that wait for it. A
list names indexed tasks only, and none more often than it depends on the
task; so a launch makes runnable what depended on it.
-/

namespace GfDit

open History Agenda

/-- The dependencies of a task are tasks of its own plan. -/
def Workload.Closed (load : Workload) : Prop :=
  ∀ requestId, ∀ task ∈ (load.plan requestId).tasks.values, ∀ dependency ∈ task.dependencies,
    dependency ∈ (load.plan requestId).tasks.keys

theorem Workload.Closed.request_eq {load : Workload} (hc : load.Closed) (hhas : load.Has task)
    (hother : load.Has other) (hd : other.taskId ∈ task.dependencies) :
    other.requestId = task.requestId := by
  obtain ⟨found, hget⟩ := Option.isSome_iff_exists.mp
    ((Dict.mem_keys ..).mp (hc _ task hhas _ hd))
  have hin := Dict.mem_values_of_get? hget
  rw [hother.eq (.of_mem hin) (load.keyed _ _ found hget).symm]
  exact (load.owned _ found hin).1

namespace Scheduler

variable {σ : Type} {rt : Runtime σ} {load : Workload} {s s' : Scheduler σ}

structure Linked (s : Scheduler σ) : Prop where
  known : ∀ taskId, ∀ dependent ∈ s.dependents.getD taskId [],
    ∃ task, .indexed task ∈ s.log ∧ task.taskId = dependent
  depends : ∀ taskId task, .indexed task ∈ s.log →
    (s.dependents.getD taskId []).count task.taskId ≤ task.dependencies.count taskId

namespace Linked

theorem init (w : World σ) : Linked (.init w : Scheduler σ) where
  known := fun _ _ h => absurd h List.not_mem_nil
  depends := fun _ _ h => absurd h List.not_mem_nil

theorem frame (h : Linked s) (hlog : s.log <:+ s'.log)
    (hi : ∀ task, .indexed task ∈ s'.log → .indexed task ∈ s.log)
    (hd : ∀ taskId, s'.dependents.getD taskId [] = s.dependents.getD taskId [] ∨
      s'.dependents.getD taskId [] = []) : Linked s' where
  known taskId dependent hm := by
    rcases hd taskId with heq | heq
    · rw [heq] at hm
      obtain ⟨task, hin, hid⟩ := h.known taskId dependent hm
      exact ⟨task, hlog.subset hin, hid⟩
    · rw [heq] at hm
      exact absurd hm List.not_mem_nil
  depends taskId task hin := by
    rcases hd taskId with heq | heq
    · rw [heq]
      exact h.depends taskId task (hi task hin)
    · rw [heq]
      exact Nat.zero_le _

theorem of_eq (h : Linked s) (hlog : s'.log = s.log) (hd : s'.dependents = s.dependents) :
    Linked s' :=
  h.frame (hlog ▸ List.suffix_rfl) (fun _ hi => hlog ▸ hi) fun _ => .inl (by rw [hd])

theorem of_entry (h : Linked s) (entry : SchedulerEntry) (hlog : s'.log = entry :: s.log)
    (hi : ∀ task, entry ≠ .indexed task) (hd : s'.dependents = s.dependents) : Linked s' := by
  refine h.frame (hlog ▸ List.suffix_cons ..) (fun task hin => ?_) fun _ => .inl (by rw [hd])
  rw [hlog] at hin
  exact (List.mem_cons.mp hin).resolve_left fun heq => hi task heq.symm

theorem cleanup (h : Linked s) (requestId : String) :
    Linked (s.cleanupRequestWorkerState requestId) := by
  unfold cleanupRequestWorkerState
  split
  · exact h
  · refine h.frame (List.suffix_cons ..) (fun task hin => by simpa using hin) fun taskId => ?_
    simp only [Dict.getD, Dict.get?_eraseAll]
    split
    · exact .inr rfl
    · exact .inl rfl

theorem failRequest (h : Linked s) (requestId message : String) :
    Linked (s.failRequest requestId message) := by
  unfold Scheduler.failRequest
  split
  · exact h
  · exact h.of_entry (.failed requestId) rfl (by simp) rfl

theorem indexTask (hb : Base load s) (h : Linked s) (hhas : load.Has task)
    (hn : .indexed task ∉ s.log) : Linked (s.indexTask task) := by
  have hlist : ∀ taskId, (s.indexTask task).dependents.getD taskId [] =
      s.dependents.getD taskId [] ++
        (task.dependencies.filter (· = taskId)).map fun _ => task.taskId := by
    intro taskId
    show (s.dependents.groupAll _).getD taskId [] = _
    rw [Dict.getD_groupAll, List.filter_map, List.map_map]
    rfl
  have hnew : ∀ taskId, task.taskId ∉ s.dependents.getD taskId [] := by
    intro taskId hm
    obtain ⟨other, hin, hid⟩ := h.known taskId _ hm
    exact hn ((hb.indexed other hin).1.eq hhas hid ▸ hin)
  constructor
  · intro taskId dependent hm
    rw [hlist, List.mem_append] at hm
    rcases hm with hm | hm
    · obtain ⟨other, hin, hid⟩ := h.known taskId dependent hm
      exact ⟨other, List.mem_cons_of_mem _ hin, hid⟩
    · obtain ⟨_, -, rfl⟩ := List.mem_map.mp hm
      exact ⟨task, List.mem_cons_self .., rfl⟩
  · intro taskId other hin
    rw [hlist, List.count_append]
    rcases List.mem_cons.mp hin with heq | hin
    · cases heq
      rw [List.count_eq_zero_of_not_mem (hnew taskId), Nat.zero_add]
      refine (List.count_le_length ..).trans (le_of_eq ?_)
      rw [List.length_map, ← List.countP_eq_length_filter, List.count]
      exact List.countP_congr fun _ _ => by simp
    · have hne : task.taskId ≠ other.taskId := fun hid =>
        hn (hhas.eq (hb.indexed other hin).1 hid ▸ hin)
      rw [List.count_eq_zero_of_not_mem fun hm => hne (List.mem_map.mp hm).choose_spec.2,
        Nat.add_zero]
      exact h.depends taskId other hin

theorem occasion (h : Linked s) (ho : Occasion d s question d' s') : Linked s' := by
  cases ho with
  | runnable => exact h.of_entry (.launched _) rfl (by simp) rfl
  | ended => exact h.of_eq rfl rfl
  | failed =>
    refine Linked.failRequest ?_ _ _
    exact h.of_eq rfl rfl
  | refused => exact h.of_entry (.began _) rfl (by simp) rfl
  | submitted | launchEnd | finished | emitted | requested | acquire | freed => exact h

theorem asked (h : Linked s) (question : Ask) (out : List InferenceTask) (w : World σ) :
    Linked (s.asked question out w) := h.of_entry (.asked _ _ _ _) rfl (by simp) rfl

theorem move (hb : Base load s) (h : Linked s) (hm : Move rt load d s d' s') : Linked s' := by
  cases hm with
  | asked ho => exact (h.occasion ho).asked ..
  | accepted => exact h.of_entry (.accepted _) rfl (by simp) rfl
  | indexed ht hin hn =>
    rw [hb.accepted _ ht.accepted_mem] at hin
    exact h.indexTask hb (.of_mem hin) hn
  | finalized | landed | produced | received | parked | resharded | begun | started | notStarted =>
    exact h.of_entry _ rfl (by simp) rfl
  | landedLast =>
    refine Linked.of_entry (s := land _ _ _ _ 0 s) ?_ (.dispatched _ _ _ _) rfl (by simp) rfl
    exact h.of_entry (.migrated _ _ _) rfl (by simp) rfl
  | failedRequest => exact h.failRequest _ _
  | cleaned => exact h.cleanup _
  | completed | fetched =>
    refine Linked.cleanup ?_ _
    exact h.of_eq rfl rfl
  | notFetched =>
    refine Linked.cleanup (Linked.failRequest ?_ _ _) _
    exact h.of_eq rfl rfl
  | released => exact Linked.of_eq (h.cleanup _) rfl rfl
  | _ => exact h.of_eq rfl rfl

theorem stop (h : Linked s) (hs : Stop rt d s s') : Linked s' := by
  cases hs with
  | here => exact h
  | asked ho => exact (h.occasion ho).asked ..
  | lost => exact h.of_entry (.launched _) rfl (by simp) rfl
  | starved => exact h.of_entry (.migrated _ _ _) rfl (by simp) rfl

end Linked

theorem countDown_mem {index : Dict String InferenceTask}
    (hi : ∀ taskId task, index.get? taskId = some task → task.taskId = taskId)
    {dependents : List String} {pending left : Dict String Int}
    (h : countDown index dependents pending = (left, .ok newly)) :
    ∀ task ∈ newly, task.taskId ∈ dependents := by
  induction dependents generalizing pending left newly with
  | nil =>
    cases h
    simp
  | cons dependent rest ih =>
    have hlater : ∀ {pending left newly}, countDown index rest pending = (left, .ok newly) →
        ∀ task ∈ newly, task.taskId ∈ dependent :: rest :=
      fun hrest task ht => List.mem_cons_of_mem _ (ih hrest task ht)
    unfold countDown at h
    split at h
    · exact hlater h
    · simp only at h
      split at h
      · split at h
        · cases h
        · rename_i _ n _ _ _ task hd
          cases hrest : countDown index rest (pending.set dependent (n - 1)) with
          | mk left' result =>
            rw [hrest] at h
            cases result with
            | error e => cases h
            | ok found =>
              obtain ⟨-, hok⟩ := Prod.mk.inj h
              cases hok
              refine List.forall_mem_cons.mpr ⟨?_, hlater hrest⟩
              rw [hi dependent task hd]
              exact List.mem_cons_self ..
      · exact hlater h

/-- What a launch makes runnable depends on the launched task, of which the
request has not failed. -/
theorem newlyRunnable_depends (hb : Base load s) (hl : Linked s)
    (h : s.newlyRunnable launched = (left, .ok newly)) (ht : task ∈ newly) :
    s.failedRequests.contains launched.requestId = false ∧
      launched.taskId ∈ task.dependencies := by
  have hindexed := ((hb.index _ _).mp ((newlyRunnable_ok hb h).2 task ht).1).1
  unfold newlyRunnable at h
  split at h
  · obtain ⟨-, hok⟩ := Prod.mk.inj h
    cases hok
    cases ht
  · rename_i hlive
    refine ⟨Bool.not_eq_true _ ▸ hlive, ?_⟩
    have hm := countDown_mem (fun taskId t ht => ((hb.index _ _).mp ht).2.1) h task ht
    have hle := hl.depends launched.taskId task hindexed
    exact List.count_pos_iff.mp ((List.count_pos_iff.mpr hm).trans_le hle)

end Scheduler

end GfDit
