import GfDit.Policies.DisaggregateBooks
import GfDit.Policies.Exclusion
import GfDit.Scheduler.Basic

/-!
# Exclusive groups

Runs of the disaggregate policy: any sequence of reports and events. A group
never has two tasks, nor a task beside a RESHARD; RESHARD tasks start in the
order of their reports; and as long as every report passes the checks each
reported task is dispatched once or dropped with its request, and none waits
when nothing runs.
-/

namespace GfDit

open Prog

namespace Disaggregate

variable {known : String → InferenceTask} {w w' w'' : World Disaggregate}

-- ---------------------------------------------------------------------------
-- Dispatch
-- ---------------------------------------------------------------------------

structure Takes (known : String → InferenceTask) (w : World Disaggregate)
    (out : List InferenceTask) (w' : World Disaggregate) : Prop where
  sound : Sound known w'
  topology : w'.topology = w.topology
  log : w'.policy.log = (out.map .started).reverse ++ w.policy.log

theorem Takes.refl (h : Sound known w) : Takes known w [] w := ⟨h, rfl, rfl⟩

theorem Takes.trans (h : Takes known w out w') (h' : Takes known w' rest w'') :
    Takes known w (out ++ rest) w'' :=
  ⟨h'.sound, h'.topology.trans h.topology, by rw [h'.log, h.log]; simp⟩

theorem Takes.running (h : Takes known w out w') :
    w'.policy.running = out.reverse ++ w.policy.running := by
  rw [Disaggregate.running, h.log, Roster.running_append_started]
  rfl

theorem Takes.reported (h : Takes known w out w') :
    Roster.reported w'.policy.log = Roster.reported w.policy.log := by
  rw [h.log, Roster.reported_append_started]

theorem Takes.started (h : Takes known w out w') :
    Roster.started w'.policy.log = Roster.started w.policy.log ++ out := by
  rw [h.log, Roster.started_append_started]

theorem Sound.idle (h : Sound known w) (hr : w.policy.running = []) :
    w.policy.outstandingReshards = 0 ∧ ∀ groupId,
      Counter.count w.policy.outstandingPerGroup groupId = 0 ∧
      Counter.count w.policy.reshardHolds groupId = 0 := by
  refine ⟨?_, fun groupId => ⟨?_, ?_⟩⟩
  · rw [h.booked.reshards, hr]
    rfl
  · rw [h.booked.perGroup, hr]
    rfl
  · rw [h.booked.holds, hr]
    rfl

theorem Sound.start (h : Sound known w)
    (hq : w.policy.groupReady.getD groupId [] = task :: rest)
    (hfree : w.policy.canDispatch groupId = true) :
    Takes known w [task]
      { w.setStatus task .dispatched with policy := w.policy.start task groupId } := by
  obtain ⟨hm, ho⟩ := List.mem_filter.mp ((h.queued.queues groupId).symm.trans hq ▸
    List.mem_cons_self ..)
  have hk := h.queued.known task hm
  have hb := h.booked.start hk (h.queued.fit task hm) ho hfree
  have hs : Sound known { w with policy := w.policy.start task groupId } :=
    ⟨h.unnamed, hb, h.queued.start hq⟩
  exact ⟨hs.setStatus hk .dispatched, rfl, rfl⟩

/-- A queue's tasks start while the group is free, the first one surely where
nothing runs. -/
theorem takeQueue_takes (h : Sound known w) (hq : w.policy.groupReady.getD groupId [] = queue) :
    wp (takeQueue groupId queue)
      (fun out w' => Takes known w out w' ∧ (queue ≠ [] → w.policy.running = [] → out ≠ []))
      (fun _ _ => False) w := by
  induction queue generalizing w with
  | nil => exact ⟨.refl h, fun hne => absurd rfl hne⟩
  | cons task rest ih =>
    simp only [takeQueue, wp_bind, wp_get, wp_ite, wp_modify, wp_pure]
    split
    · rename_i hfree
      have hd := h.start hq hfree
      have hrest : (w.policy.start task groupId).groupReady.getD groupId [] = rest := by
        simp only [Disaggregate.start]
        rw [Dict.getD_set, if_pos rfl, hq]
        rfl
      refine wp_mono (ih hd.sound hrest) (fun out w' ht => ?_) fun _ _ he => he
      exact ⟨hd.trans ht.1, fun _ _ => List.cons_ne_nil task out⟩
    · rename_i hbusy
      refine ⟨.refl h, fun _ hr => absurd (canDispatch_iff.mpr ((h.idle hr).2 groupId)) hbusy⟩

theorem Sound.popEmpty (h : Sound known w) (groupId : String) :
    Takes known w [] { w with policy := w.policy.popEmpty groupId } := by
  have hq := h.queued.popEmpty groupId
  unfold Disaggregate.popEmpty at hq ⊢
  split at hq
  · rename_i hempty
    rw [if_pos hempty]
    exact ⟨⟨h.unnamed, h.booked.congr rfl (fun _ => rfl) rfl rfl rfl rfl, hq⟩, rfl, rfl⟩
  · rename_i hne
    rw [if_neg hne]
    exact .refl h

theorem takeGroups_takes (h : Sound known w) (groups : List ExecutionGroupSpec) :
    wp (takeGroups groups)
      (fun out w' => Takes known w out w' ∧ (w.policy.running = [] → out = [] →
        ∀ group ∈ groups, w.policy.groupReady.getD group.groupId [] = []))
      (fun _ _ => False) w := by
  induction groups generalizing w with
  | nil => exact ⟨.refl h, fun _ _ group hm => absurd hm List.not_mem_nil⟩
  | cons group groups ih =>
    simp only [takeGroups, wp_bind, wp_get, wp_ite, wp_modify, wp_pure]
    split
    · rename_i hempty
      refine wp_mono (ih h) (fun out w' ht => ⟨ht.1, fun hr ho => ?_⟩) fun _ _ he => he
      exact List.forall_mem_cons.mpr ⟨hempty, ht.2 hr ho⟩
    · rename_i hne
      refine wp_mono (takeQueue_takes h rfl) (fun out w₁ ht => ?_) fun _ _ he => he
      have hp := ht.1.trans (ht.1.sound.popEmpty group.groupId)
      rw [List.append_nil] at hp
      refine wp_mono (ih hp.sound) (fun rest w₂ hr => ⟨hp.trans hr.1, fun hrun ho => ?_⟩)
        fun _ _ he => he
      exact absurd (List.append_eq_nil_iff.mp ho).1 (ht.2 hne hrun)

theorem Sound.startReshard (h : Sound known w) (hq : w.policy.reshardReady = task :: rest)
    (hslot : w.policy.outstandingReshards < maxConcurrentReshards)
    (hsrc : task.payloadText reshardPayloadSrcGroupId = some src)
    (hdst : task.payloadText reshardPayloadDstGroupId = some dst) (hne : src ≠ dst)
    (hfree : w.policy.canDispatchReshard src dst = true) :
    Takes known w [task]
      { w.setStatus task .dispatched with policy := w.policy.startReshard task src dst } := by
  obtain ⟨hm, hr⟩ := List.mem_filter.mp (h.queued.reshardQueue.symm.trans hq ▸
    List.mem_cons_self ..)
  have hk := h.queued.known task hm
  have hb := h.booked.startReshard hk (h.queued.fit task hm) hr hsrc hdst hne
    (Nat.lt_one_iff.mp hslot) hfree
  have hs : Sound known { w with policy := w.policy.startReshard task src dst } :=
    ⟨h.unnamed, hb, h.queued.startReshard hq src dst⟩
  exact ⟨hs.setStatus hk .dispatched, rfl, rfl⟩

/-- The payload of a waiting RESHARD was checked, so nothing raises here. -/
theorem takeReshards_takes (h : Sound known w) (hq : w.policy.reshardReady = queue) :
    wp (takeReshards queue)
      (fun out w' => Takes known w out w' ∧ (queue ≠ [] → w.policy.running = [] → out ≠ []))
      (fun _ _ => False) w := by
  induction queue generalizing w with
  | nil => exact ⟨.refl h, fun hne => absurd rfl hne⟩
  | cons task rest ih =>
    obtain ⟨hm, hr⟩ := List.mem_filter.mp (h.queued.reshardQueue.symm.trans hq ▸
      List.mem_cons_self ..)
    obtain ⟨src, dst, hsrc, hdst, hne⟩ := reshard_of_validateTask (h.queued.fit task hm) hr
    simp only [takeReshards, payloadItem_of_payloadText hsrc, payloadItem_of_payloadText hdst,
      wp_bind, wp_get, wp_ite, wp_modify, wp_pure]
    split
    · rename_i hslot
      refine wp_check (fun s hs => ?_) fun _ he => by cases he
      cases hs
      refine wp_check (fun d hd => ?_) fun _ he => by cases he
      cases hd
      split
      · rename_i hfree
        have hd := h.startReshard hq hslot hsrc hdst hne hfree
        have hrest : (w.policy.startReshard task src dst).reshardReady = rest := by
          show w.policy.reshardReady.tail = rest
          rw [hq]
          rfl
        refine wp_mono (ih hd.sound hrest) (fun out w' ht => ?_) fun _ _ he => he
        exact ⟨hd.trans ht.1, fun _ _ => List.cons_ne_nil task out⟩
      · rename_i hbusy
        refine ⟨.refl h, fun _ hrun => absurd (canDispatchReshard_iff.mpr ?_) hbusy⟩
        exact fun groupId _ => (h.idle hrun).2 groupId
    · rename_i hslot
      refine ⟨.refl h, fun _ hrun => absurd ?_ hslot⟩
      rw [(h.idle hrun).1]
      exact Nat.one_pos

/-- After a dispatch nothing waits unless something runs. -/
theorem takeDispatchableTasks_takes (h : Sound known w) :
    wp takeDispatchableTasks
      (fun out w' => Takes known w out w' ∧ (w'.policy.running = [] → w'.policy.waiting = []))
      (fun _ _ => False) w := by
  simp only [takeDispatchableTasks, wp_bind, wp_get, wp_pure]
  refine wp_mono (takeReshards_takes h rfl) (fun reshards w₁ ht => ?_) fun _ _ he => he
  refine wp_mono (takeGroups_takes ht.1.sound _) (fun ordinary w₂ ht' => ?_) fun _ _ he => he
  have htake := ht.1.trans ht'.1
  refine ⟨htake, fun hrun => ?_⟩
  -- nothing was started on the way, so both passes found their queues empty
  obtain ⟨hout, hbefore⟩ := List.append_eq_nil_iff.mp (htake.running.symm.trans hrun)
  obtain ⟨hnone, hnone'⟩ := List.append_eq_nil_iff.mp (List.reverse_eq_nil_iff.mp hout)
  have hlog : w₂.policy.log = w.policy.log := by simpa [hnone, hnone'] using htake.log
  have hlog₁ : w₁.policy.log = w.policy.log := by simpa [hnone] using ht.1.log
  have hreshards : w.policy.reshardReady = [] := by
    by_contra hne
    exact ht.2 hne hbefore hnone
  have hrun₁ : w₁.policy.running = [] := by
    rw [Disaggregate.running, hlog₁]
    exact hbefore
  have hgroups := ht'.2 hrun₁ hnone'
  have hwait : w₂.policy.waiting = w.policy.waiting := by
    rw [Disaggregate.waiting, hlog, Disaggregate.waiting]
  have hwait₁ : w₁.policy.waiting = w.policy.waiting := by
    rw [Disaggregate.waiting, hlog₁, Disaggregate.waiting]
  rw [hwait]
  refine List.eq_nil_iff_forall_not_mem.mpr fun task hm => ?_
  cases hr : task.isReshard with
  | true =>
    have hq := h.queued.reshardQueue
    rw [hreshards] at hq
    exact List.filter_eq_nil_iff.mp hq.symm task hm hr
  | false =>
    have hm₁ : task ∈ w₁.policy.waiting := hwait₁ ▸ hm
    obtain ⟨group, hg, hid⟩ := ordinary_of_validateTask (ht.1.sound.queued.fit task hm₁) hr
    have hq := ht.1.sound.queued.queues group.groupId
    rw [hgroups group hg] at hq
    exact List.filter_eq_nil_iff.mp hq.symm task hm₁ (by simp [TaskHeap.ordinaryOn, hr, hid])

-- ---------------------------------------------------------------------------
-- Reports
-- ---------------------------------------------------------------------------

def groupFor (w : World Disaggregate) (task : InferenceTask) : Option String :=
  (w.tasks.groupId task).or (w.policy.selectGroupForTask task)

/-- A task that passes the checks when it is reported. -/
def Accepts (w : World Disaggregate) (task : InferenceTask) : Prop :=
  validateTask w.topology task (groupFor w task) = .ok ()

structure Enters (known : String → InferenceTask) (w : World Disaggregate)
    (tasks : List InferenceTask) (w' : World Disaggregate) : Prop where
  sound : Sound known w'
  topology : w'.topology = w.topology
  groups : ∀ task, known task.taskId = task → groupFor w' task = groupFor w task
  log : w'.policy.log = (tasks.map .reported).reverse ++ w.policy.log

theorem Enters.refl (h : Sound known w) : Enters known w [] w := ⟨h, rfl, fun _ _ => rfl, rfl⟩

theorem Enters.trans (h : Enters known w tasks w') (h' : Enters known w' rest w'') :
    Enters known w (tasks ++ rest) w'' :=
  ⟨h'.sound, h'.topology.trans h.topology,
    fun task hk => (h'.groups task hk).trans (h.groups task hk), by rw [h'.log, h.log]; simp⟩

theorem Enters.reported (h : Enters known w tasks w') :
    Roster.reported w'.policy.log = Roster.reported w.policy.log ++ tasks := by
  rw [h.log, Roster.reported_append_reported]

theorem Enters.started (h : Enters known w tasks w') :
    Roster.started w'.policy.log = Roster.started w.policy.log := by
  rw [h.log, Roster.started_append_reported]

theorem Enters.accepts (h : Enters known w tasks w') (hk : known task.taskId = task) :
    Accepts w' task ↔ Accepts w task := by
  rw [Accepts, h.topology, h.groups task hk, Accepts]

theorem selectGroupForTask_of_reshard (p : Disaggregate) (h : task.isReshard = true) :
    p.selectGroupForTask task = none := by
  have hkind : task.kind = .reshard := by simpa [InferenceTask.isReshard] using h
  unfold selectGroupForTask
  split
  · rfl
  · rw [hkind]

theorem isReshard_of_validateTask {topology : RuntimeTopology}
    (h : validateTask topology task none = .ok ()) : task.isReshard = true := by
  cases hr : task.isReshard with
  | true => rfl
  | false =>
    obtain ⟨group, -, hg⟩ := ordinary_of_validateTask h hr
    cases hg

theorem assignGroup_enters (h : Sound known w) (hk : known task.taskId = task) :
    wp (assignGroup task)
      (fun _ w' => Enters known w [] w' ∧ w'.tasks.groupId task = groupFor w task)
      (fun _ _ => False) w := by
  simp only [assignGroup, wp_bind, wp_get, wp_ite, wp_modify, wp_pure]
  split
  · rename_i hn
    have hsame : ∀ other, known other.taskId = other →
        validateTask w.topology other (w.tasks.groupId other) = .ok () →
        (w.setGroupId task (w.policy.selectGroupForTask task)).tasks.groupId other =
          w.tasks.groupId other := by
      intro other ho hv
      by_cases hid : task.taskId = other.taskId
      · obtain rfl : task = other := by rw [← hk, hid, ho]
        rw [hn] at hv ⊢
        rw [World.setGroupId, TaskHeap.groupId_setGroupId,
          selectGroupForTask_of_reshard _ (isReshard_of_validateTask hv)]
      · exact TaskHeap.groupId_setGroupId_ne _ _ hid
    have hs : Sound known (w.setGroupId task (w.policy.selectGroupForTask task)) :=
      ⟨h.unnamed,
        h.booked.reheap fun other hm => hsame other (h.booked.known other hm) (h.booked.fit other hm),
        h.queued.reheap fun other hm => hsame other (h.queued.known other hm) (h.queued.fit other hm)⟩
    have hgroup : (w.setGroupId task (w.policy.selectGroupForTask task)).tasks.groupId task =
        w.policy.selectGroupForTask task := TaskHeap.groupId_setGroupId ..
    refine ⟨⟨hs, rfl, fun other ho => ?_, rfl⟩, by rw [hgroup, groupFor, hn, Option.none_or]⟩
    by_cases hid : task.taskId = other.taskId
    · obtain rfl : task = other := by rw [← hk, hid, ho]
      rw [groupFor, hgroup, groupFor, hn, Option.none_or]
      exact Option.or_self
    · rw [groupFor, World.setGroupId, TaskHeap.groupId_setGroupId_ne _ _ hid, groupFor]
  · rename_i hsome
    obtain ⟨g, hg⟩ := Option.ne_none_iff_exists'.mp hsome
    exact ⟨.refl h, by rw [groupFor, hg, Option.some_or]⟩

theorem Sound.enqueue (h : Sound known w) (hk : known task.taskId = task)
    (hv : validateTask w.topology task (w.tasks.groupId task) = .ok ()) :
    Enters known w [task] { w.setStatus task .ready with
      policy := w.policy.enqueue task (w.tasks.groupId task) } := by
  have hb : Booked known w.topology w.tasks (w.policy.enqueue task (w.tasks.groupId task)) := by
    rcases enqueue_cases (p := w.policy) hv with ⟨-, he⟩ | ⟨-, _, -, he⟩ <;> rw [he] <;>
      exact h.booked.congr rfl (fun _ => rfl) rfl rfl rfl rfl
  have hs : Sound known { w with policy := w.policy.enqueue task (w.tasks.groupId task) } :=
    ⟨h.unnamed, hb, h.queued.enqueue hk hv⟩
  have hids : (w.policy.enqueue task (w.tasks.groupId task)).stageGroupIds =
      w.policy.stageGroupIds := by
    rcases enqueue_cases (p := w.policy) hv with ⟨-, he⟩ | ⟨-, _, -, he⟩ <;> rw [he]
  refine ⟨hs.setStatus hk .ready, rfl, fun other ho => ?_, enqueue_log hv⟩
  have hgroup : (w.setStatus task .ready).tasks.groupId other = w.tasks.groupId other :=
    TaskHeap.groupId_setStatus _ _ fun hid => by rw [← hk, hid, ho]
  rw [groupFor, hgroup, groupFor, selectGroupForTask, hids, selectGroupForTask]

theorem enqueueRunnable_enters (h : Sound known w) (hk : known task.taskId = task) :
    wp (enqueueRunnable task) (fun _ => Enters known w [task])
      (fun _ w' => Enters known w [] w' ∧ ¬ Accepts w task) w := by
  simp only [enqueueRunnable, wp_bind, wp_get, wp_modify]
  refine wp_mono (assignGroup_enters h hk) ?_ fun _ _ he => he.elim
  rintro _ w₁ ⟨ht, hg⟩
  refine wp_check (fun _ hv => ?_) fun e he => ⟨ht, fun ha => ?_⟩
  · exact ht.trans (ht.sound.enqueue hk hv)
  · rw [hg, ht.topology, ha] at he
    cases he

theorem enqueueAll_enters (h : Sound known w) (hk : ∀ task ∈ tasks, known task.taskId = task) :
    wp (tasks.forM enqueueRunnable) (fun _ => Enters known w tasks)
      (fun _ w' => (∃ front, front.Sublist tasks ∧ Enters known w front w') ∧
        ∃ task ∈ tasks, ¬ Accepts w task) w := by
  induction tasks generalizing w with
  | nil => exact Enters.refl h
  | cons task tasks ih =>
    obtain ⟨hk, hks⟩ := List.forall_mem_cons.mp hk
    show wp (enqueueRunnable task >>= fun _ => tasks.forM enqueueRunnable) _ _ w
    rw [wp_bind]
    refine wp_mono (enqueueRunnable_enters h hk) (fun _ w₁ ht => ?_) fun _ w₁ he => ?_
    · refine wp_mono (ih ht.sound hks) (fun _ w₂ ht' => ht.trans ht') fun _ w₂ he => ?_
      obtain ⟨⟨front, hf, hte⟩, other, hm, hna⟩ := he
      refine ⟨⟨task :: front, hf.cons_cons _, ht.trans hte⟩, other, List.mem_cons_of_mem _ hm, ?_⟩
      rwa [← ht.accepts (hks other hm)]
    · exact ⟨⟨[], List.nil_sublist _, he.1⟩, task, List.mem_cons_self .., he.2⟩

-- ---------------------------------------------------------------------------
-- Events
-- ---------------------------------------------------------------------------

theorem releaseTask_log (p : Disaggregate) (taskId : String) :
    (p.releaseTask taskId).log = .ended taskId :: p.log := by
  unfold releaseTask
  split
  · rfl
  · split <;> rfl

theorem Sound.releaseTask (h : Sound known w) (taskId : String) :
    Sound known { w with policy := w.policy.releaseTask taskId } := by
  have hlog := w.policy.releaseTask_log taskId
  have hready : (w.policy.releaseTask taskId).groupReady = w.policy.groupReady ∧
      (w.policy.releaseTask taskId).reshardReady = w.policy.reshardReady := by
    unfold Disaggregate.releaseTask
    split
    · exact ⟨rfl, rfl⟩
    · split <;> exact ⟨rfl, rfl⟩
  have hwait : (w.policy.releaseTask taskId).waiting = w.policy.waiting := by
    rw [waiting, hlog]
    rfl
  refine ⟨h.unnamed, h.booked.releaseTask h.unnamed taskId, ?_⟩
  refine ⟨hwait ▸ h.queued.known, hwait ▸ h.queued.fit, ?_, ?_, ?_⟩
  · rw [hready.1, hwait]
    exact h.queued.queues
  · rw [hready.2, hwait]
    exact h.queued.reshardQueue
  · rw [hlog]
    exact h.queued.lawful

theorem Sound.dropRequest (h : Sound known w) (requestId : String) :
    Sound known { w with policy := w.policy.dropRequest requestId } :=
  ⟨h.unnamed, h.booked.congr rfl (fun _ => rfl) rfl rfl rfl rfl, h.queued.dropRequest requestId⟩

-- ---------------------------------------------------------------------------
-- Calls
-- ---------------------------------------------------------------------------

/-- Nothing waits unless something runs. -/
def Drained (w : World Disaggregate) : Prop := w.policy.running = [] → w.policy.waiting = []

structure Does (known : String → InferenceTask) (accepted : Prop) (w : World Disaggregate)
    (reports out : List InferenceTask) (w' : World Disaggregate) : Prop where
  sound : Sound known w'
  entered : ∃ front, front.Sublist reports ∧
    Roster.reported w'.policy.log = Roster.reported w.policy.log ++ front
  started : Roster.started w'.policy.log = Roster.started w.policy.log ++ out
  complete : accepted → Drained w →
    Roster.reported w'.policy.log = Roster.reported w.policy.log ++ reports ∧ Drained w'

theorem Does.trans (h : Does known accepted w reports out w')
    (h' : Does known accepted' w' reports' out' w'') :
    Does known (accepted ∧ accepted') w (reports ++ reports') (out ++ out') w'' := by
  obtain ⟨front, hf, hr⟩ := h.entered
  obtain ⟨front', hf', hr'⟩ := h'.entered
  refine ⟨h'.sound, ⟨front ++ front', hf.append hf', ?_⟩, ?_, fun ⟨ha, ha'⟩ hd => ?_⟩
  · rw [hr', hr, List.append_assoc]
  · rw [h'.started, h.started, List.append_assoc]
  · obtain ⟨hall, hd⟩ := h.complete ha hd
    obtain ⟨hall', hd⟩ := h'.complete ha' hd
    exact ⟨by rw [hall', hall, List.append_assoc], hd⟩

theorem Does.quiet (hs : Sound known w') (hr : Roster.reported w'.policy.log = Roster.reported w.policy.log)
    (ho : Roster.started w'.policy.log = Roster.started w.policy.log) (hd : Drained w → Drained w') :
    Does known accepted w [] [] w' :=
  ⟨hs, ⟨[], .slnil, by rw [hr, List.append_nil]⟩, by rw [ho, List.append_nil],
    fun _ h => ⟨by rw [hr, List.append_nil], hd h⟩⟩

theorem onTasksRunnable_does (h : Sound known w) (hk : ∀ task ∈ tasks, known task.taskId = task) :
    wp (onTasksRunnable tasks) (Does known (∀ task ∈ tasks, Accepts w task) w tasks)
      (fun _ => Does known (∀ task ∈ tasks, Accepts w task) w tasks []) w := by
  simp only [onTasksRunnable, wp_bind]
  refine wp_mono (enqueueAll_enters h hk) (fun _ w₁ ht => ?_) fun _ w₁ he => ?_
  · refine wp_mono (takeDispatchableTasks_takes ht.sound) (fun out w₂ ht' => ?_) fun _ _ he => he.elim
    have hr := ht'.1.reported.trans ht.reported
    have ho := ht'.1.started.trans (by rw [ht.started])
    exact ⟨ht'.1.sound, ⟨tasks, .refl _, hr⟩, ho, fun _ _ => ⟨hr, ht'.2⟩⟩
  · obtain ⟨⟨front, hf, hte⟩, task, hm, hna⟩ := he
    exact ⟨hte.sound, ⟨front, hf, hte.reported⟩, by rw [hte.started, List.append_nil],
      fun ha _ => absurd (ha task hm) hna⟩

theorem onWorkerEvent_does (h : Sound known w) (event : WorkerEvent) :
    wp (onWorkerEvent event) (Does known accepted w []) (fun _ _ => False) w := by
  have htake : ∀ w₁, Sound known w₁ →
      Roster.reported w₁.policy.log = Roster.reported w.policy.log →
      Roster.started w₁.policy.log = Roster.started w.policy.log →
      wp takeDispatchableTasks (Does known accepted w []) (fun _ _ => False) w₁ := by
    intro w₁ hs hr ho
    refine wp_mono (takeDispatchableTasks_takes hs) (fun out w₂ ht => ?_) fun _ _ he => he
    have hr' : Roster.reported w₂.policy.log = Roster.reported w.policy.log ++ [] := by
      rw [ht.1.reported, hr, List.append_nil]
    exact ⟨ht.1.sound, ⟨[], .slnil, hr'⟩, by rw [ht.1.started, ho], fun _ _ => ⟨hr', ht.2⟩⟩
  have hlog := w.policy.releaseTask_log event.taskId
  have hreleased := h.releaseTask event.taskId
  simp only [onWorkerEvent, wp_bind, wp_ite, wp_modify]
  split
  · split
    · refine htake _ (hreleased.dropRequest event.requestId) ?_ ?_ <;>
        simp [Disaggregate.dropRequest, hlog, Roster.reported, Roster.started]
    · refine htake _ hreleased ?_ ?_ <;> simp [hlog, Roster.reported, Roster.started]
  · split
    · exact htake _ (h.dropRequest event.requestId) rfl rfl
    · exact htake _ h rfl rfl

end Disaggregate

-- ---------------------------------------------------------------------------
-- Runs
-- ---------------------------------------------------------------------------

/-- All that the policy returned in a run, and the state after it. A call that
raises returns nothing and leaves the state it has reached. -/
def askAll (policy : SchedulerPolicy σ) : List Ask → World σ → List InferenceTask × World σ
  | [], w => ([], w)
  | ask :: asks, w =>
    match ask.run policy w with
    | .ok out w' => (askAll policy asks w').map (out ++ ·) id
    | .error _ w' => askAll policy asks w'

namespace Disaggregate

variable {known : String → InferenceTask} {w : World Disaggregate}

def AllAccepted : List Ask → World Disaggregate → Prop
  | [], _ => True
  | ask :: asks, w => (∀ task ∈ ask.reported, Accepts w task) ∧
      AllAccepted asks (after (ask.run policy) w)

theorem ask_does (h : Sound known w) (ask : Ask) (hk : ∀ task ∈ ask.reported, known task.taskId = task) :
    wp (ask.run policy) (Does known (∀ task ∈ ask.reported, Accepts w task) w ask.reported)
      (fun _ => Does known (∀ task ∈ ask.reported, Accepts w task) w ask.reported []) w := by
  cases ask with
  | submitted plan => exact onTasksRunnable_does h hk
  | runnable tasks => exact onTasksRunnable_does h hk
  | event e => exact wp_mono (onWorkerEvent_does h e) (fun _ _ hd => hd) fun _ _ he => he.elim
  | acquire ranks | release ranks => exact .quiet h rfl rfl id

theorem askAll_does (h : Sound known w) (asks : List Ask)
    (hk : ∀ ask ∈ asks, ∀ task ∈ ask.reported, known task.taskId = task) :
    Does known (AllAccepted asks w) w (asks.flatMap Ask.reported)
      (askAll policy asks w).1 (askAll policy asks w).2 := by
  induction asks generalizing w with
  | nil => exact .quiet h rfl rfl id
  | cons ask asks ih =>
    obtain ⟨hk, hks⟩ := List.forall_mem_cons.mp hk
    have hd := ask_does h ask hk
    unfold wp at hd
    rw [List.flatMap_cons]
    simp only [askAll, AllAccepted, after]
    cases hx : ask.run policy w with
    | ok out w' =>
      simp only [hx] at hd ⊢
      exact hd.trans (ih hd.sound hks)
    | error e w' =>
      simp only [hx] at hd ⊢
      exact hd.trans (ih hd.sound hks)

-- ---------------------------------------------------------------------------
-- Every reachable state
-- ---------------------------------------------------------------------------

/-- A group's counts are those of its running tasks and of the RESHARD tasks
in flight that leave or enter it; there is one task or one RESHARD at most. -/
structure GroupsExclusive (w : World Disaggregate) : Prop where
  perGroup : ∀ groupId, w.policy.outstandingPerGroup.getD groupId 0 =
    w.policy.running.countP (w.tasks.ordinaryOn groupId)
  once : ∀ groupId, w.policy.outstandingPerGroup.getD groupId 0 ≤ 1
  reshards : w.policy.outstandingReshards = w.policy.running.countP InferenceTask.isReshard
  oneReshard : w.policy.outstandingReshards ≤ 1
  holds : ∀ groupId, w.policy.reshardHolds.getD groupId 0 =
    w.policy.running.countP (InferenceTask.reshardOn groupId)
  apart : ∀ groupId, ¬ (0 < w.policy.outstandingPerGroup.getD groupId 0 ∧
    0 < w.policy.reshardHolds.getD groupId 0)

/-- Each report was used up once, by a dispatch or with its request, or its
task is still queued; and none is queued when nothing runs. -/
structure Accounted (w : World Disaggregate) (reports out : List InferenceTask) : Prop where
  used : reports.Perm
    (out ++ Roster.dropped InferenceTask.requestId w.policy.log ++ w.policy.waiting)
  queues : ∀ groupId, w.policy.groupReady.getD groupId [] =
    w.policy.waiting.filter (w.tasks.ordinaryOn groupId)
  reshardQueue : w.policy.reshardReady = w.policy.waiting.filter InferenceTask.isReshard
  woken : w.policy.running = [] → w.policy.waiting = []

theorem Sound.exclusive (h : Sound known w) : GroupsExclusive w where
  perGroup := h.booked.perGroup
  once := h.booked.once
  reshards := h.booked.reshards
  oneReshard := h.booked.oneReshard
  holds := h.booked.holds
  apart := fun groupId ⟨ho, hh⟩ => by
    rcases h.booked.apart groupId with hz | hz
    · exact absurd hz (Nat.pos_iff_ne_zero.mp ho)
    · exact absurd hz (Nat.pos_iff_ne_zero.mp hh)

end Disaggregate

/-- Group exclusivity in every run of the disaggregate policy, over a topology
in which no group is called like the entry of the RESHARD tasks. -/
theorem disaggregate_exclusive (known : String → InferenceTask) (w : World Disaggregate)
    (ids : Option (Dict String String)) (hinit : w.policy = .init ids)
    (hs : w.topology.find reshardTarget = none) (asks : List Ask)
    (hk : ∀ ask ∈ asks, ∀ task ∈ ask.reported, known task.taskId = task) :
    let run := askAll Disaggregate.policy asks w
    let reports := asks.flatMap Ask.reported
    Disaggregate.GroupsExclusive run.2 ∧
      (run.1.filter InferenceTask.isReshard ++ run.2.policy.reshardReady).Sublist
        (reports.filter InferenceTask.isReshard) ∧
      (Disaggregate.AllAccepted asks w → Disaggregate.Accounted run.2 reports run.1) := by
  have hw : Disaggregate.Sound known w := ⟨hs, hinit ▸ .init ids, hinit ▸ .init ids⟩
  have hd := Disaggregate.askAll_does hw asks hk
  have hempty : w.policy.log = [] := by rw [hinit]; rfl
  obtain ⟨front, hfront, hr⟩ := hd.entered
  have hout := hd.started
  have hlawful := hd.sound.queued.lawful
  rw [hempty] at hr hout
  refine ⟨hd.sound.exclusive, ?_, fun ha => ?_⟩
  · have horder := hlawful.sublist
    rw [hr, hout] at horder
    rw [hd.sound.queued.reshardQueue]
    exact horder.trans (hfront.filter _)
  · have hdrained : Disaggregate.Drained w := fun _ => by
      rw [Disaggregate.waiting, hempty]
      rfl
    obtain ⟨hall, hwoken⟩ := hd.complete ha hdrained
    have hperm := hlawful.perm
    rw [hall, hout, hempty] at hperm
    exact ⟨hperm, hd.sound.queued.queues, hd.sound.queued.reshardQueue, hwoken⟩

-- Two groups: a task on the first, a RESHARD from it to the second that waits
-- for the task to end.

def bridgeGroup (groupId : String) (rank : Rank) : ExecutionGroupSpec :=
  soloSpec groupId rank [.textEncode]

def bridgeTopology : RuntimeTopology :=
  ⟨[0, 1], [bridgeGroup "g" 0, bridgeGroup "h" 1], two_workers, by decide, by decide⟩

def bridgeReshard : InferenceTask :=
  ⟨"m", "r", .reshard, none, .pending, 0, [], [], [], none,
    (Dict.set ∅ reshardPayloadSrcGroupId (.text "g")).set reshardPayloadDstGroupId (.text "h")⟩

def bridgeKnown (taskId : String) : InferenceTask :=
  if taskId = "m" then bridgeReshard else soloTask "g"

def bridgeStart : World Disaggregate := ⟨bridgeTopology, ∅, 0, .init none⟩

def bridgeAsks : List Ask :=
  [.runnable [soloTask "g"], .runnable [bridgeReshard], .event soloEnd]

/-- The RESHARD starts when the task has ended. -/
theorem bridge_exclusive :
    (askAll Disaggregate.policy bridgeAsks bridgeStart).1 = [soloTask "g", bridgeReshard] ∧
    Disaggregate.GroupsExclusive (askAll Disaggregate.policy bridgeAsks bridgeStart).2 ∧
    Disaggregate.Accounted (askAll Disaggregate.policy bridgeAsks bridgeStart).2
      [soloTask "g", bridgeReshard] [soloTask "g", bridgeReshard] := by
  have hrun : (askAll Disaggregate.policy bridgeAsks bridgeStart).1 =
    [soloTask "g", bridgeReshard] := by decide +kernel
  have h := disaggregate_exclusive bridgeKnown bridgeStart none rfl (by decide) bridgeAsks
    (by simp [bridgeAsks, Ask.reported]; decide)
  have ha : Disaggregate.AllAccepted bridgeAsks bridgeStart :=
    ⟨List.forall_mem_singleton.mpr rfl, List.forall_mem_singleton.mpr rfl, List.forall_mem_nil _,
      trivial⟩
  have haccounted := h.2.2 ha
  rw [hrun] at haccounted
  exact ⟨hrun, h.1, haccounted⟩

/-- A group that goes by the name of the RESHARD entry stays occupied after
its only task has ended. -/
theorem reshard_named_group_occupied :
    ¬ ∀ (known : String → InferenceTask) (w : World Disaggregate)
      (ids : Option (Dict String String)), w.policy = .init ids → ∀ asks : List Ask,
        (∀ ask ∈ asks, ∀ task ∈ ask.reported, known task.taskId = task) → Disaggregate.AllAccepted asks w →
          Disaggregate.GroupsExclusive (askAll Disaggregate.policy asks w).2 := by
  intro h
  have hx := h (fun _ => soloTask reshardTarget) ⟨soloTopology reshardTarget, ∅, 0, .init none⟩
    none rfl [.runnable [soloTask reshardTarget], .event soloEnd]
    (by simp [Ask.reported])
    ⟨List.forall_mem_singleton.mpr rfl, List.forall_mem_nil _, trivial⟩
  exact absurd (hx.perGroup reshardTarget) (by decide +kernel)

end GfDit
