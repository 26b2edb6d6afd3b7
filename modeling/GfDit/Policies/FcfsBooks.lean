import GfDit.Policies.DynamicStepFcfs
import GfDit.Policies.Ledger

/-!
# The books of the dynamic-step FCFS policy

What holds between two calls of the policy: the accounts balance, and a task
waits on the queue of its own group. Every handler keeps it, also when it
raises, provided no group goes by the name under which RESHARD tasks are
entered; a handler that returns has dispatched exactly the tasks it returns.
-/

namespace GfDit

open Prog

namespace DynamicStepFcfs

variable {known : String → InferenceTask} {w : World DynamicStepFcfs}

structure Sound (known : String → InferenceTask) (w : World DynamicStepFcfs) : Prop where
  booked : Booked known w.topology w.tasks w.policy.accounts
  unnamed : w.topology.find reshardTarget = none
  queued : ∀ groupId queue, w.policy.groupReady.get? groupId = some queue → ∀ task ∈ queue,
    known task.taskId = task ∧ task.kind ≠ .reshard ∧ w.tasks.groupId task = some groupId
  reshards : ∀ task ∈ w.policy.reshardReady, known task.taskId = task ∧ task.kind = .reshard

theorem Sound.init (hd : ∀ group ∈ w.topology.groups, group.ranks.Nodup)
    (hs : w.topology.find reshardTarget = none) (hp : w.policy = .init ids schedule) :
    Sound known w where
  booked := hp ▸ Booked.init hd
  unnamed := hs
  queued := by simp [hp, DynamicStepFcfs.init]
  reshards := by simp [hp, DynamicStepFcfs.init]

theorem Sound.settle (h : Sound known w) (hs : Settled known w.tasks heap) :
    Sound known { w with tasks := heap } where
  booked := h.booked.settle hs
  unnamed := h.unnamed
  queued := fun groupId queue hget task hm => by
    obtain ⟨hk, ho, hg⟩ := h.queued groupId queue hget task hm
    exact ⟨hk, ho, hs task groupId hk hg⟩
  reshards := h.reshards

theorem Sound.waiting (h : Sound known w) (hm : task ∈ w.policy.groupReady.getD groupId []) :
    known task.taskId = task ∧ task.kind ≠ .reshard ∧ w.tasks.groupId task = some groupId := by
  unfold Dict.getD at hm
  cases hget : w.policy.groupReady.get? groupId with
  | none => simp [hget] at hm
  | some queue => exact h.queued groupId queue hget task (by simpa [hget] using hm)

-- ---------------------------------------------------------------------------
-- Dispatch
-- ---------------------------------------------------------------------------

theorem Sound.dispatch (h : Sound known w) (hf : w.topology.find group.groupId = some group)
    (hq : w.policy.groupReady.getD group.groupId [] = task :: rest)
    (hfree : w.policy.accounts.canDispatchRanks group.ranks = true) :
    Ticks known (Sound known) accounts w [task]
      { w.setStatus task .dispatched with policy := { w.policy with
        groupReady := w.policy.groupReady.set group.groupId rest
        accounts := w.policy.accounts.dispatch task group.groupId group.ranks } } := by
  have hwait := fun t (hm : t ∈ task :: rest) => h.waiting (hq ▸ hm)
  obtain ⟨hk, ho, hg⟩ := hwait task (List.mem_cons_self ..)
  have hs : Settled known w.tasks (w.tasks.setStatus task .dispatched) := .setStatus hk .dispatched
  have h' := h.settle hs
  refine ⟨⟨?_, hs, fun _ hm => hm⟩, .dispatched ..⟩
  constructor
  · exact h'.booked.dispatch hk ho (hs _ _ hk hg) hf hfree
  · exact h.unnamed
  · intro groupId queue hget t hm
    rw [Dict.get?_set] at hget
    split at hget
    · rename_i heq
      cases hget
      obtain ⟨hkt, hot, hgt⟩ := hwait t (List.mem_cons_of_mem _ hm)
      exact ⟨hkt, hot, heq ▸ hs _ _ hkt hgt⟩
    · exact h'.queued groupId queue hget t hm
  · exact h.reshards

theorem takeQueue_ticks (h : Sound known w) (hf : w.topology.find group.groupId = some group)
    (hq : w.policy.groupReady.getD group.groupId [] = queue) :
    wp (takeQueue group.groupId group.ranks queue) (Ticks known (Sound known) accounts w) (fun _ _ => False) w := by
  induction queue generalizing w with
  | nil => exact Ticks.refl h
  | cons task rest ih =>
    simp only [takeQueue, wp_bind, wp_get, wp_ite, wp_modify, wp_pure]
    split
    · rename_i hfree
      have hd := h.dispatch hf hq hfree
      refine wp_mono (ih hd.sound hf (by simp [Dict.getD])) (fun out w' ht => ?_) fun _ _ he => he
      exact hd.trans ht
    · exact Ticks.refl h

theorem Sound.popEmpty (h : Sound known w) (groupId : String) :
    Ticks known (Sound known) accounts w [] { w with policy := w.policy.popEmpty groupId } := by
  unfold DynamicStepFcfs.popEmpty
  split
  · refine ⟨⟨{ h with queued := fun other queue hget => ?_ }, .refl, fun _ hm => hm⟩, .refl _⟩
    rw [Dict.get?_erase] at hget
    split at hget
    · cases hget
    · exact h.queued other queue hget
  · exact Ticks.refl h

theorem takeGroups_ticks (h : Sound known w) (hg : ∀ group ∈ groups, group ∈ w.topology.groups) :
    wp (takeGroups groups) (Ticks known (Sound known) accounts w) (fun _ _ => False) w := by
  induction groups generalizing w with
  | nil => exact Ticks.refl h
  | cons group groups ih =>
    have hgs : ∀ g ∈ groups, g ∈ w.topology.groups := fun g hm => hg g (List.mem_cons_of_mem _ hm)
    have hf : w.topology.find group.groupId = some group :=
      RuntimeTopology.find_eq_some.mpr ⟨hg group (List.mem_cons_self ..), rfl⟩
    simp only [takeGroups, wp_bind, wp_get, wp_ite, wp_modify, wp_pure]
    split
    · exact ih h hgs
    · refine wp_mono (takeQueue_ticks h hf rfl) (fun out w₁ ht => ?_) fun _ _ he => he
      have hp := ht.sound.popEmpty group.groupId
      have ht' := ht.trans hp
      rw [List.append_nil] at ht'
      refine wp_mono (ih ht'.sound fun g hm => ht'.grows g (hgs g hm)) (fun rest w₂ hr => ?_)
        fun _ _ he => he
      exact ht'.trans hr

theorem Sound.dispatchReshard (h : Sound known w) (hq : w.policy.reshardReady = task :: rest)
    (hslot : w.policy.accounts.outstandingReshards < maxConcurrentReshards)
    (hnodup : ranks.Nodup) (hfree : w.policy.accounts.canDispatchRanks ranks = true)
    (src dst : String) :
    Ticks known (Sound known) accounts w [task]
      { w.setStatus task .dispatched with policy := { w.policy with
        reshardReady := rest
        accounts := w.policy.accounts.dispatchReshard task src dst ranks } } := by
  obtain ⟨hk, ho⟩ := h.reshards task (by simp [hq])
  have hs : Settled known w.tasks (w.tasks.setStatus task .dispatched) := .setStatus hk .dispatched
  have h' := h.settle hs
  exact ⟨⟨⟨h'.booked.dispatchReshard hk ho hnodup hslot hfree src dst, h.unnamed, h'.queued,
    fun t hm => h.reshards t (by simp [hq, hm])⟩, hs, fun _ hm => hm⟩, .dispatched ..⟩

theorem takeReshards_ticks (h : Sound known w) (hq : w.policy.reshardReady = queue) :
    wp (takeReshards queue) (Ticks known (Sound known) accounts w)
      (fun _ => Keeps known (Sound known) w) w := by
  induction queue generalizing w with
  | nil => exact Ticks.refl h
  | cons task rest ih =>
    simp only [takeReshards, reshardRanks, wp_bind, wp_get, wp_ite, wp_modify, wp_pure]
    split
    · rename_i hslot
      refine wp_check (fun src _ => ?_) fun _ _ => .refl h
      refine wp_check (fun dst _ => ?_) fun _ _ => .refl h
      refine World.wp_getGroup (fun srcGroup _ => ?_) fun _ => .refl h
      refine World.wp_getGroup (fun dstGroup _ => ?_) fun _ => .refl h
      split
      · rename_i hfree
        have hd := h.dispatchReshard hq hslot (sortedUnion_nodup ..) hfree src dst
        exact wp_mono (ih hd.sound rfl) (fun _ _ ht => hd.trans ht) fun _ _ hk => hd.toKeeps.trans hk
      · exact Ticks.refl h
    · exact Ticks.refl h

theorem takeDispatchableTasks_ticks (h : Sound known w) :
    wp takeDispatchableTasks (Ticks known (Sound known) accounts w)
      (fun _ => Keeps known (Sound known) w) w := by
  simp only [takeDispatchableTasks, wp_bind, wp_get, wp_pure]
  refine wp_mono (takeReshards_ticks h rfl) (fun reshards w₁ ht => ?_) fun _ _ he => he
  refine wp_mono (takeGroups_ticks ht.sound fun _ hm => hm) (fun ordinary w₂ ht' => ?_)
    fun _ _ he => he.elim
  exact ht.trans ht'

-- ---------------------------------------------------------------------------
-- Handlers
-- ---------------------------------------------------------------------------

theorem assignGroup_ticks (h : Sound known w) (hk : known task.taskId = task) :
    wp (assignGroup task) (fun _ => Ticks known (Sound known) accounts w [])
      (fun _ => Keeps known (Sound known) w) w := by
  simp only [assignGroup, wp_bind, wp_get, wp_ite, wp_modify, wp_pure]
  split
  · rename_i hn
    refine wp_check (fun groupId _ => ?_) fun _ _ => .refl h
    have hs := Settled.setGroupId hk hn groupId
    exact ⟨⟨h.settle hs, hs, fun _ hm => hm⟩, .refl _⟩
  · exact Ticks.refl h

theorem groupId_of_validateTask (hv : validateTask topology task groupId = .ok u)
    (ho : task.kind ≠ .reshard) : ∃ g, groupId = some g := by
  cases groupId with
  | some g => exact ⟨g, rfl⟩
  | none => simp [validateTask, ho, throw, throwThe, MonadExceptOf.throw] at hv

@[simp] theorem enqueue_accounts (p : DynamicStepFcfs) (task : InferenceTask)
    (groupId : Option String) : (p.enqueue task groupId).accounts = p.accounts := by
  unfold DynamicStepFcfs.enqueue
  split <;> rfl

theorem Sound.enqueue (h : Sound known w) (hk : known task.taskId = task)
    (hg : task.kind ≠ .reshard → ∃ g, w.tasks.groupId task = some g) :
    Sound known { w with policy := w.policy.enqueue task (w.tasks.groupId task) } := by
  by_cases ho : task.kind = .reshard
  · have he : w.policy.enqueue task (w.tasks.groupId task) =
        { w.policy with reshardReady := w.policy.reshardReady ++ [task] } := by
      simp [DynamicStepFcfs.enqueue, ho]
    rw [he]
    refine { h with reshards := fun t hm => ?_ }
    rcases List.mem_append.mp hm with hm | hm
    · exact h.reshards t hm
    · rw [List.mem_singleton.mp hm]
      exact ⟨hk, ho⟩
  · obtain ⟨g, hg⟩ := hg ho
    have he : w.policy.enqueue task (w.tasks.groupId task) = { w.policy with
        groupReady := w.policy.groupReady.set g (w.policy.groupReady.getD g [] ++ [task]) } := by
      cases hkind : task.kind <;> simp_all [DynamicStepFcfs.enqueue]
    rw [he]
    refine { h with queued := fun groupId queue hget t hm => ?_ }
    rw [Dict.get?_set] at hget
    split at hget
    · rename_i heq
      subst heq
      cases hget
      rcases List.mem_append.mp hm with hm | hm
      · exact h.waiting hm
      · rw [List.mem_singleton.mp hm]
        exact ⟨hk, ho, hg⟩
    · exact h.queued groupId queue hget t hm

theorem enqueueRunnable_ticks (h : Sound known w) (hk : known task.taskId = task) :
    wp (enqueueRunnable task) (fun _ => Ticks known (Sound known) accounts w [])
      (fun _ => Keeps known (Sound known) w) w := by
  simp only [enqueueRunnable, wp_bind, wp_get, wp_modify]
  refine wp_mono (assignGroup_ticks h hk) (fun _ w₁ ht => ?_) fun _ _ he => he
  refine wp_check (fun _ hv => ?_) fun _ _ => ht.toKeeps
  have hq := ht.sound.enqueue hk (groupId_of_validateTask hv)
  have hs : Settled known w₁.tasks (w₁.tasks.setStatus task .ready) := .setStatus hk .ready
  exact ht.trans ⟨⟨hq.settle hs, hs, fun _ hm => hm⟩, by simpa using .refl _⟩

theorem onTasksRunnable_ticks (h : Sound known w) (hk : ∀ task ∈ tasks, known task.taskId = task) :
    wp (onTasksRunnable tasks) (Ticks known (Sound known) accounts w)
      (fun _ => Keeps known (Sound known) w) w := by
  simp only [onTasksRunnable, wp_bind]
  refine wp_mono (wp_forM (I := Ticks known (Sound known) accounts w []) (fun task hm w₁ ht => ?_) (.refl h))
    (fun _ w₁ ht => ?_) fun _ _ he => he
  · exact wp_mono (enqueueRunnable_ticks ht.sound (hk task hm)) (fun _ _ ht' => ht.trans ht')
      fun _ _ he => ht.toKeeps.trans he
  · exact wp_mono (takeDispatchableTasks_ticks ht.sound) (fun _ _ ht' => ht.trans ht')
      fun _ _ he => ht.toKeeps.trans he

theorem onRequestSubmitted_ticks (h : Sound known w)
    (hk : ∀ task ∈ plan.rootTasks, known task.taskId = task) :
    wp (onRequestSubmitted plan) (Ticks known (Sound known) accounts w)
      (fun _ => Keeps known (Sound known) w) w :=
  onTasksRunnable_ticks h hk

theorem Sound.releaseTask (h : Sound known w) (taskId : String) :
    Sound known { w with policy := { w.policy with
      accounts := w.policy.accounts.releaseTask taskId } } :=
  { h with booked := h.booked.releaseTask h.unnamed taskId }

theorem dropFromQueues_subset (hget : (dropFromQueues requestId queues groupId).get? other =
    some queue) : ∃ before, queues.get? other = some before ∧ queue ⊆ before := by
  have hkeep : queues.get? other = some queue → ∃ before, queues.get? other = some before ∧
      queue ⊆ before := fun h => ⟨queue, h, fun _ hm => hm⟩
  simp only [dropFromQueues] at hget
  split at hget
  · rename_i hany
    split at hget
    · rw [Dict.get?_erase] at hget
      split at hget
      · cases hget
      · exact hkeep hget
    · rw [Dict.get?_set] at hget
      split at hget
      · rename_i heq
        subst heq
        cases hget
        cases hold : queues.get? groupId with
        | none => simp [Dict.getD, hold] at hany
        | some before =>
          refine ⟨before, rfl, fun t hm => ?_⟩
          simpa [Dict.getD, hold] using List.mem_of_mem_filter hm
      · exact hkeep hget
  · exact hkeep hget

theorem foldl_dropFromQueues_subset {keys : List String} {queues : Dict String (List InferenceTask)}
    (hget : (keys.foldl (dropFromQueues requestId) queues).get? other = some queue) :
    ∃ before, queues.get? other = some before ∧ queue ⊆ before := by
  induction keys generalizing queues with
  | nil => exact ⟨queue, hget, fun _ hm => hm⟩
  | cons key keys ih =>
    obtain ⟨middle, hm, hs⟩ := ih hget
    obtain ⟨before, hb, hs'⟩ := dropFromQueues_subset hm
    exact ⟨before, hb, fun _ ht => hs' (hs ht)⟩

theorem Sound.dropRequest (h : Sound known w) (requestId : String) :
    Sound known { w with policy := w.policy.dropRequest requestId } where
  booked := h.booked
  unnamed := h.unnamed
  queued := fun groupId queue hget task hm => by
    obtain ⟨before, hb, hs⟩ := foldl_dropFromQueues_subset hget
    exact h.queued groupId before hb task (hs hm)
  reshards := fun task hm => h.reshards task (List.mem_of_mem_filter hm)

theorem onWorkerEvent_answers (h : Sound known w) (event : WorkerEvent) :
    wp (onWorkerEvent event) (Answers known (Sound known) accounts event w)
      (fun _ => Keeps known (Sound known) w) w := by
  have hreleased := h.releaseTask event.taskId
  have hlog := w.policy.accounts.releaseTask_log event.taskId
  simp only [onWorkerEvent, DynamicStepFcfs.releaseTask, wp_bind, wp_ite, wp_modify]
  split
  · rename_i he
    have hlog := WorkerEvent.entered_ended he hlog
    split
    · exact wp_answers takeDispatchableTasks_ticks
        ⟨hreleased.dropRequest event.requestId, .refl, fun _ hm => hm⟩ hlog
    · exact wp_answers takeDispatchableTasks_ticks ⟨hreleased, .refl, fun _ hm => hm⟩ hlog
  · rename_i he
    have hsame := WorkerEvent.entered_other he w.policy.accounts.log
    split
    · exact wp_answers takeDispatchableTasks_ticks
        ⟨h.dropRequest event.requestId, .refl, fun _ hm => hm⟩ hsame
    · exact wp_answers takeDispatchableTasks_ticks (.refl h) hsame

end DynamicStepFcfs

end GfDit
