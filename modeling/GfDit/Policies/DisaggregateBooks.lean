import GfDit.Lib.Unique
import GfDit.Policies.Disaggregate
import GfDit.Policies.FcfsBooks

/-!
# The books of the disaggregate policy

What holds between two calls. The log says which tasks wait and which are
dispatched and not released; the queues are what waits, cut by group, and each
counter is the number of running tasks it stands for. Every handler keeps
this, also when it raises, provided no group goes by the name under which
RESHARD tasks are entered.
-/

namespace GfDit

open Prog

-- ---------------------------------------------------------------------------
-- Tasks that passed their checks
-- ---------------------------------------------------------------------------

def TaskHeap.ordinaryOn (heap : TaskHeap) (groupId : String) (task : InferenceTask) : Bool :=
  !task.isReshard ∧ heap.groupId task = some groupId

def InferenceTask.reshardOn (groupId : String) (task : InferenceTask) : Bool :=
  task.isReshard ∧ (task.payloadText reshardPayloadSrcGroupId = some groupId ∨
    task.payloadText reshardPayloadDstGroupId = some groupId)

theorem payloadItem_of_payloadText {task : InferenceTask}
    (h : task.payloadText key = some value) : task.payloadItem key = .ok value := by
  unfold InferenceTask.payloadText at h
  unfold InferenceTask.payloadItem
  split at h
  · split at h
    · cases h
    · cases h
      rfl
  · cases h

theorem reshard_of_validateTask {task : InferenceTask} {topology : RuntimeTopology}
    (hv : validateTask topology task groupId = .ok u) (hr : task.isReshard = true) :
    ∃ src dst, task.payloadText reshardPayloadSrcGroupId = some src ∧
      task.payloadText reshardPayloadDstGroupId = some dst ∧ src ≠ dst := by
  have hr : task.kind = .reshard := by simpa [InferenceTask.isReshard] using hr
  cases groupId with
  | some groupId => simp [validateTask, hr, throw, throwThe, MonadExceptOf.throw] at hv
  | none =>
    simp only [validateTask, hr, if_true, checkReshardPayload] at hv
    split at hv
    · cases hv
    · rename_i src hsrc
      split at hv
      · cases hv
      · rename_i dst hdst
        split at hv
        · cases hv
        · rename_i hne
          exact ⟨src, dst, hsrc, hdst, hne⟩

theorem ordinary_of_validateTask {task : InferenceTask} {topology : RuntimeTopology}
    (hv : validateTask topology task groupId = .ok u) (ho : task.isReshard = false) :
    ∃ group ∈ topology.groups, groupId = some group.groupId := by
  have ho : task.kind ≠ .reshard := by simpa [InferenceTask.isReshard] using ho
  obtain ⟨g, rfl⟩ := DynamicStepFcfs.groupId_of_validateTask hv ho
  simp only [validateTask, ho, if_false] at hv
  obtain ⟨group, hg, -⟩ := Except.bind_eq_ok.mp hv
  obtain ⟨hm, rfl⟩ := RuntimeTopology.find_eq_some.mp (RuntimeTopology.getGroup_eq_ok.mp hg)
  exact ⟨group, hm, rfl⟩

namespace Disaggregate

variable {known : String → InferenceTask} {topology : RuntimeTopology} {heap heap' : TaskHeap}
  {p : Disaggregate} {task : InferenceTask}

def waiting (p : Disaggregate) : List InferenceTask := Roster.waiting InferenceTask.requestId p.log

def running (p : Disaggregate) : List InferenceTask := Roster.running InferenceTask.taskId p.log

def runningUnder (p : Disaggregate) (taskId : String) : Option InferenceTask :=
  p.running.find? fun task => task.taskId = taskId

theorem runningUnder_eq_some (h : p.runningUnder taskId = some task) :
    task ∈ p.running ∧ task.taskId = taskId :=
  ⟨List.mem_of_find?_eq_some h, by simpa using List.find?_some h⟩

def targetOf (heap : TaskHeap) (task : InferenceTask) : Option String :=
  if task.isReshard then some reshardTarget else heap.groupId task

-- ---------------------------------------------------------------------------
-- Invariants
-- ---------------------------------------------------------------------------

/-- Every counter is the number of running tasks it stands for; no group has
two, nor one beside a RESHARD. -/
structure Booked (known : String → InferenceTask) (topology : RuntimeTopology) (heap : TaskHeap)
    (p : Disaggregate) : Prop where
  known : ∀ task ∈ p.running, known task.taskId = task
  ids : (p.running.map InferenceTask.taskId).Nodup
  fit : ∀ task ∈ p.running, validateTask topology task (heap.groupId task) = .ok ()
  kinds : ∀ taskId, p.dispatchedKind.get? taskId = (p.runningUnder taskId).bind (targetOf heap)
  groupsBy : ∀ task ∈ p.running, task.isReshard = true → ∃ src dst,
    task.payloadText reshardPayloadSrcGroupId = some src ∧
    task.payloadText reshardPayloadDstGroupId = some dst ∧
    p.reshardGroupsByTask.get? task.taskId = some (src, dst)
  perGroup : ∀ groupId, Counter.count p.outstandingPerGroup groupId =
    p.running.countP (heap.ordinaryOn groupId)
  once : ∀ groupId, Counter.count p.outstandingPerGroup groupId ≤ 1
  reshards : p.outstandingReshards = p.running.countP InferenceTask.isReshard
  oneReshard : p.outstandingReshards ≤ 1
  holds : ∀ groupId, Counter.count p.reshardHolds groupId =
    p.running.countP (InferenceTask.reshardOn groupId)
  apart : ∀ groupId, Counter.count p.outstandingPerGroup groupId = 0 ∨
    Counter.count p.reshardHolds groupId = 0

structure Queued (known : String → InferenceTask) (topology : RuntimeTopology) (heap : TaskHeap)
    (p : Disaggregate) : Prop where
  known : ∀ task ∈ p.waiting, known task.taskId = task
  fit : ∀ task ∈ p.waiting, validateTask topology task (heap.groupId task) = .ok ()
  queues : ∀ groupId, p.groupReady.getD groupId [] = p.waiting.filter (heap.ordinaryOn groupId)
  reshardQueue : p.reshardReady = p.waiting.filter InferenceTask.isReshard
  lawful : Roster.Lawful InferenceTask.requestId InferenceTask.isReshard p.log

structure Sound (known : String → InferenceTask) (w : World Disaggregate) : Prop where
  unnamed : w.topology.find reshardTarget = none
  booked : Booked known w.topology w.tasks w.policy
  queued : Queued known w.topology w.tasks w.policy

theorem Booked.init (ids : Option (Dict String String)) : Booked known topology heap (.init ids) where
  known := by simp [running, Disaggregate.init, Roster.running]
  ids := by simp [running, Disaggregate.init, Roster.running]
  fit := by simp [running, Disaggregate.init, Roster.running]
  kinds := by simp [runningUnder, running, Disaggregate.init, Roster.running]
  groupsBy := by simp [running, Disaggregate.init, Roster.running]
  perGroup := by simp [running, Disaggregate.init, Roster.running]
  once := by simp [Disaggregate.init]
  reshards := by simp [running, Disaggregate.init, Roster.running]
  oneReshard := Nat.zero_le _
  holds := by simp [running, Disaggregate.init, Roster.running]
  apart := fun _ => .inl rfl

theorem Queued.init (ids : Option (Dict String String)) : Queued known topology heap (.init ids) where
  known := by simp [waiting, Disaggregate.init, Roster.waiting]
  fit := by simp [waiting, Disaggregate.init, Roster.waiting]
  queues := by simp [waiting, Disaggregate.init, Roster.waiting, Dict.getD]
  reshardQueue := by simp [waiting, Disaggregate.init, Roster.waiting]
  lawful := trivial

-- ---------------------------------------------------------------------------
-- Changes of the tasks
-- ---------------------------------------------------------------------------

theorem Booked.congr {q : Disaggregate} (h : Booked known topology heap p)
    (hrun : q.running = p.running)
    (hkinds : ∀ taskId, q.dispatchedKind.get? taskId = p.dispatchedKind.get? taskId)
    (hby : q.reshardGroupsByTask = p.reshardGroupsByTask)
    (hgroup : q.outstandingPerGroup = p.outstandingPerGroup)
    (hreshards : q.outstandingReshards = p.outstandingReshards)
    (hholds : q.reshardHolds = p.reshardHolds) : Booked known topology heap q := by
  have hunder : q.runningUnder = p.runningUnder := by
    funext taskId
    rw [runningUnder, hrun, runningUnder]
  refine ⟨hrun ▸ h.known, hrun ▸ h.ids, hrun ▸ h.fit, fun taskId => ?_, ?_, ?_, hgroup ▸ h.once, ?_,
    hreshards ▸ h.oneReshard, ?_, ?_⟩
  · rw [hkinds, hunder]
    exact h.kinds taskId
  · rw [hrun, hby]
    exact h.groupsBy
  · rw [hrun, hgroup]
    exact h.perGroup
  · rw [hrun, hreshards]
    exact h.reshards
  · rw [hrun, hholds]
    exact h.holds
  · rw [hgroup, hholds]
    exact h.apart

theorem ordinaryOn_congr (h : heap'.groupId task = heap.groupId task) (groupId : String) :
    heap'.ordinaryOn groupId task = heap.ordinaryOn groupId task := by
  simp [TaskHeap.ordinaryOn, h]

theorem Booked.reheap (h : Booked known topology heap p)
    (hs : ∀ task ∈ p.running, heap'.groupId task = heap.groupId task) :
    Booked known topology heap' p where
  known := h.known
  ids := h.ids
  fit := fun task hm => by rw [hs task hm]; exact h.fit task hm
  kinds := fun taskId => by
    rw [h.kinds taskId]
    cases hu : p.runningUnder taskId with
    | none => rfl
    | some task => simp [targetOf, hs task (runningUnder_eq_some hu).1]
  groupsBy := h.groupsBy
  perGroup := fun groupId => by
    rw [h.perGroup groupId]
    exact List.countP_congr fun task hm => by rw [ordinaryOn_congr (hs task hm)]
  once := h.once
  reshards := h.reshards
  oneReshard := h.oneReshard
  holds := h.holds
  apart := h.apart

theorem Queued.reheap (h : Queued known topology heap p)
    (hs : ∀ task ∈ p.waiting, heap'.groupId task = heap.groupId task) :
    Queued known topology heap' p where
  known := h.known
  fit := fun task hm => by rw [hs task hm]; exact h.fit task hm
  queues := fun groupId => by
    rw [h.queues groupId]
    exact List.filter_congr fun task hm => (ordinaryOn_congr (hs task hm) groupId).symm
  reshardQueue := h.reshardQueue
  lawful := h.lawful

theorem Sound.setStatus {w : World Disaggregate} (h : Sound known w)
    (hk : known task.taskId = task) (status : TaskStatus) : Sound known (w.setStatus task status) := by
  have hsame : ∀ other, known other.taskId = other →
      (w.tasks.setStatus task status).groupId other = w.tasks.groupId other := fun other ho =>
    TaskHeap.groupId_setStatus _ _ fun hid => by rw [← hk, hid, ho]
  exact ⟨h.unnamed, h.booked.reheap fun other hm => hsame other (h.booked.known other hm),
    h.queued.reheap fun other hm => hsame other (h.queued.known other hm)⟩

-- ---------------------------------------------------------------------------
-- Starts
-- ---------------------------------------------------------------------------

theorem Booked.fresh (h : Booked known topology heap p) (hk : known task.taskId = task)
    (hn : task ∉ p.running) : task.taskId ∉ p.running.map InferenceTask.taskId := by
  intro hm
  obtain ⟨other, ho, hid⟩ := List.mem_map.mp hm
  have heq : other = task := by rw [← h.known other ho, hid, hk]
  exact hn (heq ▸ ho)

theorem runningUnder_cons {q : Disaggregate} (h : q.running = task :: p.running) (taskId : String) :
    q.runningUnder taskId =
      if task.taskId = taskId then some task else p.runningUnder taskId := by
  unfold runningUnder
  rw [h, List.find?_cons]
  by_cases hid : task.taskId = taskId <;> simp [hid]

theorem kinds_cons {q : Disaggregate}
    (h : ∀ taskId, p.dispatchedKind.get? taskId = (p.runningUnder taskId).bind (targetOf heap))
    (hr : q.running = task :: p.running) (ht : targetOf heap task = some target)
    (hd : q.dispatchedKind = p.dispatchedKind.set task.taskId target) (taskId : String) :
    q.dispatchedKind.get? taskId = (q.runningUnder taskId).bind (targetOf heap) := by
  rw [hd, Dict.get?_set, runningUnder_cons hr]
  split
  · exact ht.symm
  · exact h taskId

theorem canDispatch_iff : p.canDispatch groupId = true ↔
    Counter.count p.outstandingPerGroup groupId = 0 ∧ Counter.count p.reshardHolds groupId = 0 := by
  simp [canDispatch, maxConcurrentPerGroup]

theorem Booked.start (h : Booked known topology heap p) (hk : known task.taskId = task)
    (hv : validateTask topology task (heap.groupId task) = .ok ())
    (ho : heap.ordinaryOn groupId task = true) (hfree : p.canDispatch groupId = true) :
    Booked known topology heap (p.start task groupId) := by
  obtain ⟨hidle, hheld⟩ := canDispatch_iff.mp hfree
  obtain ⟨hkind, hg⟩ : task.isReshard = false ∧ heap.groupId task = some groupId := by
    simpa [TaskHeap.ordinaryOn] using ho
  have hnot : task ∉ p.running := by
    intro hm
    have hzero := h.perGroup groupId
    rw [hidle] at hzero
    exact List.countP_eq_zero.mp hzero.symm task hm ho
  have hrun : (p.start task groupId).running = task :: p.running := rfl
  have hcount : ∀ other, Counter.count (p.start task groupId).outstandingPerGroup other =
      Counter.count p.outstandingPerGroup other + if groupId = other then 1 else 0 :=
    Counter.count_raise p.outstandingPerGroup groupId
  constructor
  · rw [hrun]
    exact List.forall_mem_cons.mpr ⟨hk, h.known⟩
  · rw [hrun]
    exact List.nodup_cons.mpr ⟨h.fresh hk hnot, h.ids⟩
  · rw [hrun]
    exact List.forall_mem_cons.mpr ⟨hv, h.fit⟩
  · exact kinds_cons h.kinds hrun (by simp [targetOf, hkind, hg]) rfl
  · rw [hrun]
    exact List.forall_mem_cons.mpr ⟨fun hr => by simp [hkind] at hr, h.groupsBy⟩
  · intro other
    rw [hcount, hrun, List.countP_cons, h.perGroup other]
    simp [TaskHeap.ordinaryOn, hkind, hg]
  · intro other
    have hle := h.once other
    rw [hcount]
    split
    · rename_i heq
      rw [← heq, hidle]
    · exact hle
  · rw [hrun, List.countP_cons_of_neg (by simp [hkind])]
    exact h.reshards
  · exact h.oneReshard
  · intro other
    rw [hrun, List.countP_cons_of_neg (by simp [InferenceTask.reshardOn, hkind])]
    exact h.holds other
  · intro other
    rw [hcount]
    by_cases heq : groupId = other
    · exact .inr (heq ▸ hheld)
    · rw [if_neg heq]
      exact h.apart other

/-- A RESHARD between two groups counts once for each. -/
theorem count_endpoints (hne : src ≠ dst) (hr : task.isReshard = true)
    (hsrc : task.payloadText reshardPayloadSrcGroupId = some src)
    (hdst : task.payloadText reshardPayloadDstGroupId = some dst) (groupId : String) :
    [src, dst].count groupId = if task.reshardOn groupId then 1 else 0 := by
  by_cases hs : src = groupId
  · subst hs
    simp [InferenceTask.reshardOn, hr, hsrc, hne.symm]
  · by_cases hd : dst = groupId <;> simp [InferenceTask.reshardOn, hr, hsrc, hdst, hs, hd]

theorem canDispatchReshard_iff : p.canDispatchReshard src dst = true ↔ ∀ groupId ∈ [src, dst],
    Counter.count p.outstandingPerGroup groupId = 0 ∧ Counter.count p.reshardHolds groupId = 0 := by
  simp [canDispatchReshard]

theorem Booked.startReshard (h : Booked known topology heap p) (hk : known task.taskId = task)
    (hv : validateTask topology task (heap.groupId task) = .ok ()) (hr : task.isReshard = true)
    (hsrc : task.payloadText reshardPayloadSrcGroupId = some src)
    (hdst : task.payloadText reshardPayloadDstGroupId = some dst) (hne : src ≠ dst)
    (hslot : p.outstandingReshards = 0) (hfree : p.canDispatchReshard src dst = true) :
    Booked known topology heap (p.startReshard task src dst) := by
  have hidle := canDispatchReshard_iff.mp hfree
  have hnot : task ∉ p.running := by
    intro hm
    have hzero := h.reshards
    rw [hslot] at hzero
    exact List.countP_eq_zero.mp hzero.symm task hm hr
  have hrun : (p.startReshard task src dst).running = task :: p.running := rfl
  have hcount : ∀ other, Counter.count (p.startReshard task src dst).reshardHolds other =
      Counter.count p.reshardHolds other + [src, dst].count other :=
    Counter.count_raiseAll p.reshardHolds [src, dst]
  constructor
  · rw [hrun]
    exact List.forall_mem_cons.mpr ⟨hk, h.known⟩
  · rw [hrun]
    exact List.nodup_cons.mpr ⟨h.fresh hk hnot, h.ids⟩
  · rw [hrun]
    exact List.forall_mem_cons.mpr ⟨hv, h.fit⟩
  · exact kinds_cons h.kinds hrun (by simp [targetOf, hr]) rfl
  · rw [hrun]
    refine List.forall_mem_cons.mpr ⟨fun _ => ⟨src, dst, hsrc, hdst, Dict.get?_set_self ..⟩, ?_⟩
    intro other ho hro
    obtain ⟨s, d, hs, hd, hget⟩ := h.groupsBy other ho hro
    have hid : task.taskId ≠ other.taskId := fun hid =>
      h.fresh hk hnot (List.mem_map.mpr ⟨other, ho, hid.symm⟩)
    exact ⟨s, d, hs, hd, (Dict.get?_set_ne _ hid _).trans hget⟩
  · intro other
    rw [hrun, List.countP_cons_of_neg (by simp [TaskHeap.ordinaryOn, hr])]
    exact h.perGroup other
  · exact h.once
  · rw [hrun, List.countP_cons_of_pos hr, ← h.reshards]
    rfl
  · show p.outstandingReshards + 1 ≤ 1
    omega
  · intro other
    rw [hcount, hrun, List.countP_cons, h.holds other, count_endpoints hne hr hsrc hdst]
  · intro other
    rw [hcount]
    by_cases hm : other ∈ [src, dst]
    · exact .inl (hidle other hm).1
    · rw [List.count_eq_zero_of_not_mem hm]
      exact h.apart other


-- ---------------------------------------------------------------------------
-- Releases
-- ---------------------------------------------------------------------------

theorem Booked.targetOf_running (h : Booked known topology heap p) (hm : task ∈ p.running) :
    (task.isReshard = true ∧ targetOf heap task = some reshardTarget) ∨
      task.isReshard = false ∧ ∃ group ∈ topology.groups,
        heap.groupId task = some group.groupId ∧ targetOf heap task = some group.groupId := by
  cases hr : task.isReshard with
  | true => exact .inl ⟨rfl, by simp [targetOf, hr]⟩
  | false =>
    obtain ⟨group, hgroup, hg⟩ := ordinary_of_validateTask (h.fit task hm) hr
    exact .inr ⟨rfl, group, hgroup, hg, by simp [targetOf, hr, hg]⟩

theorem Booked.runningUnder_of_kinds (h : Booked known topology heap p)
    (hget : p.dispatchedKind.get? taskId = some target) :
    ∃ task ∈ p.running, task.taskId = taskId ∧ targetOf heap task = some target := by
  rw [h.kinds taskId] at hget
  obtain ⟨task, hu, ht⟩ := Option.bind_eq_some_iff.mp hget
  obtain ⟨hm, hid⟩ := runningUnder_eq_some hu
  exact ⟨task, hm, hid, ht⟩

/-- The end of a task that is not running changes nothing. -/
theorem Booked.running_of_none (h : Booked known topology heap p)
    (hget : p.dispatchedKind.get? taskId = none) :
    p.running.filter (fun task => task.taskId ≠ taskId) = p.running := by
  refine List.filter_eq_self.mpr fun task hm => ?_
  rw [h.kinds taskId] at hget
  simp only [decide_eq_true_eq]
  intro hid
  cases hu : p.runningUnder taskId with
  | none => simpa [hid] using List.find?_eq_none.mp hu task hm
  | some other =>
    rw [hu, Option.bind_some] at hget
    rcases h.targetOf_running (runningUnder_eq_some hu).1 with ⟨-, ht⟩ | ⟨-, _, -, -, ht⟩ <;>
      simp [hget] at ht

theorem runningUnder_filter {q : Disaggregate}
    (h : q.running = p.running.filter fun task => task.taskId ≠ ended) (taskId : String) :
    q.runningUnder taskId = if ended = taskId then none else p.runningUnder taskId := by
  unfold runningUnder
  rw [h, List.find?_filter]
  split
  · rename_i heq
    subst heq
    exact List.find?_eq_none.mpr fun task _ => by simp
  · rename_i hne
    congr 1
    funext task
    by_cases hid : task.taskId = taskId
    · simp [hid, Ne.symm hne]
    · simp [hid]

theorem Booked.release {q : Disaggregate} (h : Booked known topology heap p)
    (hm : task ∈ p.running)
    (hrun : q.running = p.running.filter fun other => other.taskId ≠ task.taskId)
    (hkinds : q.dispatchedKind = p.dispatchedKind.erase task.taskId)
    (hby : ∀ other, task.taskId ≠ other →
      q.reshardGroupsByTask.get? other = p.reshardGroupsByTask.get? other)
    (hgroup : ∀ groupId, Counter.count q.outstandingPerGroup groupId =
      Counter.count p.outstandingPerGroup groupId - if heap.ordinaryOn groupId task then 1 else 0)
    (hreshards : q.outstandingReshards = p.outstandingReshards - if task.isReshard then 1 else 0)
    (hholds : ∀ groupId, Counter.count q.reshardHolds groupId =
      Counter.count p.reshardHolds groupId - if task.reshardOn groupId then 1 else 0) :
    Booked known topology heap q := by
  have hsub : ∀ other ∈ q.running, other ∈ p.running := fun other ho =>
    List.mem_of_mem_filter (hrun ▸ ho)
  have hcount : ∀ test : InferenceTask → Bool, q.running.countP test =
      p.running.countP test - if test task = true then 1 else 0 := by
    intro test
    have hsum := List.countP_filter_ne_key h.ids hm test
    rw [hrun]
    omega
  constructor
  · exact fun other ho => h.known other (hsub other ho)
  · rw [hrun]
    exact h.ids.sublist (List.filter_sublist.map _)
  · exact fun other ho => h.fit other (hsub other ho)
  · intro taskId
    rw [hkinds, Dict.get?_erase, runningUnder_filter hrun]
    split
    · rfl
    · exact h.kinds taskId
  · intro other ho hro
    obtain ⟨src, dst, hsrc, hdst, hget⟩ := h.groupsBy other (hsub other ho) hro
    rw [hrun] at ho
    have hne : other.taskId ≠ task.taskId := by simpa using (List.mem_filter.mp ho).2
    exact ⟨src, dst, hsrc, hdst, (hby _ hne.symm).trans hget⟩
  · intro groupId
    rw [hgroup, h.perGroup, hcount]
  · intro groupId
    rw [hgroup]
    exact (Nat.sub_le ..).trans (h.once groupId)
  · rw [hreshards, h.reshards, hcount]
  · rw [hreshards]
    exact (Nat.sub_le ..).trans h.oneReshard
  · intro groupId
    rw [hholds, h.holds, hcount]
  · intro groupId
    rw [hgroup, hholds]
    rcases h.apart groupId with hz | hz
    · exact .inl (by rw [hz, Nat.zero_sub])
    · exact .inr (by rw [hz, Nat.zero_sub])

theorem Booked.releaseTask (h : Booked known topology heap p)
    (hs : topology.find reshardTarget = none) (taskId : String) :
    Booked known topology heap (p.releaseTask taskId) := by
  unfold Disaggregate.releaseTask
  cases hget : p.dispatchedKind.get? taskId with
  | none =>
    refine h.congr (h.running_of_none hget) (fun other => ?_) rfl rfl rfl rfl
    by_cases hid : taskId = other
    · rw [← hid, hget]
      exact Dict.get?_erase_self ..
    · exact Dict.get?_erase_ne _ hid
  | some target =>
    obtain ⟨task, hm, rfl, ht⟩ := h.runningUnder_of_kinds hget
    rcases h.targetOf_running hm with ⟨hr, htarget⟩ | ⟨ho, group, hgroup, hg, htarget⟩
    · obtain rfl : target = reshardTarget := Option.some.inj (ht.symm.trans htarget)
      obtain ⟨src, dst, hsrc, hdst, hby⟩ := h.groupsBy task hm hr
      obtain ⟨src', dst', hsrc', hdst', hne⟩ := reshard_of_validateTask (h.fit task hm) hr
      obtain rfl : src' = src := Option.some.inj (hsrc'.symm.trans hsrc)
      obtain rfl : dst' = dst := Option.some.inj (hdst'.symm.trans hdst)
      simp only [if_true]
      refine h.release hm rfl rfl (fun other hne => Dict.get?_erase_ne _ hne) (fun groupId => ?_) ?_
        fun groupId => ?_
      · simp [TaskHeap.ordinaryOn, hr, releaseReshard]
      · simp [hr, releaseReshard]
      · simp only [releaseReshard, hby]
        rw [Counter.count_dropAll, count_endpoints hne hr hsrc hdst]
    · obtain rfl : target = group.groupId := Option.some.inj (ht.symm.trans htarget)
      have hne : group.groupId ≠ reshardTarget := by
        intro heq
        rw [RuntimeTopology.find_eq_some.mpr ⟨hgroup, heq⟩] at hs
        cases hs
      simp only [hne, if_false]
      refine h.release hm rfl rfl (fun _ _ => rfl) (fun groupId => ?_) ?_ fun groupId => ?_
      · rw [Counter.count_drop]
        simp [TaskHeap.ordinaryOn, ho, hg]
      · simp [ho]
      · simp [InferenceTask.reshardOn, ho]


-- ---------------------------------------------------------------------------
-- Queues
-- ---------------------------------------------------------------------------

theorem Queued.start (h : Queued known topology heap p)
    (hq : p.groupReady.getD groupId [] = task :: rest) :
    Queued known topology heap (p.start task groupId) := by
  have hcut := (h.queues groupId).symm.trans hq
  obtain ⟨hm, ho⟩ := List.mem_filter.mp (hcut ▸ List.mem_cons_self ..)
  obtain ⟨hr, hg⟩ : task.isReshard = false ∧ heap.groupId task = some groupId := by
    simpa [TaskHeap.ordinaryOn] using ho
  have hsub : ∀ other ∈ (p.start task groupId).waiting, other ∈ p.waiting := fun _ hm =>
    Roster.mem_of_mem_waiting_started hm
  refine ⟨fun other hm => h.known other (hsub other hm), fun other hm => h.fit other (hsub other hm),
    fun other => ?_, ?_, hm, fun hl => ?_, h.lawful⟩
  · show (p.groupReady.set groupId (p.groupReady.getD groupId []).tail).getD other [] = _
    rw [Dict.getD_set]
    split
    · rename_i heq
      subst heq
      rw [hq]
      exact (Roster.filter_waiting_started hcut).symm
    · rename_i hne
      rw [h.queues other]
      exact (Roster.filter_waiting_started_of_neg (by simp [TaskHeap.ordinaryOn, hg, hne])).symm
  · show p.reshardReady = _
    rw [h.reshardQueue]
    exact (Roster.filter_waiting_started_of_neg hr).symm
  · rw [hr] at hl
    cases hl

theorem Queued.startReshard (h : Queued known topology heap p)
    (hq : p.reshardReady = task :: rest) (src dst : String) :
    Queued known topology heap (p.startReshard task src dst) := by
  have hcut := h.reshardQueue.symm.trans hq
  obtain ⟨hm, hr⟩ := List.mem_filter.mp (hcut ▸ List.mem_cons_self ..)
  have hsub : ∀ other ∈ (p.startReshard task src dst).waiting, other ∈ p.waiting := fun _ hm =>
    Roster.mem_of_mem_waiting_started hm
  refine ⟨fun other hm => h.known other (hsub other hm), fun other hm => h.fit other (hsub other hm),
    fun other => ?_, ?_, hm, fun _ => ⟨rest, hcut⟩, h.lawful⟩
  · show p.groupReady.getD other [] = _
    rw [h.queues other]
    exact (Roster.filter_waiting_started_of_neg (by simp [TaskHeap.ordinaryOn, hr])).symm
  · show p.reshardReady.tail = _
    rw [hq]
    exact (Roster.filter_waiting_started hcut).symm

theorem Queued.popEmpty (h : Queued known topology heap p) (groupId : String) :
    Queued known topology heap (p.popEmpty groupId) := by
  unfold Disaggregate.popEmpty
  split
  · rename_i hempty
    refine ⟨h.known, h.fit, fun other => ?_, h.reshardQueue, h.lawful⟩
    refine Eq.trans ?_ (h.queues other)
    rw [Dict.getD_erase]
    split
    · rename_i heq
      rw [← heq, hempty]
    · rfl
  · exact h

theorem getD_dropFromQueues (queues : Dict String (List InferenceTask)) (groupId other : String) :
    (DynamicStepFcfs.dropFromQueues requestId queues groupId).getD other [] =
      if groupId = other then (queues.getD other []).filter fun task => task.requestId ≠ requestId
      else queues.getD other [] := by
  simp only [DynamicStepFcfs.dropFromQueues]
  split
  · split
    · rename_i hkept
      rw [Dict.getD_erase]
      split
      · rename_i heq
        rw [← heq, hkept]
      · rfl
    · rw [Dict.getD_set]
      split
      · rename_i heq
        rw [← heq]
      · rfl
  · rename_i hnone
    split
    · rename_i heq
      rw [← heq]
      refine (List.filter_eq_self.mpr fun task hm => ?_).symm
      simp only [List.any_eq_true, decide_eq_true_eq, not_exists, not_and] at hnone
      simpa using hnone task hm
    · rfl

theorem getD_foldl_dropFromQueues (keys : List String) (queues : Dict String (List InferenceTask))
    (other : String) : (keys.foldl (DynamicStepFcfs.dropFromQueues requestId) queues).getD other [] =
      if other ∈ keys then (queues.getD other []).filter fun task => task.requestId ≠ requestId
      else queues.getD other [] := by
  induction keys generalizing queues with
  | nil => rfl
  | cons key keys ih =>
    rw [List.foldl_cons, ih, getD_dropFromQueues]
    by_cases hkey : key = other
    · subst hkey
      simp
    · simp [hkey, Ne.symm hkey]

theorem getD_dropRequest (p : Disaggregate) (requestId groupId : String) :
    (p.dropRequest requestId).groupReady.getD groupId [] =
      (p.groupReady.getD groupId []).filter fun task => task.requestId ≠ requestId := by
  refine (getD_foldl_dropFromQueues ..).trans ?_
  split
  · rfl
  · rename_i hnone
    have hnil : p.groupReady.getD groupId [] = [] := by
      rw [Dict.getD, Dict.get?_eq_none _ |>.mpr hnone]
      rfl
    rw [hnil]
    rfl

theorem Queued.dropRequest (h : Queued known topology heap p) (requestId : String) :
    Queued known topology heap (p.dropRequest requestId) := by
  have hsub : ∀ other ∈ (p.dropRequest requestId).waiting, other ∈ p.waiting := fun _ hm =>
    List.mem_of_mem_filter hm
  refine ⟨fun other hm => h.known other (hsub other hm), fun other hm => h.fit other (hsub other hm),
    fun groupId => ?_, ?_, h.lawful⟩
  · rw [getD_dropRequest, h.queues, List.filter_comm]
    rfl
  · show p.reshardReady.filter _ = _
    rw [h.reshardQueue, List.filter_comm]
    rfl

theorem enqueue_cases (hv : validateTask topology task groupId = .ok ()) :
    (task.isReshard = true ∧ p.enqueue task groupId =
      { p with reshardReady := p.reshardReady ++ [task], log := .reported task :: p.log }) ∨
    task.isReshard = false ∧ ∃ g, groupId = some g ∧ p.enqueue task groupId =
      { p with
        groupReady := p.groupReady.set g (p.groupReady.getD g [] ++ [task])
        log := .reported task :: p.log } := by
  cases hr : task.isReshard with
  | true =>
    have hkind : task.kind = .reshard := by simpa [InferenceTask.isReshard] using hr
    exact .inl ⟨rfl, by simp [enqueue, hkind]⟩
  | false =>
    obtain ⟨group, -, rfl⟩ := ordinary_of_validateTask hv hr
    have hkind : task.kind ≠ .reshard := by simpa [InferenceTask.isReshard] using hr
    refine .inr ⟨rfl, group.groupId, rfl, ?_⟩
    unfold enqueue
    split
    · contradiction
    · simp_all
    · simp_all

theorem enqueue_log (hv : validateTask topology task groupId = .ok ()) :
    (p.enqueue task groupId).log = .reported task :: p.log := by
  rcases enqueue_cases (p := p) hv with ⟨-, he⟩ | ⟨-, _, -, he⟩ <;> rw [he]

theorem Queued.enqueue (h : Queued known topology heap p) (hk : known task.taskId = task)
    (hv : validateTask topology task (heap.groupId task) = .ok ()) :
    Queued known topology heap (p.enqueue task (heap.groupId task)) := by
  have hwait : (p.enqueue task (heap.groupId task)).waiting = p.waiting ++ [task] := by
    rw [waiting, enqueue_log hv]
    rfl
  refine ⟨?_, ?_, fun groupId => ?_, ?_, ?_⟩
  · rw [hwait]
    exact List.forall_mem_append.mpr ⟨h.known, by simpa using hk⟩
  · rw [hwait]
    exact List.forall_mem_append.mpr ⟨h.fit, by simpa using hv⟩
  · rw [hwait, List.filter_append]
    rcases enqueue_cases (p := p) hv with ⟨hr, he⟩ | ⟨ho, g, hg, he⟩
    · rw [he, List.filter_cons_of_neg (by simp [TaskHeap.ordinaryOn, hr]), List.filter_nil,
        List.append_nil]
      exact h.queues groupId
    · rw [he]
      dsimp only
      rw [Dict.getD_set]
      split
      · rename_i heq
        subst heq
        rw [h.queues, List.filter_cons_of_pos (by simp [TaskHeap.ordinaryOn, ho, hg])]
        rfl
      · rename_i hne
        rw [h.queues, List.filter_cons_of_neg (by simp [TaskHeap.ordinaryOn, ho, hg, hne])]
        simp
  · rw [hwait, List.filter_append]
    rcases enqueue_cases (p := p) hv with ⟨hr, he⟩ | ⟨ho, g, hg, he⟩
    · rw [he, List.filter_cons_of_pos hr]
      exact congrArg (· ++ [task]) h.reshardQueue
    · rw [he, List.filter_cons_of_neg (by simp [ho])]
      simpa using h.reshardQueue
  · rw [enqueue_log hv]
    exact h.lawful


end Disaggregate

end GfDit
