import GfDit.Policies.WorkBooks

/-!
# Binding a request

What the shared programs do: a plan is bound to one group, its tasks with it,
and its estimates are put down before it is opened; a runnable task is served
on the group of its request. A plan that is refused leaves what stands on the
books as it is.
-/

namespace GfDit

open Prog

namespace WorkBooks

variable {load : Workload} {books : WorkBooks}

-- ---------------------------------------------------------------------------
-- Programs
-- ---------------------------------------------------------------------------

variable {w w' : World WorkBooks}

/-- The tasks of a request stand in the heap as bound to a group. -/
def Bound (load : Workload) (requestId groupId : String) (heap : TaskHeap) : Prop :=
  ∀ task ∈ (load.plan requestId).tasks.values, heap.groupId task = some groupId

def Aside (load : Workload) (requestId : String) (heap heap' : TaskHeap) : Prop :=
  ∀ task : InferenceTask, task.taskId ∉ (load.plan requestId).tasks.keys →
    heap'.groupId task = heap.groupId task

/-- The request's group is put down, and nothing else on the books. -/
structure Binds (load : Workload) (requestId : String) (w w' : World WorkBooks)
    (groupId : String) : Prop where
  topology : w'.topology = w.topology
  policy : w'.policy =
    { w.policy with requestGroup := w.policy.requestGroup.set requestId groupId }
  aside : Aside load requestId w.tasks w'.tasks

theorem bindTask_bound (plan : RequestExecutionPlan) (selected : String)
    (hm : task ∈ (load.plan requestId).tasks.values)
    (hb : Binds load requestId w w' selected) :
    wp (bindTask plan selected task)
      (fun _ w₁ => Binds load requestId w w₁ selected ∧ w₁.tasks.groupId task = some selected ∧
        ∀ other : InferenceTask, task.taskId ≠ other.taskId →
          w₁.tasks.groupId other = w'.tasks.groupId other)
      (fun _ w₁ => Binds load requestId w w₁ selected) w' := by
  simp only [bindTask, wp_bind, wp_get]
  split
  · have hother : ∀ other : InferenceTask, task.taskId ≠ other.taskId →
        (w'.tasks.setGroupId task (some selected)).groupId other = w'.tasks.groupId other :=
      fun other hne => TaskHeap.groupId_setGroupId_ne _ _ hne
    refine ⟨⟨hb.topology, hb.policy, fun other hk => ?_⟩, ?_, hother⟩
    · refine (hother other fun heq => hk ?_).trans (hb.aside other hk)
      rw [← heq]
      exact Workload.mem_keys hm
    · exact TaskHeap.groupId_setGroupId ..
  · rename_i groupId hg
    simp only [wp_ite, wp_throw, wp_pure]
    split
    · exact hb
    · rename_i heq
      exact ⟨hb, by rw [hg, not_not.mp heq], fun _ _ => trivial⟩

theorem bindTasks_bound (plan : RequestExecutionPlan) (selected : String)
    {tasks : List InferenceTask} (hm : ∀ task ∈ tasks, task ∈ (load.plan requestId).tasks.values)
    (hn : (tasks.map InferenceTask.taskId).Nodup) (hb : Binds load requestId w w' selected) :
    wp (tasks.forM (bindTask plan selected))
      (fun _ w₁ => Binds load requestId w w₁ selected ∧
        (∀ task ∈ tasks, w₁.tasks.groupId task = some selected) ∧
        ∀ other : InferenceTask, other.taskId ∉ tasks.map InferenceTask.taskId →
          w₁.tasks.groupId other = w'.tasks.groupId other)
      (fun _ w₁ => Binds load requestId w w₁ selected) w' := by
  induction tasks generalizing w' with
  | nil => exact ⟨hb, fun _ hm => absurd hm List.not_mem_nil, fun _ _ => rfl⟩
  | cons task tasks ih =>
    rw [List.map_cons, List.nodup_cons] at hn
    obtain ⟨hm, hms⟩ := List.forall_mem_cons.mp hm
    show wp (bindTask plan selected task >>= fun _ => tasks.forM (bindTask plan selected)) _ _ w'
    rw [wp_bind]
    refine wp_mono (bindTask_bound plan selected hm hb) (fun _ w₁ ⟨hb₁, hg, ho⟩ => ?_)
      fun _ _ he => he
    refine wp_mono (ih hms hn.2 hb₁) (fun _ w₂ ⟨hb₂, hgs, hos⟩ => ⟨hb₂, ?_, ?_⟩) fun _ _ he => he
    · refine List.forall_mem_cons.mpr ⟨?_, hgs⟩
      rw [hos task hn.1, hg]
    · intro other hm
      rw [List.map_cons, List.mem_cons, not_or] at hm
      rw [hos other hm.2, ho other (Ne.symm hm.1)]

theorem bindRequestGroup_bound (load : Workload) (requestId : String) (w : World WorkBooks) :
    wp (bindRequestGroup (load.plan requestId))
      (fun selected w₁ => Binds load requestId w w₁ selected ∧
        Bound load requestId selected w₁.tasks)
      (fun _ w₁ => w₁ = w ∨ ∃ selected, Binds load requestId w w₁ selected) w := by
  simp only [bindRequestGroup, wp_bind, wp_get, wp_modify, wp_pure]
  refine wp_check (fun selected _ => ?_) fun _ _ => .inl rfl
  have hb : Binds load requestId w { w with policy := { w.policy with
      requestGroup := w.policy.requestGroup.set (load.plan requestId).requestId selected } }
      selected := ⟨rfl, by rw [load.named requestId], fun _ _ => rfl⟩
  have hn := (load.plan requestId).tasks.keys_nodup
  rw [Workload.keys_eq] at hn
  refine wp_mono (bindTasks_bound _ selected (fun _ hm => hm) hn hb) (fun _ w₁ h => ⟨h.1, h.2.1⟩)
    fun _ w₁ h => .inr ⟨selected, h⟩

def Estimated (topology : RuntimeTopology) (estimator : TaskRuntimeEstimator)
    (plan : RequestExecutionPlan) (groupId : String) (work : String × ℚ) : Prop :=
  ∃ group task, topology.find groupId = some group ∧ plan.tasks.get? work.1 = some task ∧
    estimator group.parallelSpec (Edf.resolveSeqLen task plan) (Edf.resolveRequestStage task) =
      .ok work.2

theorem estimateTaskWork_eq_ok (h : books.estimateTaskWork task plan spec = .ok work) :
    0 ≤ work ∧ books.taskRuntimeEstimator spec (Edf.resolveSeqLen task plan)
      (Edf.resolveRequestStage task) = .ok work := by
  unfold estimateTaskWork at h
  obtain ⟨estimate, he, h⟩ := Except.bind_eq_ok.mp h
  cases estimate with
  | top => cases h
  | coe estimate =>
    simp only at h
    split at h
    · cases h
    · rename_i hnonneg
      obtain rfl := Except.pure_eq_ok.mp h
      exact ⟨not_lt.mp hnonneg, he⟩

/-- Where a policy reads a task's layout from: the group that the request was
bound to. -/
def ReadsGroup (load : Workload) (requestId : String)
    (specOf : String → InferenceTask → PolicyM WorkBooks ParallelSpec) : Prop :=
  ∀ selected, ∀ task ∈ (load.plan requestId).tasks.values, ∀ w, Bound load requestId selected w.tasks →
    wp (specOf selected task)
      (fun spec w' => w' = w ∧ ∃ group, w.topology.find selected = some group ∧
        spec = group.parallelSpec)
      (fun _ w' => w' = w) w

/-- Estimates of some tasks are put down, and nothing else on the books. -/
structure Records (tasks : List InferenceTask) (w w' : World WorkBooks) : Prop where
  topology : w'.topology = w.topology
  heap : w'.tasks = w.tasks
  policy : w'.policy = { w.policy with taskWork := w'.policy.taskWork }
  other : ∀ taskId ∉ tasks.map InferenceTask.taskId,
    w'.policy.taskWork.get? taskId = w.policy.taskWork.get? taskId

theorem Records.cons {task : InferenceTask} {tasks : List InferenceTask}
    (h : Records tasks { w with policy := { w.policy with
      taskWork := w.policy.taskWork.set task.taskId work } } w') :
    Records (task :: tasks) w w' := by
  refine ⟨h.topology, h.heap, h.policy.trans rfl, fun taskId hm => ?_⟩
  rw [List.map_cons, List.mem_cons, not_or] at hm
  rw [h.other taskId hm.2]
  exact Dict.get?_set_ne _ (Ne.symm hm.1) _

theorem recordTasks_records (hs : ReadsGroup load requestId specOf)
    {tasks : List InferenceTask} (hm : ∀ task ∈ tasks, task ∈ (load.plan requestId).tasks.values)
    (hn : (tasks.map InferenceTask.taskId).Nodup) (hb : Bound load requestId selected w.tasks) :
    wp (recordTasks (specOf selected) (load.plan requestId) tasks)
      (fun works w' => Records tasks w w' ∧
        works.map Prod.fst = tasks.map InferenceTask.taskId ∧
        ∀ work ∈ works, 0 ≤ work.2 ∧ w'.policy.taskWork.get? work.1 = some work.2 ∧
          Estimated w.topology w.policy.taskRuntimeEstimator (load.plan requestId) selected work)
      (fun _ w' => Records tasks w w') w := by
  induction tasks generalizing w with
  | nil => exact ⟨⟨rfl, rfl, rfl, fun _ _ => rfl⟩, rfl, fun _ h => absurd h List.not_mem_nil⟩
  | cons task tasks ih =>
    rw [List.map_cons, List.nodup_cons] at hn
    obtain ⟨hm, hms⟩ := List.forall_mem_cons.mp hm
    simp only [recordTasks, wp_bind, wp_get, wp_modify, wp_pure]
    refine wp_mono (hs selected task hm w hb) ?_ fun _ w₁ hw => ?_
    · rintro spec w₁ ⟨hw, group, hfind, hspec⟩
      subst hw
      refine wp_check (fun work hwork => ?_) fun _ _ => ⟨rfl, rfl, rfl, fun _ _ => rfl⟩
      obtain ⟨hnonneg, hestimate⟩ := estimateTaskWork_eq_ok hwork
      refine wp_mono (ih hms hn.2 hb) ?_ fun _ w₂ hr => ?_
      · rintro works w₂ ⟨hr, hids, hworks⟩
        refine ⟨hr.cons, by rw [List.map_cons, hids, List.map_cons], ?_⟩
        refine List.forall_mem_cons.mpr
          ⟨⟨hnonneg, ?_, group, task, hfind, ?_, hspec ▸ hestimate⟩, hworks⟩
        · rw [hr.other task.taskId hn.1]
          exact Dict.get?_set_self ..
        · obtain ⟨key, hget⟩ := Dict.exists_get?_of_mem_values hm
          rw [load.keyed requestId key task hget]
          exact hget
      · exact hr.cons
    · subst hw
      exact ⟨rfl, rfl, rfl, fun _ _ => rfl⟩

-- ---------------------------------------------------------------------------
-- Entering a plan
-- ---------------------------------------------------------------------------

structure Enters (load : Workload) (requestId : String) (w w' : World WorkBooks)
    (groupId : String) (works : List (String × ℚ)) (estimates : Dict String ℚ) : Prop where
  topology : w'.topology = w.topology
  policy : w'.policy = openJob { w.policy with
    requestGroup := w.policy.requestGroup.set requestId groupId
    taskWork := estimates } (load.plan requestId) groupId works
  bound : Bound load requestId groupId w'.tasks
  aside : Aside load requestId w.tasks w'.tasks
  other : ∀ taskId ∉ (load.plan requestId).tasks.keys,
    estimates.get? taskId = w.policy.taskWork.get? taskId
  ids : works.map Prod.fst = (load.plan requestId).tasks.keys
  works : ∀ work ∈ works, 0 ≤ work.2 ∧ estimates.get? work.1 = some work.2 ∧
    Estimated w.topology w.policy.taskRuntimeEstimator (load.plan requestId) groupId work

/-- Nothing is opened; the request may be left with a group and estimates. -/
structure Refuses (load : Workload) (requestId : String) (w w' : World WorkBooks) : Prop where
  topology : w'.topology = w.topology
  policy : w'.policy = { w.policy with
    requestGroup := w'.policy.requestGroup
    taskWork := w'.policy.taskWork }
  aside : Aside load requestId w.tasks w'.tasks
  groups : ∀ other, requestId ≠ other →
    w'.policy.requestGroup.get? other = w.policy.requestGroup.get? other
  other : ∀ taskId ∉ (load.plan requestId).tasks.keys,
    w'.policy.taskWork.get? taskId = w.policy.taskWork.get? taskId

theorem Refuses.refl (load : Workload) (requestId : String) (w : World WorkBooks) :
    Refuses load requestId w w :=
  ⟨rfl, rfl, fun _ _ => rfl, fun _ _ => rfl, fun _ _ => rfl⟩

theorem Binds.refuses (h : Binds load requestId w w' groupId) : Refuses load requestId w w' where
  topology := h.topology
  policy := by rw [h.policy]
  aside := h.aside
  groups := fun other hne => by
    rw [h.policy]
    exact Dict.get?_set_ne _ hne _
  other := fun _ _ => by rw [h.policy]

theorem Refuses.records {w'' : World WorkBooks} (h : Refuses load requestId w w')
    (hr : Records (load.plan requestId).tasks.values w' w'') : Refuses load requestId w w'' where
  topology := hr.topology.trans h.topology
  policy := by
    rw [hr.policy, h.policy]
  aside := by
    rw [hr.heap]
    exact h.aside
  groups := fun other hne => by
    rw [hr.policy]
    exact h.groups other hne
  other := fun taskId hk => by
    refine (hr.other taskId ?_).trans (h.other taskId hk)
    rwa [← Workload.keys_eq]

theorem enterPlan_enters (hs : ReadsGroup load requestId specOf) (w : World WorkBooks) :
    wp (enterPlan specOf (load.plan requestId))
      (fun _ w' => ∃ groupId works estimates, Enters load requestId w w' groupId works estimates)
      (fun _ w' => Refuses load requestId w w') w := by
  simp only [enterPlan, wp_bind, wp_modify]
  refine wp_mono (bindRequestGroup_bound load requestId w) ?_ fun _ w₁ he => ?_
  · rintro selected w₁ ⟨hb, hbound⟩
    have hn := (load.plan requestId).tasks.keys_nodup
    rw [Workload.keys_eq] at hn
    refine wp_mono (recordTasks_records hs (fun _ hm => hm) hn hbound) ?_
      fun _ w₂ hr => hb.refuses.records hr
    rintro works w₂ ⟨hr, hids, hworks⟩
    have hrefused := hb.refuses.records hr
    refine ⟨selected, works, w₂.policy.taskWork, hrefused.topology, ?_, ?_, hrefused.aside,
      hrefused.other, ?_, ?_⟩
    · show w₂.policy.openJob _ _ _ = _
      rw [hr.policy, hb.policy]
    · show Bound load requestId selected w₂.tasks
      rw [hr.heap]
      exact hbound
    · rw [hids, Workload.keys_eq]
    · rw [hb.topology, hb.policy] at hworks
      exact hworks
  · rcases he with rfl | ⟨selected, hb⟩
    · exact .refl load requestId _
    · exact hb.refuses

-- ---------------------------------------------------------------------------
-- Books that are kept
-- ---------------------------------------------------------------------------

structure Kept (load : Workload) (estimator : TaskRuntimeEstimator) (topology : RuntimeTopology)
    (books : WorkBooks) : Prop where
  sound : Sound load books
  given : books.taskRuntimeEstimator = estimator
  estimated : ∀ requestId job, .opened requestId job ∈ books.log →
    job.costs.map Prod.fst = (load.plan requestId).tasks.keys ∧
      ∀ cost ∈ job.costs, Estimated topology estimator (load.plan requestId) job.lane cost

variable {estimator : TaskRuntimeEstimator} {topology : RuntimeTopology}

theorem Kept.init (load : Workload) (estimator : TaskRuntimeEstimator)
    (topology : RuntimeTopology) : Kept load estimator topology (.init estimator topology) :=
  ⟨.init load estimator topology, rfl, fun _ _ h => absurd h List.not_mem_nil⟩

theorem Kept.congr {books' : WorkBooks} (h : books.Kept load estimator topology)
    (hs : books'.Sound load) (he : books'.taskRuntimeEstimator = books.taskRuntimeEstimator)
    (hl : ∀ requestId job, .opened requestId job ∈ books'.log →
      .opened requestId job ∈ books.log) : books'.Kept load estimator topology :=
  ⟨hs, he.trans h.given, fun requestId job hm => h.estimated requestId job (hl _ _ hm)⟩

theorem Kept.charge (h : books.Kept load estimator topology)
    (hk : taskId ∈ (load.plan requestId).tasks.keys) :
    (books.chargeCompletedTask requestId taskId).Kept load estimator topology := by
  refine h.congr (h.sound.charge hk) ?_ fun other job hm => ?_
  · simp only [chargeCompletedTask]
    split <;> rfl
  · rw [(chargeCompletedTask_books books requestId taskId).1] at hm
    simpa using hm

theorem Kept.cleanup (h : books.Kept load estimator topology)
    (hp : books.InPlace requestId groupId) :
    (books.cleanupRequestWork requestId groupId).Kept load estimator topology :=
  h.congr (h.sound.cleanup hp) rfl fun _ _ hm => by simpa [cleanupRequestWork] using hm

theorem Kept.enters (h : w.policy.Kept load estimator w.topology)
    (hj : w.policy.job? requestId = none)
    (he : Enters load requestId w w' groupId works estimates) :
    w'.policy.Kept load estimator w'.topology := by
  have haside := h.sound.aside hj
    (fun other hne => Dict.get?_set_ne w.policy.requestGroup hne groupId) he.other
  rw [he.topology, he.policy]
  refine ⟨haside.open hj he.ids (fun work hm => ?_) (Dict.get?_set_self ..), h.given,
    fun other job hm => ?_⟩
  · exact ⟨(he.works work hm).1, (he.works work hm).2.1⟩
  · rcases List.mem_cons.mp hm with heq | hm
    · obtain ⟨hother, rfl⟩ := Backlog.Entry.opened.inj heq
      obtain rfl := hother.trans (load.named requestId)
      refine ⟨he.ids, fun work hw => ?_⟩
      rw [← h.given]
      exact (he.works work hw).2.2
    · exact h.estimated other job hm

theorem Kept.refuses (h : w.policy.Kept load estimator w.topology)
    (hj : w.policy.job? requestId = none) (hr : Refuses load requestId w w') :
    w'.policy.Kept load estimator w'.topology := by
  rw [hr.topology, hr.policy]
  exact h.congr (h.sound.aside hj hr.groups hr.other) rfl fun _ _ hm => hm

theorem enterPlan_kept (hs : ReadsGroup load requestId specOf)
    (h : w.policy.Kept load estimator w.topology) (hj : w.policy.job? requestId = none) :
    wp (enterPlan specOf (load.plan requestId))
      (fun _ w' => w'.policy.Kept load estimator w'.topology)
      (fun _ w' => w'.policy.Kept load estimator w'.topology) w :=
  wp_mono (enterPlan_enters hs w) (fun _ _ ⟨_, _, _, he⟩ => h.enters hj he)
    fun _ _ hr => h.refuses hj hr

def runnableGroup (w : World WorkBooks) (task : InferenceTask) : Option String :=
  match w.tasks.groupId task, w.policy.requestGroup.get? task.requestId with
  | none, bound => bound
  | some groupId, none => some groupId
  | some groupId, some bound => if bound = groupId then some groupId else none

theorem runnableGroup_bound (h : runnableGroup w task = some groupId)
    (hb : w.policy.requestGroup.get? task.requestId = some bound) : bound = groupId := by
  unfold runnableGroup at h
  cases hg : w.tasks.groupId task with
  | none => simpa [hg, hb] using h
  | some own =>
    simp only [hg, hb] at h
    split at h
    · rename_i heq
      cases h
      exact heq
    · cases h

theorem groupOfRunnable_spec (task : InferenceTask) (w : World WorkBooks) :
    wp (groupOfRunnable task)
      (fun groupId w' => runnableGroup w task = some groupId ∧
        w'.topology = w.topology ∧
        w'.tasks = (if w.tasks.groupId task = none then w.tasks.setGroupId task (some groupId)
          else w.tasks) ∧
        w'.policy = { w.policy with
          requestGroup := w.policy.requestGroup.set task.requestId groupId })
      (fun _ w' => runnableGroup w task = none ∧ w'.topology = w.topology ∧ w'.policy = w.policy ∧
        w'.tasks = (if w.tasks.groupId task = none then w.tasks.setGroupId task none else w.tasks))
      w := by
  simp only [groupOfRunnable, wp_bind, wp_get, wp_ite, wp_modify]
  cases hg : w.tasks.groupId task with
  | none =>
    cases hb : w.policy.requestGroup.get? task.requestId with
    | none => simp [World.setGroupId, runnableGroup, hg, hb]
    | some bound =>
      simp [World.setGroupId, runnableGroup, hg, hb, Dict.getD]
  | some groupId =>
    cases hb : w.policy.requestGroup.get? task.requestId with
    | none => simp [runnableGroup, hg, hb, Dict.getD]
    | some bound =>
      by_cases heq : bound = groupId
      · simp [runnableGroup, hg, hb, Dict.getD, heq]
      · simp [runnableGroup, hg, hb, Dict.getD, heq, Dict.set_of_get? hb]

theorem groupOfRunnable_kept (task : InferenceTask)
    (h : w.policy.Kept load estimator w.topology) :
    wp (groupOfRunnable task)
      (fun _ w' => w'.policy.Kept load estimator w'.topology)
      (fun _ w' => w'.policy.Kept load estimator w'.topology) w := by
  refine wp_mono (groupOfRunnable_spec task w) (fun groupId w' ⟨hg, ht, _, hp⟩ => ?_)
    fun _ w' ⟨_, ht, hp, _⟩ => ?_
  · rw [ht, hp]
    refine h.congr (h.sound.setGroup ?_) rfl fun _ _ hm => hm
    cases hj : w.policy.job? task.requestId with
    | none => exact .inl rfl
    | some job =>
      have hbound := (h.sound.opened _ job hj).bound
      refine .inr ?_
      rw [hbound, runnableGroup_bound hg hbound]
  · rw [ht, hp]
    exact h

-- ---------------------------------------------------------------------------
-- Requests that stay on their group
-- ---------------------------------------------------------------------------

def Steady (load : Workload) (heap heap' : TaskHeap) : Prop :=
  ∀ task, load.Has task → heap'.groupId task = heap.groupId task

theorem Steady.refl (load : Workload) (heap : TaskHeap) : Steady load heap heap := fun _ _ => rfl

theorem Steady.trans {heap heap' heap'' : TaskHeap} (h : Steady load heap heap')
    (h' : Steady load heap' heap'') : Steady load heap heap'' :=
  fun task hm => (h' task hm).trans (h task hm)

theorem Steady.setStatus {heap : TaskHeap} (hm : load.Has task) (status : TaskStatus) :
    Steady load heap (heap.setStatus task status) :=
  fun _ ho => TaskHeap.groupId_setStatus _ _ fun hid => hm.eq ho hid

def Pinned (load : Workload) (heap : TaskHeap) (books : WorkBooks) : Prop :=
  ∀ requestId job, .opened requestId job ∈ books.log →
    Bound load requestId job.lane heap ∧
      (books.requestGroup.get? requestId = none ∨
        books.requestGroup.get? requestId = some job.lane)

namespace Pinned

variable {heap heap' : TaskHeap} {books' : WorkBooks}

theorem init (load : Workload) (heap : TaskHeap) (estimator : TaskRuntimeEstimator)
    (topology : RuntimeTopology) : Pinned load heap (.init estimator topology) :=
  fun _ _ h => absurd h List.not_mem_nil

theorem congr (h : Pinned load heap books)
    (hl : ∀ requestId job, .opened requestId job ∈ books'.log →
      .opened requestId job ∈ books.log)
    (hg : ∀ requestId, books'.requestGroup.get? requestId = none ∨
      books'.requestGroup.get? requestId = books.requestGroup.get? requestId) :
    Pinned load heap books' := by
  intro requestId job hm
  obtain ⟨hb, hbound⟩ := h requestId job (hl requestId job hm)
  refine ⟨hb, ?_⟩
  rcases hg requestId with hn | heq
  · exact .inl hn
  · rw [heq]
    exact hbound

theorem charge (h : Pinned load heap books) (requestId taskId : String) :
    Pinned load heap (books.chargeCompletedTask requestId taskId) := by
  obtain ⟨hlog, hgroup, -, -⟩ := chargeCompletedTask_books books requestId taskId
  refine h.congr (fun other job hm => ?_) fun other => .inr (by rw [hgroup])
  rw [hlog] at hm
  simpa using hm

theorem cleanup (h : Pinned load heap books) (requestId : String) (groupId : Option String) :
    Pinned load heap (books.cleanupRequestWork requestId groupId) := by
  refine h.congr (fun other job hm => by simpa [cleanupRequestWork] using hm) fun other => ?_
  simp only [cleanupRequestWork, Dict.get?_erase]
  split
  · exact .inl rfl
  · exact .inr rfl

theorem steady (h : Pinned load heap books) (hs : Steady load heap heap') :
    Pinned load heap' books := by
  intro requestId job hj
  obtain ⟨hb, hbound⟩ := h requestId job hj
  refine ⟨fun task hm => ?_, hbound⟩
  rw [hs task (.of_mem hm)]
  exact hb task hm

theorem enters (h : Pinned load w.tasks w.policy)
    (he : Enters load requestId w w' groupId works estimates) (hn : ∀ job, .opened requestId job ∉ w.policy.log) : Pinned load w'.tasks w'.policy := by
  intro other job hm
  rw [he.policy] at hm ⊢
  rcases List.mem_cons.mp hm with heq | hm
  · obtain ⟨hother, rfl⟩ := Backlog.Entry.opened.inj heq
    obtain rfl := hother.trans (load.named requestId)
    exact ⟨he.bound, .inr (Dict.get?_set_self ..)⟩
  · have hne : requestId ≠ other := fun heq => hn job (heq ▸ hm)
    obtain ⟨hb, hbound⟩ := h other job hm
    refine ⟨fun task ht => ?_, by rwa [openJob, Dict.get?_set_ne _ hne]⟩
    rw [he.aside task fun hk => hne (Workload.owner_unique hk (Workload.mem_keys ht))]
    exact hb task ht

theorem refuses (h : Pinned load w.tasks w.policy) (hr : Refuses load requestId w w')
    (hn : ∀ job, .opened requestId job ∉ w.policy.log) : Pinned load w'.tasks w'.policy := by
  intro other job hm
  rw [hr.policy] at hm
  have hne : requestId ≠ other := fun heq => hn job (heq ▸ hm)
  obtain ⟨hb, hbound⟩ := h other job hm
  refine ⟨fun task ht => ?_, by rwa [hr.groups other hne]⟩
  rw [hr.aside task fun hk => hne (Workload.owner_unique hk (Workload.mem_keys ht))]
  exact hb task ht

/-- A task of a request that was opened is served on the request's group. -/
theorem groupOfRunnable (h : Pinned load w.tasks w.policy) (hhas : load.Has task)
    (hj : .opened task.requestId job ∈ w.policy.log) :
    wp (groupOfRunnable task)
      (fun groupId w' => groupId = job.lane ∧ w'.topology = w.topology ∧ w'.tasks = w.tasks ∧
        w'.policy = { w.policy with
          requestGroup := w.policy.requestGroup.set task.requestId job.lane } ∧
        Pinned load w'.tasks w'.policy)
      (fun _ _ => False) w := by
  obtain ⟨hb, hbound⟩ := h task.requestId job hj
  have hg := hb task hhas
  have hrun : runnableGroup w task = some job.lane := by
    unfold runnableGroup
    rw [hg]
    rcases hbound with hn | hs
    · rw [hn]
    · simp [hs]
  refine wp_mono (groupOfRunnable_spec task w) (fun groupId w' ⟨hr, ht, hh, hp⟩ => ?_)
    fun _ w' ⟨hr, _⟩ => ?_
  · rw [hrun] at hr
    cases hr
    rw [hg, if_neg (by simp)] at hh
    refine ⟨rfl, ht, hh, hp, ?_⟩
    rw [hh, hp]
    intro other otherJob hm
    obtain ⟨hbo, hboundo⟩ := h other otherJob hm
    refine ⟨hbo, ?_⟩
    simp only [Dict.get?_set]
    split
    · rename_i heq
      subst heq
      exact .inr (hg.symm.trans (hbo task hhas))
    · exact hboundo
  · rw [hrun] at hr
    cases hr

end Pinned

end WorkBooks

end GfDit
