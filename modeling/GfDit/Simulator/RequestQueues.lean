import GfDit.Policies.Accounts
import GfDit.Simulator.Driver
import Mathlib.Algebra.GroupWithZero.Nat

/-!
# Queues with one task of a request in flight

What the deadline policies of the simulator share: a queue of ready tasks for
each request, the number of its tasks in flight, and the rank accounts. In a
driven run the queues hold the ready tasks and the counters stand for the
running ones.
-/

namespace GfDit

open Driver (Dispatch Enabled note)

structure RequestQueues where
  readyByRequest : Dict String (List InferenceTask)
  requestInflight : Dict String Nat
  requestLastGroup : Dict String String
  taskIndex : Dict String InferenceTask
  accounts : RankAccounts

structure Assignment where
  task : InferenceTask
  requestId : String
  groupId : String
  ranks : List Rank

def Assignment.toDispatch (placed : Assignment) : Dispatch := ⟨placed.task, placed.groupId⟩

namespace RequestQueues

def init : RequestQueues := ⟨∅, ∅, ∅, ∅, .init⟩

def queue (q : RequestQueues) (requestId : String) : List InferenceTask :=
  q.readyByRequest.getD requestId []

def inflight (q : RequestQueues) (requestId : String) : Nat :=
  Counter.count q.requestInflight requestId

def index (q : RequestQueues) (task : InferenceTask) : RequestQueues :=
  { q with taskIndex := q.taskIndex.set task.taskId task }

def enqueue (q : RequestQueues) (task : InferenceTask) : RequestQueues :=
  { q.index task with
    readyByRequest := q.readyByRequest.set task.requestId (q.queue task.requestId ++ [task]) }

/-- The tasks of a request, of which those without dependencies are ready. -/
def submit (q : RequestQueues) (tasks : List InferenceTask) : RequestQueues :=
  (tasks.filter fun task => task.dependencies = []).foldl enqueue (tasks.foldl index q)

def popHead (q : RequestQueues) (requestId : String) (rest : List InferenceTask) : RequestQueues :=
  { q with
    readyByRequest := if rest = [] then q.readyByRequest.erase requestId
      else q.readyByRequest.set requestId rest }

/-- `_dispatch`: only the head of the request's queue is given out. -/
def dispatch (q : RequestQueues) (placed : Assignment) : RequestQueues :=
  match q.queue placed.requestId with
  | [] => q
  | task :: rest =>
    if task.taskId ≠ placed.task.taskId then q
    else { q.popHead placed.requestId rest with
      accounts := q.accounts.dispatch placed.task placed.groupId placed.ranks
      requestInflight := Counter.raise q.requestInflight placed.requestId }

def release (q : RequestQueues) (event : WorkerEvent) : RequestQueues :=
  { q with
    accounts := q.accounts.releaseDispatchedTask event.taskId
    requestInflight := Counter.drop q.requestInflight event.requestId
    requestLastGroup := if event.groupId = "" then q.requestLastGroup
      else q.requestLastGroup.set event.requestId event.groupId }

def drop (q : RequestQueues) (requestId : String) : RequestQueues :=
  { q with
    readyByRequest := q.readyByRequest.erase requestId
    requestInflight := q.requestInflight.erase requestId
    requestLastGroup := q.requestLastGroup.erase requestId }

variable {q : RequestQueues} {ready : List InferenceTask} {running : List Dispatch}

-- ---------------------------------------------------------------------------
-- The books
-- ---------------------------------------------------------------------------

/-- The queues hold the ready tasks, and the counters stand for the running ones. -/
structure Books (q : RequestQueues) (ready : List InferenceTask) (running : List Dispatch) :
    Prop where
  filed : ∀ requestId, ∀ task ∈ q.queue requestId, task.requestId = requestId
  queued : ∀ task, ready.count task = (q.queue task.requestId).count task
  inflight : ∀ requestId, q.inflight requestId =
    running.countP fun dispatch => dispatch.task.requestId = requestId
  entered : ∀ dispatch ∈ running,
    q.accounts.dispatchedKind.get? dispatch.task.taskId = some dispatch.groupId
  claimed : ∀ rank, Counter.count q.accounts.outstandingPerRank rank =
    (running.map fun dispatch =>
      (q.accounts.dispatchedRanksByTask.getD dispatch.task.taskId []).count rank).sum
  unheld : ∀ rank, Counter.count q.accounts.reshardHoldsByRank rank = 0

theorem Books.start : Books .init [] [] where
  filed := by
    rintro requestId task ⟨⟩
  queued := fun _ => rfl
  inflight := fun _ => rfl
  entered := by
    rintro dispatch ⟨⟩
  claimed := fun _ => rfl
  unheld := fun _ => rfl

theorem Books.mem_ready_iff (h : Books q ready running) {task : InferenceTask} :
    task ∈ ready ↔ task ∈ q.queue task.requestId := by
  rw [← List.count_pos_iff, h.queued, List.count_pos_iff]

theorem Books.mem_ready_of_queue (h : Books q ready running) {task : InferenceTask}
    {requestId : String} (hmem : task ∈ q.queue requestId) :
    task ∈ ready ∧ task.requestId = requestId := by
  have hid := h.filed requestId task hmem
  exact ⟨h.mem_ready_iff.mpr (hid.symm ▸ hmem), hid⟩

theorem Books.idle (h : Books q ready []) : (∀ requestId, q.inflight requestId = 0) ∧
    ∀ ranks, q.accounts.canDispatchRanks ranks = true := by
  refine ⟨fun requestId => h.inflight requestId, fun ranks => ?_⟩
  rw [RankAccounts.canDispatchRanks, List.all_eq_true]
  intro rank _
  have hclaimed : Counter.count q.accounts.outstandingPerRank rank = 0 := h.claimed rank
  simp [hclaimed, h.unheld rank]

-- ---------------------------------------------------------------------------
-- Enqueueing
-- ---------------------------------------------------------------------------

theorem index_eq (tasks : List InferenceTask) (q : RequestQueues) :
    ∃ entries, tasks.foldl index q = { q with taskIndex := entries } := by
  induction tasks generalizing q with
  | nil => exact ⟨_, rfl⟩
  | cons task rest ih =>
    obtain ⟨entries, heq⟩ := ih (q.index task)
    exact ⟨entries, heq⟩

theorem enqueueAll_eq (tasks : List InferenceTask) (q : RequestQueues) : ∃ entries queues,
    tasks.foldl enqueue q = { q with taskIndex := entries, readyByRequest := queues } ∧
      ∀ requestId, queues.getD requestId [] = q.queue requestId ++
        tasks.filter fun task => task.requestId = requestId := by
  induction tasks generalizing q with
  | nil => exact ⟨_, _, rfl, by simp [queue]⟩
  | cons task rest ih =>
    obtain ⟨entries, queues, heq, hqueues⟩ := ih (q.enqueue task)
    refine ⟨entries, queues, heq, fun requestId => ?_⟩
    rw [hqueues, queue, enqueue, Dict.getD_set, List.filter_cons]
    by_cases hid : task.requestId = requestId
    · subst hid
      simp [queue]
    · simp [hid, queue]

theorem taskIndex_index (tasks : List InferenceTask) (q : RequestQueues) :
    (tasks.foldl index q).taskIndex =
      q.taskIndex.insertAll (tasks.map fun task => (task.taskId, task)) := by
  induction tasks generalizing q with
  | nil => rfl
  | cons task rest ih => exact ih (q.index task)

theorem taskIndex_enqueue (tasks : List InferenceTask) (q : RequestQueues) :
    (tasks.foldl enqueue q).taskIndex =
      q.taskIndex.insertAll (tasks.map fun task => (task.taskId, task)) := by
  induction tasks generalizing q with
  | nil => rfl
  | cons task rest ih => exact ih (q.enqueue task)

theorem submit_eq (tasks : List InferenceTask) (q : RequestQueues) : ∃ entries queues,
    q.submit tasks = { q with taskIndex := entries, readyByRequest := queues } := by
  obtain ⟨entries, hindex⟩ := index_eq tasks q
  obtain ⟨entries', queues, henqueue, -⟩ :=
    enqueueAll_eq (tasks.filter fun task => task.dependencies = []) (tasks.foldl index q)
  refine ⟨entries', queues, ?_⟩
  rw [RequestQueues.submit, henqueue, hindex]

theorem Books.enqueueAll (h : Books q ready running) (tasks : List InferenceTask) :
    Books (tasks.foldl enqueue q) (ready ++ tasks) running := by
  obtain ⟨entries, queues, heq, hqueues⟩ := enqueueAll_eq tasks q
  rw [heq]
  refine ⟨fun requestId task hmem => ?_, fun task => ?_, h.inflight, h.entered, h.claimed, h.unheld⟩
  · rw [queue, hqueues] at hmem
    rcases List.mem_append.mp hmem with hmem | hmem
    · exact h.filed _ task hmem
    · simpa using (List.mem_filter.mp hmem).2
  · rw [queue, hqueues, List.count_append, List.count_append, h.queued]
    rw [List.count_filter (by simp)]

theorem Books.submit (h : Books q ready running) (tasks : List InferenceTask) :
    Books (q.submit tasks) (ready ++ tasks.filter fun task => task.dependencies = []) running := by
  obtain ⟨entries, heq⟩ := index_eq tasks q
  have hindexed : Books (tasks.foldl index q) ready running := by
    rw [heq]
    exact ⟨h.filed, h.queued, h.inflight, h.entered, h.claimed, h.unheld⟩
  exact hindexed.enqueueAll _

-- ---------------------------------------------------------------------------
-- Dispatching
-- ---------------------------------------------------------------------------

theorem dispatch_of_head {placed : Assignment} {rest : List InferenceTask}
    (h : q.queue placed.requestId = placed.task :: rest) :
    q.dispatch placed = { q.popHead placed.requestId rest with
      accounts := q.accounts.dispatch placed.task placed.groupId placed.ranks
      requestInflight := Counter.raise q.requestInflight placed.requestId } := by
  rw [dispatch, h]
  simp

theorem queue_popHead (q : RequestQueues) (requestId other : String) (rest : List InferenceTask) :
    (q.popHead requestId rest).queue other =
      if requestId = other then rest else q.queue other := by
  unfold popHead queue
  by_cases hid : requestId = other
  · subst hid
    by_cases hrest : rest = []
    · simp [hrest, Dict.getD_erase]
    · simp [hrest, Dict.getD_set]
  · by_cases hrest : rest = []
    · simp [hrest, Dict.getD_erase, hid]
    · simp [hrest, Dict.getD_set, hid]

theorem queue_dispatch_ne {placed : Assignment} {requestId : String}
    (hne : placed.requestId ≠ requestId) :
    (q.dispatch placed).queue requestId = q.queue requestId := by
  unfold dispatch
  split
  · rfl
  · split
    · rfl
    · exact (queue_popHead q _ _ _).trans (if_neg hne)

theorem Books.dispatch (h : Books q ready running) {placed : Assignment}
    (hhead : (q.queue placed.requestId).head? = some placed.task)
    (hfresh : placed.task.taskId ∉ running.map (·.task.taskId)) :
    Books (q.dispatch placed) (ready.diff [placed.task]) (running ++ [placed.toDispatch]) := by
  obtain ⟨rest, hqueue⟩ := List.head?_eq_some_iff.mp hhead
  have hid : placed.task.requestId = placed.requestId :=
    h.filed _ _ (List.mem_of_mem_head? hhead)
  have hother : ∀ dispatch ∈ running, placed.task.taskId ≠ dispatch.task.taskId :=
    fun dispatch hmem heq => hfresh (List.mem_map.mpr ⟨dispatch, hmem, heq.symm⟩)
  have hqueues : ∀ requestId, (q.dispatch placed).queue requestId =
      if placed.requestId = requestId then rest else q.queue requestId := by
    rw [dispatch_of_head hqueue]
    exact fun requestId => queue_popHead q _ _ _
  refine ⟨fun requestId task hmem => ?_, fun task => ?_, fun requestId => ?_,
    fun dispatch hmem => ?_, fun rank => ?_, ?_⟩
  · rw [hqueues] at hmem
    split at hmem
    · next heq => exact h.filed _ _ (heq ▸ hqueue ▸ List.mem_cons_of_mem _ hmem)
    · exact h.filed requestId task hmem
  · rw [List.diff_cons, List.diff_nil, List.count_erase, h.queued, hqueues]
    by_cases heq : placed.requestId = task.requestId
    · rw [if_pos heq, ← heq, hqueue, List.count_cons]
      simp
    · have hne : ¬ placed.task = task := fun htask => heq (htask ▸ hid.symm)
      rw [if_neg heq]
      simp [hne]
  · have hraise := Counter.count_raise q.requestInflight placed.requestId requestId
    rw [List.countP_append, ← h.inflight, dispatch_of_head hqueue]
    simp only [List.countP_singleton, Assignment.toDispatch, hid, decide_eq_true_eq]
    exact hraise
  · rw [dispatch_of_head hqueue]
    rcases List.mem_append.mp hmem with hmem | hmem
    · exact (Dict.get?_set_ne _ (hother dispatch hmem) _).trans (h.entered dispatch hmem)
    · rw [List.mem_singleton.mp hmem]
      exact Dict.get?_set_self ..
  · rw [dispatch_of_head hqueue]
    have hsame : (running.map fun dispatch => ((q.accounts.dispatch placed.task placed.groupId
          placed.ranks).dispatchedRanksByTask.getD dispatch.task.taskId []).count rank) =
        running.map fun dispatch =>
          (q.accounts.dispatchedRanksByTask.getD dispatch.task.taskId []).count rank := by
      refine List.map_congr_left fun dispatch hmem => ?_
      refine congrArg (List.count rank) ((Dict.getD_set ..).trans ?_)
      exact if_neg (hother dispatch hmem)
    have hown : (q.accounts.dispatch placed.task placed.groupId
        placed.ranks).dispatchedRanksByTask.getD placed.task.taskId [] = placed.ranks :=
      (Dict.getD_set ..).trans (if_pos rfl)
    rw [List.map_append, List.sum_append, hsame, ← h.claimed]
    simp only [List.map_singleton, List.sum_singleton, Assignment.toDispatch, hown]
    exact Counter.count_raiseAll ..
  · rw [dispatch_of_head hqueue]
    exact h.unheld

theorem dispatched_eq {placed : List Assignment} (hdistinct : (placed.map (·.requestId)).Nodup)
    (hheads : ∀ p ∈ placed, (q.queue p.requestId).head? = some p.task) :
    (placed.foldl dispatch q).accounts.dispatchedRanksByTask =
        q.accounts.dispatchedRanksByTask.insertAll
          (placed.map fun p => (p.task.taskId, p.ranks)) ∧
      (placed.foldl dispatch q).taskIndex = q.taskIndex := by
  induction placed generalizing q with
  | nil => exact ⟨rfl, rfl⟩
  | cons p placed ih =>
    obtain ⟨hnew, hdistinct⟩ := List.nodup_cons.mp hdistinct
    obtain ⟨rest, hqueue⟩ := List.head?_eq_some_iff.mp (hheads p (List.mem_cons_self ..))
    obtain ⟨hranks, hindex⟩ := @ih (q.dispatch p) hdistinct fun other hother => by
      rw [queue_dispatch_ne fun heq => hnew (List.mem_map.mpr ⟨other, hother, heq.symm⟩)]
      exact hheads other (List.mem_cons_of_mem _ hother)
    rw [List.foldl_cons, hranks, hindex, dispatch_of_head hqueue]
    exact ⟨rfl, rfl⟩

variable {σ : Type} {w : Driver.World σ}

/-- Giving out heads of different queues keeps the books. -/
theorem Books.dispatched (hsound : Driver.Sound w) (h : Books q w.ready w.running)
    {placed : List Assignment} (hdistinct : (placed.map (·.requestId)).Nodup)
    (hheads : ∀ p ∈ placed, (q.queue p.requestId).head? = some p.task) (policy : σ) :
    Driver.Sound (w.settle (placed.map Assignment.toDispatch) policy) ∧
      Books (placed.foldl RequestQueues.dispatch q)
        (w.settle (placed.map Assignment.toDispatch) policy).ready
        (w.settle (placed.map Assignment.toDispatch) policy).running := by
  induction placed generalizing q w with
  | nil =>
    have hsame : w.settle [] policy = { w with policy } := by simp [Driver.World.settle]
    simp only [List.map_nil, List.foldl_nil, hsame]
    exact ⟨hsound.withPolicy policy, h⟩
  | cons p placed ih =>
    obtain ⟨hnew, hdistinct⟩ := List.nodup_cons.mp hdistinct
    have hhead := hheads p (List.mem_cons_self ..)
    have hready := (h.mem_ready_of_queue (List.mem_of_mem_head? hhead)).1
    have hsub : ([p.toDispatch].map (·.task)).Subperm w.ready :=
      List.singleton_subperm_iff.mpr hready
    have hbooks := h.dispatch hhead (hsound.fresh_of_ready hready)
    have hlater := ih (hsound.settle policy hsub) hbooks hdistinct fun other hother => by
      rw [queue_dispatch_ne fun heq => hnew (List.mem_map.mpr ⟨other, hother, heq.symm⟩)]
      exact hheads other (List.mem_cons_of_mem _ hother)
    rw [Driver.settle_settle] at hlater
    exact hlater

-- ---------------------------------------------------------------------------
-- Events
-- ---------------------------------------------------------------------------

theorem Books.release (h : Books q ready running) (hids : (running.map (·.task.taskId)).Nodup)
    {dispatch : Dispatch} (hmem : dispatch ∈ running) {event : WorkerEvent}
    (htask : event.taskId = dispatch.task.taskId)
    (hrequest : event.requestId = dispatch.task.requestId) :
    Books (q.release event) ready (running.erase dispatch) := by
  have hperm := List.perm_cons_erase hmem
  have hother : ∀ other ∈ running.erase dispatch, dispatch.task.taskId ≠ other.task.taskId := by
    have hnodup := (hperm.map (·.task.taskId)).nodup_iff.mp hids
    exact fun other hother heq =>
      (List.nodup_cons.mp hnodup).1 (List.mem_map.mpr ⟨other, hother, heq.symm⟩)
  have hrelease : q.accounts.releaseDispatchedTask event.taskId =
      q.accounts.releaseOrdinary dispatch.task.taskId dispatch.groupId := by
    rw [htask, RankAccounts.releaseDispatchedTask, h.entered dispatch hmem]
  unfold RequestQueues.release
  rw [hrelease, hrequest]
  refine ⟨h.filed, h.queued, fun requestId => ?_, fun other hin => ?_, fun rank => ?_, h.unheld⟩
  · have hdrop := Counter.count_drop q.requestInflight dispatch.task.requestId requestId
    have hcount := hperm.countP_eq fun other => decide (other.task.requestId = requestId)
    rw [List.countP_cons] at hcount
    simp only [decide_eq_true_eq] at hcount
    have hbefore : Counter.count q.requestInflight requestId = _ := h.inflight requestId
    refine hdrop.trans ?_
    rw [hbefore, hcount, Nat.add_sub_cancel]
  · exact (Dict.get?_erase_ne _ (hother other hin)).trans
      (h.entered other (List.mem_of_mem_erase hin))
  · have hsame : ((running.erase dispatch).map fun other =>
          ((q.accounts.releaseOrdinary dispatch.task.taskId
            dispatch.groupId).dispatchedRanksByTask.getD other.task.taskId []).count rank) =
        (running.erase dispatch).map fun other =>
          (q.accounts.dispatchedRanksByTask.getD other.task.taskId []).count rank := by
      refine List.map_congr_left fun other hin => congrArg (List.count rank) ?_
      exact (Dict.getD_erase ..).trans (if_neg (hother other hin))
    have hsum := (hperm.map fun other =>
      (q.accounts.dispatchedRanksByTask.getD other.task.taskId []).count rank).sum_eq
    rw [List.map_cons, List.sum_cons, ← h.claimed] at hsum
    simp only [hsame]
    refine (Counter.count_dropAll ..).trans ?_
    rw [hsum, Nat.add_sub_cancel_left]

theorem Books.drop (h : Books q ready running) {requestId : String}
    (hnone : ∀ task ∈ ready ++ running.map (·.task), task.requestId ≠ requestId) :
    Books (q.drop requestId) ready running := by
  refine ⟨fun other task hmem => ?_, fun task => ?_, fun other => ?_, h.entered, h.claimed, h.unheld⟩
  · simp only [queue, RequestQueues.drop, Dict.getD_erase] at hmem
    split at hmem
    · cases hmem
    · exact h.filed other task hmem
  · simp only [queue, RequestQueues.drop, Dict.getD_erase]
    split
    · next heq =>
      rw [List.count_nil, List.count_eq_zero]
      exact fun hmem => hnone task (List.mem_append_left _ hmem) heq.symm
    · exact h.queued task
  · simp only [RequestQueues.inflight, RequestQueues.drop, Counter.count, Dict.getD_erase]
    split
    · next heq =>
      refine (List.countP_eq_zero.mpr fun dispatch hmem hid => ?_).symm
      refine hnone dispatch.task (List.mem_append_right _ (List.mem_map_of_mem hmem)) ?_
      rw [heq]
      simpa using hid
    · exact h.inflight other

end RequestQueues

end GfDit
