import GfDit.Policies.Binding
import GfDit.Policies.Fcfs
import GfDit.Policies.Srtf
import GfDit.Policies.GroupExclusion

/-!
# Backlogs

Runs of the three policies that keep work on their books: any sequence of
submissions, reports and events in which a request is submitted when it is not
open, a charge names a task of its request and the end of a request names no
group or the one the request is bound to. In every state the backlog of a
group is what its open requests still owe, up to what is dropped as tiny.
-/

namespace GfDit

open Prog

-- ---------------------------------------------------------------------------
-- Runs
-- ---------------------------------------------------------------------------

/-- Every call of a run is made in a state in which it may be made. -/
def Along (policy : SchedulerPolicy σ) (allowed : World σ → Ask → Prop) :
    List Ask → World σ → Prop
  | [], _ => True
  | ask :: asks, w => allowed w ask ∧ Along policy allowed asks (after (ask.run policy) w)

/-- What every call keeps, every run keeps. -/
theorem askAll_keeps {policy : SchedulerPolicy σ} {allowed : World σ → Ask → Prop}
    {I : World σ → Prop}
    (hstep : ∀ w ask, I w → allowed w ask → wp (ask.run policy) (fun _ => I) (fun _ => I) w)
    (h : I w) (asks : List Ask) (ha : Along policy allowed asks w) :
    I (askAll policy asks w).2 := by
  induction asks generalizing w with
  | nil => exact h
  | cons ask asks ih =>
    have hw := ih (after_of_wp (hstep w ask h ha.1)) ha.2
    simp only [askAll, after] at hw ⊢
    cases hx : ask.run policy w with
    | ok out w' => simpa only [hx, Prod.map_snd, id] using hw
    | error e w' => simpa only [hx] using hw

def WorkerEventKind.charges (kind : WorkerEventKind) : Bool :=
  kind = .taskLaunchEnd ∨ kind = .taskExecEnd

namespace WorkBooks

variable {load : Workload}

/-- A request is submitted when it is not open, a charge names a task of its
request, and the end of a request names no group or the request's. -/
def Orderly (load : Workload) (books : WorkBooks) : Ask → Prop
  | .submitted plan => plan = load.plan plan.requestId ∧ books.job? plan.requestId = none
  | .event event =>
    (event.kind.charges = true → event.taskId ∈ (load.plan event.requestId).tasks.keys) ∧
    (event.kind.endsRequest = true → books.InPlace event.requestId (books.eventGroup event))
  | .runnable _ | .acquire _ | .release _ => True

end WorkBooks

-- ---------------------------------------------------------------------------
-- First come, first served
-- ---------------------------------------------------------------------------

namespace Fcfs

variable {load : Workload} {estimator : TaskRuntimeEstimator} {w : World Fcfs}

abbrev Kept (load : Workload) (estimator : TaskRuntimeEstimator) (w : World Fcfs) : Prop :=
  w.policy.books.Kept load estimator w.topology

theorem specOf_reads (load : Workload) (requestId : String) :
    WorkBooks.ReadsGroup load requestId specOf := by
  intro selected task _ w _
  simp only [specOf, World.getGroup, wp_bind, wp_get, wp_pure]
  exact wp_check (fun group hg => ⟨rfl, group, RuntimeTopology.getGroup_eq_ok.mp hg, rfl⟩)
    fun _ _ => rfl

theorem enqueueRunnable_kept (h : Kept load estimator w) (task : InferenceTask) :
    wp (enqueueRunnable task) (fun _ => Kept load estimator) (fun _ => Kept load estimator) w := by
  simp only [enqueueRunnable, onBooks, modifyPolicy, wp_bind, wp_zoom, wp_get, wp_ite, wp_modify]
  refine wp_mono (WorkBooks.groupOfRunnable_kept task h) (fun groupId v hv => ?_) fun _ _ hv => hv
  split
  · split
    · exact hv
    · exact hv
  · split
    · exact hv
    · exact hv

theorem takeQueue_kept (h : Kept load estimator w) (queue : List InferenceTask) :
    wp (takeQueue queue) (fun _ => Kept load estimator) (fun _ => Kept load estimator) w := by
  induction queue generalizing w with
  | nil => exact h
  | cons task queue ih =>
    simp only [takeQueue, wp_bind, wp_modify, wp_pure]
    exact ih h

theorem onTasksRunnable_kept (h : Kept load estimator w) (tasks : List InferenceTask) :
    wp (onTasksRunnable tasks) (fun _ => Kept load estimator) (fun _ => Kept load estimator) w := by
  simp only [onTasksRunnable, takeDispatchableTasks, wp_bind, wp_get]
  refine wp_mono (wp_forM (fun task _ w hw => enqueueRunnable_kept hw task) h)
    (fun _ w' hw => takeQueue_kept hw _) fun _ _ he => he

theorem activateNext_books (groupId : String) (w : World Fcfs) :
    wp (activateNext groupId)
      (fun _ w' => w'.policy.books = w.policy.books ∧ w'.topology = w.topology)
      (fun _ _ => False) w := by
  simp only [activateNext, modifyPolicy, wp_bind, wp_get]
  split
  · exact ⟨rfl, rfl⟩
  · simp only [wp_bind, wp_modify]
    split
    · exact ⟨rfl, rfl⟩
    · simp only [wp_bind, wp_modify]
      exact wp_forM (fun task _ w' hw => hw) ⟨rfl, rfl⟩

theorem vacate_books (p : Fcfs) (requestId groupId : String) :
    (p.vacate requestId groupId).books = p.books := by
  unfold vacate
  split <;> rfl

theorem endRequest_kept (h : Kept load estimator w)
    (hp : w.policy.books.InPlace event.requestId (w.policy.books.eventGroup event)) :
    wp (endRequest event) (fun _ => Kept load estimator) (fun _ => Kept load estimator) w := by
  have hk := h.cleanup hp
  simp only [endRequest, modifyPolicy, wp_bind, wp_get]
  split
  · exact hk
  · rename_i groupId heq
    simp only [wp_bind, wp_modify]
    refine wp_mono (activateNext_books groupId _) ?_ fun _ _ he => he.elim
    rintro _ w' ⟨hb, ht⟩
    rw [vacate_books] at hb
    show (w'.policy.books.cleanupRequestWork _ _).Kept load estimator w'.topology
    rw [ht, hb]
    exact hk

theorem ask_kept (h : Kept load estimator w) (ask : Ask)
    (ho : w.policy.books.Orderly load ask) :
    wp (ask.run policy) (fun _ => Kept load estimator) (fun _ => Kept load estimator) w := by
  cases ask with
  | submitted plan =>
    obtain ⟨hplan, hj⟩ := ho
    simp only [Ask.run, policy, onRequestSubmitted, onBooks, wp_bind, wp_zoom]
    rw [hplan]
    refine wp_mono (WorkBooks.enterPlan_kept (specOf_reads load _) h hj) (fun _ v hv => ?_)
      fun _ _ he => he
    exact onTasksRunnable_kept hv _
  | runnable tasks => exact onTasksRunnable_kept h tasks
  | event event =>
    obtain ⟨hcharge, hend⟩ := ho
    simp only [Ask.run, policy, onWorkerEvent, takeDispatchableTasks, modifyPolicy, wp_bind, wp_ite,
      wp_modify, wp_get]
    split
    · rename_i hk
      have hnot : ¬ event.kind.endsRequest = true := by
        rcases hk with hk | hk <;> simp [hk, WorkerEventKind.endsRequest]
      rw [if_neg hnot]
      exact takeQueue_kept (h.charge (hcharge (by simpa [WorkerEventKind.charges] using hk))) _
    · split
      · rename_i hk
        refine wp_mono (endRequest_kept h (hend hk)) (fun _ w' hw => ?_) fun _ _ he => he
        exact takeQueue_kept hw _
      · exact takeQueue_kept h _
  | acquire ranks | release ranks => exact h

end Fcfs

-- ---------------------------------------------------------------------------
-- Shortest remaining time first, shortest job first
-- ---------------------------------------------------------------------------

namespace Srtf

variable {load : Workload} {estimator : TaskRuntimeEstimator} {w : World Srtf}
  {select : Srtf → String → Dict String (List InferenceTask) → Option String × Srtf}

abbrev Kept (load : Workload) (estimator : TaskRuntimeEstimator) (w : World Srtf) : Prop :=
  w.policy.books.Kept load estimator w.topology

theorem specOf_reads (load : Workload) (requestId : String) :
    WorkBooks.ReadsGroup load requestId specOf := by
  intro selected task hm w hb
  simp only [specOf, World.getGroup, wp_bind, wp_get, hb task hm, wp_pure]
  exact wp_check (fun group hg => ⟨rfl, group, RuntimeTopology.getGroup_eq_ok.mp hg, rfl⟩)
    fun _ _ => rfl

/-- A choice that only looks at the books. -/
def LeavesBooks (select : Srtf → String → Dict String (List InferenceTask) → Option String × Srtf) :
    Prop :=
  ∀ p groupId byRequest, (select p groupId byRequest).2.books = p.books

theorem selectShortestRequest_books : LeavesBooks selectShortestRequest := fun _ _ _ => rfl

theorem snapshots_books (requestIds : List String) (p : Srtf) :
    (requestIds.foldl snapshot p).books = p.books := by
  induction requestIds generalizing p with
  | nil => rfl
  | cons requestId rest ih =>
    rw [List.foldl_cons, ih]
    unfold snapshot
    split <;> rfl

theorem selectShortestJob_books : LeavesBooks selectShortestJob := by
  intro p groupId byRequest
  unfold selectShortestJob
  split
  · rfl
  · exact snapshots_books byRequest.keys p

theorem takeGroups_kept (hs : LeavesBooks select) (h : Kept load estimator w)
    (groups : List ExecutionGroupSpec) :
    wp (takeGroups select groups) (fun _ => Kept load estimator) (fun _ => Kept load estimator)
      w := by
  induction groups generalizing w with
  | nil => exact h
  | cons group groups ih =>
    simp only [takeGroups, modifyPolicy, wp_bind, wp_get]
    split
    · rename_i byRequest _ _
      have hk : ∀ p : Srtf, p.books = (select w.policy group.groupId byRequest).2.books →
          p.books.Kept load estimator w.topology := fun p hp => by
        rw [hp, hs]
        exact h
      simp only [wp_bind, wp_modify]
      split
      · exact ih (hk _ rfl)
      · split
        · exact hk _ rfl
        · exact hk _ rfl
        · simp only [wp_bind, wp_modify, wp_pure]
          exact ih (hk _ rfl)
    · exact ih h

theorem enqueueRunnable_kept (h : Kept load estimator w) (task : InferenceTask) :
    wp (enqueueRunnable task) (fun _ => Kept load estimator) (fun _ => Kept load estimator) w := by
  simp only [enqueueRunnable, onBooks, wp_bind, wp_zoom, wp_modify]
  exact wp_mono (WorkBooks.groupOfRunnable_kept task h) (fun groupId v hv => hv) fun _ _ hv => hv

theorem onTasksRunnable_kept (hs : LeavesBooks select) (h : Kept load estimator w)
    (tasks : List InferenceTask) :
    wp (onTasksRunnable select tasks) (fun _ => Kept load estimator)
      (fun _ => Kept load estimator) w := by
  simp only [onTasksRunnable, takeDispatchableTasks, wp_bind, wp_get]
  refine wp_mono (wp_forM (fun task _ w hw => enqueueRunnable_kept hw task) h)
    (fun _ w' hw => takeGroups_kept hs hw _) fun _ _ he => he

theorem onRequestSubmitted_kept (hs : LeavesBooks select) (h : Kept load estimator w)
    (ho : w.policy.books.Orderly load (.submitted plan)) :
    wp (onRequestSubmitted select plan) (fun _ => Kept load estimator)
      (fun _ => Kept load estimator) w := by
  obtain ⟨hplan, hj⟩ := ho
  have hbooks : (w.policy.number plan.requestId).books = w.policy.books := by
    unfold number
    split <;> rfl
  have hk : (w.policy.number plan.requestId).books.Kept load estimator w.topology := by
    rw [hbooks]
    exact h
  simp only [onRequestSubmitted, onBooks, modifyPolicy, wp_bind, wp_modify, wp_zoom]
  rw [← hbooks] at hj
  have henter := WorkBooks.enterPlan_kept
    (w := ⟨w.topology, w.tasks, w.clockNs, (w.policy.number plan.requestId).books⟩)
    (specOf_reads load plan.requestId) hk hj
  rw [← hplan] at henter
  refine wp_mono henter (fun _ v hv => ?_)
    fun _ _ he => he
  exact onTasksRunnable_kept hs hv _

theorem markTaskLaunchFinished_books (p : Srtf) (taskId : String) :
    (p.markTaskLaunchFinished taskId).books = p.books := by
  unfold markTaskLaunchFinished
  simp only
  split <;> rfl

theorem releaseDispatchedTask_books (p : Srtf) (taskId : String) :
    (p.releaseDispatchedTask taskId).books = p.books := rfl

theorem dropRunnable_books (p : Srtf) (requestId groupId : String) :
    (p.dropRunnable requestId groupId).books = p.books := by
  unfold dropRunnable
  split <;> rfl

theorem vacate_books (p : Srtf) (requestId groupId : String) :
    (p.vacate requestId groupId).books = p.books := by
  unfold vacate
  split <;> rfl

theorem endRequest_books (p : Srtf) (event : WorkerEvent) : (p.endRequest event).books =
    p.books.cleanupRequestWork event.requestId (p.books.eventGroup event) := by
  unfold endRequest cleanupRequestWork
  simp only
  split
  · rename_i heq
    rw [heq]
  · rename_i groupId heq
    rw [vacate_books, dropRunnable_books, heq]

theorem noteEvent_kept (h : Kept load estimator w) (ho : w.policy.books.Orderly load (.event event)) :
    (w.policy.noteEvent event).books.Kept load estimator w.topology := by
  obtain ⟨hcharge, hend⟩ := ho
  cases hk : event.kind with
  | taskLaunchEnd =>
    simp only [noteEvent, hk, chargeCompletedTask, markTaskLaunchFinished_books]
    exact h.charge (hcharge (by rw [hk]; rfl))
  | taskExecEnd =>
    simp only [noteEvent, hk, chargeCompletedTask, releaseDispatchedTask_books,
      markTaskLaunchFinished_books]
    exact h.charge (hcharge (by rw [hk]; rfl))
  | taskFailed =>
    simp only [noteEvent, hk, releaseDispatchedTask_books, markTaskLaunchFinished_books]
    exact h
  | requestFinished | requestFailed =>
    simp only [noteEvent, hk, endRequest_books]
    exact h.cleanup (hend (by rw [hk]; rfl))
  | taskLaunchBegin | taskExecBegin =>
    simp only [noteEvent, hk]
    exact h

theorem onWorkerEvent_kept (hs : LeavesBooks select) (h : Kept load estimator w)
    (ho : w.policy.books.Orderly load (.event event)) :
    wp (onWorkerEvent select event) (fun _ => Kept load estimator)
      (fun _ => Kept load estimator) w := by
  simp only [onWorkerEvent, takeDispatchableTasks, modifyPolicy, wp_bind, wp_modify, wp_ite,
    wp_pure, wp_get]
  split
  · exact noteEvent_kept h ho
  · exact takeGroups_kept hs (noteEvent_kept h ho) _

theorem srtf_ask_kept (h : Kept load estimator w) (ask : Ask)
    (ho : w.policy.books.Orderly load ask) :
    wp (ask.run srtfPolicy) (fun _ => Kept load estimator) (fun _ => Kept load estimator) w := by
  cases ask with
  | submitted plan => exact onRequestSubmitted_kept selectShortestRequest_books h ho
  | runnable tasks => exact onTasksRunnable_kept selectShortestRequest_books h tasks
  | event event => exact onWorkerEvent_kept selectShortestRequest_books h ho
  | acquire ranks | release ranks => exact h

theorem sjf_ask_kept (h : Kept load estimator w) (ask : Ask)
    (ho : w.policy.books.Orderly load ask) :
    wp (ask.run sjfPolicy) (fun _ => Kept load estimator) (fun _ => Kept load estimator) w := by
  cases ask with
  | submitted plan =>
    simp only [Ask.run, sjfPolicy, onJobSubmitted, modifyPolicy, wp_bind, wp_modify, wp_pure]
    exact wp_mono (onRequestSubmitted_kept selectShortestJob_books h ho) (fun _ _ hw => hw)
      fun _ _ he => he
  | runnable tasks => exact onTasksRunnable_kept selectShortestJob_books h tasks
  | event event => exact onWorkerEvent_kept selectShortestJob_books h ho
  | acquire ranks | release ranks => exact h

end Srtf

-- ---------------------------------------------------------------------------
-- Every reachable state
-- ---------------------------------------------------------------------------

namespace WorkBooks

/-- The jobs that are open are those of the submitted plans, less the tasks
charged, each at the estimate for the request's group; the backlog of a group
is what is owed there, up to a billionth for every charge or clean-up, and
exactly that if no estimate is so small; and a task that is not owed any more
is not charged again. -/
structure Accounted (load : Workload) (estimator : TaskRuntimeEstimator)
    (topology : RuntimeTopology) (books : WorkBooks) : Prop where
  estimated : ∀ requestId job, .opened requestId job ∈ books.log →
    job.costs.map Prod.fst = (load.plan requestId).tasks.keys ∧
      ∀ cost ∈ job.costs, Estimated topology estimator (load.plan requestId) job.lane cost
  bound : ∀ requestId job, (Backlog.jobs books.log).get? requestId = some job →
    books.requestGroup.get? requestId = some job.lane
  backlog : ∀ groupId, books.Balanced groupId
  once : ∀ requestId taskId, taskId ∈ (load.plan requestId).tasks.keys →
    (∀ job, (Backlog.jobs books.log).get? requestId = some job → taskId ∉ job.costs.map Prod.fst) →
      (books.chargeCompletedTask requestId taskId).groupBacklogWork = books.groupBacklogWork ∧
      (books.chargeCompletedTask requestId taskId).requestRemainingWork = books.requestRemainingWork

theorem Kept.accounted {load : Workload} {estimator : TaskRuntimeEstimator}
    {topology : RuntimeTopology} {books : WorkBooks} (h : books.Kept load estimator topology) :
    books.Accounted load estimator topology where
  estimated := h.estimated
  bound := fun requestId job hj => (h.sound.opened requestId job hj).bound
  backlog := h.sound.balanced
  once := fun requestId taskId hk hpaid => by
    unfold chargeCompletedTask
    simp only
    split
    · rename_i remaining work hr hw
      cases hj : books.job? requestId with
      | none =>
        rw [(h.sound.closed requestId hj).1] at hr
        cases hr
      | some job =>
        refine absurd ?_ (hpaid job hj)
        rw [(h.sound.opened requestId job hj).work taskId hk] at hw
        exact (Dict.lookupIn_isSome _ _).mp (by rw [hw]; rfl)
    · exact ⟨rfl, rfl⟩

end WorkBooks

/-- The books of the three policies in every run. -/
theorem backlog_accounted (load : Workload) (estimator : TaskRuntimeEstimator)
    (topology : RuntimeTopology) (tasks : TaskHeap) (clockNs : Nat) (asks : List Ask) :
    let fcfs : World Fcfs := ⟨topology, tasks, clockNs, .init estimator topology⟩
    let srtf : World Srtf := ⟨topology, tasks, clockNs, .init estimator topology⟩
    (Along Fcfs.policy (fun w => w.policy.books.Orderly load) asks fcfs →
      let w := (askAll Fcfs.policy asks fcfs).2
      w.policy.books.Accounted load estimator w.topology) ∧
    (Along srtfPolicy (fun w => w.policy.books.Orderly load) asks srtf →
      let w := (askAll srtfPolicy asks srtf).2
      w.policy.books.Accounted load estimator w.topology) ∧
    (Along sjfPolicy (fun w => w.policy.books.Orderly load) asks srtf →
      let w := (askAll sjfPolicy asks srtf).2
      w.policy.books.Accounted load estimator w.topology) := by
  intro fcfs srtf
  have hinit := WorkBooks.Kept.init load estimator topology
  refine ⟨fun h => ?_, fun h => ?_, fun h => ?_⟩
  · exact (askAll_keeps (I := Fcfs.Kept load estimator)
      (fun _ ask hw ha => Fcfs.ask_kept hw ask ha) hinit asks h).accounted
  · exact (askAll_keeps (I := Srtf.Kept load estimator)
      (fun _ ask hw ha => Srtf.srtf_ask_kept hw ask ha) hinit asks h).accounted
  · exact (askAll_keeps (I := Srtf.Kept load estimator)
      (fun _ ask hw ha => Srtf.sjf_ask_kept hw ask ha) hinit asks h).accounted

-- One request with two tasks, the second of which is estimated at less than
-- what is dropped.

def tinyTask (taskId stage : String) : InferenceTask :=
  ⟨taskId, "r", .textEncode, none, .pending, 0, [], [], [], none,
    Dict.set ∅ "stage" (.text stage)⟩

def tinyPlan : RequestExecutionPlan :=
  ⟨"r", (Dict.set ∅ "a" (tinyTask "a" "encode")).set "b" (tinyTask "b" "tail"), ["b"], [], ∅⟩

def tinyLoad : Workload :=
  Workload.solo tinyPlan (by decide) (by decide) (by decide)

def tinyEstimator : TaskRuntimeEstimator := fun _ _ stage =>
  pure ((if stage = "tail" then 1 / 10 ^ 10 else 1 : ℚ) : WithTop ℚ)

def tinyStart : World Fcfs :=
  ⟨soloTopology "g", ∅, 0, .init tinyEstimator (soloTopology "g")⟩

def tinyAsks : List Ask :=
  [.submitted tinyPlan, .event ⟨"a", "r", "g", .taskExecEnd, 0, "", []⟩]

def tinyJobs : World Srtf :=
  ⟨soloTopology "g", ∅, 0, .init tinyEstimator (soloTopology "g")⟩

theorem tiny_orderly (books : σ → WorkBooks) {policy : SchedulerPolicy σ} {w : World σ}
    (hfirst : (books w.policy).job? "r" = none) :
    Along policy (fun w => (books w.policy).Orderly tinyLoad) tinyAsks w := by
  refine ⟨⟨rfl, hfirst⟩, ⟨fun _ => ?_, fun h => ?_⟩, trivial⟩
  · show "a" ∈ tinyPlan.tasks.keys
    decide
  · exact absurd h (by decide)

/-- A run with one charge, after which a tiny amount is missing. -/
theorem tiny_accounted :
    (askAll Fcfs.policy tinyAsks tinyStart).2.policy.books.Accounted tinyLoad tinyEstimator
      (askAll Fcfs.policy tinyAsks tinyStart).2.topology ∧
    (askAll srtfPolicy tinyAsks tinyJobs).2.policy.books.Accounted tinyLoad tinyEstimator
      (askAll srtfPolicy tinyAsks tinyJobs).2.topology ∧
    (askAll sjfPolicy tinyAsks tinyJobs).2.policy.books.Accounted tinyLoad tinyEstimator
      (askAll sjfPolicy tinyAsks tinyJobs).2.topology :=
  have h := backlog_accounted tinyLoad tinyEstimator (soloTopology "g") ∅ 0 tinyAsks
  ⟨h.1 (tiny_orderly Fcfs.books rfl), h.2.1 (tiny_orderly Srtf.books rfl),
    h.2.2 (tiny_orderly Srtf.books rfl)⟩

/-- The rest of a request is dropped from the backlog though it is owed. -/
theorem tiny_backlog_dropped :
    Along Fcfs.policy (fun w => w.policy.books.Orderly tinyLoad) tinyAsks tinyStart ∧
    (askAll Fcfs.policy tinyAsks tinyStart).2.policy.books.groupBacklogWork.getD "g" 0 ≠
      Backlog.total (askAll Fcfs.policy tinyAsks tinyStart).2.policy.books.log "g" :=
  ⟨tiny_orderly Fcfs.books rfl, by decide +kernel⟩

end GfDit
