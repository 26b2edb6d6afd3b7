import GfDit.Lib.Roster
import GfDit.Policies.Work

/-!
# Shortest remaining time first and shortest job first

`SRTFSchedulerPolicy` and `SJFSchedulerPolicy`. Runnable tasks queue up by
group and request. A group that has room is given the next task of one of its
requests: the one with the least work left, or, in the variant that does not
preempt, the one it serves already and only when there is none the one with
the least work in all. A group has one task that is not launched and two that
have not ended, at most. Reports, starts, launches and ends are also written
to a log; no decision reads it.
-/

namespace GfDit

inductive SrtfEntry
  | reported (task : InferenceTask) (groupId : String)
  | started (task : InferenceTask) (groupId : String)
  -- TASK_LAUNCH_END, TASK_EXEC_END or TASK_FAILED
  | launched (taskId : String)
  -- TASK_EXEC_END or TASK_FAILED
  | ended (taskId : String)
  | closed (requestId : String)
  deriving DecidableEq

structure Srtf where
  books : WorkBooks
  runnableByGroup : Dict String (Dict String (List InferenceTask))
  activeRequestByGroup : Dict String String
  outstandingTasksByGroup : Dict String Nat
  launchPendingByGroup : Dict String Nat
  tasksPendingLaunch : List String
  dispatchedTaskGroup : Dict String String
  submitCounter : Nat
  requestSubmitSeq : Dict String Nat
  -- of the variant that does not preempt
  requestTotalWork : Dict String (WithTop ℚ)
  log : List SrtfEntry

def maxQueueAheadPerGroup : Nat := 1

namespace Srtf

def init (estimator : TaskRuntimeEstimator) (topology : RuntimeTopology) : Srtf :=
  ⟨.init estimator topology, ∅, ∅, ∅, ∅, [], ∅, 0, ∅, ∅, []⟩

def onBooks (x : PolicyM WorkBooks α) : PolicyM Srtf α :=
  Prog.zoom (fun w => { w with policy := w.policy.books })
    (fun v w => { v with policy := { w.policy with books := v.policy } }) x

def modifyPolicy (f : Srtf → Srtf) : PolicyM Srtf Unit :=
  modify fun w => { w with policy := f w.policy }

-- ---------------------------------------------------------------------------
-- Choosing a request
-- ---------------------------------------------------------------------------

/-- `request_remaining_work.get(request_id, inf)`. -/
def remainingWork (p : Srtf) (requestId : String) : WithTop ℚ :=
  match p.books.requestRemainingWork.get? requestId with
  | none => ⊤
  | some work => work

def submitSeq (p : Srtf) (requestId : String) : Nat :=
  p.requestSubmitSeq.getD requestId p.submitCounter

/-- `min` over the keys of a dictionary. -/
def leastBy [LinearOrder κ] (key : String → κ) : List String → Option String
  | [] => none
  | requestId :: rest =>
    match leastBy key rest with
    | none => some requestId
    | some best => if key best < key requestId then some best else some requestId

def selectShortestRequest (p : Srtf) (groupId : String)
    (byRequest : Dict String (List InferenceTask)) : Option String × Srtf :=
  let key (requestId : String) : WithTop ℚ ×ₗ Nat ×ₗ Nat ×ₗ String :=
    toLex (p.remainingWork requestId, toLex (
      if p.activeRequestByGroup.get? groupId = some requestId then 0 else 1,
      toLex (p.submitSeq requestId, requestId)))
  (leastBy key byRequest.keys, p)

def snapshot (p : Srtf) (requestId : String) : Srtf :=
  match p.requestTotalWork.get? requestId with
  | some _ => p
  | none =>
    { p with requestTotalWork := p.requestTotalWork.set requestId (p.remainingWork requestId) }

def selectShortestJob (p : Srtf) (groupId : String)
    (byRequest : Dict String (List InferenceTask)) : Option String × Srtf :=
  match p.activeRequestByGroup.get? groupId with
  | some active => (if byRequest.contains active then some active else none, p)
  | none =>
    let p := byRequest.keys.foldl snapshot p
    let key (requestId : String) : WithTop ℚ ×ₗ Nat ×ₗ String :=
      toLex (p.requestTotalWork.getD requestId ⊤, toLex (p.submitSeq requestId, requestId))
    (leastBy key byRequest.keys, p)

-- ---------------------------------------------------------------------------
-- Dispatch
-- ---------------------------------------------------------------------------

def popRunnable (p : Srtf) (groupId requestId : String)
    (byRequest : Dict String (List InferenceTask)) (queue : List InferenceTask) : Srtf :=
  let byRequest :=
    if queue = [] then byRequest.erase requestId else byRequest.set requestId queue
  { p with
    runnableByGroup :=
      if byRequest.length = 0 then p.runnableByGroup.erase groupId
      else p.runnableByGroup.set groupId byRequest }

def start (p : Srtf) (groupId requestId : String) (task : InferenceTask) : Srtf :=
  { p with
    activeRequestByGroup := p.activeRequestByGroup.set groupId requestId
    outstandingTasksByGroup := Counter.raise p.outstandingTasksByGroup groupId
    dispatchedTaskGroup := p.dispatchedTaskGroup.set task.taskId groupId
    tasksPendingLaunch :=
      if task.taskId ∈ p.tasksPendingLaunch then p.tasksPendingLaunch
      else p.tasksPendingLaunch ++ [task.taskId]
    launchPendingByGroup := Counter.raise p.launchPendingByGroup groupId
    log := .started task groupId :: p.log }

def hasRoom (p : Srtf) (groupId : String) : Bool :=
  Counter.count p.launchPendingByGroup groupId = 0 ∧
    Counter.count p.outstandingTasksByGroup groupId < 1 + maxQueueAheadPerGroup

section

-- What the two variants do differently: the choice of a request.
variable (select : Srtf → String → Dict String (List InferenceTask) → Option String × Srtf)

def takeGroups : List ExecutionGroupSpec → PolicyM Srtf (List InferenceTask)
  | [] => pure []
  | group :: groups => do
    let p := (← get).policy
    match p.hasRoom group.groupId, p.runnableByGroup.get? group.groupId with
    | true, some byRequest =>
      let (chosen, p) := select p group.groupId byRequest
      modifyPolicy fun _ => p
      match chosen with
      | none => takeGroups groups
      | some requestId =>
        match byRequest.get? requestId with
        | none => throw (.keyError requestId)
        | some [] => throw (.indexError "pop from an empty deque")
        | some (task :: queue) =>
          modifyPolicy fun p =>
            (p.popRunnable group.groupId requestId byRequest queue).start group.groupId requestId
              task
          modify fun w => w.setStatus task .dispatched
          let out ← takeGroups groups
          pure (task :: out)
    | _, _ => takeGroups groups

def takeDispatchableTasks : PolicyM Srtf (List InferenceTask) := do
  takeGroups select (← get).topology.groups

-- ---------------------------------------------------------------------------
-- Handlers
-- ---------------------------------------------------------------------------

def enqueue (p : Srtf) (task : InferenceTask) (groupId : String) : Srtf :=
  let byRequest := p.runnableByGroup.getD groupId ∅
  { p with
    runnableByGroup := p.runnableByGroup.set groupId
      (byRequest.set task.requestId (byRequest.getD task.requestId [] ++ [task]))
    log := .reported task groupId :: p.log }

def enqueueRunnable (task : InferenceTask) : PolicyM Srtf Unit := do
  let groupId ← onBooks (WorkBooks.groupOfRunnable task)
  modify fun w => { w.setStatus task .ready with policy := w.policy.enqueue task groupId }

def onTasksRunnable (tasks : List InferenceTask) : PolicyM Srtf (List InferenceTask) := do
  tasks.forM enqueueRunnable
  takeDispatchableTasks select

/-- `_resolve_parallel_spec`. -/
def specOf (_ : String) (task : InferenceTask) : PolicyM WorkBooks ParallelSpec := do
  match (← get).tasks.groupId task with
  | none =>
    throw (.valueError s!"task {task.taskId} has no bound group_id during runtime estimation")
  | some groupId =>
    let group ← World.getGroup groupId
    pure group.parallelSpec

def number (p : Srtf) (requestId : String) : Srtf :=
  if p.requestSubmitSeq.contains requestId then p
  else
    { p with
      requestSubmitSeq := p.requestSubmitSeq.set requestId p.submitCounter
      submitCounter := p.submitCounter + 1 }

def onRequestSubmitted (plan : RequestExecutionPlan) : PolicyM Srtf (List InferenceTask) := do
  modifyPolicy fun p => p.number plan.requestId
  onBooks (WorkBooks.enterPlan specOf plan)
  onTasksRunnable select plan.rootTasks

def markTaskLaunchFinished (p : Srtf) (taskId : String) : Srtf :=
  let logged := { p with log := .launched taskId :: p.log }
  if taskId ∈ p.tasksPendingLaunch then
    { logged with
      tasksPendingLaunch := p.tasksPendingLaunch.filter (· ≠ taskId)
      launchPendingByGroup :=
        match p.dispatchedTaskGroup.get? taskId with
        | none => p.launchPendingByGroup
        | some groupId => Counter.drop p.launchPendingByGroup groupId }
  else logged

def releaseDispatchedTask (p : Srtf) (taskId : String) : Srtf :=
  { p with
    dispatchedTaskGroup := p.dispatchedTaskGroup.erase taskId
    outstandingTasksByGroup :=
      match p.dispatchedTaskGroup.get? taskId with
      | none => p.outstandingTasksByGroup
      | some groupId => Counter.drop p.outstandingTasksByGroup groupId
    log := .ended taskId :: p.log }

def dropRunnable (p : Srtf) (requestId groupId : String) : Srtf :=
  match p.runnableByGroup.get? groupId with
  | none => p
  | some byRequest =>
    { p with
      runnableByGroup :=
        if (byRequest.erase requestId).length = 0 then p.runnableByGroup.erase groupId
        else p.runnableByGroup.set groupId (byRequest.erase requestId) }

def vacate (p : Srtf) (requestId groupId : String) : Srtf :=
  if p.activeRequestByGroup.get? groupId = some requestId then
    { p with activeRequestByGroup := p.activeRequestByGroup.erase groupId }
  else p

def cleanupRequestWork (p : Srtf) (requestId : String) (groupId : Option String) : Srtf :=
  { p with
    books := p.books.cleanupRequestWork requestId groupId
    requestSubmitSeq := p.requestSubmitSeq.erase requestId
    requestTotalWork := p.requestTotalWork.erase requestId
    log := .closed requestId :: p.log }

def endRequest (p : Srtf) (event : WorkerEvent) : Srtf :=
  let groupId := p.books.eventGroup event
  let vacated :=
    match groupId with
    | none => p
    | some groupId => (p.dropRunnable event.requestId groupId).vacate event.requestId groupId
  vacated.cleanupRequestWork event.requestId groupId

def chargeCompletedTask (p : Srtf) (event : WorkerEvent) : Srtf :=
  { p with books := p.books.chargeCompletedTask event.requestId event.taskId }

def noteEvent (p : Srtf) (event : WorkerEvent) : Srtf :=
  match event.kind with
  | .taskLaunchEnd => (p.markTaskLaunchFinished event.taskId).chargeCompletedTask event
  | .taskExecEnd =>
    ((p.markTaskLaunchFinished event.taskId).releaseDispatchedTask event.taskId).chargeCompletedTask
      event
  | .taskFailed => (p.markTaskLaunchFinished event.taskId).releaseDispatchedTask event.taskId
  | .requestFinished | .requestFailed => p.endRequest event
  | .taskLaunchBegin | .taskExecBegin => p

/-- A launch does not lead to a dispatch. -/
def onWorkerEvent (event : WorkerEvent) : PolicyM Srtf (List InferenceTask) := do
  modifyPolicy fun p => p.noteEvent event
  if event.kind = .taskLaunchEnd then pure [] else takeDispatchableTasks select

end

end Srtf

def srtfPolicy : SchedulerPolicy Srtf where
  onRequestSubmitted := Srtf.onRequestSubmitted Srtf.selectShortestRequest
  onTasksRunnable := Srtf.onTasksRunnable Srtf.selectShortestRequest
  onWorkerEvent := Srtf.onWorkerEvent Srtf.selectShortestRequest
  acquireMigrationHold := fun _ => pure ()
  releaseMigrationHold := fun _ => pure ()

/-- `SJFSchedulerPolicy.on_request_submitted`: the total is put down once the
request is in. -/
def Srtf.onJobSubmitted (plan : RequestExecutionPlan) : PolicyM Srtf (List InferenceTask) := do
  let out ← Srtf.onRequestSubmitted Srtf.selectShortestJob plan
  Srtf.modifyPolicy fun p => { p with
    requestTotalWork := p.requestTotalWork.set plan.requestId (p.remainingWork plan.requestId) }
  pure out

def sjfPolicy : SchedulerPolicy Srtf where
  onRequestSubmitted := Srtf.onJobSubmitted
  onTasksRunnable := Srtf.onTasksRunnable Srtf.selectShortestJob
  onWorkerEvent := Srtf.onWorkerEvent Srtf.selectShortestJob
  acquireMigrationHold := fun _ => pure ()
  releaseMigrationHold := fun _ => pure ()

end GfDit
