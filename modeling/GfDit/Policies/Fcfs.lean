import GfDit.Lib.Roster
import GfDit.Policies.Work

/-!
# First come, first served

`FCFSSchedulerPolicy`: one active request on each group. The tasks of other
requests bound there are blocked until the active request has ended; then the
request that has waited longest becomes active. Reports, starts and the
requests that go are also written to a log; no decision reads it.
-/

namespace GfDit

structure Fcfs where
  books : WorkBooks
  readyQueue : List InferenceTask
  activeRequestByGroup : Dict String String
  pendingRequestsByGroup : Dict String (List String)
  blockedTasksByRequest : Dict String (List InferenceTask)
  log : List (Roster.Entry InferenceTask String String)

namespace Fcfs

def init (estimator : TaskRuntimeEstimator) (topology : RuntimeTopology) : Fcfs :=
  ⟨.init estimator topology, [], ∅, ∅, ∅, []⟩

def onBooks (x : PolicyM WorkBooks α) : PolicyM Fcfs α :=
  Prog.zoom (fun w => { w with policy := w.policy.books })
    (fun v w => { v with policy := { w.policy with books := v.policy } }) x

def modifyPolicy (f : Fcfs → Fcfs) : PolicyM Fcfs Unit :=
  modify fun w => { w with policy := f w.policy }

-- ---------------------------------------------------------------------------
-- Dispatch
-- ---------------------------------------------------------------------------

def takeQueue : List InferenceTask → PolicyM Fcfs (List InferenceTask)
  | [] => pure []
  | task :: queue => do
    modify fun w => { w.setStatus task .dispatched with policy := { w.policy with
      readyQueue := queue
      log := .started task :: w.policy.log } }
    let out ← takeQueue queue
    pure (task :: out)

def takeDispatchableTasks : PolicyM Fcfs (List InferenceTask) := do
  takeQueue (← get).policy.readyQueue

-- ---------------------------------------------------------------------------
-- Handlers
-- ---------------------------------------------------------------------------

def makeReady (p : Fcfs) (task : InferenceTask) : Fcfs :=
  { p with readyQueue := p.readyQueue ++ [task] }

def block (p : Fcfs) (task : InferenceTask) (groupId : String) : Fcfs :=
  let queue := p.pendingRequestsByGroup.getD groupId []
  { p with
    pendingRequestsByGroup := p.pendingRequestsByGroup.set groupId
      (if task.requestId ∈ queue then queue else queue ++ [task.requestId])
    blockedTasksByRequest := p.blockedTasksByRequest.set task.requestId
      (p.blockedTasksByRequest.getD task.requestId [] ++ [task]) }

def enqueueRunnable (task : InferenceTask) : PolicyM Fcfs Unit := do
  let groupId ← onBooks (WorkBooks.groupOfRunnable task)
  modifyPolicy fun p => { p with log := .reported task :: p.log }
  if (← get).policy.activeRequestByGroup.get? groupId = none then
    modifyPolicy fun p => { p with
      activeRequestByGroup := p.activeRequestByGroup.set groupId task.requestId }
  if (← get).policy.activeRequestByGroup.get? groupId = some task.requestId then
    modify fun w => { w.setStatus task .ready with policy := w.policy.makeReady task }
  else modifyPolicy fun p => p.block task groupId

def onTasksRunnable (tasks : List InferenceTask) : PolicyM Fcfs (List InferenceTask) := do
  tasks.forM enqueueRunnable
  takeDispatchableTasks

/-- The parallel layout by which a task of the plan is estimated. -/
def specOf (selected : String) (_ : InferenceTask) : PolicyM WorkBooks ParallelSpec := do
  let group ← World.getGroup selected
  pure group.parallelSpec

def onRequestSubmitted (plan : RequestExecutionPlan) : PolicyM Fcfs (List InferenceTask) := do
  onBooks (WorkBooks.enterPlan specOf plan)
  onTasksRunnable plan.rootTasks

/-- The requests before the first that has blocked tasks go; that one, the
requests after it and the blocked tasks left over. -/
def promote (blocked : Dict String (List InferenceTask)) :
    List String → Option (String × List InferenceTask) × List String × Dict String (List InferenceTask)
  | [] => (none, [], blocked)
  | requestId :: queue =>
    match blocked.getD requestId [] with
    | [] => promote (blocked.erase requestId) queue
    | tasks => (some (requestId, tasks), queue, blocked.erase requestId)

def vacate (p : Fcfs) (requestId groupId : String) : Fcfs :=
  if p.activeRequestByGroup.get? groupId = some requestId then
    { p with activeRequestByGroup := p.activeRequestByGroup.erase groupId }
  else p

def activateNext (groupId : String) : PolicyM Fcfs Unit := do
  let p := (← get).policy
  match p.pendingRequestsByGroup.getD groupId [] with
  | [] => pure ()
  | waiting =>
    let (next, queue, blocked) := promote p.blockedTasksByRequest waiting
    modifyPolicy fun p => { p with
      blockedTasksByRequest := blocked
      pendingRequestsByGroup :=
        if queue = [] then p.pendingRequestsByGroup.erase groupId
        else p.pendingRequestsByGroup.set groupId queue }
    match next with
    | none => pure ()
    | some (requestId, tasks) =>
      modifyPolicy fun p => { p with
        activeRequestByGroup := p.activeRequestByGroup.set groupId requestId }
      tasks.forM fun task =>
        modify fun w => { w.setStatus task .ready with policy := w.policy.makeReady task }

def cleanupRequestWork (p : Fcfs) (requestId : String) (groupId : Option String) : Fcfs :=
  { p with
    books := p.books.cleanupRequestWork requestId groupId
    blockedTasksByRequest := p.blockedTasksByRequest.erase requestId
    log := .closed requestId :: p.log }

def endRequest (event : WorkerEvent) : PolicyM Fcfs Unit := do
  let groupId := (← get).policy.books.eventGroup event
  match groupId with
  | none => pure ()
  | some groupId =>
    modifyPolicy fun p => p.vacate event.requestId groupId
    activateNext groupId
  modifyPolicy fun p => p.cleanupRequestWork event.requestId groupId

def onWorkerEvent (event : WorkerEvent) : PolicyM Fcfs (List InferenceTask) := do
  if event.kind = .taskLaunchEnd ∨ event.kind = .taskExecEnd then
    modifyPolicy fun p => { p with
      books := p.books.chargeCompletedTask event.requestId event.taskId }
  if event.kind.endsRequest then endRequest event
  takeDispatchableTasks

/-- The migration holds are those of the base class and do nothing. -/
def policy : SchedulerPolicy Fcfs where
  onRequestSubmitted := onRequestSubmitted
  onTasksRunnable := onTasksRunnable
  onWorkerEvent := onWorkerEvent
  acquireMigrationHold := fun _ => pure ()
  releaseMigrationHold := fun _ => pure ()

end Fcfs

end GfDit
