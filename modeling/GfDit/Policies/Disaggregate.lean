import GfDit.Lib.Roster
import GfDit.Policies.DynamicStepFcfs

/-!
# The disaggregate policy

`DisaggregateSchedulerPolicy`: a FIFO queue for each group and one queue for
RESHARD tasks, one task at a time on each group and one RESHARD at a time, on
two groups that are otherwise idle. Reports, starts, ends and the requests
that go are also written to a log; no decision reads it.
-/

namespace GfDit

abbrev GroupEntry := Roster.Entry InferenceTask String String

structure Disaggregate where
  stageGroupIds : Option (Dict String String)
  groupReady : Dict String (List InferenceTask)
  reshardReady : List InferenceTask
  outstandingPerGroup : Dict String Nat
  -- groups held by a RESHARD in flight
  reshardHolds : Dict String Nat
  reshardGroupsByTask : Dict String (String × String)
  outstandingReshards : Nat
  -- task id -> "__reshard__" or group id
  dispatchedKind : Dict String String
  log : List GroupEntry

def maxConcurrentPerGroup : Nat := 1

namespace Disaggregate

def init (stageGroupIds : Option (Dict String String)) : Disaggregate :=
  ⟨stageGroupIds.filter fun ids => ids.length ≠ 0, ∅, [], ∅, ∅, ∅, 0, ∅, []⟩

def selectGroupForTask (p : Disaggregate) (task : InferenceTask) : Option String :=
  match p.stageGroupIds with
  | none => none
  | some ids =>
    match task.kind with
    | .textEncode | .vaeDecode | .finalize => ids.get? stageAux
    | .ditPrepare | .timestepPrepare | .ditStepChunk => ids.get? stageDit
    | .reshard => none

-- ---------------------------------------------------------------------------
-- Dispatch
-- ---------------------------------------------------------------------------

/-- Both endpoints are completely free. -/
def canDispatchReshard (p : Disaggregate) (src dst : String) : Bool :=
  [src, dst].all fun groupId =>
    !(0 < Counter.count p.outstandingPerGroup groupId) &&
      !(0 < Counter.count p.reshardHolds groupId)

def startReshard (p : Disaggregate) (task : InferenceTask) (src dst : String) : Disaggregate :=
  { p with
    reshardReady := p.reshardReady.tail
    outstandingReshards := p.outstandingReshards + 1
    reshardHolds := Counter.raiseAll p.reshardHolds [src, dst]
    reshardGroupsByTask := p.reshardGroupsByTask.set task.taskId (src, dst)
    dispatchedKind := p.dispatchedKind.set task.taskId reshardTarget
    log := .started task :: p.log }

/-- The RESHARD queue, drained while a slot and both groups of its head are
free. A head that cannot go keeps the others waiting. -/
def takeReshards : List InferenceTask → PolicyM Disaggregate (List InferenceTask)
  | [] => pure []
  | task :: rest => do
    if (← get).policy.outstandingReshards < maxConcurrentReshards then
      let src ← Prog.check (task.payloadItem reshardPayloadSrcGroupId)
      let dst ← Prog.check (task.payloadItem reshardPayloadDstGroupId)
      if (← get).policy.canDispatchReshard src dst then
        modify fun w =>
          { w.setStatus task .dispatched with policy := w.policy.startReshard task src dst }
        let out ← takeReshards rest
        pure (task :: out)
      else pure []
    else pure []

def canDispatch (p : Disaggregate) (groupId : String) : Bool :=
  Counter.count p.outstandingPerGroup groupId < maxConcurrentPerGroup ∧
    Counter.count p.reshardHolds groupId = 0

def start (p : Disaggregate) (task : InferenceTask) (groupId : String) : Disaggregate :=
  { p with
    groupReady := p.groupReady.set groupId (p.groupReady.getD groupId []).tail
    outstandingPerGroup := Counter.raise p.outstandingPerGroup groupId
    dispatchedKind := p.dispatchedKind.set task.taskId groupId
    log := .started task :: p.log }

def takeQueue (groupId : String) : List InferenceTask → PolicyM Disaggregate (List InferenceTask)
  | [] => pure []
  | task :: rest => do
    if (← get).policy.canDispatch groupId then
      modify fun w => { w.setStatus task .dispatched with policy := w.policy.start task groupId }
      let out ← takeQueue groupId rest
      pure (task :: out)
    else pure []

def popEmpty (p : Disaggregate) (groupId : String) : Disaggregate :=
  if p.groupReady.getD groupId [] = [] then
    { p with groupReady := p.groupReady.erase groupId }
  else p

def takeGroups : List ExecutionGroupSpec → PolicyM Disaggregate (List InferenceTask)
  | [] => pure []
  | group :: groups => do
    let queue := (← get).policy.groupReady.getD group.groupId []
    if queue = [] then takeGroups groups
    else
      let out ← takeQueue group.groupId queue
      modify fun w => { w with policy := w.policy.popEmpty group.groupId }
      let rest ← takeGroups groups
      pure (out ++ rest)

def takeDispatchableTasks : PolicyM Disaggregate (List InferenceTask) := do
  let reshards ← takeReshards (← get).policy.reshardReady
  let ordinary ← takeGroups (← get).topology.groups
  pure (reshards ++ ordinary)

-- ---------------------------------------------------------------------------
-- Handlers
-- ---------------------------------------------------------------------------

def enqueue (p : Disaggregate) (task : InferenceTask) (groupId : Option String) : Disaggregate :=
  match task.kind, groupId with
  | .reshard, _ =>
    { p with reshardReady := p.reshardReady ++ [task], log := .reported task :: p.log }
  | _, some groupId =>
    { p with
      groupReady := p.groupReady.set groupId (p.groupReady.getD groupId [] ++ [task])
      log := .reported task :: p.log }
  -- not reached: an ordinary task without a group is refused before
  | _, none => p

def assignGroup (task : InferenceTask) : PolicyM Disaggregate Unit := do
  if (← get).tasks.groupId task = none then
    modify fun w => w.setGroupId task (w.policy.selectGroupForTask task)

def enqueueRunnable (task : InferenceTask) : PolicyM Disaggregate Unit := do
  assignGroup task
  Prog.check (validateTask (← get).topology task ((← get).tasks.groupId task))
  modify fun w => { w.setStatus task .ready with
    policy := w.policy.enqueue task (w.tasks.groupId task) }

def onTasksRunnable (tasks : List InferenceTask) : PolicyM Disaggregate (List InferenceTask) := do
  tasks.forM enqueueRunnable
  takeDispatchableTasks

def onRequestSubmitted (plan : RequestExecutionPlan) :
    PolicyM Disaggregate (List InferenceTask) :=
  onTasksRunnable plan.rootTasks

/-- The part of `_release_task` for a task entered as RESHARD. -/
def releaseReshard (p : Disaggregate) (taskId : String) : Disaggregate :=
  { p with
    outstandingReshards := p.outstandingReshards - 1
    reshardGroupsByTask := p.reshardGroupsByTask.erase taskId
    reshardHolds :=
      match p.reshardGroupsByTask.get? taskId with
      | none => p.reshardHolds
      | some (src, dst) => Counter.dropAll p.reshardHolds [src, dst] }

def releaseTask (p : Disaggregate) (taskId : String) : Disaggregate :=
  let popped :=
    { p with dispatchedKind := p.dispatchedKind.erase taskId, log := .ended taskId :: p.log }
  match p.dispatchedKind.get? taskId with
  | none => popped
  | some target =>
    if target = reshardTarget then popped.releaseReshard taskId
    else { popped with outstandingPerGroup := Counter.drop popped.outstandingPerGroup target }

def dropRequest (p : Disaggregate) (requestId : String) : Disaggregate :=
  { p with
    groupReady :=
      p.groupReady.keys.foldl (DynamicStepFcfs.dropFromQueues requestId) p.groupReady
    reshardReady := p.reshardReady.filter fun task => task.requestId ≠ requestId
    log := .closed requestId :: p.log }

def onWorkerEvent (event : WorkerEvent) : PolicyM Disaggregate (List InferenceTask) := do
  if event.kind.endsTask then
    modify fun w => { w with policy := w.policy.releaseTask event.taskId }
  if event.kind.endsRequest then
    modify fun w => { w with policy := w.policy.dropRequest event.requestId }
  takeDispatchableTasks

/-- The migration holds are those of the base class and do nothing. -/
def policy : SchedulerPolicy Disaggregate where
  onRequestSubmitted := onRequestSubmitted
  onTasksRunnable := onTasksRunnable
  onWorkerEvent := onWorkerEvent
  acquireMigrationHold := fun _ => pure ()
  releaseMigrationHold := fun _ => pure ()

end Disaggregate

end GfDit
