import Mathlib.Data.List.Dedup
import Mathlib.Data.List.Sort
import GfDit.Policies.Accounts

/-!
# The dynamic-step FCFS policy

`DynamicStepFCFSSchedulerPolicy` with what it inherits from
`DisaggregateSchedulerPolicy`: a FIFO queue for each group, one queue for
RESHARD tasks, and dispatch gated on every rank of the group being free.
-/

namespace GfDit

def reshardPayloadSrcGroupId : String := "src_group_id"
def reshardPayloadDstGroupId : String := "dst_group_id"

def stageAux : String := "aux"
def stageDit : String := "dit"

/-- `payload.get(key)` when it is a non-empty string. -/
def InferenceTask.payloadText (task : InferenceTask) (key : String) : Option String :=
  match task.payload.get? key with
  | some (.text value) => if value = "" then none else some value
  | _ => none

def InferenceTask.payloadItem (task : InferenceTask) (key : String) : Except PyError String :=
  match task.payload.get? key with
  | some (.text value) => pure value
  | _ => throw (.keyError key)

def sortedUnion (src dst : List Rank) : List Rank :=
  (src ++ dst).dedup.insertionSort (· ≤ ·)

theorem sortedUnion_nodup (src dst : List Rank) : (sortedUnion src dst).Nodup :=
  (List.perm_insertionSort ..).nodup_iff.mpr (List.nodup_dedup _)

-- ---------------------------------------------------------------------------
-- Checks on a task
-- ---------------------------------------------------------------------------

def requiresPayload (task : InferenceTask) (key : String) : PyError :=
  .valueError <| s!"RESHARD task {task.taskId} requires payload[" ++ quoted key ++ "]"

def checkReshardPayload (topology : RuntimeTopology) (task : InferenceTask) :
    Except PyError Unit := do
  match task.payloadText reshardPayloadSrcGroupId with
  | none => throw (requiresPayload task reshardPayloadSrcGroupId)
  | some src =>
    match task.payloadText reshardPayloadDstGroupId with
    | none => throw (requiresPayload task reshardPayloadDstGroupId)
    | some dst =>
      if src = dst then
        throw (.valueError <|
          s!"RESHARD task {task.taskId} src_group_id == dst_group_id == " ++ quoted src)
      else
        let _ ← topology.getGroup src
        let _ ← topology.getGroup dst
        pure ()

def mustHaveNoGroup (task : InferenceTask) (groupId : String) : PyError :=
  .valueError <| s!"RESHARD task {task.taskId} must have group_id=None, got " ++ quoted groupId

def validateTask (topology : RuntimeTopology) (task : InferenceTask) (groupId : Option String) :
    Except PyError Unit :=
  if task.kind = .reshard then
    match groupId with
    | some groupId => throw (mustHaveNoGroup task groupId)
    | none => checkReshardPayload topology task
  else
    match groupId with
    | none =>
      throw (.valueError <| "DisaggregateSchedulerPolicy requires explicit group_id for " ++
        s!"non-RESHARD tasks; task {task.taskId} kind={task.kind.value} has group_id=None")
    | some groupId => do
      let group ← topology.getGroup groupId
      if task.kind ∈ group.supportedTaskKinds then pure ()
      else
        throw (.valueError <| s!"task {task.taskId} kind={task.kind.value} is not supported by " ++
          "group " ++ quoted groupId ++ " (supports [" ++
          ", ".intercalate (group.supportedTaskKinds.map fun kind => quoted kind.value) ++ "])")

-- ---------------------------------------------------------------------------
-- State
-- ---------------------------------------------------------------------------

structure StepScheduleItem where
  start : Int
  stop : Option Int
  groupId : Option String

def StepScheduleItem.covers (item : StepScheduleItem) (step : Nat) : Bool :=
  item.start ≤ step ∧ ∀ stop ∈ item.stop, (step : Int) < stop

structure DynamicStepFcfs where
  stageGroupIds : Option (Dict String String)
  ditStepSchedule : List StepScheduleItem
  groupReady : Dict String (List InferenceTask)
  reshardReady : List InferenceTask
  accounts : RankAccounts

namespace DynamicStepFcfs

def init (stageGroupIds : Option (Dict String String)) (ditStepSchedule : List StepScheduleItem) :
    DynamicStepFcfs := ⟨stageGroupIds, ditStepSchedule, ∅, [], .init⟩

/-- `DisaggregateSchedulerPolicy._select_group_for_task`. -/
def stageGroup (p : DynamicStepFcfs) (task : InferenceTask) : Option String :=
  match p.stageGroupIds with
  | none => none
  | some ids =>
    match task.kind with
    | .textEncode | .vaeDecode | .finalize => ids.get? stageAux
    | .ditPrepare | .timestepPrepare | .ditStepChunk => ids.get? stageDit
    | .reshard => none

def selectGroupForTask (p : DynamicStepFcfs) (task : InferenceTask) :
    Except PyError (Option String) :=
  if task.kind = .ditStepChunk ∧ p.ditStepSchedule ≠ [] then
    match task.stepRange with
    | none =>
      throw (.valueError s!"dynamic_step_fcfs requires step_range for task {task.taskId}")
    | some range =>
      match p.ditStepSchedule.find? fun item => item.covers range.start with
      | none => throw (.valueError s!"dynamic_step_fcfs has no DiT group for step {range.start}")
      | some item =>
        match item.groupId with
        | some groupId => pure (some groupId)
        | none => throw (.keyError "group_id")
  else pure (p.stageGroup task)

-- ---------------------------------------------------------------------------
-- Dispatch
-- ---------------------------------------------------------------------------

def reshardRanks (src dst : String) : PolicyM DynamicStepFcfs (List Rank) := do
  let srcGroup ← World.getGroup src
  let dstGroup ← World.getGroup dst
  pure (sortedUnion srcGroup.ranks dstGroup.ranks)

/-- The RESHARD queue, drained while a slot and the ranks of its head are
free. A head that cannot go keeps the others waiting. -/
def takeReshards : List InferenceTask → PolicyM DynamicStepFcfs (List InferenceTask)
  | [] => pure []
  | task :: rest => do
    if (← get).policy.accounts.outstandingReshards < maxConcurrentReshards then
      let src ← Prog.check (task.payloadItem reshardPayloadSrcGroupId)
      let dst ← Prog.check (task.payloadItem reshardPayloadDstGroupId)
      let ranks ← reshardRanks src dst
      if (← get).policy.accounts.canDispatchRanks ranks then
        modify fun w => { w.setStatus task .dispatched with policy := { w.policy with
          reshardReady := rest
          accounts := w.policy.accounts.dispatchReshard task src dst ranks } }
        let out ← takeReshards rest
        pure (task :: out)
      else pure []
    else pure []

def takeQueue (groupId : String) (ranks : List Rank) :
    List InferenceTask → PolicyM DynamicStepFcfs (List InferenceTask)
  | [] => pure []
  | task :: rest => do
    if (← get).policy.accounts.canDispatchRanks ranks then
      modify fun w => { w.setStatus task .dispatched with policy := { w.policy with
        groupReady := w.policy.groupReady.set groupId rest
        accounts := w.policy.accounts.dispatch task groupId ranks } }
      let out ← takeQueue groupId ranks rest
      pure (task :: out)
    else pure []

def popEmpty (p : DynamicStepFcfs) (groupId : String) : DynamicStepFcfs :=
  if p.groupReady.getD groupId [] = [] then
    { p with groupReady := p.groupReady.erase groupId }
  else p

def takeGroups : List ExecutionGroupSpec → PolicyM DynamicStepFcfs (List InferenceTask)
  | [] => pure []
  | group :: groups => do
    let queue := (← get).policy.groupReady.getD group.groupId []
    if queue = [] then takeGroups groups
    else
      let out ← takeQueue group.groupId group.ranks queue
      modify fun w => { w with policy := w.policy.popEmpty group.groupId }
      let rest ← takeGroups groups
      pure (out ++ rest)

def takeDispatchableTasks : PolicyM DynamicStepFcfs (List InferenceTask) := do
  let reshards ← takeReshards (← get).policy.reshardReady
  let ordinary ← takeGroups (← get).topology.groups
  pure (reshards ++ ordinary)

-- ---------------------------------------------------------------------------
-- Handlers
-- ---------------------------------------------------------------------------

def assignGroup (task : InferenceTask) : PolicyM DynamicStepFcfs Unit := do
  if (← get).tasks.groupId task = none then
    let groupId ← Prog.check ((← get).policy.selectGroupForTask task)
    modify fun w => w.setGroupId task groupId

def enqueue (p : DynamicStepFcfs) (task : InferenceTask) (groupId : Option String) :
    DynamicStepFcfs :=
  match task.kind, groupId with
  | .reshard, _ => { p with reshardReady := p.reshardReady ++ [task] }
  | _, some groupId =>
    { p with groupReady :=
        p.groupReady.set groupId (p.groupReady.getD groupId [] ++ [task]) }
  -- not reached: an ordinary task without a group is refused before
  | _, none => p

def enqueueRunnable (task : InferenceTask) : PolicyM DynamicStepFcfs Unit := do
  assignGroup task
  Prog.check (validateTask (← get).topology task ((← get).tasks.groupId task))
  modify fun w => { w.setStatus task .ready with
    policy := w.policy.enqueue task (w.tasks.groupId task) }

def onTasksRunnable (tasks : List InferenceTask) : PolicyM DynamicStepFcfs (List InferenceTask) := do
  tasks.forM enqueueRunnable
  takeDispatchableTasks

def onRequestSubmitted (plan : RequestExecutionPlan) :
    PolicyM DynamicStepFcfs (List InferenceTask) :=
  onTasksRunnable plan.rootTasks

def releaseTask (taskId : String) : PolicyM DynamicStepFcfs Unit :=
  modify fun w => { w with policy := { w.policy with
    accounts := w.policy.accounts.releaseTask taskId } }

def dropFromQueues (requestId : String) (queues : Dict String (List InferenceTask))
    (groupId : String) : Dict String (List InferenceTask) :=
  let queue := queues.getD groupId []
  if queue.any fun task => task.requestId = requestId then
    let kept := queue.filter fun task => task.requestId ≠ requestId
    if kept = [] then queues.erase groupId else queues.set groupId kept
  else queues

def dropRequest (p : DynamicStepFcfs) (requestId : String) : DynamicStepFcfs :=
  { p with
    groupReady := p.groupReady.keys.foldl (dropFromQueues requestId) p.groupReady
    reshardReady := p.reshardReady.filter fun task => task.requestId ≠ requestId }

def onWorkerEvent (event : WorkerEvent) : PolicyM DynamicStepFcfs (List InferenceTask) := do
  if event.kind.endsTask then releaseTask event.taskId
  if event.kind.endsRequest then
    modify fun w => { w with policy := w.policy.dropRequest event.requestId }
  takeDispatchableTasks

def acquireMigrationHold (ranks : List Rank) : PolicyM DynamicStepFcfs Unit :=
  modify fun w => { w with policy := { w.policy with
    accounts := w.policy.accounts.acquireMigrationHold ranks } }

def releaseMigrationHold (ranks : List Rank) : PolicyM DynamicStepFcfs Unit :=
  modify fun w => { w with policy := { w.policy with
    accounts := w.policy.accounts.releaseMigrationHold ranks } }

def policy : SchedulerPolicy DynamicStepFcfs where
  onRequestSubmitted := onRequestSubmitted
  onTasksRunnable := onTasksRunnable
  onWorkerEvent := onWorkerEvent
  acquireMigrationHold := acquireMigrationHold
  releaseMigrationHold := releaseMigrationHold

end DynamicStepFcfs

end GfDit
