import GfDit.Lib.Backlog
import GfDit.Policies.EdfGreedy

/-!
# Binding requests to groups by estimated work

What the policies that keep a request on one group share, after
`policies/common.py` and the parts that `fcfs.py` and `srtf.py` both have: a
request is bound to the group that is expected to be free first, and the
estimates of its tasks are charged as they run. Work is exact. Openings,
charges and clean-ups are also written to a log; no decision reads it.
-/

namespace GfDit

abbrev WorkEntry := Backlog.Entry String String String ℚ

structure WorkBooks where
  taskRuntimeEstimator : TaskRuntimeEstimator
  groupOrder : Dict String Nat
  requestGroup : Dict String String
  groupBacklogWork : Dict String ℚ
  requestRemainingWork : Dict String ℚ
  taskWork : Dict String ℚ
  requestTaskIds : Dict String (List String)
  log : List WorkEntry

def strList (items : List String) : String := "[" ++ ", ".intercalate (items.map quoted) ++ "]"

-- ---------------------------------------------------------------------------
-- Estimates
-- ---------------------------------------------------------------------------

def resolveExplicitRequestGroup (tasks : TaskHeap) (plan : RequestExecutionPlan) :
    Except PyError (Option String) :=
  match (plan.tasks.values.filterMap tasks.groupId).dedup with
  | [] => pure none
  | [groupId] => pure (some groupId)
  | groupIds =>
    throw (.valueError <| s!"request {plan.requestId} contains tasks pinned to multiple groups: " ++
      strList (groupIds.insertionSort (· ≤ ·)))

def candidateGroupsForPlan (topology : RuntimeTopology) (plan : RequestExecutionPlan) :
    List String :=
  (topology.groups.filter fun group =>
    plan.tasks.values.all fun task => task.kind ∈ group.supportedTaskKinds).map
      ExecutionGroupSpec.groupId

namespace WorkBooks

def init (estimator : TaskRuntimeEstimator) (topology : RuntimeTopology) : WorkBooks where
  taskRuntimeEstimator := estimator
  groupOrder := Dict.insertAll ∅ (topology.groups.map ExecutionGroupSpec.groupId).zipIdx
  requestGroup := ∅
  groupBacklogWork := ∅
  requestRemainingWork := ∅
  taskWork := ∅
  requestTaskIds := ∅
  log := []

def invalidEstimate (task : InferenceTask) (estimate bound : String) : PyError :=
  .valueError <| s!"invalid task runtime estimate for task_id={task.taskId}: " ++
    s!"{estimate} (must be {bound})"

def estimateTaskWork (books : WorkBooks) (task : InferenceTask) (plan : RequestExecutionPlan)
    (spec : ParallelSpec) : Except PyError ℚ := do
  match ← books.taskRuntimeEstimator spec (Edf.resolveSeqLen task plan)
    (Edf.resolveRequestStage task) with
  | none => throw (invalidEstimate task "inf" "finite number")
  | some estimate =>
    if estimate < 0 then throw (invalidEstimate task (toString estimate) ">= 0")
    else pure estimate

def estimatePlanWork (books : WorkBooks) (plan : RequestExecutionPlan) (spec : ParallelSpec) :
    Except PyError ℚ := do
  let works ← plan.tasks.values.mapM fun task => books.estimateTaskWork task plan spec
  pure works.sum

-- ---------------------------------------------------------------------------
-- Binding
-- ---------------------------------------------------------------------------

def bindKey (books : WorkBooks) (topology : RuntimeTopology) (plan : RequestExecutionPlan)
    (groupId : String) : Except PyError (ℚ ×ₗ Nat ×ₗ String) := do
  let group ← topology.getGroup groupId
  let work ← books.estimatePlanWork plan group.parallelSpec
  pure (toLex (books.groupBacklogWork.getD groupId 0 + work,
    toLex (books.groupOrder.getD groupId books.groupOrder.length, groupId)))

def earliestFree (books : WorkBooks) (topology : RuntimeTopology) (plan : RequestExecutionPlan)
    (candidates : List String) : Except PyError String := do
  let keys ← candidates.mapM (books.bindKey topology plan)
  match keys.insertionSort (· ≤ ·) with
  | [] => throw (.valueError "min() arg is an empty sequence")
  | key :: _ => pure (ofLex (ofLex key).2).2

def unsupportedError (plan : RequestExecutionPlan) : PyError :=
  .valueError <| "no execution group supports all request task kinds: " ++
    strList ((plan.tasks.values.map fun task => task.kind.value).dedup.insertionSort (· ≤ ·))

def selectGroup (books : WorkBooks) (topology : RuntimeTopology) (tasks : TaskHeap)
    (plan : RequestExecutionPlan) : Except PyError String := do
  let explicit ← resolveExplicitRequestGroup tasks plan
  let candidates := candidateGroupsForPlan topology plan
  match explicit with
  | some groupId =>
    if groupId ∈ candidates then pure groupId
    else
      throw (.valueError <| s!"request {plan.requestId} is pinned to group " ++ quoted groupId ++
        ", but that group does not support all task kinds in the plan")
  | none =>
    match candidates with
    | [] => throw (unsupportedError plan)
    | [groupId] => pure groupId
    | candidates => books.earliestFree topology plan candidates

def bindTask (plan : RequestExecutionPlan) (selected : String) (task : InferenceTask) :
    PolicyM WorkBooks Unit := do
  match (← get).tasks.groupId task with
  | none => modify fun w => w.setGroupId task (some selected)
  | some groupId =>
    if groupId ≠ selected then
      throw (.valueError <| s!"request {plan.requestId} contains mismatched task group_id=" ++
        quoted groupId ++ "; expected " ++ quoted selected)

def bindRequestGroup (plan : RequestExecutionPlan) : PolicyM WorkBooks String := do
  let w ← get
  let selected ← Prog.check (w.policy.selectGroup w.topology w.tasks plan)
  modify fun w => { w with policy := { w.policy with
    requestGroup := w.policy.requestGroup.set plan.requestId selected } }
  plan.tasks.values.forM (bindTask plan selected)
  pure selected

-- ---------------------------------------------------------------------------
-- Entering a plan
-- ---------------------------------------------------------------------------

def recordTasks (specOf : InferenceTask → PolicyM WorkBooks ParallelSpec)
    (plan : RequestExecutionPlan) : List InferenceTask → PolicyM WorkBooks (List (String × ℚ))
  | [] => pure []
  | task :: tasks => do
    let spec ← specOf task
    let work ← Prog.check ((← get).policy.estimateTaskWork task plan spec)
    modify fun w => { w with policy := { w.policy with
      taskWork := w.policy.taskWork.set task.taskId work } }
    let works ← recordTasks specOf plan tasks
    pure ((task.taskId, work) :: works)

def openJob (books : WorkBooks) (plan : RequestExecutionPlan) (selected : String)
    (works : List (String × ℚ)) : WorkBooks :=
  let totalWork := (works.map Prod.snd).sum
  { books with
    requestTaskIds := books.requestTaskIds.set plan.requestId plan.tasks.keys
    requestRemainingWork := books.requestRemainingWork.set plan.requestId totalWork
    groupBacklogWork := books.groupBacklogWork.set selected
      (books.groupBacklogWork.getD selected 0 + totalWork)
    log := .opened plan.requestId ⟨selected, works⟩ :: books.log }

/-- The part of `on_request_submitted` before the first tasks are runnable. -/
def enterPlan (specOf : String → InferenceTask → PolicyM WorkBooks ParallelSpec)
    (plan : RequestExecutionPlan) : PolicyM WorkBooks Unit := do
  let selected ← bindRequestGroup plan
  let works ← recordTasks (specOf selected) plan plan.tasks.values
  modify fun w => { w with policy := w.policy.openJob plan selected works }

-- ---------------------------------------------------------------------------
-- Charges
-- ---------------------------------------------------------------------------

/-- The group's backlog less what was charged; one that is tiny is dropped. -/
def lowerBacklog (backlog : Dict String ℚ) (groupId : String) (charged : ℚ) : Dict String ℚ :=
  let left := backlog.getD groupId 0 - charged
  if left ≤ 1 / 10 ^ 9 then backlog.erase groupId else backlog.set groupId left

def chargeCompletedTask (books : WorkBooks) (requestId taskId : String) : WorkBooks :=
  let popped := { books with
    taskWork := books.taskWork.erase taskId
    requestTaskIds :=
      match books.requestTaskIds.get? requestId with
      | none => books.requestTaskIds
      | some taskIds => books.requestTaskIds.set requestId (taskIds.filter (· ≠ taskId))
    log := .paid requestId taskId :: books.log }
  match books.requestRemainingWork.get? requestId, books.taskWork.get? taskId with
  | some remaining, some work =>
    let newRemaining := max 0 (remaining - work)
    let charged := remaining - newRemaining
    { popped with
      requestRemainingWork :=
        if newRemaining ≤ 0 then books.requestRemainingWork.erase requestId
        else books.requestRemainingWork.set requestId newRemaining
      groupBacklogWork :=
        match books.requestGroup.get? requestId with
        | none => books.groupBacklogWork
        | some groupId =>
          if 0 < charged then lowerBacklog books.groupBacklogWork groupId charged
          else books.groupBacklogWork }
  | _, _ => popped

def cleanupRequestWork (books : WorkBooks) (requestId : String) (groupId : Option String) :
    WorkBooks :=
  let remaining := books.requestRemainingWork.getD requestId 0
  { books with
    taskWork := books.taskWork.eraseAll (books.requestTaskIds.getD requestId [])
    requestTaskIds := books.requestTaskIds.erase requestId
    requestRemainingWork := books.requestRemainingWork.erase requestId
    requestGroup := books.requestGroup.erase requestId
    groupBacklogWork :=
      match groupId.or (books.requestGroup.get? requestId) with
      | none => books.groupBacklogWork
      | some groupId =>
        if 0 < remaining then lowerBacklog books.groupBacklogWork groupId remaining
        else books.groupBacklogWork
    log := .closed requestId :: books.log }

/-- `event.group_id or self.request_group.get(request_id)`. -/
def eventGroup (books : WorkBooks) (event : WorkerEvent) : Option String :=
  if event.groupId = "" then books.requestGroup.get? event.requestId else some event.groupId

-- ---------------------------------------------------------------------------
-- Runnable tasks
-- ---------------------------------------------------------------------------

def groupOfRunnable (task : InferenceTask) : PolicyM WorkBooks String := do
  if (← get).tasks.groupId task = none then
    modify fun w => w.setGroupId task (w.policy.requestGroup.get? task.requestId)
  match (← get).tasks.groupId task with
  | none =>
    throw (.valueError <| s!"request {task.requestId} has runnable task without bound group_id: " ++
      task.taskId)
  | some groupId =>
    let reqGroup := (← get).policy.requestGroup.getD task.requestId groupId
    modify fun w => { w with policy := { w.policy with
      requestGroup := w.policy.requestGroup.set task.requestId reqGroup } }
    if reqGroup ≠ groupId then
      throw (.valueError <| s!"request {task.requestId} attempted to use multiple groups: " ++
        quoted reqGroup ++ " and " ++ quoted groupId)
    else pure groupId

end WorkBooks

end GfDit
