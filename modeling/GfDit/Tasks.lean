import Mathlib.Data.Rat.Defs
import GfDit.Protocol
import GfDit.Lib.Dict

/-!
# Tasks, plans and events

The task graph of a request and the events its tasks report, after
`protocol.py`. Two fields of a task change while it runs, its group and its
status; they are shared by everyone who holds the task, so they live in a
heap under the task's id and the record keeps the values it was made with.
-/

namespace GfDit

/-- A payload, metadata or attribute value, as far as anyone looks at it. -/
inductive PyValue
  | none
  | int (value : Int)
  | float (value : ℚ)
  | infinite
  | text (value : String)
  deriving DecidableEq

/-- A value of the host: its attributes, and the `extra_args` of its sampling
parameters when they are a mapping. -/
structure HostValue where
  attributes : Dict String PyValue
  extraArgs : Option (Dict String PyValue)
  deriving DecidableEq

structure ArtifactValue where
  handle : ArtifactHandle
  value : HostValue
  deriving DecidableEq

structure StepRange where
  start : Nat
  stop : Nat
  nonempty : start < stop
  deriving DecidableEq

def StepRange.length (range : StepRange) : Nat := range.stop - range.start

structure InferenceTask where
  taskId : String
  requestId : String
  kind : TaskKind
  groupId : Option String
  status : TaskStatus
  priority : Int
  dependencies : List String
  inputs : List ArtifactHandle
  outputs : List ArtifactHandle
  stepRange : Option StepRange
  payload : Dict String PyValue
  deriving DecidableEq

def InferenceTask.isReshard (task : InferenceTask) : Bool := task.kind = .reshard

structure RequestExecutionPlan where
  requestId : String
  tasks : Dict String InferenceTask
  terminalTaskIds : List String
  initialArtifacts : List ArtifactValue
  metadata : Dict String PyValue
  deriving DecidableEq

/-- The tasks that depend on nothing. -/
def RequestExecutionPlan.rootTasks (plan : RequestExecutionPlan) : List InferenceTask :=
  plan.tasks.values.filter fun task => task.dependencies = []

structure WorkerEvent where
  taskId : String
  requestId : String
  groupId : String
  kind : WorkerEventKind
  timestampNs : Nat
  message : String
  -- `metadata["published_outputs"]`, absent when empty
  publishedOutputs : List WorkerLocalArtifactRef
  deriving DecidableEq

def WorkerEventKind.endsTask (kind : WorkerEventKind) : Bool :=
  kind = .taskExecEnd ∨ kind = .taskFailed

def WorkerEventKind.endsRequest (kind : WorkerEventKind) : Bool :=
  kind = .requestFinished ∨ kind = .requestFailed

-- ---------------------------------------------------------------------------
-- The fields that change
-- ---------------------------------------------------------------------------

structure TaskFields where
  groupId : Option String
  status : TaskStatus
  deriving DecidableEq, Repr

abbrev TaskHeap := Dict String TaskFields

namespace TaskHeap

variable {task other : InferenceTask}

def fields (heap : TaskHeap) (task : InferenceTask) : TaskFields :=
  (heap.get? task.taskId).getD ⟨task.groupId, task.status⟩

def groupId (heap : TaskHeap) (task : InferenceTask) : Option String := (heap.fields task).groupId

def status (heap : TaskHeap) (task : InferenceTask) : TaskStatus := (heap.fields task).status

def setGroupId (heap : TaskHeap) (task : InferenceTask) (groupId : Option String) : TaskHeap :=
  heap.set task.taskId { heap.fields task with groupId }

def setStatus (heap : TaskHeap) (task : InferenceTask) (status : TaskStatus) : TaskHeap :=
  heap.set task.taskId { heap.fields task with status }

theorem fields_set_self (heap : TaskHeap) (fields : TaskFields) :
    TaskHeap.fields (heap.set task.taskId fields) task = fields := by
  simp [TaskHeap.fields]

theorem fields_set_ne (heap : TaskHeap) (fields : TaskFields) (h : task.taskId ≠ other.taskId) :
    TaskHeap.fields (heap.set task.taskId fields) other = heap.fields other := by
  simp [TaskHeap.fields, Dict.get?_set_ne _ h]

@[simp] theorem groupId_setGroupId (heap : TaskHeap) (groupId : Option String) :
    (heap.setGroupId task groupId).groupId task = groupId := by
  simp [TaskHeap.groupId, setGroupId, fields_set_self]

theorem groupId_setGroupId_ne (heap : TaskHeap) (groupId : Option String)
    (h : task.taskId ≠ other.taskId) :
    (heap.setGroupId task groupId).groupId other = heap.groupId other := by
  simp [TaskHeap.groupId, setGroupId, fields_set_ne _ _ h]

/-- A change of status moves no task that is the same one under its id. -/
theorem groupId_setStatus (heap : TaskHeap) (status : TaskStatus)
    (h : task.taskId = other.taskId → task = other) :
    (heap.setStatus task status).groupId other = heap.groupId other := by
  by_cases hid : task.taskId = other.taskId
  · obtain rfl := h hid
    simp [TaskHeap.groupId, setStatus, fields_set_self]
  · simp [TaskHeap.groupId, setStatus, fields_set_ne _ _ hid]

end TaskHeap

end GfDit
