import Mathlib.Data.Prod.Lex
import Mathlib.Data.String.Basic
import Mathlib.Algebra.Order.Field.Rat
import GfDit.Policies.DynamicStepFcfs

/-!
# The EDF greedy policy

`EdfGreedySchedulerPolicy`: requests in the order of their deadlines, one task
of a request in flight, and a group chosen from the ranks that are free when a
task can go, made on demand when no known group has exactly these ranks.
Times are exact; a deadline may be infinite. The fields that only the
best-fit variant fills are part of the same state.
-/

namespace GfDit

-- ---------------------------------------------------------------------------
-- Times
-- ---------------------------------------------------------------------------

/-- A time in milliseconds, as a float that is a number. -/
inductive Ms
  | negInf
  | fin (value : ℚ)
  | inf
  deriving DecidableEq

namespace Ms

def toBounded : Ms → WithBot (WithTop ℚ)
  | negInf => ⊥
  | fin value => ((value : WithTop ℚ) : WithBot (WithTop ℚ))
  | inf => ((⊤ : WithTop ℚ) : WithBot (WithTop ℚ))

theorem toBounded_injective : Function.Injective toBounded := by
  intro a b h
  cases a <;> cases b <;> simp_all [toBounded]

instance : LinearOrder Ms := LinearOrder.lift' toBounded toBounded_injective

end Ms

/-- `float(raw)`, where it does not raise. Texts are taken as ones that spell no
number. -/
def PyValue.toFloat : PyValue → Option Ms
  | .int value => some (.fin value)
  | .float value => some (.fin value)
  | .infinite => some .inf
  | .none | .text _ => Option.none

def Ms.toInt : Ms → Except PyError Int
  | .fin value => pure (value.num.tdiv value.den)
  | .negInf | .inf => throw (.overflowError "cannot convert float infinity to integer")

-- ---------------------------------------------------------------------------
-- State
-- ---------------------------------------------------------------------------

/-- A runtime estimate in milliseconds for a parallel layout, a sequence
length and a stage. -/
abbrev TaskRuntimeEstimator := ParallelSpec → Int → String → Except PyError (WithTop ℚ)

structure EdfRequestMeta where
  deadlineMs : Ms
  priority : Int
  arrivalMs : Ms
  order : Nat
  -- of the best-fit variant, with their defaults
  latentSeqLen : Int := 0
  voxels : Int := 0
  textSeqLen : Int := 0
  numSteps : Int := 0
  chunkSteps : Int := 1

structure Edf where
  taskRuntimeEstimator : Option TaskRuntimeEstimator
  allowedSpSizes : List Nat
  readyByRequest : Dict String (List InferenceTask)
  requestMeta : Dict String EdfRequestMeta
  plans : Dict String RequestExecutionPlan
  requestInflight : Dict String Nat
  requestLastGroup : Dict String String
  taskIndex : Dict String InferenceTask
  requestSeq : Nat
  nowMs : ℚ
  -- of the best-fit variant
  requestTasks : Dict String (List InferenceTask)
  accounts : RankAccounts

def singleRankTaskKinds : List TaskKind := [.textEncode, .vaeDecode, .finalize]

def ditTaskKinds : List TaskKind := [.ditPrepare, .timestepPrepare, .ditStepChunk]

def standardTaskKinds : List TaskKind := singleRankTaskKinds ++ ditTaskKinds

namespace Edf

/-- The powers of two up to the number of workers, from `size` on. -/
def doublings (maxSize : Nat) : Nat → Nat → List Nat
  | 0, _ => []
  | fuel + 1, size => if size ≤ maxSize then size :: doublings maxSize fuel (2 * size) else []

def normalizeAllowedSpSizes (workers : List Rank) (allowed : Option (List Int)) :
    Except PyError (List Nat) :=
  let maxSize := max 1 workers.length
  let sizes : List Nat := match allowed with
    | none => 1 :: doublings maxSize maxSize 2 ++ [maxSize]
    | some sizes => (sizes.filter (0 ≤ ·)).map Int.toNat ++ [1]
  let valid := (sizes.filter fun size => 1 ≤ size ∧ size ≤ maxSize).dedup.insertionSort (· ≥ ·)
  if valid = [] then
    throw (.valueError "edf_greedy allowed_sp_sizes must contain at least one valid size")
  else pure valid

def init (estimator : Option TaskRuntimeEstimator) (allowedSpSizes : List Nat) : Edf :=
  ⟨estimator, allowedSpSizes, ∅, ∅, ∅, ∅, ∅, ∅, 0, 0, ∅, .init⟩

def modifyPolicy (f : Edf → Edf) : PolicyM Edf Unit :=
  modify fun w => { w with policy := f w.policy }

-- ---------------------------------------------------------------------------
-- Request metadata
-- ---------------------------------------------------------------------------

def metadataValues (value : Option HostValue) (names : List String) : List PyValue :=
  match value with
  | none => []
  | some value =>
    names.filterMap value.attributes.get? ++
      match value.extraArgs with
      | none => []
      | some args => names.filterMap args.get?

def metadataNumber (value : Option HostValue) (names : List String) (default : Ms) : Ms :=
  ((metadataValues value names).findSome? PyValue.toFloat).getD default

/-- A finite deadline moved onto the monotonic clock; the budget
`deadline - arrival` does not depend on the epoch. -/
def reanchor (submitMs : ℚ) : Ms → Ms → Ms
  | .fin deadline, .fin arrival => .fin (submitMs + (deadline - arrival))
  | .fin _, .inf => .negInf
  | _, _ => .inf

def firstValue (plan : RequestExecutionPlan) : Option HostValue :=
  plan.initialArtifacts.head?.map ArtifactValue.value

def metaFromPlan (plan : RequestExecutionPlan) (order : Nat) : PolicyM Edf EdfRequestMeta := do
  let value := firstValue plan
  let taskPriority := (plan.tasks.values.map InferenceTask.priority).foldl max
    ((plan.tasks.values.head?.map InferenceTask.priority).getD 0)
  let priority ← Prog.check
    (metadataNumber value ["runtime_v2_priority", "priority"] (.fin taskPriority)).toInt
  let arrivalMs := metadataNumber value ["runtime_v2_arrival_ms", "arrival_ms"] (.fin 0)
  let rawDeadlineMs := metadataNumber value ["runtime_v2_deadline_ms", "deadline_ms"] .inf
  let submitMs : ℚ := (← get).clockNs / 1000000
  modifyPolicy fun p => { p with nowMs := max p.nowMs submitMs }
  pure { deadlineMs := reanchor submitMs rawDeadlineMs arrivalMs, priority, arrivalMs, order }

def requestSortKey (p : Edf) (requestId : String) : Ms ×ₗ Int ×ₗ Ms ×ₗ Nat ×ₗ String :=
  match p.requestMeta.get? requestId with
  | none => toLex (.inf, toLex (0, toLex (.fin 0, toLex (0, requestId))))
  | some info =>
    toLex (info.deadlineMs, toLex (-info.priority, toLex (info.arrivalMs,
      toLex (info.order, requestId))))

-- ---------------------------------------------------------------------------
-- Groups
-- ---------------------------------------------------------------------------

def findExistingGroup (topology : RuntimeTopology) (ranks : List Rank) (kinds : List TaskKind) :
    Option ExecutionGroupSpec :=
  topology.groups.find? fun group =>
    group.ranks = ranks ∧ group.parallelSpec.tp = 1 ∧ group.parallelSpec.cfg = 1 ∧
      group.parallelSpec.sp = ranks.length ∧ ∀ kind ∈ kinds, kind ∈ group.supportedTaskKinds

def groupIdFor (ranks : List Rank) : String :=
  s!"edf_sp{ranks.length}_r" ++ "_".intercalate (ranks.map toString)

def ensureGroupForRanks (ranks : List Rank) (kinds : List TaskKind) :
    PolicyM Edf ExecutionGroupSpec := do
  match findExistingGroup (← get).topology ranks kinds with
  | some group => pure group
  | none =>
    let spec ← Prog.check (ParallelSpec.make 1 ranks.length 1 false)
    let group ← Prog.check
      (ExecutionGroupSpec.make (groupIdFor ranks) ranks spec kinds ranks.length 1)
    World.ensureGroup group

def validateExplicitTaskGroup (topology : RuntimeTopology) (task : InferenceTask)
    (groupId : String) : Except PyError Unit := do
  let group ← topology.getGroup groupId
  if task.kind ∈ group.supportedTaskKinds then pure ()
  else
    throw (.valueError <| s!"task {task.taskId} kind={task.kind.value} is not supported by group " ++
      quoted groupId)

def freeRankSet (w : World Edf) : List Rank :=
  w.topology.workers.filter fun rank => w.policy.accounts.canDispatchRanks [rank]

def withoutRanks (free ranks : List Rank) : List Rank := free.filter fun rank => rank ∉ ranks

-- ---------------------------------------------------------------------------
-- Placement
-- ---------------------------------------------------------------------------

def selectSingleRank (task : InferenceTask) :
    List Rank → PolicyM Edf (Option (String × List Rank))
  | [] => pure none
  | rank :: ranks => do
    let group ← ensureGroupForRanks [rank] standardTaskKinds
    if task.kind ∈ group.supportedTaskKinds then pure (some (group.groupId, [rank]))
    else selectSingleRank task ranks

def selectSingleRankGroup (task : InferenceTask) (free : List Rank) :
    PolicyM Edf (Option (String × List Rank)) :=
  selectSingleRank task (free.insertionSort (· ≤ ·))

/-- The ranks of the request's last group when they are as many as asked for
and all free, else the lowest free ranks. -/
def pickRanksForRequest (w : World Edf) (requestId : String) (spSize : Nat) (free : List Rank) :
    List Rank :=
  let lowest := (free.insertionSort (· ≤ ·)).take spSize
  match w.policy.requestLastGroup.get? requestId with
  | none => lowest
  | some groupId =>
    match w.topology.find groupId with
    | none => lowest
    | some group =>
      if group.ranks.length = spSize ∧ ∀ rank ∈ group.ranks, rank ∈ free then group.ranks
      else lowest

def positiveInt (values : Dict String PyValue) (key : String) : Option Int :=
  match values.get? key with
  | some (.int value) => if 0 < value then some value else none
  | _ => none

def seqLenKeys : List String := ["seqlen", "seq_len", "sequence_length", "max_sequence_length"]

def resolveSeqLen (task : InferenceTask) (plan : RequestExecutionPlan) : Int :=
  match seqLenKeys.findSome? (positiveInt task.payload) with
  | some value => value
  | none =>
    match seqLenKeys.findSome? (positiveInt plan.metadata) with
    | some value => value
    | none =>
      match task.stepRange with
      | some range => range.length
      | none => 1

def resolveRequestStage (task : InferenceTask) : String :=
  (["cost_model_stage", "request_stage", "req_stage", "stage"].findSome? task.payloadText).getD
    task.kind.value

/-- The key of a size: its cost, unknown costs last, then the size. -/
def costKey (estimator : TaskRuntimeEstimator) (seqLen : Int) (stage : String) (sp : Nat) :
    Except PyError (WithTop ℚ ×ₗ Nat) := do
  let spec ← ParallelSpec.make 1 sp 1 false
  let cost ← estimator spec seqLen stage
  pure (toLex (if 0 < cost then cost else ⊤, sp))

def candidateOrder (p : Edf) (task : InferenceTask) (fitting : List Nat) :
    Except PyError (List Nat) :=
  match p.taskRuntimeEstimator, p.plans.get? task.requestId with
  | some estimator, some plan => do
    let keys ← fitting.mapM
      (costKey estimator (resolveSeqLen task plan) (resolveRequestStage task))
    pure ((keys.insertionSort (· ≤ ·)).map fun key => (ofLex key).2)
  | _, _ => pure (fitting.insertionSort (· ≥ ·))

/-- The first of the sizes whose group takes the task. -/
def selectSize (task : InferenceTask) (free : List Rank) :
    List Nat → PolicyM Edf (Option (String × List Rank))
  | [] => pure none
  | spSize :: sizes => do
    let ranks := pickRanksForRequest (← get) task.requestId spSize free
    let group ← ensureGroupForRanks ranks ditTaskKinds
    if task.kind ∈ group.supportedTaskKinds then pure (some (group.groupId, ranks))
    else selectSize task free sizes

def selectDitGroup (task : InferenceTask) (free : List Rank) :
    PolicyM Edf (Option (String × List Rank)) := do
  let fitting := (← get).policy.allowedSpSizes.filter (· ≤ free.length)
  if free = [] ∨ fitting = [] then pure none
  else
    let sizes ← Prog.check ((← get).policy.candidateOrder task fitting)
    selectSize task free sizes

def pinnedRanksError (task : InferenceTask) (groupId : String) (ranks : List Rank) : PyError :=
  .valueError <| s!"edf_greedy requires single-rank group for {task.kind.value}; " ++
    s!"task {task.taskId} is pinned to " ++ quoted groupId ++ " with ranks=" ++ natTuple ranks

def selectPlacement (task : InferenceTask) (free : List Rank) :
    PolicyM Edf (Option (String × List Rank)) := do
  match (← get).tasks.groupId task with
  | some groupId =>
    let group ← World.getGroup groupId
    if task.kind ∈ singleRankTaskKinds ∧ group.ranks.length ≠ 1 then
      throw (pinnedRanksError task groupId group.ranks)
    else if ∀ rank ∈ group.ranks, rank ∈ free then pure (some (group.groupId, group.ranks))
    else pure none
  | none =>
    if task.kind ∈ singleRankTaskKinds then selectSingleRankGroup task free
    else if task.kind ∈ ditTaskKinds then selectDitGroup task free
    else
      throw (.valueError <| "edf_greedy does not support task kind " ++ quoted task.kind.value)

-- ---------------------------------------------------------------------------
-- Dispatch
-- ---------------------------------------------------------------------------

def popReady (p : Edf) (requestId : String) (rest : List InferenceTask) : Edf :=
  if rest = [] then { p with readyByRequest := p.readyByRequest.erase requestId }
  else { p with readyByRequest := p.readyByRequest.set requestId rest }

def dispatchTask (task : InferenceTask) (requestId groupId : String) (ranks : List Rank) :
    PolicyM Edf Unit := do
  match (← get).policy.readyByRequest.get? requestId with
  | none => throw (.keyError requestId)
  | some [] => pure ()
  | some (head :: rest) =>
    if head.taskId ≠ task.taskId then pure ()
    else
      modifyPolicy fun p => p.popReady requestId rest
      modify fun w => (w.setGroupId task (some groupId)).setStatus task .dispatched
      modifyPolicy fun p => { p with
        accounts := p.accounts.dispatch task groupId ranks
        requestInflight := Counter.raise p.requestInflight requestId }

/-- The requests with a ready task and none in flight, each with the head of
its queue, the most urgent first. -/
def readyList (p : Edf) : List (String × InferenceTask) :=
  let ready := p.readyByRequest.entries.filterMap fun (requestId, queue) =>
    match queue with
    | [] => none
    | task :: _ =>
      if 0 < Counter.count p.requestInflight requestId then none else some (requestId, task)
  ready.insertionSort fun a b => p.requestSortKey a.1 ≤ p.requestSortKey b.1

def placeInTurn : List Rank → List (String × InferenceTask) → PolicyM Edf (List InferenceTask)
  | _, [] => pure []
  | free, (requestId, task) :: ready => do
    match ← selectPlacement task free with
    | none => placeInTurn free ready
    | some (groupId, ranks) =>
      dispatchTask task requestId groupId ranks
      let out ← placeInTurn (withoutRanks free ranks) ready
      pure (task :: out)

def takeDispatchableTasks : PolicyM Edf (List InferenceTask) := do
  let free := freeRankSet (← get)
  placeInTurn free (← get).policy.readyList

-- ---------------------------------------------------------------------------
-- Handlers
-- ---------------------------------------------------------------------------

def enqueueReady (p : Edf) (task : InferenceTask) : Edf :=
  let queue := p.readyByRequest.getD task.requestId []
  { p with readyByRequest := p.readyByRequest.set task.requestId (queue ++ [task]) }

def enqueueRunnable (task : InferenceTask) : PolicyM Edf Unit := do
  modify fun w => w.setStatus task .ready
  modifyPolicy fun p => { p with taskIndex := p.taskIndex.set task.taskId task }
  match (← get).tasks.groupId task with
  | some groupId => Prog.check (validateExplicitTaskGroup (← get).topology task groupId)
  | none => pure ()
  modifyPolicy fun p => p.enqueueReady task

def releaseDispatchedTask (p : Edf) (event : WorkerEvent) : Edf :=
  { p with
    accounts := p.accounts.releaseDispatchedTask event.taskId
    requestInflight := Counter.drop p.requestInflight event.requestId
    requestLastGroup :=
      if event.groupId = "" then p.requestLastGroup
      else p.requestLastGroup.set event.requestId event.groupId }

def dropRequest (p : Edf) (requestId : String) : Edf :=
  { p with
    requestTasks := p.requestTasks.erase requestId
    readyByRequest := p.readyByRequest.erase requestId
    requestMeta := p.requestMeta.erase requestId
    plans := p.plans.erase requestId
    requestInflight := p.requestInflight.erase requestId
    requestLastGroup := p.requestLastGroup.erase requestId }

section

-- What the two variants do differently: the tick and the request's metadata.
variable (take : PolicyM Edf (List InferenceTask))
  (metaOf : RequestExecutionPlan → Nat → PolicyM Edf EdfRequestMeta)

def onTasksRunnableWith (tasks : List InferenceTask) : PolicyM Edf (List InferenceTask) := do
  tasks.forM enqueueRunnable
  take

def onRequestSubmittedWith (plan : RequestExecutionPlan) : PolicyM Edf (List InferenceTask) := do
  modifyPolicy fun p => { p with requestSeq := p.requestSeq + 1 }
  let info ← metaOf plan (← get).policy.requestSeq
  modifyPolicy fun p => { p with
    requestMeta := p.requestMeta.set plan.requestId info
    plans := p.plans.set plan.requestId plan
    taskIndex := p.taskIndex.insertAll (plan.tasks.values.map fun task => (task.taskId, task)) }
  onTasksRunnableWith take plan.rootTasks

def onWorkerEventWith (event : WorkerEvent) : PolicyM Edf (List InferenceTask) := do
  let eventMs : ℚ := event.timestampNs / 1000000
  modifyPolicy fun p => { p with nowMs := max p.nowMs eventMs }
  if event.kind.endsTask then modifyPolicy fun p => p.releaseDispatchedTask event
  if event.kind.endsRequest then modifyPolicy fun p => p.dropRequest event.requestId
  take

end

def acquireMigrationHold (ranks : List Rank) : PolicyM Edf Unit :=
  modifyPolicy fun p => { p with accounts := p.accounts.acquireMigrationHold ranks }

def releaseMigrationHold (ranks : List Rank) : PolicyM Edf Unit :=
  modifyPolicy fun p => { p with accounts := p.accounts.releaseMigrationHold ranks }

end Edf

def edfGreedyPolicy : SchedulerPolicy Edf where
  onRequestSubmitted := Edf.onRequestSubmittedWith Edf.takeDispatchableTasks Edf.metaFromPlan
  onTasksRunnable := Edf.onTasksRunnableWith Edf.takeDispatchableTasks
  onWorkerEvent := Edf.onWorkerEventWith Edf.takeDispatchableTasks
  acquireMigrationHold := Edf.acquireMigrationHold
  releaseMigrationHold := Edf.releaseMigrationHold

end GfDit
