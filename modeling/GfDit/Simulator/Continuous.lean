import GfDit.Policies.EdfBestFit
import GfDit.Simulator.GroupsOnDemand
import GfDit.Simulator.RequestQueues
import GfDit.Simulator.SimPlan
import GfDit.Simulator.SurvivalKnapsack

/-!
# The continuous TetriServe policy

`TetriServeContinuousPolicy` of the simulator, with what it inherits from the
simulator's `EdfBestFitPolicy` and `EdfGreedyPolicy`: at every event the ready
auxiliary tasks get one rank each, the survival knapsack and the steps after it
give every active DiT request a width, and the widths are turned into ranks in
the order of the deadlines, where a request that does not find its ranks keeps
others off them. Without an estimator the best-fit passes decide instead.
Times and estimates are exact.
-/

namespace GfDit

namespace Continuous

open Driver (Call Dispatch)
open Edf (safeEstimate spSpec taskEstimate withoutRanks)

-- ---------------------------------------------------------------------------
-- Settings and state
-- ---------------------------------------------------------------------------

structure Settings where
  -- at the start
  topology : RuntimeTopology
  taskRuntimeEstimator : Option TaskRuntimeEstimator
  givenSpSizes : Option (List Int)
  allowedSpSizes : List Nat
  elasticScaleUp : Bool
  sizes_ok : Edf.normalizeAllowedSpSizes topology.workers givenSpSizes = .ok allowedSpSizes

def numWorkers (settings : Settings) : Nat := max 1 settings.topology.workers.length

structure State where
  topology : RuntimeTopology
  queues : RequestQueues
  requestMeta : Dict String EdfRequestMeta
  requestSeq : Nat
  nowMs : WithTop ℚ
  requestTasks : Dict String (List InferenceTask)
  -- the tasks whose status is FINISHED, which the simulator sets at their end
  finished : List String
  completedSteps : Dict String Nat
  inflightTask : Dict String InferenceTask

def State.init (settings : Settings) : State :=
  ⟨settings.topology, .init, ∅, 0, 0, ∅, [], ∅, ∅⟩

/-- `getattr(value, name, None)`. -/
def requestAttr (plan : RequestExecutionPlan) (name : String) : Option PyValue :=
  (plan.initialArtifacts.head?.map (·.value)).bind fun value => value.attributes.get? name

/-- `int(getattr(value, name, default) or default)`, for a finite number. -/
def intAttr (plan : RequestExecutionPlan) (name : String) (default : Int) : Int :=
  match requestAttr plan name with
  | some (.int value) => if value = 0 then default else value
  | some (.float value) => if value = 0 then default else value.num.tdiv value.den
  | some .none | some .infinite | some (.text _) | none => default

def floatAttr (plan : RequestExecutionPlan) (name : String) : Option Ms :=
  (requestAttr plan name).bind PyValue.toFloat

/-- `_meta_from_value`; no deadline is kept as an infinite one, which is
treated alike. -/
def metaFromPlan (plan : RequestExecutionPlan) (order : Nat) : EdfRequestMeta where
  deadlineMs := (floatAttr plan "deadline_ms").getD .inf
  priority := intAttr plan "priority" 0
  arrivalMs := (floatAttr plan "arrival_ms").getD (.fin 0)
  order := order
  latentSeqLen := intAttr plan "latent_seq_len" 0
  voxels := intAttr plan "voxels" 0
  textSeqLen := intAttr plan "text_seq_len" 0
  numSteps := intAttr plan "num_steps" 0
  chunkSteps := intAttr plan "denoise_chunk_size" 1

variable (settings : Settings)

def sortKey (state : State) (requestId : String) : Ms ×ₗ Int ×ₗ Ms ×ₗ Nat ×ₗ String :=
  match state.requestMeta.get? requestId with
  | none => toLex (.inf, toLex (0, toLex (.fin 0, toLex (0, requestId))))
  | some info =>
    toLex (info.deadlineMs, toLex (-info.priority, toLex (info.arrivalMs,
      toLex (info.order, requestId))))

def sortReady (state : State) (ready : List (String × InferenceTask)) :
    List (String × InferenceTask) :=
  ready.mergeSort fun a b => decide (sortKey state a.1 ≤ sortKey state b.1)

-- ---------------------------------------------------------------------------
-- Estimates
-- ---------------------------------------------------------------------------

def stepEstimate (info : EdfRequestMeta) (sp : Nat) : WithTop ℚ :=
  match settings.taskRuntimeEstimator with
  | none => 0
  | some estimator => safeEstimate estimator (spSpec sp) info.latentSeqLen "dit_step_chunk"

def estimateFinishMs (state : State) (requestId : String) (sp : Nat) : WithTop ℚ :=
  match state.requestMeta.get? requestId, settings.taskRuntimeEstimator with
  | some info, some estimator =>
    let unfinished := (state.requestTasks.getD requestId []).filter fun task =>
      task.taskId ∉ state.finished
    state.nowMs + (unfinished.map (taskEstimate estimator info sp)).sum
  | _, _ => ⊤

def candidateSizes : List Nat :=
  (settings.allowedSpSizes.filter (· ≤ numWorkers settings)).insertionSort (· ≤ ·)

/-- The smallest size that meets the deadline, or the widest where none does. -/
def minSurviveSp (state : State) (requestId : String) : Nat × Bool :=
  match state.requestMeta.get? requestId, candidateSizes settings with
  | none, _ | _, [] => (1, true)
  | some info, first :: sizes =>
    match info.deadlineMs with
    | .fin deadline =>
      match (first :: sizes).find? fun sp =>
          estimateFinishMs settings state requestId sp ≤ (deadline : WithTop ℚ) with
      | some sp => (sp, true)
      | none => ((first :: sizes).getLast (List.cons_ne_nil _ _), false)
    | .inf | .negInf => (first, true)

/-- The steps left for the next allocation. -/
def remainingSteps (state : State) (requestId : String) : Int :=
  match state.requestMeta.get? requestId with
  | none => 0
  | some info =>
    let completed := state.completedSteps.getD requestId 0
    let completed := match (state.inflightTask.get? requestId).bind (·.stepRange) with
      | some range => max completed range.stop
      | none =>
        match (state.queues.queue requestId).head?.bind (·.stepRange) with
        | some range => max completed range.start
        | none => completed
    max 0 (info.numSteps - completed)

/-- What may come of deferring a request and of running it. -/
def survivalOptions (state : State) (requestId : String) : List SurvivalOption :=
  match state.requestMeta.get? requestId with
  | none => []
  | some info =>
    let remaining := remainingSteps state requestId
    if remaining ≤ 0 ∨ candidateSizes settings = [] then []
    else
      let stepMs := ((candidateSizes settings).map (stepEstimate settings info)).min?.getD 0
      let survives : Bool := match info.deadlineMs with
        | .fin deadline =>
          state.nowMs + (max 1 info.chunkSteps).toNat • stepMs +
            remaining.toNat • stepMs ≤ (deadline : WithTop ℚ)
        | .inf | .negInf => true
      let (sp, canSurvive) := minSurviveSp settings state requestId
      (0, if survives then 1 else 0) ::
        if canSurvive then [(sp, 1 - 1 / 1000000 * sp)] else []

-- ---------------------------------------------------------------------------
-- The target allocation
-- ---------------------------------------------------------------------------

/-- `_active_dit_request_ids`. -/
def isActive (state : State) (requestId : String) (info : EdfRequestMeta) : Bool :=
  if info.numSteps ≤ 0 ∨ remainingSteps state requestId ≤ 0 then false
  else if 0 < state.queues.inflight requestId then
    (state.inflightTask.get? requestId).any fun task => task.kind ∈ ditTaskKinds
  else (state.queues.queue requestId).head?.any fun task => task.kind ∈ ditTaskKinds

def activeDitRequestIds (state : State) : List String :=
  (state.requestMeta.entries.filter fun entry => isActive state entry.1 entry.2).map (·.1)

/-- The work-conserving fill, over the active requests in order. -/
def fill (state : State) : List String → Nat → Dict String Nat → Dict String Nat
  | [], _, target => target
  | requestId :: rest, budget, target =>
    if budget < 1 then target
    else if requestId ∈ target.keys then fill state rest budget target
    else
      let sp := (minSurviveSp settings state requestId).1
      if sp ≤ budget then fill state rest (budget - sp) (target.set requestId sp)
      else fill state rest (budget - 1) (target.set requestId 1)

def promotionHelps (state : State) (requestId : String) (cur new : Nat) : Bool :=
  match state.requestMeta.get? requestId with
  | none => false
  | some info => decide (stepEstimate settings info new < stepEstimate settings info cur)

/-- The next size of the first request that can be promoted within the budget. -/
def promotion (state : State) (budget : Nat) (target : Dict String Nat) :
    List String → Option (String × Nat × Nat)
  | [] => none
  | requestId :: rest =>
    let cur := target.getD requestId 0
    match (settings.allowedSpSizes.insertionSort (· ≤ ·)).find? (cur < ·) with
    | none => promotion state budget target rest
    | some bigger =>
      if budget < bigger - cur ∨ ¬ promotionHelps settings state requestId cur bigger then
        promotion state budget target rest
      else some (requestId, bigger, bigger - cur)

/-- `_scale_up`. A promotion takes at least one of the budget, which bounds
the rounds. -/
def scaleUp (state : State) (order : List String) :
    Nat → Nat → Dict String Nat → Dict String Nat
  | 0, _, target => target
  | rounds + 1, budget, target =>
    if budget = 0 then target
    else
      match promotion settings state budget target order with
      | none => target
      | some (requestId, bigger, delta) =>
        scaleUp state order rounds (budget - delta) (target.set requestId bigger)

def requestOptions (state : State) (active : List String) : List RequestOptions :=
  (active.map fun requestId => (requestId, survivalOptions settings state requestId)).filter
    fun request => request.2 ≠ []

def sortIds (state : State) (requestIds : List String) : List String :=
  requestIds.mergeSort fun a b => decide (sortKey state a ≤ sortKey state b)

def planTargetAllocation (state : State) : Dict String Nat :=
  let active := activeDitRequestIds state
  let admitted := survivalKnapsack (requestOptions settings state active) (numWorkers settings)
  let target := fill settings state (sortIds state active)
    (numWorkers settings - admitted.values.sum) admitted
  if settings.elasticScaleUp then
    let budget := numWorkers settings - target.values.sum
    scaleUp settings state (sortIds state target.keys) budget budget target
  else target

-- ---------------------------------------------------------------------------
-- Ranks
-- ---------------------------------------------------------------------------

def freeRankSet (state : State) : List Rank :=
  state.topology.workers.filter fun rank => state.queues.accounts.canDispatchRanks [rank]

def pickRanksForRequest (state : State) (requestId : String) (sp : Nat) (free : List Rank) :
    List Rank :=
  let lowest := (free.insertionSort (· ≤ ·)).take sp
  match (state.queues.requestLastGroup.get? requestId).bind state.topology.find with
  | none => lowest
  | some group =>
    if group.ranks.length = sp ∧ ∀ rank ∈ group.ranks, rank ∈ free then group.ranks else lowest

def ensureGroup (state : State) (ranks : List Rank) (kinds : List TaskKind) :
    Except PyError (String × State) := do
  let (group, topology) ← OnDemand.ensureGroupForRanks "edf" state.topology ranks kinds
  pure (group.groupId, { state with topology })

def dispatch (state : State) (placed : Assignment) : State :=
  { state with
    queues := state.queues.dispatch placed
    inflightTask := state.inflightTask.set placed.requestId placed.task }

def readyHeads (state : State) : List (String × InferenceTask) :=
  state.queues.readyByRequest.entries.filterMap fun (requestId, queue) =>
    if 0 < state.queues.inflight requestId then none
    else queue.head?.map fun task => (requestId, task)

/-- `_select_placement` of a task with a group. -/
def pinnedPlacement (state : State) (task : InferenceTask) (groupId : String) (free : List Rank) :
    Except PyError (Option (List Rank)) := do
  let group ← state.topology.getGroup groupId
  if task.kind ∈ singleRankTaskKinds ∧ group.ranks.length ≠ 1 then
    throw (.valueError <| s!"edf_greedy requires single-rank group for {task.kind.value}; " ++
      s!"task {task.taskId} pinned to " ++ quoted groupId ++ " ranks=" ++ natTuple group.ranks)
  else if ∀ rank ∈ group.ranks, rank ∈ free then pure (some group.ranks)
  else pure none

/-- What was given out, the state and the ranks that are left. -/
abbrev Taken := List Assignment × State × List Rank

/-- The tasks with a group are placed at once. In the loop over the queues
themselves a queue that gets empty ends the iteration with an error. -/
def takePinned (overQueues : Bool) : State → List Rank → List (String × InferenceTask) →
    Except PyError Taken
  | state, free, [] => pure ([], state, free)
  | state, free, (requestId, task) :: rest =>
    match task.groupId with
    | none => takePinned overQueues state free rest
    | some groupId => do
      match ← pinnedPlacement state task groupId free with
      | none => takePinned overQueues state free rest
      | some ranks =>
        let placed : Assignment := ⟨task, requestId, groupId, ranks⟩
        if overQueues ∧ (state.queues.queue requestId).length = 1 then
          throw (.runtimeError "dictionary changed size during iteration")
        else
          let (out, state, free) ← takePinned overQueues (dispatch state placed)
            (withoutRanks free ranks) rest
          pure (placed :: out, state, free)

-- ---------------------------------------------------------------------------
-- The best-fit passes
-- ---------------------------------------------------------------------------

def bestFitSp (state : State) (requestId : String) (task : InferenceTask) (budget : Nat) :
    Option Nat :=
  if budget = 0 then none
  else if task.kind ∈ singleRankTaskKinds then
    let sp := if 1 ∈ settings.allowedSpSizes then 1 else settings.allowedSpSizes.min?.getD 0
    if sp ≤ budget then some sp else none
  else if task.kind ∉ ditTaskKinds then none
  else
    let candidates := (settings.allowedSpSizes.filter (· ≤ budget)).insertionSort (· ≤ ·)
    match state.requestMeta.get? requestId, settings.taskRuntimeEstimator with
    | some { deadlineMs := .fin deadline, .. }, some _ =>
      match candidates.find? fun sp =>
          estimateFinishMs settings state requestId sp ≤ (deadline : WithTop ℚ) with
      | some sp => some sp
      | none => candidates.argmin (estimateFinishMs settings state requestId)
    | _, _ => candidates.getLast?

abbrev FitEntry := String × InferenceTask × Nat

/-- PASS 1. -/
def fitSizes (state : State) : Nat → List (String × InferenceTask) → List FitEntry × Nat
  | budget, [] => ([], budget)
  | budget, (requestId, task) :: ready =>
    match bestFitSp settings state requestId task budget with
    | none => fitSizes state budget ready
    | some sp =>
      let (entries, left) := fitSizes state (budget - sp) ready
      ((requestId, task, sp) :: entries, left)

/-- The smallest bigger size that fits the budget and finishes sooner. -/
def widerSize (state : State) (budget : Nat) : FitEntry → Option Nat
  | (requestId, task, cur) =>
    if task.kind ∉ ditTaskKinds then none
    else
      let bigger := (settings.allowedSpSizes.insertionSort (· ≤ ·)).filter (cur < ·)
      (bigger.takeWhile fun s => s - cur ≤ budget).find? fun s =>
        estimateFinishMs settings state requestId s < estimateFinishMs settings state requestId cur

def widenFirst (state : State) (budget : Nat) : List FitEntry → Option (List FitEntry × Nat)
  | [] => none
  | entry :: entries =>
    match widerSize settings state budget entry with
    | some chosen =>
      some ((entry.1, entry.2.1, chosen) :: entries, budget - (chosen - entry.2.2))
    | none => (widenFirst state budget entries).map fun (entries, left) => (entry :: entries, left)

/-- PASS 2. Every round takes at least one rank of the budget. -/
def redistribute (state : State) : Nat → Nat → List FitEntry → List FitEntry
  | 0, _, entries => entries
  | rounds + 1, budget, entries =>
    if budget = 0 then entries
    else
      match widenFirst settings state budget entries with
      | some (entries, left) => redistribute state rounds left entries
      | none => entries

def lowestRank (free : List Rank) : Except PyError (List Rank) :=
  match free.min? with
  | some rank => pure [rank]
  | none => throw (.valueError "min() iterable argument is empty")

/-- PASS 3. -/
def materialize : State → List Rank → List FitEntry → Except PyError (List Assignment × State)
  | state, _, [] => pure ([], state)
  | state, free, (requestId, task, sp) :: entries => do
    let single : Bool := task.kind ∈ singleRankTaskKinds
    let ranks ← if single then lowestRank free
      else pure (pickRanksForRequest state requestId sp free)
    let (groupId, state) ← ensureGroup state ranks
      (if single then standardTaskKinds else ditTaskKinds)
    let placed : Assignment := ⟨task, requestId, groupId, ranks⟩
    let (out, state) ← materialize (dispatch state placed) (withoutRanks free ranks) entries
    pure (placed :: out, state)

/-- `EdfBestFitPolicy._take_dispatchable_tasks`. -/
def bestFitTake (state : State) : Except PyError (List Assignment × State) := do
  let ready := sortReady state (readyHeads state)
  let (pinned, state, free) ← takePinned false state (freeRankSet state) ready
  let waiting := ready.filter fun entry => entry.2.groupId = none
  let (entries, budget) := fitSizes settings state free.length waiting
  let (out, state) ← materialize state free (redistribute settings state budget budget entries)
  pure (pinned ++ out, state)

-- ---------------------------------------------------------------------------
-- The continuous planner
-- ---------------------------------------------------------------------------

/-- Auxiliary tasks get the lowest ranks that are free, as far as they go. -/
def takeAux : State → List Rank → List (String × InferenceTask) → Except PyError Taken
  | state, free, [] => pure ([], state, free)
  | state, free, (requestId, task) :: rest =>
    match free.min? with
    | none => pure ([], state, free)
    | some rank => do
      let (groupId, state) ← ensureGroup state [rank] standardTaskKinds
      let placed : Assignment := ⟨task, requestId, groupId, [rank]⟩
      let (out, state, free) ← takeAux (dispatch state placed) (withoutRanks free [rank]) rest
      pure (placed :: out, state, free)

/-- Widths become ranks in the given order; who does not find them holds some. -/
def takeDit (target : Dict String Nat) : State → List Rank → List Rank →
    List (String × InferenceTask) → Except PyError (List Assignment × State)
  | state, _, _, [] => pure ([], state)
  | state, free, held, (requestId, task) :: rest =>
    let sp := target.getD requestId 0
    if sp = 0 then takeDit target state free held rest
    else
      let avail := withoutRanks free held
      let chosen := pickRanksForRequest state requestId sp avail
      if sp ≤ chosen.length ∧ ∀ rank ∈ chosen, rank ∈ avail then do
        let ranks := chosen.take sp
        let (groupId, state) ← ensureGroup state ranks ditTaskKinds
        let placed : Assignment := ⟨task, requestId, groupId, ranks⟩
        let (out, state) ← takeDit target (dispatch state placed) (withoutRanks free ranks) held rest
        pure (placed :: out, state)
      else takeDit target state free (held ++ (avail.insertionSort (· ≤ ·)).take sp) rest

def plannedTake (state : State) : Except PyError (List Assignment × State) := do
  let ready := readyHeads state
  let (pinned, state, free) ← takePinned true state (freeRankSet state) ready
  let waiting := ready.filter fun entry => entry.2.groupId = none
  let readyAux := waiting.filter fun entry => entry.2.kind ∈ singleRankTaskKinds
  let readyDit := waiting.filter fun entry => entry.2.kind ∈ ditTaskKinds
  let (aux, state, free) ← takeAux state free (sortReady state readyAux)
  let target := planTargetAllocation settings state
  let (out, state) ← takeDit target state free [] (sortReady state readyDit)
  pure (pinned ++ aux ++ out, state)

def takeDispatchableTasks (state : State) : Except PyError (List Dispatch × State) := do
  let (out, state) ← match settings.taskRuntimeEstimator with
    | none => bestFitTake settings state
    | some _ => plannedTake settings state
  pure (out.map Assignment.toDispatch, state)

-- ---------------------------------------------------------------------------
-- Handlers
-- ---------------------------------------------------------------------------

def noteSubmitted (plan : RequestExecutionPlan) (state : State) : State :=
  let info := metaFromPlan plan (state.requestSeq + 1)
  { state with
    requestTasks := state.requestTasks.set plan.requestId plan.tasks.values
    requestSeq := state.requestSeq + 1
    nowMs := match info.arrivalMs with
      | .fin arrival => max state.nowMs arrival
      | .inf => ⊤
      | .negInf => state.nowMs
    requestMeta := state.requestMeta.set plan.requestId info
    queues := state.queues.submit plan.tasks.values }

def releaseDispatchedTask (event : WorkerEvent) (state : State) : State :=
  let ended := (state.queues.taskIndex.get? event.taskId).filter fun task =>
    task.kind = .ditStepChunk
  let completedSteps := match ended.bind (·.stepRange) with
    | some range => state.completedSteps.set event.requestId
        (max (state.completedSteps.getD event.requestId 0) range.stop)
    | none => state.completedSteps
  { state with
    completedSteps
    inflightTask := state.inflightTask.erase event.requestId
    queues := state.queues.release event }

def dropRequest (requestId : String) (state : State) : State :=
  { state with
    completedSteps := state.completedSteps.erase requestId
    inflightTask := state.inflightTask.erase requestId
    requestTasks := state.requestTasks.erase requestId
    requestMeta := state.requestMeta.erase requestId
    queues := state.queues.drop requestId }

def noteEvent (event : WorkerEvent) (state : State) : State :=
  let state := { state with
    nowMs := max state.nowMs (event.timestampNs / 1000000 : ℚ)
    finished := if event.kind = .taskExecEnd then event.taskId :: state.finished
      else state.finished }
  let state := if event.kind.endsTask then releaseDispatchedTask event state else state
  if event.kind.endsRequest then dropRequest event.requestId state else state

def noteCall (call : Call) (state : State) : State :=
  match call with
  | .submitted plan => noteSubmitted plan state
  | .runnable tasks => { state with queues := tasks.foldl RequestQueues.enqueue state.queues }
  | .event event => noteEvent event state

/-- `on_request_submitted`, `on_tasks_runnable` and `on_worker_event`. -/
def handle : Driver.Policy State := fun call state =>
  takeDispatchableTasks settings (noteCall call state)

end Continuous

end GfDit
