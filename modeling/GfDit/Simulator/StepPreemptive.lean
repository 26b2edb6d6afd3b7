import GfDit.Policies.Accounts
import GfDit.Simulator.Driver
import Mathlib.Algebra.Order.Field.Rat
import Mathlib.Data.Prod.Lex
import Mathlib.Data.String.Basic
import Mathlib.Order.WithBot

/-!
# The step-boundary preemptive policy

`StepBoundaryPreemptiveElasticPolicy` of the simulator: the head task of every
request that has nothing in flight proposes the groups it may run on, a
dynamic program over rank masks picks the proposals worth most together, and
long requests wait at their step boundaries while short ones are in the
foreground. Times, estimates and scores are exact.
-/

namespace GfDit

namespace StepPreemptive

open Driver (Call Dispatch)

-- ---------------------------------------------------------------------------
-- Requests
-- ---------------------------------------------------------------------------

inductive RequestClass
  | s
  | m
  | l
  deriving DecidableEq

structure RequestMeta where
  requestClass : RequestClass
  priority : Int
  arrivalMs : ℚ
  preemptible : Bool
  deadlineMs : Option (WithTop ℚ)
  profiledOptimalLatencyMs : Option ℚ

/-- The part of a request id before the first underscore tells its class; the
long s is also written as an S in upper case. -/
def requestClass (requestId : String) : RequestClass :=
  let first := String.ofList (requestId.toList.takeWhile (· ≠ '_'))
  if first ∈ ["S", "s", "ſ"] then .s
  else if first ∈ ["L", "l"] then .l
  else .m

def defaultPriority : RequestClass → Int
  | .s => 100
  | .m => 50
  | .l => 0

/-- `getattr(value, name, None)`, for a number. Texts are taken as ones that spell
no number. -/
def numberAttr (plan : RequestExecutionPlan) (name : String) : Option (WithTop ℚ) :=
  match plan.initialArtifacts.head?.bind fun artifact => artifact.value.attributes.get? name with
  | some (.int value) => some ((value : ℚ) : WithTop ℚ)
  | some (.float value) => some (value : WithTop ℚ)
  | some .infinite => some ⊤
  | some .none | some (.text _) | none => none

/-- `_meta_from_plan`; arrivals, latencies and priorities are finite. -/
def metaFromPlan (plan : RequestExecutionPlan) : RequestMeta :=
  let class_ := requestClass plan.requestId
  let priority := ((numberAttr plan "priority").bind id).getD 0
  { requestClass := class_
    priority := if priority = 0 then defaultPriority class_ else priority.num.tdiv priority.den
    arrivalMs := ((numberAttr plan "arrival_ms").bind id).getD 0
    preemptible := class_ = .l
    deadlineMs := numberAttr plan "deadline_ms"
    profiledOptimalLatencyMs := (numberAttr plan "profiled_optimal_latency_ms").bind id }

-- ---------------------------------------------------------------------------
-- Settings and state
-- ---------------------------------------------------------------------------

inductive Mode
  | pause
  | demote
  deriving DecidableEq

structure TaskPayload where
  seqLen : Int
  stage : String
  chunkSteps : Int
  numSteps : Int

structure Settings where
  topology : RuntimeTopology
  mode : Mode
  taskRuntimeEstimator : Option (ParallelSpec → Int → String → ℚ)
  payloadOf : InferenceTask → TaskPayload
  reshardMs : ℚ
  topK : Nat
  demoteMaxSp : Nat
  maxPauseMs : ℚ
  reshardMs_nonneg : 0 ≤ reshardMs
  topK_pos : 0 < topK

structure State where
  readyByRequest : Dict String (List InferenceTask)
  requestMeta : Dict String RequestMeta
  requestOrder : Dict String Nat
  requestLastGroup : Dict String String
  requestInflight : Dict String Nat
  completedSteps : Dict String Nat
  pausedSinceMs : Dict String ℚ
  virtualQueues : RequestClass → ℚ
  nowMs : ℚ
  requestSeq : Nat
  taskIndex : Dict String InferenceTask
  accounts : RankAccounts

def State.init : State := ⟨∅, ∅, ∅, ∅, ∅, ∅, ∅, fun _ => 0, 0, 0, ∅, .init⟩

def spDegree (group : ExecutionGroupSpec) : Nat := group.parallelSpec.sp

variable (settings : Settings)

def groups : List ExecutionGroupSpec := settings.topology.groups

def groupIds : List String := (groups settings).map (·.groupId)

def maxSp : Nat := (((groups settings).map spDegree).max?).getD 0

def minSp : Nat := (((groups settings).map spDegree).min?).getD 0

def latencyGroupIds : List String :=
  ((groups settings).filter fun group => spDegree group = maxSp settings).map (·.groupId)

def smallGroupIds : List String :=
  let small := (groups settings).filter fun group => spDegree group ≤ settings.demoteMaxSp
  let small := if small = [] then
    (groups settings).filter fun group => spDegree group = minSp settings else small
  small.map (·.groupId)

-- ---------------------------------------------------------------------------
-- Pressure and pauses
-- ---------------------------------------------------------------------------

def metaOf (state : State) (requestId : String) : Except PyError RequestMeta :=
  match state.requestMeta.get? requestId with
  | some info => pure info
  | none => throw (.keyError requestId)

def foregroundPressure (state : State) : Bool :=
  (state.requestMeta.entries.any fun (requestId, info) =>
    info.requestClass = .s && (0 < Counter.count state.requestInflight requestId ||
      state.readyByRequest.getD requestId [] ≠ [])) ||
    0 < state.virtualQueues .s

def pauseAgedOut (state : State) (requestId : String) : Bool :=
  match state.pausedSinceMs.get? requestId with
  | none => false
  | some pausedAt => decide (settings.maxPauseMs ≤ state.nowMs - pausedAt)

def addGroups (ordered items : List String) : List String :=
  items.foldl (fun ordered item => if item ∈ ordered then ordered else ordered ++ [item]) ordered

def candidateGroupIds (state : State) (info : RequestMeta) (requestId : String)
    (task : InferenceTask) : List String :=
  let source := (state.requestLastGroup.get? requestId).toList
  let pressure := foregroundPressure state
  let all := addGroups (addGroups source (latencyGroupIds settings)) (groupIds settings)
  if info.requestClass = .s then all
  else if info.requestClass = .l ∧ pressure ∧ task.kind = .ditStepChunk ∧
      settings.mode = .pause ∧ ¬ pauseAgedOut settings state requestId then []
  else if info.requestClass = .l ∧ pressure ∧ task.kind = .ditStepChunk ∧
      settings.mode = .demote then
    let ordered := addGroups source (smallGroupIds settings)
    if pauseAgedOut settings state requestId then addGroups ordered (groupIds settings) else ordered
  else if info.requestClass = .m ∧ pressure then
    addGroups (addGroups source (smallGroupIds settings)) (latencyGroupIds settings)
  else all

/-- Whether `_should_pause` holds a request back. -/
def pauses (state : State) (info : RequestMeta) (requestId : String) (task : InferenceTask) : Bool :=
  if info.requestClass ≠ .l ∨ ¬ info.preemptible then false
  else if task.kind ≠ .ditStepChunk ∨ ¬ foregroundPressure state then false
  else if settings.mode = .demote ∧ candidateGroupIds settings state info requestId task ≠ [] then
    false
  else !pauseAgedOut settings state requestId

/-- `_should_pause`, which notes since when a request is paused. -/
def shouldPause (state : State) (requestId : String) (task : InferenceTask) :
    Except PyError (Bool × State) := do
  let info ← metaOf state requestId
  if pauses settings state info requestId task then
    let since := state.pausedSinceMs.getD requestId state.nowMs
    pure (true, { state with pausedSinceMs := state.pausedSinceMs.set requestId since })
  else pure (false, state)

-- ---------------------------------------------------------------------------
-- Estimates and scores
-- ---------------------------------------------------------------------------

def estimateTaskMs (task : InferenceTask) (group : ExecutionGroupSpec) : ℚ :=
  match settings.taskRuntimeEstimator with
  | none => 1
  | some estimator =>
    let payload := settings.payloadOf task
    let estimate := estimator group.parallelSpec payload.seqLen payload.stage
    let chunks : ℚ := if task.kind = .ditStepChunk then (max 1 payload.chunkSteps : Int) else 1
    max 0 (estimate * chunks)

def estimateRemainingMs (state : State) (task : InferenceTask) (group : ExecutionGroupSpec) : ℚ :=
  let taskMs := estimateTaskMs settings task group
  if task.kind ≠ .ditStepChunk then taskMs
  else
    let completed := state.completedSteps.getD task.requestId 0
    let (completed, current) := match task.stepRange with
      | some range => (max completed range.start, range.length)
      | none => (completed, 0)
    let perStepMs := taskMs / (max 1 current : Nat)
    taskMs + perStepMs * (max 0 ((settings.payloadOf task).numSteps - completed - current) : Int)

inductive ActionName
  | continue
  | demote
  | promote
  | migrate
  deriving DecidableEq

def actionName (source : Option ExecutionGroupSpec) (target : ExecutionGroupSpec) : ActionName :=
  match source with
  | none => .continue
  | some source =>
    if source.groupId = target.groupId then .continue
    else if spDegree target < spDegree source then .demote
    else if spDegree target > spDegree source then .promote
    else .migrate

def classBase : RequestClass → ℚ
  | .s => 100000
  | .m => 10000
  | .l => 1000

def deadlineWeight : RequestClass → ℚ
  | .s => 80000
  | .m => 12000
  | .l => 500

def progressWeight : RequestClass → ℚ
  | .s => 2000
  | .m => 2500
  | .l => 5000

def reshardWeight : RequestClass → ℚ
  | .s => 4
  | .m => 6
  | .l => 10

/-- How far a request is behind its deadline, relative to its size. -/
def deadlineScore (state : State) (info : RequestMeta) (remainingMs reshardCostMs : ℚ) : ℚ :=
  match info.deadlineMs with
  | none | some ⊤ => 0
  | some (some deadline) =>
    let slack := deadline - state.nowMs - remainingMs - reshardCostMs
    let latency := info.profiledOptimalLatencyMs.getD 0
    let scale := max 1 (if latency ≠ 0 then latency else if remainingMs ≠ 0 then remainingMs else 1)
    deadlineWeight info.requestClass * max 0 (-slack) / scale

def pausedScore (state : State) (requestId : String) : ℚ :=
  match state.pausedSinceMs.get? requestId with
  | none => 0
  | some pausedAt => min 15000 (max 0 (state.nowMs - pausedAt) * (1 / 4))

def scoreAction (state : State) (info : RequestMeta) (requestId : String) (task : InferenceTask)
    (action : ActionName) (taskMs remainingMs reshardCostMs : ℚ) : ℚ :=
  let pressed := info.requestClass = .l ∧ foregroundPressure state
  classBase info.requestClass
    + progressWeight info.requestClass / (1 + taskMs / 1000)
    - reshardWeight info.requestClass * reshardCostMs
    + (if action = .continue then 750 else 0)
    + (if pressed then (if action = .demote then 6000 else 0)
        - (if action = .promote then 20000 else 0) else 0)
    + pausedScore state requestId
    + deadlineScore state info remainingMs reshardCostMs
    + state.virtualQueues info.requestClass * 2000
    - (if task.kind ≠ .ditStepChunk ∧ pressed then 1500 else 0)

-- ---------------------------------------------------------------------------
-- Candidates
-- ---------------------------------------------------------------------------

def rankMask (ranks : List Rank) : Nat := ranks.foldl (fun mask rank => mask ||| 1 <<< rank) 0

structure ActionCandidate where
  task : InferenceTask
  requestId : String
  groupId : String
  score : ℚ
  rankMask : Nat
  claimedRanks : List Rank
  spDegree : Nat
  reshardCostMs : ℚ
  deriving DecidableEq

abbrev CandidateKey := ℚ ×ₗ ℚ ×ₗ Int ×ₗ String

def ActionCandidate.sortKey (candidate : ActionCandidate) : CandidateKey :=
  toLex (-candidate.score, toLex (candidate.reshardCostMs,
    toLex (-(candidate.spDegree : Int), candidate.groupId)))

/-- `tuple(sorted(set(target) | set(source)))`. -/
def mergedRanks (target source : List Rank) : List Rank := (target ++ source).dedup.mergeSort

/-- The ranks a task claims: also those it moves away from. -/
def claimedRanksOn (group : ExecutionGroupSpec) : Option ExecutionGroupSpec → List Rank
  | none => group.ranks
  | some source => mergedRanks group.ranks source.ranks

/-- The source, where the task moves away from it. -/
def movedFrom (source : Option ExecutionGroupSpec) (group : ExecutionGroupSpec) :
    Option ExecutionGroupSpec := source.filter fun source => source.groupId ≠ group.groupId

def reshardCostOn (source : Option ExecutionGroupSpec) (group : ExecutionGroupSpec) : ℚ :=
  if (movedFrom source group).isSome then settings.reshardMs else 0

def scoreOn (state : State) (info : RequestMeta) (requestId : String) (task : InferenceTask)
    (source : Option ExecutionGroupSpec) (group : ExecutionGroupSpec) : ℚ :=
  scoreAction state info requestId task (actionName source group)
    (estimateTaskMs settings task group) (estimateRemainingMs settings state task group)
    (reshardCostOn settings source group)

def candidateOn (state : State) (info : RequestMeta) (requestId : String) (task : InferenceTask)
    (source : Option ExecutionGroupSpec) (group : ExecutionGroupSpec) : Option ActionCandidate :=
  if task.kind ∉ group.supportedTaskKinds then none
  else
    let claimedRanks := claimedRanksOn group (movedFrom source group)
    if !state.accounts.canDispatchRanks claimedRanks then none
    else
      some ⟨task, requestId, group.groupId, scoreOn settings state info requestId task source group,
        rankMask claimedRanks, claimedRanks, spDegree group, reshardCostOn settings source group⟩

/-- The group the request ran on last; the first of its candidate groups. -/
def sourceGroup (state : State) (requestId : String) : Option ExecutionGroupSpec :=
  (state.requestLastGroup.get? requestId).bind settings.topology.find

def candidateActions (state : State) (requestId : String) (task : InferenceTask) :
    Except PyError (List ActionCandidate) := do
  let info ← metaOf state requestId
  let groups ← (candidateGroupIds settings state info requestId task).mapM
    settings.topology.getGroup
  let source := sourceGroup settings state requestId
  let out := groups.filterMap (candidateOn settings state info requestId task source)
  pure (out.mergeSort fun a b => decide (a.sortKey ≤ b.sortKey))

-- ---------------------------------------------------------------------------
-- The choice
-- ---------------------------------------------------------------------------

/-- The best value and actions for each set of used ranks. -/
abbrev RankTable := Dict Nat (ℚ × List ActionCandidate)

def RankTable.improve (table : RankTable) (entry : Nat × ℚ × List ActionCandidate) : RankTable :=
  match table.get? entry.1 with
  | none => table.set entry.1 entry.2
  | some (value, _) => if value < entry.2.1 then table.set entry.1 entry.2 else table

/-- What adding one candidate to an entry gives, where its ranks are not used. -/
def rankEntries (dp : RankTable) (candidates : List ActionCandidate) :
    List (Nat × ℚ × List ActionCandidate) :=
  dp.entries.flatMap fun (usedMask, value, actions) =>
    candidates.filterMap fun candidate =>
      if usedMask &&& candidate.rankMask ≠ 0 then none
      else some (usedMask ||| candidate.rankMask, value + candidate.score, actions ++ [candidate])

def nextTable (dp : RankTable) (candidates : List ActionCandidate) : RankTable :=
  (rankEntries dp candidates).foldl RankTable.improve dp

/-- `max(values, key=lambda item: (item[0], len(item[1])))`, the first of the best. -/
def bestEntry (values : List (ℚ × List ActionCandidate)) : ℚ × List ActionCandidate :=
  match values with
  | [] => (0, [])
  | first :: rest =>
    rest.foldl (fun best item =>
      if (toLex (best.1, best.2.length) : ℚ ×ₗ Nat) < toLex (item.1, item.2.length) then item
      else best) first

def solveRankDp (candidatesByRequest : List (String × List ActionCandidate)) :
    List ActionCandidate :=
  let dp := candidatesByRequest.foldl (fun dp entry => nextTable dp entry.2)
    ((∅ : RankTable).set 0 (0, []))
  let best := bestEntry dp.values
  if 0 < best.1 then best.2 else []

-- ---------------------------------------------------------------------------
-- Dispatch
-- ---------------------------------------------------------------------------

abbrev RequestKey := Int ×ₗ WithTop ℚ ×ₗ Nat ×ₗ String

def requestSortKey (state : State) (requestId : String) : Except PyError RequestKey := do
  let info ← metaOf state requestId
  pure (toLex (-info.priority, toLex (info.deadlineMs.getD ⊤,
    toLex (state.requestOrder.getD requestId 0, requestId))))

def readyRequestIds (state : State) : Except PyError (List String) := do
  let ready := (state.readyByRequest.entries.filter fun entry => entry.2 ≠ []).map (·.1)
  let keyed ← ready.mapM fun requestId => do pure (← requestSortKey state requestId, requestId)
  pure ((keyed.mergeSort fun a b => decide (a.1 ≤ b.1)).map (·.2))

def collect : State → List String → Except PyError (List (String × List ActionCandidate) × State)
  | state, [] => pure ([], state)
  | state, requestId :: rest =>
    if 0 < Counter.count state.requestInflight requestId then collect state rest
    else
      match state.readyByRequest.getD requestId [] with
      | [] => collect state rest
      | task :: _ => do
        let (paused, state) ← shouldPause settings state requestId task
        if paused then collect state rest
        else
          let candidates ← candidateActions settings state requestId task
          let (out, state) ← collect state rest
          if candidates = [] then pure (out, state)
          else pure ((requestId, candidates.take settings.topK) :: out, state)

def popReady (state : State) (requestId : String) (rest : List InferenceTask) : State :=
  { state with
    readyByRequest := if rest = [] then state.readyByRequest.erase requestId
      else state.readyByRequest.set requestId rest }

def dispatchCandidate (state : State) (candidate : ActionCandidate) : State :=
  { state with
    accounts := state.accounts.dispatch candidate.task candidate.groupId candidate.claimedRanks
    requestInflight := Counter.raise state.requestInflight candidate.task.requestId }

def dispatchSelected : State → List ActionCandidate → List Dispatch × State
  | state, [] => ([], state)
  | state, candidate :: selected =>
    match state.readyByRequest.getD candidate.requestId [] with
    | [] => dispatchSelected state selected
    | task :: rest =>
      if task.taskId ≠ candidate.task.taskId then dispatchSelected state selected
      else
        let state := popReady state candidate.requestId rest
        let state :=
          { state with pausedSinceMs := state.pausedSinceMs.erase candidate.requestId }
        let (out, state) := dispatchSelected (dispatchCandidate state candidate) selected
        (⟨candidate.task, candidate.groupId⟩ :: out, state)

def takeDispatchableTasks (state : State) : Except PyError (List Dispatch × State) := do
  let ready ← readyRequestIds state
  let (candidatesByRequest, state) ← collect settings state ready
  pure (dispatchSelected state (solveRankDp candidatesByRequest))

-- ---------------------------------------------------------------------------
-- Handlers
-- ---------------------------------------------------------------------------

def enqueueReady (state : State) (task : InferenceTask) : State :=
  { state with
    taskIndex := state.taskIndex.set task.taskId task
    readyByRequest := state.readyByRequest.set task.requestId
      (state.readyByRequest.getD task.requestId [] ++ [task]) }

def submitted (plan : RequestExecutionPlan) (state : State) : State :=
  let info := metaFromPlan plan
  { state with
    nowMs := max state.nowMs info.arrivalMs
    requestMeta := state.requestMeta.set plan.requestId info
    requestSeq := state.requestSeq + 1
    requestOrder := state.requestOrder.set plan.requestId (state.requestSeq + 1) }

def releaseDispatchedTask (event : WorkerEvent) (state : State) : State :=
  let state := { state with
    accounts := state.accounts.releaseDispatchedTask event.taskId
    requestInflight := Counter.drop state.requestInflight event.requestId }
  match state.taskIndex.get? event.taskId with
  | none => state
  | some task =>
    let state := { state with
      requestLastGroup := state.requestLastGroup.set event.requestId event.groupId }
    match task.stepRange with
    | some range => if task.kind = .ditStepChunk then
        { state with completedSteps := state.completedSteps.set event.requestId range.stop }
      else state
    | none => state

def lateAllowance : RequestClass → ℚ
  | .s => 1 / 100
  | .m => 5 / 100
  | .l => 20 / 100

/-- `_update_virtual_queue`: a late request adds to the queue of its class. -/
def updateVirtualQueue (requestId : String) (state : State) : State :=
  match state.requestMeta.get? requestId with
  | none => state
  | some info =>
    match info.deadlineMs with
    | none => state
    | some deadline =>
      let late : ℚ := if deadline < (state.nowMs : WithTop ℚ) then 1 else 0
      { state with
        virtualQueues := Function.update state.virtualQueues info.requestClass
          (max 0 (state.virtualQueues info.requestClass + late - lateAllowance info.requestClass)) }

def dropRequest (requestId : String) (state : State) : State :=
  { state with
    readyByRequest := state.readyByRequest.erase requestId
    requestMeta := state.requestMeta.erase requestId
    requestOrder := state.requestOrder.erase requestId
    requestLastGroup := state.requestLastGroup.erase requestId
    requestInflight := state.requestInflight.erase requestId
    completedSteps := state.completedSteps.erase requestId
    pausedSinceMs := state.pausedSinceMs.erase requestId }

def noteEvent (event : WorkerEvent) (state : State) : State :=
  let state := { state with nowMs := max state.nowMs (event.timestampNs / 1000000) }
  let state := if event.kind.endsTask then releaseDispatchedTask event state else state
  if event.kind.endsRequest then dropRequest event.requestId (updateVirtualQueue event.requestId state)
  else state

def noteCall (call : Call) (state : State) : State :=
  match call with
  | .submitted plan => plan.rootTasks.foldl enqueueReady (submitted plan state)
  | .runnable tasks => tasks.foldl enqueueReady state
  | .event event => noteEvent event state

/-- `on_request_submitted`, `on_tasks_runnable` and `on_worker_event`. -/
def handle : Driver.Policy State := fun call state =>
  takeDispatchableTasks settings (noteCall call state)

end StepPreemptive

end GfDit
