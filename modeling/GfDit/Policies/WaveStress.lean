import Mathlib.Algebra.GroupWithZero.Nat
import GfDit.Policies.DynamicStepFcfs

/-!
# The wave-stress policy

`WaveStressSchedulerPolicy`: the first requests run as under the dynamic-step
FCFS policy; later ones are held back until a wave of them is complete, and
the wave's tasks are dispatched in turn, one request after the other, on
groups chosen by the request's role in the wave.
-/

namespace GfDit

inductive WaveRole
  | crossG01 | crossG12 | crossFull | pingpong
  deriving DecidableEq, Repr

def waveRoles : List WaveRole := [.crossG01, .crossG12, .crossFull, .pingpong]

def pingpongCycle : List String := ["stress_gfull", "stress_g01", "stress_g12", "stress_gfull"]

def stressTaskKinds : List TaskKind :=
  [.textEncode, .ditPrepare, .timestepPrepare, .ditStepChunk, .vaeDecode, .finalize]

structure WaveStress where
  base : DynamicStepFcfs
  warmupReqs : Int
  waveSize : Nat
  numSeenReqs : Nat
  heldPlans : List RequestExecutionPlan
  activeWaveOrder : List String
  reqRole : Dict String WaveRole
  pingpongChunkIdx : Dict String Nat
  rrCursor : Nat
  waveReadyByReq : Dict String (List InferenceTask)
  auxGroupId : String

namespace WaveStress

-- ---------------------------------------------------------------------------
-- Construction
-- ---------------------------------------------------------------------------

def stressGroups : List ExecutionGroupSpec :=
  [sequenceSpec "stress_g01" 0 [1] stressTaskKinds, sequenceSpec "stress_g12" 1 [2] stressTaskKinds,
    sequenceSpec "stress_gfull" 0 [1, 2, 3] stressTaskKinds]

def ensureStressSubgroups : RuntimeTopology → List ExecutionGroupSpec →
    Except PyError RuntimeTopology
  | topology, [] => pure topology
  | topology, group :: groups => do
    let (_, topology) ← topology.ensureGroup group
    ensureStressSubgroups topology groups

def wrongBackendError (backend : String) : PyError :=
  .runtimeError <| "WaveStressSchedulerPolicy requires runtime_v2_collective_backend='gfc'; got " ++
    quoted backend ++ ". The dynamic G01/G12/GFULL subgroups it registers cannot be " ++
    "materialized under the torch backend (no startup-time NCCL handshake for them)."

def checkConfig (topology : RuntimeTopology) (waveSize : Nat) (collectiveBackend : Option String)
    (requireGfcBackend : Bool) : Except PyError Unit := do
  if let some backend := collectiveBackend then
    if requireGfcBackend ∧ backend.toLower ≠ "gfc" then throw (wrongBackendError backend)
  if waveSize < 2 ∨ waveRoles.length < waveSize then
    throw (.valueError s!"wave_size must be in [2, {waveRoles.length}], got {waveSize}")
  if topology.workers.length < 4 then
    throw (.runtimeError <| "WaveStressSchedulerPolicy needs at least 4 workers to register " ++
      s!"G01/G12/GFULL subgroups, topology has {topology.workers.length}")

def auxGroupOr (auxGroupId : Option String) : String :=
  match auxGroupId with
  | none | some "" => "stress_gfull"
  | some groupId => groupId

/-- The constructor, with the topology as it leaves it. -/
def make (topology : RuntimeTopology) (base : DynamicStepFcfs) (warmupReqs : Int) (waveSize : Nat)
    (auxGroupId collectiveBackend : Option String) (requireGfcBackend : Bool) :
    Except PyError (RuntimeTopology × WaveStress) := do
  checkConfig topology waveSize collectiveBackend requireGfcBackend
  let topology ← ensureStressSubgroups topology stressGroups
  let _ ← topology.getGroup (auxGroupOr auxGroupId)
  pure (topology, { base, warmupReqs, waveSize, numSeenReqs := 0, heldPlans := [],
                    activeWaveOrder := [], reqRole := ∅, pingpongChunkIdx := ∅, rrCursor := 0,
                    waveReadyByReq := ∅, auxGroupId := auxGroupOr auxGroupId })

def super (x : PolicyM DynamicStepFcfs α) : PolicyM WaveStress α :=
  Prog.zoom (fun w => ⟨w.topology, w.tasks, w.clockNs, w.policy.base⟩)
    (fun v w => ⟨v.topology, v.tasks, v.clockNs, { w.policy with base := v.policy }⟩) x

def modifyPolicy (f : WaveStress → WaveStress) : PolicyM WaveStress Unit :=
  modify fun w => { w with policy := f w.policy }

-- ---------------------------------------------------------------------------
-- Runnable tasks
-- ---------------------------------------------------------------------------

/-- The group of a DiT chunk by its request's role; a ping-pong request walks
the cycle. -/
def roleGroup (task : InferenceTask) : WaveRole → PolicyM WaveStress String
  | .crossG01 => pure "stress_g01"
  | .crossG12 => pure "stress_g12"
  | .crossFull => pure "stress_gfull"
  | .pingpong => do
    match (← get).policy.pingpongChunkIdx.get? task.requestId with
    | none => throw (.keyError task.requestId)
    | some idx =>
      modifyPolicy fun p => { p with
        pingpongChunkIdx := p.pingpongChunkIdx.set task.requestId (idx + 1) }
      pure ((pingpongCycle[idx % pingpongCycle.length]?).getD "stress_gfull")

def selectGroupForTask (task : InferenceTask) : PolicyM WaveStress (Option String) := do
  match (← get).policy.reqRole.get? task.requestId with
  | none =>
    match ← Prog.check ((← get).policy.base.selectGroupForTask task) with
    | some groupId => pure (some groupId)
    | none => pure (some (← get).policy.auxGroupId)
  | some role =>
    if task.kind ≠ .ditStepChunk then pure (some (← get).policy.auxGroupId)
    else some <$> roleGroup task role

def assignGroup (task : InferenceTask) : PolicyM WaveStress Unit := do
  if (← get).tasks.groupId task = none then
    let groupId ← selectGroupForTask task
    modify fun w => w.setGroupId task groupId

def enqueue (p : WaveStress) (task : InferenceTask) (groupId : Option String) : WaveStress :=
  if task.kind ≠ .reshard ∧ p.reqRole.contains task.requestId then
    let queue := p.waveReadyByReq.getD task.requestId []
    { p with waveReadyByReq := p.waveReadyByReq.set task.requestId (queue ++ [task]) }
  else { p with base := p.base.enqueue task groupId }

def enqueueRunnable (task : InferenceTask) : PolicyM WaveStress Unit := do
  assignGroup task
  Prog.check (validateTask (← get).topology task ((← get).tasks.groupId task))
  modify fun w => { w.setStatus task .ready with
    policy := w.policy.enqueue task (w.tasks.groupId task) }

def enqueueRoots (plan : RequestExecutionPlan) : PolicyM WaveStress Unit :=
  plan.rootTasks.forM enqueueRunnable

-- ---------------------------------------------------------------------------
-- Waves
-- ---------------------------------------------------------------------------

def startRole (p : WaveStress) (plan : RequestExecutionPlan) (role : WaveRole) : WaveStress :=
  { p with
    reqRole := p.reqRole.set plan.requestId role
    pingpongChunkIdx :=
      if role = .pingpong then p.pingpongChunkIdx.set plan.requestId 0 else p.pingpongChunkIdx
    activeWaveOrder := p.activeWaveOrder ++ [plan.requestId] }

/-- The first held plans take the roles of a wave. -/
def startWave (p : WaveStress) : WaveStress :=
  let pairs := (p.heldPlans.take p.waveSize).zip (waveRoles.take p.waveSize)
  let p := pairs.foldl (fun p pair => p.startRole pair.1 pair.2)
    { p with heldPlans := p.heldPlans.drop p.waveSize }
  { p with rrCursor := 0 }

def activateNextWave : PolicyM WaveStress Unit := do
  if (← get).policy.activeWaveOrder ≠ [] then
    throw (.assertionError "previous wave must drain before activating next")
  else
    let p := (← get).policy
    modifyPolicy startWave
    (p.heldPlans.take p.waveSize).forM enqueueRoots

def flushHeldPlansAsWarmup : PolicyM WaveStress Unit := do
  let plans := (← get).policy.heldPlans
  modifyPolicy fun p => { p with heldPlans := [] }
  plans.forM enqueueRoots

-- ---------------------------------------------------------------------------
-- Dispatch
-- ---------------------------------------------------------------------------

def popReady (p : WaveStress) (requestId : String) (rest : List InferenceTask) : WaveStress :=
  if rest = [] then { p with waveReadyByReq := p.waveReadyByReq.erase requestId }
  else { p with waveReadyByReq := p.waveReadyByReq.set requestId rest }

def takeHead (requestId : String) : PolicyM WaveStress (Option InferenceTask) := do
  match (← get).policy.waveReadyByReq.getD requestId [] with
  | [] => pure none
  | task :: rest =>
    let groupId := ((← get).tasks.groupId task).getD ""
    let group ← World.getGroup groupId
    if (← get).policy.base.accounts.canDispatchRanks group.ranks then
      modifyPolicy fun p => p.popReady requestId rest
      modify fun w => w.setStatus task .dispatched
      modifyPolicy fun p => { p with base := { p.base with
        accounts := p.base.accounts.dispatch task groupId group.ranks } }
      pure (some task)
    else pure none

/-- The round-robin: a dispatch starts the lap anew, a lap without one ends
the loop. -/
def takeLaps (n : Nat) : Nat → Nat → PolicyM WaveStress (List InferenceTask)
  | 0, _ => pure []
  | turns + 1, attempts => do
    if attempts < n then
      match (← get).policy.activeWaveOrder[(← get).policy.rrCursor]? with
      | none => throw (.indexError "list index out of range")
      | some requestId =>
        let dispatched ← takeHead requestId
        modifyPolicy fun p => { p with rrCursor := (p.rrCursor + 1) % n }
        match dispatched with
        | some task => (task :: ·) <$> takeLaps n turns 0
        | none => takeLaps n turns (attempts + 1)
    else pure []

def waveQueued (p : WaveStress) : Nat := (p.waveReadyByReq.values.map List.length).sum

/-- The loop ends within a lap for each waiting task and a last one. -/
def takeWaveDispatchable : PolicyM WaveStress (List InferenceTask) := do
  let p := (← get).policy
  let n := p.activeWaveOrder.length
  takeLaps n (n * (p.waveQueued + 1)) 0

def takeDispatchableTasks : PolicyM WaveStress (List InferenceTask) := do
  let out ← super DynamicStepFcfs.takeDispatchableTasks
  let wave ← takeWaveDispatchable
  pure (out ++ wave)

-- ---------------------------------------------------------------------------
-- Handlers
-- ---------------------------------------------------------------------------

def onTasksRunnable (tasks : List InferenceTask) : PolicyM WaveStress (List InferenceTask) := do
  tasks.forM enqueueRunnable
  takeDispatchableTasks

def onRequestSubmitted (plan : RequestExecutionPlan) : PolicyM WaveStress (List InferenceTask) := do
  modifyPolicy fun p => { p with numSeenReqs := p.numSeenReqs + 1 }
  if (← get).policy.numSeenReqs ≤ (← get).policy.warmupReqs then onTasksRunnable plan.rootTasks
  else
    modifyPolicy fun p => { p with heldPlans := p.heldPlans ++ [plan] }
    let p := (← get).policy
    if p.activeWaveOrder = [] ∧ p.waveSize ≤ p.heldPlans.length then
      activateNextWave
      takeDispatchableTasks
    else pure []

def leaveWave (p : WaveStress) (requestId : String) : WaveStress :=
  if p.reqRole.contains requestId then
    let order := p.activeWaveOrder.erase requestId
    { p with
      reqRole := p.reqRole.erase requestId
      pingpongChunkIdx := p.pingpongChunkIdx.erase requestId
      activeWaveOrder := order
      rrCursor :=
        if requestId ∉ p.activeWaveOrder then p.rrCursor
        else if order = [] then 0
        else p.rrCursor % order.length }
  else p

def dropRequest (requestId : String) : PolicyM WaveStress Unit := do
  modifyPolicy fun p => ({ p with
    base := p.base.dropRequest requestId
    waveReadyByReq := p.waveReadyByReq.erase requestId }).leaveWave requestId
  let p := (← get).policy
  if p.activeWaveOrder = [] then
    if p.waveSize ≤ p.heldPlans.length then activateNextWave
    else if p.heldPlans ≠ [] then flushHeldPlansAsWarmup

def onWorkerEvent (event : WorkerEvent) : PolicyM WaveStress (List InferenceTask) := do
  if event.kind.endsTask then super (DynamicStepFcfs.releaseTask event.taskId)
  if event.kind.endsRequest then dropRequest event.requestId
  takeDispatchableTasks

def policy : SchedulerPolicy WaveStress where
  onRequestSubmitted := onRequestSubmitted
  onTasksRunnable := onTasksRunnable
  onWorkerEvent := onWorkerEvent
  acquireMigrationHold ranks := super (DynamicStepFcfs.acquireMigrationHold ranks)
  releaseMigrationHold ranks := super (DynamicStepFcfs.releaseMigrationHold ranks)

end WaveStress

end GfDit
