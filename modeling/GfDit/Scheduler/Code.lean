import GfDit.Scheduler.Basic

/-!
# The global scheduler

The methods of `GlobalScheduler`. A task that cannot start its migration is
failed by an event that the scheduler handles on the spot, from inside the
loop that was dispatching it, so the methods below take the handler they
re-enter as an argument. `handleWorkerEvent` ties the knot: every level of
the recursion fails one more task of the index, which bounds its depth.
-/

namespace GfDit

def PyError.text : PyError → String
  | .valueError message | .runtimeError message | .typeError message | .assertionError message
  | .notImplementedError message | .timeoutError message | .overflowError message
  | .indexError message | .attributeError message => message
  | .keyError key => quoted key
  | .recursionError => "maximum recursion depth exceeded"

namespace Scheduler

variable {σ : Type} (rt : Runtime σ)

-- ---------------------------------------------------------------------------
-- The worker pool
-- ---------------------------------------------------------------------------

/-- The pool expects the events of a task from the ranks of its group. -/
def registerTaskDispatch (task : InferenceTask) (groupId : String) (s : Scheduler σ) :
    Scheduler σ :=
  { s with taskDispatchState := s.taskDispatchState.set task.taskId groupId }

def sendTask (task : InferenceTask) : Option String → SchedM σ Unit
  | none => throw (.valueError "task must have an assigned group before dispatch")
  | some groupId => do
    let _ ← getGroup groupId
    modify (registerTaskDispatch task groupId)

def poolDispatch (task : InferenceTask) (inlineInputs : List ArtifactValue)
    (releaseAfterExec : List String) : SchedM σ Unit := do
  let groupId := (← get).world.tasks.groupId task
  modify fun s => s.enter (.dispatched task groupId inlineInputs releaseAfterExec)
  sendTask task groupId

def checkCodecs (plan : MigrateArtifactsPlan) : Except PyError Unit :=
  match plan.artifacts.find? fun spec => !spec.handle.hasCodec with
  | none => pure ()
  | some spec =>
    throw (.valueError s!"migration artifact {spec.handle.artifactId} has no codec_id")

def countMigration (task : InferenceTask) (s : Scheduler σ) : Scheduler σ :=
  { s with migrationsBegun := s.migrationsBegun + 1, log := .began task :: s.log }

def addMigration (m : Migration) (s : Scheduler σ) : Scheduler σ :=
  { s with migrations := s.migrations ++ [m] }

def beginMigration (plan : MigrateArtifactsPlan) (waiter : Waiter) : SchedM σ Unit := do
  let migrateId := (← get).migrationsBegun
  modify (countMigration waiter.task)
  match rt.beginRaises migrateId with
  | some e => throw e
  | none =>
    let _ ← getGroup plan.srcGroupId
    let _ ← getGroup plan.dstGroupId
    Prog.check (checkCodecs plan)
    modify (addMigration ⟨migrateId, plan, waiter⟩)

-- ---------------------------------------------------------------------------
-- Finalizing a dispatch
-- ---------------------------------------------------------------------------

def consumeInput (refcounts : Dict ArtifactKey Nat) (artifact : ArtifactHandle) :
    Dict ArtifactKey Nat × Bool :=
  match refcounts.get? artifact.key with
  | none => (refcounts, false)
  | some remaining =>
    if remaining - 1 = 0 then (refcounts.erase artifact.key, true)
    else (refcounts.set artifact.key (remaining - 1), false)

/-- The inputs to send along, and the artifacts to release after execution. -/
def finalizeInputs : List ArtifactHandle → SchedM σ (List ArtifactValue × List String)
  | [] => pure ([], [])
  | artifact :: artifacts => do
    let stored ← storeFind artifact
    let (refcounts, last) := consumeInput (← get).artifactRefcounts artifact
    modify fun s => { s with artifactRefcounts := refcounts }
    let (inline, release) ← finalizeInputs artifacts
    let inline := match stored with
      | .host value => ⟨artifact, value⟩ :: inline
      | .workerLocal _ => inline
    pure (inline, if last then artifact.artifactId :: release else release)

def finalizeTaskDispatch (task : InferenceTask) : SchedM σ Unit := do
  let (inline, release) ← finalizeInputs task.inputs
  poolDispatch task inline release

-- ---------------------------------------------------------------------------
-- Clean-up
-- ---------------------------------------------------------------------------

def plannedTasks (s : Scheduler σ) (requestId : String) : List String :=
  match s.plans.get? requestId with
  | some plan => plan.tasks.keys
  | none => []

def cleanupRequestWorkerState (requestId : String) (s : Scheduler σ) : Scheduler σ :=
  if requestId ∈ s.cleanedRequests then s
  else
    let taskIds := s.plannedTasks requestId
    { s with
      cleanedRequests := requestId :: s.cleanedRequests
      pendingOutputFetches := s.pendingOutputFetches.erase requestId
      artifactRefcounts :=
        s.artifactRefcounts.eraseAll (s.requestArtifacts.getD requestId [])
      requestArtifacts := s.requestArtifacts.erase requestId
      artifactStore := s.artifactStore.evictRequest requestId
      plans := s.plans.erase requestId
      taskIndex := s.taskIndex.eraseAll taskIds
      pendingDependencies := s.pendingDependencies.eraseAll taskIds
      dependents := s.dependents.eraseAll taskIds
      parkedPending := s.parkedPending.eraseAll taskIds
      log := .cleaned requestId :: s.log }

def releaseRequest (requestId : String) (s : Scheduler σ) : Scheduler σ :=
  let s := s.cleanupRequestWorkerState requestId
  { s with
    completedOutputs := s.completedOutputs.erase requestId
    failedRequests := s.failedRequests.erase requestId }

/-- `failed_requests.setdefault`. -/
def failRequest (requestId message : String) (s : Scheduler σ) : Scheduler σ :=
  if s.failedRequests.contains requestId then s
  else { s with
    failedRequests := s.failedRequests.set requestId message
    log := .failed requestId :: s.log }

def deliveryKey (requestId : String) (kind : WorkerEventKind) : String :=
  requestId ++ ":" ++ kind.value

def deliver (requestId : String) (kind : WorkerEventKind) (s : Scheduler σ) : Scheduler σ :=
  { s with releasedRequests := deliveryKey requestId kind :: s.releasedRequests }

def markRequestEventDelivered (requestId : String) (kind : WorkerEventKind) : SchedM σ Bool := do
  if deliveryKey requestId kind ∈ (← get).releasedRequests then pure false
  else
    modify (deliver requestId kind)
    pure true

-- ---------------------------------------------------------------------------
-- Dispatch
-- ---------------------------------------------------------------------------

def unpark (task : InferenceTask) (s : Scheduler σ) : Scheduler σ :=
  { s with parkedPending := s.parkedPending.erase task.taskId }

def park (task : InferenceTask) (groupId : String) (cross : List ArtifactHandle)
    (s : Scheduler σ) : Scheduler σ :=
  { s with
    parkedPending := s.parkedPending.set task.taskId cross.length
    log := .parked task groupId cross :: s.log }

section Reentrant

variable (reenter : WorkerEvent → SchedM σ Unit)

def fireSyntheticEvent (task : InferenceTask) (kind : WorkerEventKind) (groupId message : String)
    (publishedOutputs : List WorkerLocalArtifactRef) : SchedM σ Unit := do
  reenter ⟨task.taskId, task.requestId, groupId, kind, (← get).world.clockNs, message,
    publishedOutputs⟩

def failParkedTask (task : InferenceTask) (reason : String) (groupId : Option String) :
    SchedM σ Unit := do
  if task.taskId ∈ (← get).failedTasks then pure ()
  else
    let own := ((← get).world.tasks.groupId task).getD ""
    fireSyntheticEvent reenter task .taskFailed (groupId.getD own) reason []

/-- The `_on_error` of an implicit migration. -/
def inputMigrationError (task : InferenceTask) (holdRanks : List Rank) (e : PyError) :
    SchedM σ Unit := do
  let _ ← ask rt.policy (.release holdRanks)
  modify (unpark task)
  failParkedTask reenter task s!"implicit migration failed: {e.text}" none

def reshardError (task : InferenceTask) (dstGroupId : String) (e : PyError) : SchedM σ Unit :=
  failParkedTask reenter task s!"reshard task {task.taskId} failed: {e.text}" (some dstGroupId)

def noCodecError (task : InferenceTask) (artifact : ArtifactHandle) (src dst : String) : PyError :=
  .runtimeError <| s!"task {task.taskId} input " ++ quoted artifact.artifactId ++
    " requires migration from group " ++ quoted src ++ " to " ++ quoted dst ++
    ", but has no codec_id"

def noGroupError (task : InferenceTask) : PyError :=
  .valueError s!"task {task.taskId} has no assigned group_id before dispatch"

def beginImplicitMigration (task : InferenceTask) (artifact : ArtifactHandle) : SchedM σ Unit := do
  match ← storeFind artifact with
  -- not reached: only references need a migration
  | .host _ => throw (.attributeError "group_id")
  | .workerLocal stored =>
    match (← get).world.tasks.groupId task with
    -- not reached: the group was looked up before
    | none => throw (.keyError "None")
    | some groupId =>
      if artifact.hasCodec then
        let src ← getGroup stored.groupId
        let dst ← getGroup groupId
        let holdRanks := sortedUnion src.ranks dst.ranks
        let _ ← ask rt.policy (.acquire holdRanks)
        let spec ← Prog.check (MigrateArtifactSpec.make artifact none)
        if (← get).plans.contains task.requestId then
          let plan ← Prog.check
            (MigrateArtifactsPlan.make task.requestId stored.groupId groupId [spec])
          Prog.catching (beginMigration rt plan (.input task artifact groupId holdRanks))
            (inputMigrationError rt reenter task holdRanks)
        else throw (.keyError task.requestId)
      else throw (noCodecError task artifact stored.groupId groupId)

def needsMigration (groupId : String) : StoredValue → Bool
  | .host _ => false
  | .workerLocal ref => groupId ≠ ref.groupId

/-- The inputs that live on another group. -/
def crossGroup (store : ArtifactStore) (groupId : String) :
    List ArtifactHandle → Except PyError (List ArtifactHandle)
  | [] => pure []
  | artifact :: artifacts => do
    let stored ← store.find artifact
    let rest ← crossGroup store groupId artifacts
    pure (if needsMigration groupId stored then artifact :: rest else rest)

def reshardSpecs (task : InferenceTask) :
    List (ArtifactHandle × ArtifactHandle) → Except PyError (List MigrateArtifactSpec)
  | [] => pure []
  | (input, output) :: rest => do
    if output.hasCodec then
      let source := if input.artifactId ≠ output.artifactId then some input else none
      let spec ← MigrateArtifactSpec.make output source
      let specs ← reshardSpecs task rest
      pure (spec :: specs)
    else
      throw (.valueError <| s!"RESHARD task {task.taskId} output " ++ quoted output.artifactId ++
        " requires codec_id; the codec is needed to extract/assemble tensors during migration")

def checkReshardInputs (store : ArtifactStore) (task : InferenceTask) (src : String) :
    List ArtifactHandle → Except PyError Unit
  | [] => pure ()
  | input :: inputs => do
    match ← store.find input with
    | .host _ =>
      throw (.runtimeError <| s!"RESHARD task {task.taskId} input " ++ quoted input.artifactId ++
        " is not a WorkerLocalArtifactRef; RESHARD only migrates worker-local artifacts " ++
        "produced by a prior task.")
    | .workerLocal ref =>
      if ref.groupId = src then checkReshardInputs store task src inputs
      else
        throw (.runtimeError <| s!"RESHARD task {task.taskId} input " ++
          quoted input.artifactId ++ " lives on group " ++ quoted ref.groupId ++
          ", but payload says src_group_id=" ++ quoted src)

def missingPayload (task : InferenceTask) (key : String) : PyError :=
  .valueError <| s!"RESHARD task {task.taskId} payload missing " ++ quoted key

/-- What `_dispatch_reshard_task` checks before it changes anything: the two
groups and the artifacts to move. -/
def checkReshard (store : ArtifactStore) (task : InferenceTask) :
    Except PyError (String × String × List MigrateArtifactSpec) := do
  match task.payloadText reshardPayloadSrcGroupId with
  | none => throw (missingPayload task reshardPayloadSrcGroupId)
  | some src =>
    match task.payloadText reshardPayloadDstGroupId with
    | none => throw (missingPayload task reshardPayloadDstGroupId)
    | some dst =>
      if task.inputs = [] then
        throw (.valueError s!"RESHARD task {task.taskId} requires at least one input artifact")
      else if task.outputs = [] then
        throw (.valueError s!"RESHARD task {task.taskId} requires at least one output artifact")
      else if task.inputs.length ≠ task.outputs.length then
        throw (.valueError <| s!"RESHARD task {task.taskId} input/output count mismatch: " ++
          s!"{task.inputs.length} inputs vs {task.outputs.length} outputs")
      else
        let specs ← reshardSpecs task (task.inputs.zip task.outputs)
        checkReshardInputs store task src task.inputs
        pure (src, dst, specs)

def consumeInputs (refcounts : Dict ArtifactKey Nat) (inputs : List ArtifactHandle) :
    Dict ArtifactKey Nat :=
  inputs.foldl (fun refcounts artifact => (consumeInput refcounts artifact).1) refcounts

def consumeReshard (task : InferenceTask) (s : Scheduler σ) : Scheduler σ :=
  { s with
    artifactRefcounts := consumeInputs s.artifactRefcounts task.inputs
    log := .resharded task :: s.log }

def dispatchReshardTask (task : InferenceTask) : SchedM σ Unit := do
  let (src, dst, specs) ← Prog.check (checkReshard (← get).artifactStore task)
  modify (consumeReshard task)
  if (← get).plans.contains task.requestId then
    let plan ← Prog.check (MigrateArtifactsPlan.make task.requestId src dst specs)
    modify fun s => s.setStatus task .running
    Prog.catching (beginMigration rt plan (.reshard task dst)) (reshardError reenter task dst)
  else throw (.keyError task.requestId)

def dispatchTask (task : InferenceTask) : SchedM σ Unit := do
  if task.kind = .reshard then dispatchReshardTask rt reenter task
  else
    match (← get).world.tasks.groupId task with
    | none => throw (noGroupError task)
    | some groupId =>
      let _ ← getGroup groupId
      let cross ← Prog.check (crossGroup (← get).artifactStore groupId task.inputs)
      if cross = [] then finalizeTaskDispatch task
      else
        modify (park task groupId cross)
        cross.forM (beginImplicitMigration rt reenter task)

def dispatchTasks (tasks : List InferenceTask) : SchedM σ Unit :=
  tasks.forM (dispatchTask rt reenter)

def passEvent (event : WorkerEvent) : SchedM σ Unit := do
  let tasks ← ask rt.policy (.event event)
  dispatchTasks rt reenter tasks

def emitRequestEvent (requestId groupId : String) (kind : WorkerEventKind) (message : String) :
    SchedM σ Unit := do
  if ← markRequestEventDelivered requestId kind then
    passEvent rt reenter ⟨"", requestId, groupId, kind, (← get).world.clockNs, message, []⟩

-- ---------------------------------------------------------------------------
-- Events
-- ---------------------------------------------------------------------------

/-- Count a launched task off its dependents. The tasks that wait for nothing
more are looked up in the index. -/
def countDown (index : Dict String InferenceTask) :
    List String → Dict String Int → Dict String Int × Except PyError (List InferenceTask)
  | [], pending => (pending, pure [])
  | dependent :: rest, pending =>
    match pending.get? dependent with
    | none => countDown index rest pending
    | some n =>
      let pending := pending.set dependent (n - 1)
      if n - 1 = 0 then
        match index.get? dependent with
        | none => (pending, throw (.keyError dependent))
        | some task =>
          let (pending, newly) := countDown index rest pending
          (pending, (task :: ·) <$> newly)
      else countDown index rest pending

/-- The tasks that a launch makes runnable. A failed request has none. -/
def newlyRunnable (s : Scheduler σ) (task : InferenceTask) :
    Dict String Int × Except PyError (List InferenceTask) :=
  if s.failedRequests.contains task.requestId then (s.pendingDependencies, pure [])
  else countDown s.taskIndex (s.dependents.getD task.taskId []) s.pendingDependencies

def launch (task : InferenceTask) (pending : Dict String Int) (s : Scheduler σ) : Scheduler σ :=
  { s with pendingDependencies := pending, log := .launched task :: s.log }

/-- A published output goes to the store. -/
def publish (s : Scheduler σ) (ref : WorkerLocalArtifactRef) : Scheduler σ :=
  { s with
    artifactStore := s.artifactStore.put ref.handle (.workerLocal ref)
    log := .produced ref :: s.log }

def handleLaunchEnd (task : InferenceTask) (event : WorkerEvent) : SchedM σ Unit := do
  passEvent rt reenter event
  modify fun s => event.publishedOutputs.foldl publish s
  let (pending, newly) := (← get).newlyRunnable task
  modify (launch task pending)
  let tasks ← ask rt.policy (.runnable (← Prog.check newly))
  dispatchTasks rt reenter tasks

def handleExecEnd (task : InferenceTask) (event : WorkerEvent) : SchedM σ Unit := do
  modify fun s => s.setStatus task .finished
  passEvent rt reenter event
  match (← get).plans.get? task.requestId with
  | none => throw (.keyError task.requestId)
  | some plan =>
    if task.taskId ∈ plan.terminalTaskIds then
      emitRequestEvent rt reenter task.requestId event.groupId .requestFinished ""

def messageOr (message default : String) : String := if message = "" then default else message

def markFailed (task : InferenceTask) (message : String) (s : Scheduler σ) : Scheduler σ :=
  (({ s with failedTasks := task.taskId :: s.failedTasks }).setStatus task .failed).failRequest
    task.requestId (messageOr message s!"task {task.taskId} failed")

def handleTaskFailed (task : InferenceTask) (event : WorkerEvent) : SchedM σ Unit := do
  if task.taskId ∈ (← get).failedTasks then pure ()
  else
    modify (markFailed task event.message)
    passEvent rt reenter event
    emitRequestEvent rt reenter task.requestId event.groupId .requestFailed event.message
    modify (cleanupRequestWorkerState task.requestId)

def handleRequestFinished (event : WorkerEvent) : SchedM σ Unit := do
  if ← markRequestEventDelivered event.requestId event.kind then passEvent rt reenter event

def handleRequestFailed (event : WorkerEvent) : SchedM σ Unit := do
  if ← markRequestEventDelivered event.requestId event.kind then
    modify (failRequest event.requestId
      (messageOr event.message s!"request {event.requestId} failed"))
    passEvent rt reenter event
    modify (cleanupRequestWorkerState event.requestId)

def handleTaskEvent (task : InferenceTask) (event : WorkerEvent) : SchedM σ Unit :=
  match event.kind with
  | .taskExecBegin => modify fun s => s.setStatus task .running
  | .taskLaunchEnd => handleLaunchEnd rt reenter task event
  | .taskExecEnd => handleExecEnd rt reenter task event
  | .taskFailed => handleTaskFailed rt reenter task event
  | .taskLaunchBegin | .requestFinished | .requestFailed => pure ()

/-- One level of `_handle_worker_event`. -/
def handleWith (event : WorkerEvent) : SchedM σ Unit := do
  match event.kind with
  | .requestFinished => handleRequestFinished rt reenter event
  | .requestFailed => handleRequestFailed rt reenter event
  | _ =>
    match (← get).taskIndex.get? event.taskId with
    | none => pure ()
    | some task => handleTaskEvent rt reenter task event

end Reentrant

def handleDepth : Nat → WorkerEvent → SchedM σ Unit
  | 0 => fun _ => throw .recursionError
  | depth + 1 => handleWith rt (handleDepth depth)

def handleWorkerEvent (event : WorkerEvent) : SchedM σ Unit := do
  handleDepth rt ((← get).taskIndex.length + 2) event

-- ---------------------------------------------------------------------------
-- Migration callbacks
-- ---------------------------------------------------------------------------

def land (task : InferenceTask) (artifact : ArtifactHandle) (groupId : String) (workerRank : Rank)
    (outstanding : Nat) (s : Scheduler σ) : Scheduler σ :=
  { s with
    artifactStore := s.artifactStore.put artifact (.workerLocal ⟨artifact, groupId, workerRank⟩)
    parkedPending := if outstanding = 0 then s.parkedPending.erase task.taskId
      else s.parkedPending.set task.taskId outstanding
    log := .migrated task artifact groupId :: s.log }

/-- The `_on_done` of an implicit migration. -/
def inputMigrationDone (task : InferenceTask) (artifact : ArtifactHandle) (dstGroupId : String)
    (holdRanks : List Rank) : SchedM σ Unit := do
  let _ ← ask rt.policy (.release holdRanks)
  let s ← get
  match s.parkedPending.get? task.taskId, s.failedRequests.contains task.requestId with
  | some outstanding, false =>
    let workerRank ← getGroupLeader dstGroupId
    modify (land task artifact dstGroupId workerRank (outstanding - 1))
    if outstanding - 1 = 0 then finalizeTaskDispatch task
  | _, _ =>
    modify (unpark task)
    failParkedTask (handleWorkerEvent rt) task "request failed during implicit migration" none

def reshardDone (task : InferenceTask) (dstGroupId : String) : SchedM σ Unit := do
  let s ← get
  if s.failedRequests.contains task.requestId ∨ task.taskId ∈ s.failedTasks then
    failParkedTask (handleWorkerEvent rt) task "request failed during reshard" none
  else
    let workerRank ← getGroupLeader dstGroupId
    let publishedOutputs := task.outputs.map fun output => ⟨output, dstGroupId, workerRank⟩
    fireSyntheticEvent (handleWorkerEvent rt) task .taskLaunchEnd dstGroupId "" publishedOutputs
    fireSyntheticEvent (handleWorkerEvent rt) task .taskExecEnd dstGroupId "" []

def retire (migrateId : Nat) (s : Scheduler σ) : Scheduler σ :=
  { s with migrations := s.migrations.filter fun m => m.migrateId ≠ migrateId }

def migrationDone (m : Migration) : SchedM σ Unit := do
  modify (retire m.migrateId)
  match m.waiter with
  | .input task artifact dstGroupId holdRanks =>
    inputMigrationDone rt task artifact dstGroupId holdRanks
  | .reshard task dstGroupId => reshardDone rt task dstGroupId

def migrationFailed (m : Migration) (e : PyError) : SchedM σ Unit := do
  modify (retire m.migrateId)
  match m.waiter with
  | .input task _ _ holdRanks =>
    inputMigrationError rt (handleWorkerEvent rt) task holdRanks e
  | .reshard task dstGroupId => reshardError (handleWorkerEvent rt) task dstGroupId e

-- ---------------------------------------------------------------------------
-- Submission
-- ---------------------------------------------------------------------------

/-- What `submit_request` checks of a task. -/
def checkTask (topology : RuntimeTopology) (task : InferenceTask) (groupId : Option String) :
    Except PyError Unit :=
  if task.kind = .reshard then
    match groupId with
    | some groupId => throw (mustHaveNoGroup task groupId)
    | none => checkReshardPayload topology task
  else
    match groupId with
    | some groupId => do
      let group ← topology.getGroup groupId
      if task.kind ∈ group.supportedTaskKinds then pure ()
      else
        throw (.valueError <| s!"task {task.taskId} is pinned to unsupported group " ++
          quoted groupId ++ s!" for kind={task.kind.value}")
    | none =>
      if topology.selectGroupForTask task.kind = none then
        throw (.valueError s!"no execution group supports task kind {task.kind.value}")
      else pure ()

/-- A plan is taken in with its initial artifacts. -/
def accept (plan : RequestExecutionPlan) (s : Scheduler σ) : Scheduler σ :=
  { s with
    plans := s.plans.set plan.requestId plan
    artifactStore := plan.initialArtifacts.foldl
      (fun store artifact => store.put artifact.handle (.host artifact.value)) s.artifactStore
    log := .accepted plan :: s.log }

def indexTask (task : InferenceTask) (s : Scheduler σ) : Scheduler σ :=
  { s with
    taskIndex := s.taskIndex.set task.taskId task
    pendingDependencies := s.pendingDependencies.set task.taskId task.dependencies.length
    artifactRefcounts := Counter.raiseAll s.artifactRefcounts (task.inputs.map ArtifactHandle.key)
    dependents := s.dependents.groupAll (task.dependencies.map fun dependency =>
      (dependency, task.taskId))
    log := .indexed task :: s.log }

def indexTasks : List InferenceTask → SchedM σ Unit
  | [] => pure ()
  | task :: tasks => do
    let s ← get
    Prog.check (checkTask s.world.topology task (s.world.tasks.groupId task))
    modify (indexTask task)
    indexTasks tasks

def planArtifacts (plan : RequestExecutionPlan) : List ArtifactKey :=
  plan.tasks.values.flatMap (fun task => (task.inputs ++ task.outputs).map ArtifactHandle.key) ++
    plan.initialArtifacts.map fun artifact => artifact.handle.key

def listArtifacts (plan : RequestExecutionPlan) (s : Scheduler σ) : Scheduler σ :=
  { s with requestArtifacts := s.requestArtifacts.set plan.requestId (planArtifacts plan) }

/-- `submit_request`, from the compiled plan on. -/
def submitRequest (plan : RequestExecutionPlan) : SchedM σ Unit := do
  modify (accept plan)
  indexTasks plan.tasks.values
  modify (listArtifacts plan)
  let tasks ← ask rt.policy (.submitted plan)
  dispatchTasks rt (handleWorkerEvent rt) tasks

-- ---------------------------------------------------------------------------
-- Status and outputs
-- ---------------------------------------------------------------------------

structure FetchArtifactsResult where
  artifacts : List ArtifactValue
  error : Option String

def failRequestFromFetchError (requestId message : String) (s : Scheduler σ) : Scheduler σ :=
  (s.failRequest requestId message).cleanupRequestWorkerState requestId

def completeOutput (requestId : String) (value : HostValue) (s : Scheduler σ) : Scheduler σ :=
  ({ s with completedOutputs := s.completedOutputs.set requestId value }).cleanupRequestWorkerState
    requestId

/-- `_try_finish_request_output_fetch`, with what `poll_fetch_artifacts`
returns. -/
def tryFinishRequestOutputFetch (requestId : String) (fetch : Option FetchArtifactsResult)
    (s : Scheduler σ) : Scheduler σ :=
  match s.pendingOutputFetches.get? requestId, fetch with
  | some pending, some fetch =>
    let s := { s with pendingOutputFetches := s.pendingOutputFetches.erase requestId }
    match fetch.error.filter (· ≠ ""), fetch.artifacts with
    | some error, _ => s.failRequestFromFetchError requestId error
    | none, [] =>
      s.failRequestFromFetchError requestId
        s!"runtime_v2 fetch returned empty artifacts: request_id={requestId} fetch_id={pending.fetchId}"
    | none, artifact :: _ =>
      let s := { s with
        artifactStore := s.artifactStore.put artifact.handle (.host artifact.value) }
      s.completeOutput requestId artifact.value
  | _, _ => s

/-- Whether a terminal task is in the index and finished. -/
def terminalFinished (s : Scheduler σ) (taskId : String) : Except PyError Bool :=
  match s.taskIndex.get? taskId with
  | none => throw (.keyError taskId)
  | some task => pure (s.world.tasks.status task = .finished)

def allFinished (s : Scheduler σ) : List String → Except PyError Bool
  | [] => pure true
  | taskId :: taskIds => do
    let finished ← s.terminalFinished taskId
    let rest ← s.allFinished taskIds
    pure (finished && rest)

def tryStartRequestOutputFetch (requestId : String) : SchedM σ Unit := do
  let s ← get
  match s.plans.get? requestId with
  | none => throw (.keyError requestId)
  | some plan =>
    if ← Prog.check (s.allFinished plan.terminalTaskIds) then
      if s.pendingOutputFetches.contains requestId then pure ()
      else
        match plan.terminalTaskIds with
        | [] => throw (.indexError "tuple index out of range")
        | taskId :: _ =>
          match s.taskIndex.get? taskId with
          | none => throw (.keyError taskId)
          | some terminal =>
            match terminal.outputs with
            | [] => pure ()
            | output :: _ =>
              match ← storeFind output with
              | .workerLocal ref =>
                let _ ← getGroupLeader ref.groupId
                modify fun s => { s with
                  fetchesStarted := s.fetchesStarted + 1
                  pendingOutputFetches := s.pendingOutputFetches.set requestId
                    ⟨s.fetchesStarted, output, ref.groupId⟩ }
              | .host value => modify (completeOutput requestId value)

def tryCollectRequestOutput (requestId : String) (fetch : Option FetchArtifactsResult) :
    SchedM σ Unit := do
  modify (tryFinishRequestOutputFetch requestId fetch)
  let s ← get
  if s.completedOutputs.contains requestId ∨ ¬ s.plans.contains requestId then pure ()
  else tryStartRequestOutputFetch requestId

inductive RequestStatus
  | pending
  | finished (output : HostValue)
  | failed (message : String)
  deriving DecidableEq

def getRequestStatus (requestId : String) (fetch : Option FetchArtifactsResult) :
    SchedM σ RequestStatus := do
  let s ← get
  match s.failedRequests.get? requestId, s.completedOutputs.get? requestId with
  | some message, _ => pure (.failed message)
  | none, some output => pure (.finished output)
  | none, none =>
    if ¬ s.plans.contains requestId ∧ ¬ s.pendingOutputFetches.contains requestId then
      pure .pending
    else
      tryCollectRequestOutput requestId fetch
      let s ← get
      match s.completedOutputs.get? requestId, s.failedRequests.get? requestId with
      | some output, _ => pure (.finished output)
      | none, some message => pure (.failed message)
      | none, none => pure .pending

-- ---------------------------------------------------------------------------
-- Polling
-- ---------------------------------------------------------------------------

/-- What a pump of the engine reports of a migration. -/
inductive Callback
  | done (m : Migration)
  | failed (m : Migration) (e : PyError)

def Callback.migration : Callback → Migration
  | .done m | .failed m _ => m

def Callback.run : Callback → SchedM σ Unit
  | .done m => migrationDone rt m
  | .failed m e => migrationFailed rt m e

/-- What the pool's queue holds: events, and notices of workers that died. -/
inductive PolledEvent
  | event (event : WorkerEvent)
  | workerReady (workerRank : Rank) (status message : String)

/-- The pool hands an event over; the end of a task ends its entry. -/
def receive (event : WorkerEvent) (s : Scheduler σ) : Scheduler σ :=
  { s with
    taskDispatchState := if event.kind.endsTask then s.taskDispatchState.erase event.taskId
      else s.taskDispatchState
    log := .received event :: s.log }

def handlePolled : PolledEvent → SchedM σ Unit
  | .event event => do
    modify (receive event)
    handleWorkerEvent rt event
  | .workerReady workerRank status message =>
    let message := messageOr message s!"runtime_v2 worker {workerRank} exited unexpectedly"
    throw (.runtimeError <| s!"runtime_v2 worker {workerRank} died (status=" ++ quoted status ++
      "): " ++ message)

/-- `poll_once`, with what the two pumps and the poll in between bring. -/
def pollOnce (first : List Callback) (events : List PolledEvent) (second : List Callback) :
    SchedM σ Unit := do
  first.forM (Callback.run rt)
  second.forM (Callback.run rt)
  events.forM (handlePolled rt)

end Scheduler

end GfDit
