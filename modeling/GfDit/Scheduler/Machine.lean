import GfDit.Lib.Agenda
import GfDit.Scheduler.Code

/-!
# The scheduler as a machine with an agenda

A call of the scheduler can nest: it fails a task from inside the loop over
the tasks a policy has returned, and the policy's answer to that failure is
dispatched before the loop goes on. `Move` says once what the scheduler can
do, and what it then still owes: a task returned and not yet dispatched, an
input whose migration is to be begun, the end of a task that the policy has
to hear of. `Stop` is what an exception may leave behind. Every method is
then a run of this machine, and the results about runs need only look at the
moves.
-/

namespace GfDit

/-- What a call of the scheduler has taken on. -/
inductive Duty
  -- returned by the policy and not yet dispatched
  | task (task : InferenceTask)
  -- an input of a parked task: to be held, to be begun, refused by the pool
  | input (task : InferenceTask) (artifact : ArtifactHandle)
  | held (task : InferenceTask) (artifact : ArtifactHandle) (groupId : String)
      (holdRanks : List Rank)
  | refused (task : InferenceTask)
  -- a RESHARD whose inputs are consumed
  | start (task : InferenceTask)
  -- given to the pool, which has not entered it yet
  | send (task : InferenceTask) (groupId : Option String)
  -- a migration that has ended, with its hold and then without
  | retired (m : Migration)
  | freed (m : Migration)
  -- a TASK_LAUNCH_END, and then its task when it is in the index
  | launch (event : WorkerEvent)
  | count (task : InferenceTask) (event : WorkerEvent)
  -- the end of a task, and then whether it ends its request
  | finish (taskId : String)
  | check (task : InferenceTask)
  -- the end of a request, told by a worker
  | request (event : WorkerEvent)
  -- the clean-up of a failed request
  | clean (requestId : String)
  -- a request to be released
  | release (requestId : String)

def Duty.outside : Duty → Bool
  | .request _ | .release _ => true
  | _ => false

def WorkerEvent.duties (event : WorkerEvent) : List Duty :=
  match event.kind with
  | .taskLaunchEnd => [.launch event]
  | .taskExecEnd | .taskFailed => [.finish event.taskId]
  | .requestFinished | .requestFailed => [.request event]
  | .taskLaunchBegin | .taskExecBegin => []

namespace Scheduler

variable {σ : Type}

-- ---------------------------------------------------------------------------
-- Finalizing, in one go
-- ---------------------------------------------------------------------------

def inlineInputs (store : ArtifactStore) : List ArtifactHandle → List ArtifactValue
  | [] => []
  | artifact :: artifacts =>
    match store.get? artifact.key with
    | some (.host value) => ⟨artifact, value⟩ :: inlineInputs store artifacts
    | _ => inlineInputs store artifacts

/-- The inputs whose last occurrence is consumed. -/
def releasedInputs : Dict ArtifactKey Nat → List ArtifactHandle → List String
  | _, [] => []
  | refcounts, artifact :: artifacts =>
    let rest := releasedInputs (consumeInput refcounts artifact).1 artifacts
    if (consumeInput refcounts artifact).2 then artifact.artifactId :: rest else rest

def finalize (task : InferenceTask) (s : Scheduler σ) : Scheduler σ :=
  { s with
    artifactRefcounts := consumeInputs s.artifactRefcounts task.inputs
    log := .dispatched task (s.world.tasks.groupId task)
      (inlineInputs s.artifactStore task.inputs)
      (releasedInputs s.artifactRefcounts task.inputs) :: s.log }

def Stored (store : ArtifactStore) (artifacts : List ArtifactHandle) : Prop :=
  ∀ artifact ∈ artifacts, (store.get? artifact.key).isSome = true

-- ---------------------------------------------------------------------------
-- Moves
-- ---------------------------------------------------------------------------

/-- Nothing of the request has been accepted or cleaned up. -/
def Fresh (requestId : String) (s : Scheduler σ) : Prop :=
  (∀ plan, .accepted plan ∈ s.log → plan.requestId ≠ requestId) ∧
    requestId ∉ s.cleanedRequests

inductive Taking (plan : RequestExecutionPlan) : List SchedulerEntry → Prop
  | accepted : (∀ other, .accepted other ∈ before → other.requestId ≠ plan.requestId) →
      Taking plan (.accepted plan :: before)
  | indexed : Taking plan before → Taking plan (.indexed task :: before)

def Returns (rt : Runtime σ) (ask : Ask) (world : World σ) (out : List InferenceTask)
    (world' : World σ) : Prop := ask.run rt.policy world = .ok out world'

def Raises (rt : Runtime σ) (ask : Ask) (world world' : World σ) : Prop :=
  ∃ e, ask.run rt.policy world = .error e world'

/-- When the scheduler calls the policy: with which question, what is left on
the agenda and what it has changed just before. -/
inductive Occasion : List Duty → Scheduler σ → Ask → List Duty → Scheduler σ → Prop
  | submitted : Taking plan s.log → (∀ task ∈ plan.tasks.values, .indexed task ∈ s.log) →
      Occasion d s (.submitted plan) d s
  | launchEnd : event.kind = .taskLaunchEnd →
      Occasion (.count task event :: d) s (.event event) (.count task event :: d) s
  | runnable : s.newlyRunnable task = (pending, .ok newly) →
      Occasion (.count task event :: d) s (.runnable newly) d (s.launch task pending)
  | ended : event.kind = .taskExecEnd → s.taskIndex.get? event.taskId = some task →
      Occasion (.finish event.taskId :: d) s (.event event) (.check task :: d)
        (s.setStatus task .finished)
  | failed : event.kind = .taskFailed → s.taskIndex.get? event.taskId = some task →
      task.taskId ∉ s.failedTasks →
      Occasion (.finish event.taskId :: d) s (.event event) (.clean task.requestId :: d)
        (s.markFailed task event.message)
  | finished : event.kind = .requestFinished → event.requestId = task.requestId →
      s.plans.get? task.requestId = some plan → task.taskId ∈ plan.terminalTaskIds →
      Occasion (.check task :: d) s (.event event) d s
  | emitted : event.kind = .requestFailed → Occasion d s (.event event) d s
  | requested : event.kind.endsRequest = true →
      Occasion (.request event :: d) s (.event event) d s
  | acquire : s.world.tasks.groupId task = some groupId →
      Occasion (.input task artifact :: d) s (.acquire (sortedUnion src dst))
        (.held task artifact groupId (sortedUnion src dst) :: d) s
  | refused : s.plans.contains task.requestId = true →
      Occasion (.held task artifact groupId ranks :: d) s (.release ranks)
        (.refused task :: d) (s.countMigration task)
  | freed : m.waiter = .input task artifact groupId ranks →
      Occasion (.retired m :: d) s (.release ranks) (.freed m :: d) s

inductive Move (rt : Runtime σ) (load : Workload) :
    List Duty → Scheduler σ → List Duty → Scheduler σ → Prop
  | asked : Occasion d s question d' s' → Returns rt question s'.world out w →
      Move rt load d s (out.map .task ++ d') (s'.asked question out w)
  -- submission
  | accepted : Fresh requestId s → Move rt load d s d (s.accept (load.plan requestId))
  | indexed : Taking plan s.log → task ∈ plan.tasks.values → .indexed task ∉ s.log →
      Move rt load d s d (s.indexTask task)
  | listed : Taking plan s.log → Move rt load d s d (s.listArtifacts plan)
  -- dispatch
  | finalized : task.kind ≠ .reshard → s.world.tasks.groupId task = some groupId →
      crossGroup s.artifactStore groupId task.inputs = .ok [] →
      Move rt load (.task task :: d) s (.send task (some groupId) :: d) (s.finalize task)
  | sent : Move rt load (.send task (some groupId) :: d) s d (s.registerTaskDispatch task groupId)
  | parked : task.kind ≠ .reshard → s.world.tasks.groupId task = some groupId →
      crossGroup s.artifactStore groupId task.inputs = .ok cross → cross ≠ [] →
      Move rt load (.task task :: d) s (cross.map (.input task) ++ d) (s.park task groupId cross)
  | begun : s.plans.contains task.requestId = true →
      Move rt load (.held task artifact groupId ranks :: d) s d
        ((s.countMigration task).addMigration
          ⟨s.migrationsBegun, plan, .input task artifact groupId ranks⟩)
  | refused : Move rt load (.refused task :: d) s (.finish task.taskId :: d) (s.unpark task)
  | resharded : task.kind = .reshard → checkReshard s.artifactStore task = .ok checked →
      Move rt load (.task task :: d) s (.start task :: d) (s.consumeReshard task)
  | started : s.plans.contains task.requestId = true → Move rt load (.start task :: d) s d
      (((s.setStatus task .running).countMigration task).addMigration
        ⟨s.migrationsBegun, plan, .reshard task dst⟩)
  | notStarted : s.plans.contains task.requestId = true →
      Move rt load (.start task :: d) s (.finish task.taskId :: d)
        ((s.setStatus task .running).countMigration task)
  -- events
  | received : Move rt load d s (event.duties ++ d) (s.receive event)
  | running : s.taskIndex.get? taskId = some task → Move rt load d s d (s.setStatus task .running)
  | opened : s.taskIndex.get? event.taskId = some task →
      Move rt load (.launch event :: d) s (.count task event :: d) s
  | notOpened : s.taskIndex.get? event.taskId = none → Move rt load (.launch event :: d) s d s
  | produced : ref ∈ event.publishedOutputs →
      Move rt load (.count task event :: d) s (.count task event :: d) (s.publish ref)
  | notFailed : s.taskIndex.get? taskId = none ∨ taskId ∈ s.failedTasks ∨
        (∃ task, s.taskIndex.get? taskId = some task ∧ task.taskId ∈ s.failedTasks) →
      Move rt load (.finish taskId :: d) s d s
  | checked : Move rt load (.check task :: d) s d s
  | notRequested : Move rt load (.request event :: d) s d s
  | failedRequest : event.kind = .requestFailed →
      Move rt load (.request event :: d) s (.request event :: .clean event.requestId :: d)
        (s.failRequest event.requestId message)
  | delivered : Move rt load d s d (s.deliver requestId kind)
  | cleaned : Move rt load (.clean requestId :: d) s d (s.cleanupRequestWorkerState requestId)
  -- migrations
  | retired : m ∈ s.migrations → Move rt load d s (.retired m :: d) (s.retire m.migrateId)
  | landed : m.waiter = .input task artifact groupId ranks →
      s.parkedPending.get? task.taskId = some n → n - 1 ≠ 0 →
      s.failedRequests.contains task.requestId = false →
      Move rt load (.freed m :: d) s d (s.land task artifact groupId rank (n - 1))
  | landedLast : m.waiter = .input task artifact groupId ranks →
      s.parkedPending.get? task.taskId = some n → n - 1 = 0 →
      s.failedRequests.contains task.requestId = false →
      Stored (s.land task artifact groupId rank 0).artifactStore task.inputs →
      Move rt load (.freed m :: d) s (.send task (s.world.tasks.groupId task) :: d)
        ((s.land task artifact groupId rank 0).finalize task)
  | abandoned : Move rt load (.freed m :: d) s (.finish m.waiter.task.taskId :: d)
      (s.unpark m.waiter.task)
  | reshardDone : m.waiter = .reshard task groupId → event.kind = .taskLaunchEnd →
      event.taskId = task.taskId →
      (∀ ref ∈ event.publishedOutputs, ref.handle ∈ task.outputs) →
      Move rt load (.retired m :: d) s (.launch event :: .finish task.taskId :: d) s
  | reshardFailed : m.waiter = .reshard task groupId →
      Move rt load (.retired m :: d) s (.finish task.taskId :: d) s
  -- outputs, release and time
  | fetching : s.plans.get? requestId = some plan →
      s.allFinished plan.terminalTaskIds = .ok true →
      s.failedRequests.get? requestId = none ∨ requestId ∈ s.cleanedRequests →
      s.completedOutputs.get? requestId = none →
      Move rt load d s d { s with
        fetchesStarted := n
        pendingOutputFetches := s.pendingOutputFetches.set requestId pending }
  | completed : s.plans.get? requestId = some plan →
      s.allFinished plan.terminalTaskIds = .ok true →
      s.failedRequests.get? requestId = none ∨ requestId ∈ s.cleanedRequests →
      s.completedOutputs.get? requestId = none →
      Move rt load d s d (s.completeOutput requestId value)
  | fetched {artifact : ArtifactValue} : s.pendingOutputFetches.contains requestId = true →
      s.failedRequests.get? requestId = none → s.completedOutputs.get? requestId = none →
      artifact.handle.requestId = requestId →
      Move rt load d s d (({ s with
        pendingOutputFetches := s.pendingOutputFetches.erase requestId
        artifactStore := s.artifactStore.put artifact.handle
          (.host artifact.value) }).completeOutput requestId artifact.value)
  | notFetched : s.pendingOutputFetches.contains requestId = true →
      s.failedRequests.get? requestId = none → s.completedOutputs.get? requestId = none →
      Move rt load d s d (({ s with
        pendingOutputFetches :=
          s.pendingOutputFetches.erase requestId }).failRequestFromFetchError requestId message)
  | released : Move rt load (.release requestId :: d) s d (s.releaseRequest requestId)
  | clock : Move rt load d s d { s with world := { s.world with clockNs } }

/-- What is left when a call raises. -/
inductive Stop (rt : Runtime σ) : List Duty → Scheduler σ → Scheduler σ → Prop
  | here : Stop rt d s s
  | asked : Occasion d s question d' s' → Raises rt question s'.world w →
      Stop rt d s (s'.asked question [] w)
  -- a dependent that is counted and not indexed
  | lost : s.newlyRunnable task = (pending, .error e) →
      Stop rt (.count task event :: d) s (s.launch task pending)
  -- an input of a parked task has left the store
  | starved : m.waiter = .input task artifact groupId ranks →
      s.parkedPending.get? task.taskId = some n →
      ¬ Stored (s.land task artifact groupId rank 0).artifactStore task.inputs →
      Stop rt (.freed m :: d) s
        { s.land task artifact groupId rank 0 with artifactRefcounts := refcounts }

def machine (rt : Runtime σ) (load : Workload) : Agenda.Machine Duty (Scheduler σ) where
  move := Move rt load
  stop := Stop rt
  stop_here := fun _ _ => .here

end Scheduler

end GfDit
