import GfDit.Policies.DynamicStepFcfs

/-!
# The state of the global scheduler

What `GlobalScheduler` keeps, with the in-memory artifact store and the part
of the worker pool it talks to, after `scheduler.py`. The policy and the pool
are given from outside: any policy, and for every call of `begin_migration`
whether it raises at once. The log is a history that no decision reads.
-/

namespace GfDit

-- ---------------------------------------------------------------------------
-- Artifacts
-- ---------------------------------------------------------------------------

abbrev ArtifactKey := String × String

def ArtifactHandle.key (handle : ArtifactHandle) : ArtifactKey :=
  (handle.requestId, handle.artifactId)

/-- A value of the host, or where the workers have it. -/
inductive StoredValue
  | host (value : HostValue)
  | workerLocal (ref : WorkerLocalArtifactRef)
  deriving DecidableEq

abbrev ArtifactStore := Dict ArtifactKey StoredValue

namespace ArtifactStore

def put (store : ArtifactStore) (artifact : ArtifactHandle) (value : StoredValue) :
    ArtifactStore := store.set artifact.key value

def find (store : ArtifactStore) (artifact : ArtifactHandle) : Except PyError StoredValue :=
  match store.get? artifact.key with
  | some value => pure value
  | none => throw (.keyError (strTuple [artifact.requestId, artifact.artifactId]))

def evictRequest (store : ArtifactStore) (requestId : String) : ArtifactStore :=
  store.eraseAll (store.keys.filter fun key => key.1 = requestId)

end ArtifactStore

-- ---------------------------------------------------------------------------
-- Plans
-- ---------------------------------------------------------------------------

/-- The plans there are, by request id. A task, and an artifact handle of it,
belongs to one plan. -/
structure Workload where
  plan : String → RequestExecutionPlan
  named : ∀ requestId, (plan requestId).requestId = requestId
  keyed : ∀ requestId taskId task, (plan requestId).tasks.get? taskId = some task →
    task.taskId = taskId
  owned : ∀ requestId, ∀ task ∈ (plan requestId).tasks.values, task.requestId = requestId ∧
    ∀ artifact ∈ task.inputs ++ task.outputs, artifact.requestId = requestId
  initial : ∀ requestId, ∀ artifact ∈ (plan requestId).initialArtifacts,
    artifact.handle.requestId = requestId
  unique : ∀ requestId requestId', ∀ task ∈ (plan requestId).tasks.values,
    ∀ task' ∈ (plan requestId').tasks.values, task.taskId = task'.taskId → task = task'

namespace Workload

def Has (load : Workload) (task : InferenceTask) : Prop :=
  task ∈ (load.plan task.requestId).tasks.values

variable {load : Workload} {task task' : InferenceTask}

theorem Has.of_mem (h : task ∈ (load.plan requestId).tasks.values) : load.Has task := by
  unfold Has
  rw [(load.owned requestId task h).1]
  exact h

theorem Has.eq (h : load.Has task) (h' : load.Has task') (hid : task.taskId = task'.taskId) :
    task = task' := load.unique _ _ task h task' h' hid

theorem values_nodup (load : Workload) (requestId : String) :
    (load.plan requestId).tasks.values.Nodup := by
  have hkeys := (load.plan requestId).tasks.keys_nodup
  refine List.Nodup.of_map InferenceTask.taskId ?_
  have : (load.plan requestId).tasks.values.map InferenceTask.taskId =
      (load.plan requestId).tasks.keys := by
    unfold Dict.values Dict.keys
    rw [List.map_map]
    refine List.map_congr_left fun entry hm => ?_
    exact load.keyed requestId entry.1 entry.2 ((Dict.get?_eq_some _).mpr hm)
  rw [this]
  exact hkeys

theorem mem_keys (h : task ∈ (load.plan requestId).tasks.values) :
    task.taskId ∈ (load.plan requestId).tasks.keys := by
  obtain ⟨key, hget⟩ := Dict.exists_get?_of_mem_values h
  rw [load.keyed requestId key task hget, Dict.mem_keys, hget]
  rfl

def solo (plan : RequestExecutionPlan)
    (keyed : ∀ entry ∈ plan.tasks.entries, entry.2.taskId = entry.1)
    (owned : ∀ task ∈ plan.tasks.values, task.requestId = plan.requestId ∧
      ∀ artifact ∈ task.inputs ++ task.outputs, artifact.requestId = plan.requestId)
    (initial : ∀ artifact ∈ plan.initialArtifacts, artifact.handle.requestId = plan.requestId) :
    Workload where
  plan requestId := if requestId = plan.requestId then plan else ⟨requestId, ∅, [], [], ∅⟩
  named requestId := by
    split
    · rename_i heq
      exact heq.symm
    · rfl
  keyed requestId taskId task h := by
    split at h
    · exact keyed (taskId, task) (Dict.get?_eq_some _ |>.mp h)
    · cases h
  owned requestId task h := by
    split at h
    · rename_i heq
      rw [heq]
      exact owned task h
    · exact absurd h List.not_mem_nil
  initial requestId artifact h := by
    split at h
    · rename_i heq
      rw [heq]
      exact initial artifact h
    · exact absurd h List.not_mem_nil
  unique requestId requestId' task h task' h' hid := by
    split at h
    · split at h'
      · obtain ⟨key, hget⟩ := Dict.exists_get?_of_mem_values h
        obtain ⟨key', hget'⟩ := Dict.exists_get?_of_mem_values h'
        have hkey := keyed (key, task) (Dict.get?_eq_some _ |>.mp hget)
        have hkey' := keyed (key', task') (Dict.get?_eq_some _ |>.mp hget')
        simp only at hkey hkey'
        rw [← hkey, hid, hkey', hget'] at hget
        exact (Option.some.inj hget).symm
      · exact absurd h' List.not_mem_nil
    · exact absurd h List.not_mem_nil

def ofList (plans : List RequestExecutionPlan)
    (keyed : ∀ plan ∈ plans, ∀ entry ∈ plan.tasks.entries, entry.2.taskId = entry.1)
    (owned : ∀ plan ∈ plans, ∀ task ∈ plan.tasks.values, task.requestId = plan.requestId ∧
      ∀ artifact ∈ task.inputs ++ task.outputs, artifact.requestId = plan.requestId)
    (initial : ∀ plan ∈ plans, ∀ artifact ∈ plan.initialArtifacts,
      artifact.handle.requestId = plan.requestId)
    (unique : ∀ plan ∈ plans, ∀ plan' ∈ plans, ∀ task ∈ plan.tasks.values,
      ∀ task' ∈ plan'.tasks.values, task.taskId = task'.taskId → task = task') : Workload :=
  let find (requestId : String) := plans.find? fun plan => plan.requestId = requestId
  have hfind : ∀ {requestId plan}, find requestId = some plan →
      plan ∈ plans ∧ plan.requestId = requestId := fun h =>
    ⟨List.mem_of_find?_eq_some h, by simpa using List.find?_some h⟩
  { plan := fun requestId => (find requestId).getD ⟨requestId, ∅, [], [], ∅⟩
    named := fun requestId => by
      cases h : find requestId with
      | none => rfl
      | some plan => exact (hfind h).2
    keyed := fun requestId taskId task ht => by
      cases h : find requestId with
      | none => simp [h] at ht
      | some plan =>
        rw [h] at ht
        exact keyed plan (hfind h).1 (taskId, task) (Dict.get?_eq_some _ |>.mp ht)
    owned := fun requestId task hm => by
      cases h : find requestId with
      | none =>
        rw [h] at hm
        exact absurd hm List.not_mem_nil
      | some plan =>
        rw [h] at hm
        rw [← (hfind h).2]
        exact owned plan (hfind h).1 task hm
    initial := fun requestId artifact hm => by
      cases h : find requestId with
      | none =>
        rw [h] at hm
        exact absurd hm List.not_mem_nil
      | some plan =>
        rw [h] at hm
        rw [← (hfind h).2]
        exact initial plan (hfind h).1 artifact hm
    unique := fun requestId requestId' task hm task' hm' hid => by
      cases h : find requestId with
      | none =>
        rw [h] at hm
        exact absurd hm List.not_mem_nil
      | some plan =>
        cases h' : find requestId' with
        | none =>
          rw [h'] at hm'
          exact absurd hm' List.not_mem_nil
        | some plan' =>
          rw [h] at hm
          rw [h'] at hm'
          exact unique plan (hfind h).1 plan' (hfind h').1 task hm task' hm' hid }

end Workload

-- ---------------------------------------------------------------------------
-- Questions to the policy
-- ---------------------------------------------------------------------------

/-- A call of the policy. -/
inductive Ask
  | submitted (plan : RequestExecutionPlan)
  | runnable (tasks : List InferenceTask)
  | event (event : WorkerEvent)
  | acquire (ranks : List Rank)
  | release (ranks : List Rank)

def Ask.run (policy : SchedulerPolicy σ) : Ask → PolicyM σ (List InferenceTask)
  | .submitted plan => policy.onRequestSubmitted plan
  | .runnable tasks => policy.onTasksRunnable tasks
  | .event e => policy.onWorkerEvent e
  | .acquire ranks => (fun _ => []) <$> policy.acquireMigrationHold ranks
  | .release ranks => (fun _ => []) <$> policy.releaseMigrationHold ranks

def Ask.reported : Ask → List InferenceTask
  | .submitted plan => plan.rootTasks
  | .runnable tasks => tasks
  | .event _ | .acquire _ | .release _ => []

-- ---------------------------------------------------------------------------
-- Migrations
-- ---------------------------------------------------------------------------

/-- Whose callbacks a migration calls, with what they have captured. -/
inductive Waiter
  | input (task : InferenceTask) (artifact : ArtifactHandle) (dstGroupId : String)
      (holdRanks : List Rank)
  | reshard (task : InferenceTask) (dstGroupId : String)

def Waiter.task : Waiter → InferenceTask
  | .input task .. | .reshard task _ => task

structure Migration where
  migrateId : Nat
  plan : MigrateArtifactsPlan
  waiter : Waiter

-- ---------------------------------------------------------------------------
-- State
-- ---------------------------------------------------------------------------

inductive SchedulerEntry
  | accepted (plan : RequestExecutionPlan)
  | indexed (task : InferenceTask)
  -- a call of the policy, the tasks returned and the heap around the call
  | asked (ask : Ask) (out : List InferenceTask) (before after : TaskHeap)
  -- an event of the worker pool
  | received (event : WorkerEvent)
  | produced (ref : WorkerLocalArtifactRef)
  | launched (task : InferenceTask)
  | parked (task : InferenceTask) (groupId : String) (crossGroup : List ArtifactHandle)
  | migrated (task : InferenceTask) (artifact : ArtifactHandle) (groupId : String)
  | dispatched (task : InferenceTask) (groupId : Option String)
      (inlineInputs : List ArtifactValue) (releaseAfterExec : List String)
  -- a RESHARD has consumed its inputs
  | resharded (task : InferenceTask)
  -- a call of `begin_migration` for the task
  | began (task : InferenceTask)
  -- the request has entered `failed_requests`
  | failed (requestId : String)
  | cleaned (requestId : String)

structure PendingOutputFetch where
  fetchId : Nat
  outputHandle : ArtifactHandle
  groupId : String

structure Scheduler (σ : Type) where
  world : World σ
  artifactStore : ArtifactStore
  plans : Dict String RequestExecutionPlan
  taskIndex : Dict String InferenceTask
  pendingDependencies : Dict String Int
  dependents : Dict String (List String)
  -- task id -> outstanding migrations
  parkedPending : Dict String Nat
  failedRequests : Dict String String
  releasedRequests : List String
  cleanedRequests : List String
  failedTasks : List String
  artifactRefcounts : Dict ArtifactKey Nat
  requestArtifacts : Dict String (List ArtifactKey)
  pendingOutputFetches : Dict String PendingOutputFetch
  completedOutputs : Dict String HostValue
  -- the pool: tasks dispatched whose end has not come back, migrations in
  -- flight, and how many of its calls were made
  taskDispatchState : Dict String String
  migrations : List Migration
  migrationsBegun : Nat
  fetchesStarted : Nat
  log : List SchedulerEntry

/-- What the scheduler is built with: its policy, and which calls of
`begin_migration` raise before a callback is registered. -/
structure Runtime (σ : Type) where
  policy : SchedulerPolicy σ
  beginRaises : Nat → Option PyError

abbrev SchedM (σ : Type) := EStateM PyError (Scheduler σ)

namespace Scheduler

variable {σ : Type}

def init (world : World σ) : Scheduler σ :=
  ⟨world, ∅, ∅, ∅, ∅, ∅, ∅, ∅, [], [], [], ∅, ∅, ∅, ∅, ∅, [], 0, 0, []⟩

def enter (s : Scheduler σ) (entry : SchedulerEntry) : Scheduler σ :=
  { s with log := entry :: s.log }

def asked (s : Scheduler σ) (ask : Ask) (out : List InferenceTask) (world : World σ) :
    Scheduler σ :=
  { s with world, log := .asked ask out s.world.tasks world.tasks :: s.log }

/-- Call the policy. One that raises leaves what it has changed. -/
def ask (policy : SchedulerPolicy σ) (ask : Ask) : SchedM σ (List InferenceTask) := fun s =>
  match ask.run policy s.world with
  | .ok out world => .ok out (s.asked ask out world)
  | .error e world => .error e (s.asked ask [] world)

theorem wp_ask {policy : SchedulerPolicy σ} {question : Ask}
    {Q : List InferenceTask → Scheduler σ → Prop} {E : PyError → Scheduler σ → Prop}
    {s : Scheduler σ}
    (hok : ∀ out world, question.run policy s.world = .ok out world →
      Q out (s.asked question out world))
    (herr : ∀ e world, question.run policy s.world = .error e world →
      E e (s.asked question [] world)) :
    Prog.wp (ask policy question) Q E s := by
  unfold Prog.wp ask
  cases h : question.run policy s.world with
  | ok out world => exact hok out world h
  | error e world => exact herr e world h

def setStatus (s : Scheduler σ) (task : InferenceTask) (status : TaskStatus) : Scheduler σ :=
  { s with world := s.world.setStatus task status }

def storeFind (artifact : ArtifactHandle) : SchedM σ StoredValue := do
  Prog.check ((← get).artifactStore.find artifact)

def getGroup (groupId : String) : SchedM σ ExecutionGroupSpec := do
  Prog.check ((← get).world.topology.getGroup groupId)

def getGroupLeader (groupId : String) : SchedM σ Rank := do
  Prog.check ((← get).world.topology.getGroupLeader groupId)

end Scheduler

end GfDit
