import GfDit.Topology
import GfDit.Lib.Counter
import GfDit.Lib.Prog

/-!
# Rank accounting

What the rank-accounting policies share: a world with the topology and the
tasks' changing fields, the interface the scheduler drives, and the counters
by which ranks are claimed and released, after `interfaces.py` and
`DynamicStepFCFSSchedulerPolicy`. Every claim, release and hold is also
written to a log, a dispatch together with the rank counters just before it;
no decision reads the log.
-/

namespace GfDit

-- ---------------------------------------------------------------------------
-- The scheduler's interface to a policy
-- ---------------------------------------------------------------------------

/-- What a policy shares with the scheduler, and its own state. -/
structure World (σ : Type) where
  topology : RuntimeTopology
  tasks : TaskHeap
  -- what `time.monotonic_ns` returns
  clockNs : Nat
  policy : σ

abbrev PolicyM (σ : Type) := EStateM PyError (World σ)

structure SchedulerPolicy (σ : Type) where
  onRequestSubmitted : RequestExecutionPlan → PolicyM σ (List InferenceTask)
  onTasksRunnable : List InferenceTask → PolicyM σ (List InferenceTask)
  onWorkerEvent : WorkerEvent → PolicyM σ (List InferenceTask)
  acquireMigrationHold : List Rank → PolicyM σ Unit
  releaseMigrationHold : List Rank → PolicyM σ Unit

namespace World

variable {σ : Type}

def setGroupId (w : World σ) (task : InferenceTask) (groupId : Option String) : World σ :=
  { w with tasks := w.tasks.setGroupId task groupId }

def setStatus (w : World σ) (task : InferenceTask) (status : TaskStatus) : World σ :=
  { w with tasks := w.tasks.setStatus task status }

def getGroup (groupId : String) : PolicyM σ ExecutionGroupSpec := do
  Prog.check ((← get).topology.getGroup groupId)

def ensureGroup (group : ExecutionGroupSpec) : PolicyM σ ExecutionGroupSpec := do
  let (result, topology) ← Prog.check ((← get).topology.ensureGroup group)
  modify fun w => { w with topology }
  pure result

theorem wp_getGroup {w : World σ} {Q : ExecutionGroupSpec → World σ → Prop}
    {E : PyError → World σ → Prop} (hok : ∀ group, w.topology.find groupId = some group → Q group w)
    (herr : ∀ e, E e w) : Prog.wp (getGroup groupId) Q E w := by
  simp only [getGroup, Prog.wp_bind, Prog.wp_get]
  exact Prog.wp_check (fun group h => hok group (RuntimeTopology.getGroup_eq_ok.mp h))
    fun e _ => herr e

end World

-- ---------------------------------------------------------------------------
-- The accounts
-- ---------------------------------------------------------------------------

inductive AccountEntry
  | dispatched (task : InferenceTask) (target : String) (ranks : List Rank)
      (outstandingPerRank reshardHoldsByRank : Dict Rank Nat)
  | ended (taskId : String)
  | held (ranks : List Rank)
  | unheld (ranks : List Rank)

structure RankAccounts where
  outstandingPerRank : Dict Rank Nat
  outstandingPerGroup : Dict String Nat
  reshardHoldsByRank : Dict Rank Nat
  outstandingReshards : Nat
  reshardGroupsByTask : Dict String (String × String)
  -- task id -> "__reshard__" or group id
  dispatchedKind : Dict String String
  dispatchedRanksByTask : Dict String (List Rank)
  log : List AccountEntry

def reshardTarget : String := "__reshard__"

def maxConcurrentReshards : Nat := 1

namespace RankAccounts

def init : RankAccounts := ⟨∅, ∅, ∅, 0, ∅, ∅, ∅, []⟩

def canDispatchRanks (a : RankAccounts) (ranks : List Rank) : Bool :=
  ranks.all fun rank =>
    !(0 < Counter.count a.outstandingPerRank rank) && !(0 < Counter.count a.reshardHoldsByRank rank)

def dispatch (a : RankAccounts) (task : InferenceTask) (groupId : String) (ranks : List Rank) :
    RankAccounts :=
  { a with
    outstandingPerRank := Counter.raiseAll a.outstandingPerRank ranks
    outstandingPerGroup := Counter.raise a.outstandingPerGroup groupId
    dispatchedKind := a.dispatchedKind.set task.taskId groupId
    dispatchedRanksByTask := a.dispatchedRanksByTask.set task.taskId ranks
    log := .dispatched task groupId ranks a.outstandingPerRank a.reshardHoldsByRank :: a.log }

def dispatchReshard (a : RankAccounts) (task : InferenceTask) (src dst : String)
    (ranks : List Rank) : RankAccounts :=
  { a with
    reshardHoldsByRank := Counter.raiseAll a.reshardHoldsByRank ranks
    outstandingReshards := a.outstandingReshards + 1
    reshardGroupsByTask := a.reshardGroupsByTask.set task.taskId (src, dst)
    dispatchedKind := a.dispatchedKind.set task.taskId reshardTarget
    dispatchedRanksByTask := a.dispatchedRanksByTask.set task.taskId ranks
    log := .dispatched task reshardTarget ranks a.outstandingPerRank a.reshardHoldsByRank :: a.log }

def releaseOrdinary (a : RankAccounts) (taskId target : String) : RankAccounts :=
  { a with
    dispatchedKind := a.dispatchedKind.erase taskId
    dispatchedRanksByTask := a.dispatchedRanksByTask.erase taskId
    outstandingPerGroup := Counter.drop a.outstandingPerGroup target
    outstandingPerRank :=
      Counter.dropAll a.outstandingPerRank (a.dispatchedRanksByTask.getD taskId [])
    log := .ended taskId :: a.log }

/-- `DynamicStepFCFSSchedulerPolicy._release_task`. -/
def releaseTask (a : RankAccounts) (taskId : String) : RankAccounts :=
  match a.dispatchedKind.get? taskId with
  | none => { a with log := .ended taskId :: a.log }
  | some target =>
    if target = reshardTarget then
      { a with
        dispatchedKind := a.dispatchedKind.erase taskId
        dispatchedRanksByTask := a.dispatchedRanksByTask.erase taskId
        outstandingReshards := a.outstandingReshards - 1
        reshardGroupsByTask := a.reshardGroupsByTask.erase taskId
        reshardHoldsByRank :=
          Counter.dropAll a.reshardHoldsByRank (a.dispatchedRanksByTask.getD taskId [])
        log := .ended taskId :: a.log }
    else a.releaseOrdinary taskId target

def releaseDispatchedTask (a : RankAccounts) (taskId : String) : RankAccounts :=
  match a.dispatchedKind.get? taskId with
  | none =>
    { a with
      dispatchedRanksByTask := a.dispatchedRanksByTask.erase taskId
      log := .ended taskId :: a.log }
  | some target => a.releaseOrdinary taskId target

def acquireMigrationHold (a : RankAccounts) (ranks : List Rank) : RankAccounts :=
  { a with
    reshardHoldsByRank := Counter.raiseAll a.reshardHoldsByRank ranks
    log := .held ranks :: a.log }

def releaseMigrationHold (a : RankAccounts) (ranks : List Rank) : RankAccounts :=
  { a with
    reshardHoldsByRank := Counter.dropAll a.reshardHoldsByRank ranks
    log := .unheld ranks :: a.log }

end RankAccounts

end GfDit
