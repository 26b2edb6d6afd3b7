import Mathlib.Data.List.MinMax
import Mathlib.Algebra.Order.Ring.WithTop
import GfDit.Policies.EdfGreedy

/-!
# The EDF best-fit policy

`EdfBestFitSchedulerPolicy`: a dispatch tick first places the pinned tasks,
then gives every other request the smallest size that meets its deadline,
widens the most urgent ones while ranks are left over, and only then claims
ranks.
-/

namespace GfDit

namespace Edf

-- ---------------------------------------------------------------------------
-- Request metadata
-- ---------------------------------------------------------------------------

/-- `int(raw)`; `none` where it raises a type or value error. Texts are taken as
ones that spell no number. -/
def intOf : PyValue → Except PyError (Option Int)
  | .int value => pure (some value)
  | .float value => pure (some (value.num.tdiv value.den))
  | .infinite => throw (.overflowError "cannot convert float infinity to integer")
  | .none | .text _ => pure none

/-- The first of the names whose metadata entry is an integer. -/
def metadataInt (metadata : Dict String PyValue) : List String → Except PyError (Option Int)
  | [] => pure none
  | name :: names =>
    match metadata.get? name with
    | none => metadataInt metadata names
    | some raw => do
      match ← intOf raw with
      | some value => pure (some value)
      | none => metadataInt metadata names

def lookupInt (plan : RequestExecutionPlan) (names : List String) (default : Int) :
    Except PyError Int := do
  match ← metadataInt plan.metadata names with
  | some value => pure value
  | none =>
    match (metadataValues (firstValue plan) names).findSome? PyValue.toFloat with
    | some raw => raw.toInt
    | none => pure default

def bestFitMetaFromPlan (plan : RequestExecutionPlan) (order : Nat) :
    PolicyM Edf EdfRequestMeta := do
  let base ← metaFromPlan plan order
  let latentSeqLen ← Prog.check (lookupInt plan ["latent_seq_len"] 0)
  let voxels ← Prog.check (lookupInt plan ["voxels"] 0)
  let textSeqLen ← Prog.check (lookupInt plan ["text_seq_len"] 512)
  let numSteps ← Prog.check (lookupInt plan ["num_steps"] 0)
  let chunkSteps ← Prog.check (lookupInt plan ["denoise_chunk_size", "chunk_size"] 1)
  pure { base with latentSeqLen, voxels, textSeqLen, numSteps, chunkSteps }

-- ---------------------------------------------------------------------------
-- Best-fit estimates
-- ---------------------------------------------------------------------------

/-- `ParallelSpec(tp=1, sp=sp, cfg=1)` for a size that is at least one. -/
def spSpec (sp : Nat) : ParallelSpec :=
  ⟨1, max 1 sp, 1, Nat.one_pos, lt_of_lt_of_le Nat.one_pos (le_max_left ..), Nat.one_pos⟩

/-- A failed estimate counts as no time. -/
def safeEstimate (estimator : TaskRuntimeEstimator) (spec : ParallelSpec) (seqLen : Int)
    (stage : String) : WithTop ℚ :=
  match estimator spec seqLen stage with
  | .ok value => value
  | .error _ => 0

/-- The time one task of the request will still take. -/
def taskEstimate (estimator : TaskRuntimeEstimator) (info : EdfRequestMeta) (spSize : Nat)
    (task : InferenceTask) : WithTop ℚ :=
  match task.kind with
  | .ditStepChunk =>
    let chunkSteps : Nat := match task.stepRange with
      | some range => max 1 range.length
      | none => 1
    let stage := (task.payloadText "cost_model_stage").getD "dit_step_chunk"
    safeEstimate estimator (spSpec spSize) info.latentSeqLen stage * (chunkSteps : WithTop ℚ)
  | .ditPrepare => safeEstimate estimator (spSpec spSize) info.latentSeqLen "dit_prepare"
  | .timestepPrepare => safeEstimate estimator (spSpec spSize) info.numSteps "timestep_prepare"
  | .textEncode => safeEstimate estimator (spSpec 1) info.textSeqLen "text_encode"
  | .vaeDecode => safeEstimate estimator (spSpec 1) info.voxels "vae_decode"
  | .finalize => safeEstimate estimator (spSpec 1) 1 "finalize"
  | .reshard => 0

def estimateFinishMs (w : World Edf) (requestId : String) (spSize : Nat) : WithTop ℚ :=
  match w.policy.requestMeta.get? requestId, w.policy.taskRuntimeEstimator with
  | some info, some estimator =>
    let unfinished := (w.policy.requestTasks.getD requestId []).filter fun task =>
      w.tasks.status task ≠ .finished
    (w.policy.nowMs : WithTop ℚ) + (unfinished.map (taskEstimate estimator info spSize)).sum
  | _, _ => ⊤

def bestFitSp (w : World Edf) (requestId : String) (task : InferenceTask) (budget : Nat) :
    Option Nat :=
  let allowed := w.policy.allowedSpSizes
  if budget = 0 then none
  else if task.kind ∈ singleRankTaskKinds then
    let sp := if 1 ∈ allowed then 1 else (allowed.min?).getD 0
    if sp ≤ budget then some sp else none
  else if task.kind ∉ ditTaskKinds then none
  else
    let candidates := (allowed.filter (· ≤ budget)).insertionSort (· ≤ ·)
    match w.policy.requestMeta.get? requestId, w.policy.taskRuntimeEstimator with
    | some { deadlineMs := .fin deadline, .. }, some _ =>
      match candidates.find? fun sp => estimateFinishMs w requestId sp ≤ (deadline : WithTop ℚ) with
      | some sp => some sp
      -- no size meets the deadline: the one that finishes soonest
      | none => candidates.argmin (estimateFinishMs w requestId)
    | _, _ => candidates.getLast?

-- ---------------------------------------------------------------------------
-- The three passes
-- ---------------------------------------------------------------------------

structure FitEntry where
  requestId : String
  task : InferenceTask
  spSize : Nat

/-- Pinned tasks are placed at once; the others wait for the passes, with the
ranks that are left. -/
def placePinned : List Rank → List (String × InferenceTask) →
    PolicyM Edf (List InferenceTask × List Rank × List (String × InferenceTask))
  | free, [] => pure ([], free, [])
  | free, (requestId, task) :: ready => do
    if (← get).tasks.groupId task = none then
      let (out, left, waiting) ← placePinned free ready
      pure (out, left, (requestId, task) :: waiting)
    else
      match ← selectPlacement task free with
      | none => placePinned free ready
      | some (groupId, ranks) =>
        dispatchTask task requestId groupId ranks
        let (out, left, waiting) ← placePinned (withoutRanks free ranks) ready
        pure (task :: out, left, waiting)

/-- PASS 1: a size for each request the budget allows one. -/
def fitSizes (w : World Edf) : Nat → List (String × InferenceTask) → List FitEntry × Nat
  | budget, [] => ([], budget)
  | budget, (requestId, task) :: ready =>
    match bestFitSp w requestId task budget with
    | none => fitSizes w budget ready
    | some sp =>
      let (entries, left) := fitSizes w (budget - sp) ready
      (⟨requestId, task, sp⟩ :: entries, left)

/-- The smallest bigger size that fits the budget and finishes sooner. -/
def widerSize (w : World Edf) (budget : Nat) (entry : FitEntry) : Option Nat :=
  if entry.task.kind ∉ ditTaskKinds then none
  else
    let sizes := w.policy.allowedSpSizes.insertionSort (· ≤ ·)
    let bigger := sizes.filter (entry.spSize < ·)
    (bigger.takeWhile fun s => s - entry.spSize ≤ budget).find? fun s =>
      estimateFinishMs w entry.requestId s < estimateFinishMs w entry.requestId entry.spSize

/-- Widen the most urgent entry that can be widened. -/
def widenFirst (w : World Edf) (budget : Nat) : List FitEntry → Option (List FitEntry × Nat)
  | [] => none
  | entry :: entries =>
    match widerSize w budget entry with
    | some chosen =>
      some ({ entry with spSize := chosen } :: entries, budget - (chosen - entry.spSize))
    | none =>
      match widenFirst w budget entries with
      | some (entries, left) => some (entry :: entries, left)
      | none => none

/-- PASS 2: hand out the rest of the budget. Every round takes at least one
rank of it, so the budget bounds the rounds. -/
def redistribute (w : World Edf) : Nat → Nat → List FitEntry → List FitEntry
  | 0, _, entries => entries
  | rounds + 1, budget, entries =>
    if budget = 0 then entries
    else
      match widenFirst w budget entries with
      | some (entries, left) => redistribute w rounds left entries
      | none => entries

def materializeEntry (free : List Rank) (entry : FitEntry) :
    PolicyM Edf (ExecutionGroupSpec × List Rank) := do
  if entry.task.kind ∈ singleRankTaskKinds then
    match free.min? with
    | none => throw (.valueError "min() iterable argument is empty")
    | some rank =>
      let group ← ensureGroupForRanks [rank] standardTaskKinds
      pure (group, [rank])
  else
    let ranks := pickRanksForRequest (← get) entry.requestId entry.spSize free
    let group ← ensureGroupForRanks ranks ditTaskKinds
    pure (group, ranks)

/-- PASS 3: claim ranks and dispatch. -/
def materialize : List Rank → List FitEntry → PolicyM Edf (List InferenceTask)
  | _, [] => pure []
  | free, entry :: entries => do
    let (group, ranks) ← materializeEntry free entry
    dispatchTask entry.task entry.requestId group.groupId ranks
    let out ← materialize (withoutRanks free ranks) entries
    pure (entry.task :: out)

def bestFitTake : PolicyM Edf (List InferenceTask) := do
  let (pinned, free, waiting) ← placePinned (freeRankSet (← get)) (← get).policy.readyList
  let w ← get
  let (entries, budget) := fitSizes w free.length waiting
  let out ← materialize free (redistribute w budget budget entries)
  pure (pinned ++ out)

def bestFitOnRequestSubmitted (plan : RequestExecutionPlan) :
    PolicyM Edf (List InferenceTask) := do
  modifyPolicy fun p => { p with
    requestTasks := p.requestTasks.set plan.requestId plan.tasks.values }
  onRequestSubmittedWith bestFitTake bestFitMetaFromPlan plan

end Edf

def edfBestFitPolicy : SchedulerPolicy Edf where
  onRequestSubmitted := Edf.bestFitOnRequestSubmitted
  onTasksRunnable := Edf.onTasksRunnableWith Edf.bestFitTake
  onWorkerEvent := Edf.onWorkerEventWith Edf.bestFitTake
  acquireMigrationHold := Edf.acquireMigrationHold
  releaseMigrationHold := Edf.releaseMigrationHold

end GfDit
