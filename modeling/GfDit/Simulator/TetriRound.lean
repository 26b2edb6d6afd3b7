import GfDit.Simulator.TetriShape
import GfDit.Tasks
import Mathlib.Algebra.Order.Floor.Defs
import Mathlib.Algebra.Order.Monoid.Prod
import Mathlib.Data.Rat.Floor
import Mathlib.Data.String.Basic
import Mathlib.Order.WithBot

/-!
# Planning a round

The planning call of `TetriServeRoundPolicy` in `policies/tetriserve.py`: which
requests are considered, how long a round is, and which of the considered
requests run in it, on how many GPUs and for how many steps. The costs of a
step are those of the estimator; what the policy caches of them changes
nothing (`yields_tStep`, `yields_optimalShape`).
-/

namespace GfDit

namespace Tetriserve

/-- `_EdfBestFitRequestMeta`, without what only the base policy reads. No
deadline and one at infinity are the same to every reader; one at minus
infinity, which would sort first, is left out. -/
structure RequestMeta where
  deadlineMs : Option ℚ
  priority : Int
  arrivalMs : ℚ
  order : Nat
  latentSeqLen : Nat
  numSteps : Nat

structure PlannerState where
  nowMs : ℚ
  requestMeta : Dict String RequestMeta
  readyByRequest : Dict String (List InferenceTask)
  completedSteps : Dict String Nat
  inflightTask : Dict String InferenceTask
  pixels : Dict String Nat

/-- The settings of the policy and its estimator of one denoising step. -/
structure RoundPolicy where
  estimate : Nat → Nat → ℚ
  gpuIsH100 : Bool
  sloTolerance : ℚ
  placementPreserving : Bool
  -- `admission_order == "edf"` and `candidate_limit == "free"`
  admissionEdf : Bool
  limitFree : Bool

-- ---------------------------------------------------------------------------
-- Candidates
-- ---------------------------------------------------------------------------

/-- A considered request. Scaling up moves steps between the entries of its
shape, so these are integers. -/
structure Candidate where
  requestId : String
  deadlineMs : Option ℚ
  arrivalMs : ℚ
  latentSeqLen : Nat
  pixels : Nat
  shape : Fin 4 → Int
  remaining : Nat

abbrev SortKey := WithTop ℚ ×ₗ Int ×ₗ ℚ ×ₗ Nat ×ₗ String

def sortKey (state : PlannerState) (requestId : String) : SortKey :=
  match state.requestMeta.get? requestId with
  | none => toLex (⊤, toLex (0, toLex (0, toLex (0, requestId))))
  | some info =>
    let deadline : WithTop ℚ := info.deadlineMs
    toLex (deadline, toLex (-info.priority, toLex (info.arrivalMs, toLex (info.order, requestId))))

abbrev ArrivalKey := WithTop ℚ ×ₗ Nat ×ₗ String

def arrivalKey (state : PlannerState) (requestId : String) : ArrivalKey :=
  match state.requestMeta.get? requestId with
  | none => toLex (⊤, toLex (0, requestId))
  | some info => toLex ((info.arrivalMs : WithTop ℚ), toLex (info.order, requestId))

/-- A chunk in flight counts as done, a ready one says how far the request is. -/
def remainingSteps (state : PlannerState) (requestId : String) : Nat :=
  match state.requestMeta.get? requestId with
  | none => 0
  | some info =>
    let completed := state.completedSteps.getD requestId 0
    let completed :=
      match (state.inflightTask.get? requestId).bind (·.stepRange) with
      | some range => max completed range.stop
      | none =>
        match (state.readyByRequest.getD requestId []).head?.bind (·.stepRange) with
        | some range => max completed range.start
        | none => completed
    info.numSteps - completed

def budgetMs (state : PlannerState) (info : RequestMeta) : Option ℚ :=
  info.deadlineMs.map (· - state.nowMs)

def orderedPending (policy : RoundPolicy) (state : PlannerState) (pending : List String)
    (world : Nat) : List String :=
  let ordered :=
    if policy.admissionEdf then
      pending.mergeSort fun a b => decide (sortKey state a ≤ sortKey state b)
    else pending.mergeSort fun a b => decide (arrivalKey state a ≤ arrivalKey state b)
  if policy.limitFree then ordered.take world else ordered

def candidatesOf (policy : RoundPolicy) (state : PlannerState) (world : Nat) :
    List String → StateM ShapeCaches (List Candidate)
  | [] => pure []
  | requestId :: rest =>
    match state.requestMeta.get? requestId with
    | none => candidatesOf policy state world rest
    | some info =>
      let remaining := remainingSteps state requestId
      if remaining = 0 then candidatesOf policy state world rest
      else do
        let shape ← optimalShape policy.estimate info.latentSeqLen remaining world
          (budgetMs state info)
        if ∑ i, shape i = 0 then candidatesOf policy state world rest
        else do
          let out ← candidatesOf policy state world rest
          pure ({ requestId, deadlineMs := info.deadlineMs, arrivalMs := info.arrivalMs
                  latentSeqLen := info.latentSeqLen
                  pixels := state.pixels.getD requestId info.latentSeqLen
                  shape := fun i => shape i, remaining } :: out)

def candidates (policy : RoundPolicy) (state : PlannerState) (pending : List String)
    (world : Nat) : StateM ShapeCaches (List Candidate) :=
  candidatesOf policy state world (orderedPending policy state pending world)

-- ---------------------------------------------------------------------------
-- The round
-- ---------------------------------------------------------------------------

def roundStepGranularity (policy : RoundPolicy) (pixels : Nat) : Nat :=
  if policy.gpuIsH100 then if pixels ≥ 1024 * 1024 then 4 else 10
  else if pixels ≥ 1024 * 1024 then 2 else 20

def stepCost (policy : RoundPolicy) (cand : Candidate) (gi : Fin 4) : ℚ :=
  policy.estimate cand.latentSeqLen (gpuCount gi)

/-- The longest time a candidate takes for one granularity of steps at a GPU
count its shape uses. -/
def roundDurationMs (policy : RoundPolicy) (cands : List Candidate) : ℚ :=
  cands.foldl (fun best cand =>
    (List.finRange 4).foldl (fun best gi =>
      if 0 < cand.shape gi then
        max best (stepCost policy cand gi * roundStepGranularity policy cand.pixels)
      else best) best) 0

/-- The deadline, with a band of tolerance relative to the time allowed. -/
def survives (policy : RoundPolicy) (cand : Candidate) (finishMs : ℚ) : Bool :=
  match cand.deadlineMs with
  | none => true
  | some deadline =>
    if finishMs ≤ deadline then true
    else
      let threshold := deadline - cand.arrivalMs
      if threshold ≤ 0 then false
      else decide (|finishMs - deadline| / threshold ≤ policy.sloTolerance)

def shapeTimeMs (policy : RoundPolicy) (cand : Candidate) (shape : Fin 4 → Int) : ℚ :=
  (((List.finRange 4).filter fun gi => decide (0 < shape gi)).map fun gi =>
    stepCost policy cand gi * shape gi).sum

/-- What a candidate may do in a round: GPUs, steps, whether it survives then
and whether it runs. -/
structure ComboOption where
  gpus : Nat
  steps : Int
  surv : Nat
  sched : Nat

section Options

variable (policy : RoundPolicy) (nowMs roundDuration : ℚ) (capacity : Nat) (cand : Candidate)

def skipOption : ComboOption :=
  ⟨0, 0, if survives policy cand (nowMs + roundDuration + shapeTimeMs policy cand cand.shape)
    then 1 else 0, 0⟩

def scheduleOption (gi : Fin 4) (steps : Int) : ComboOption :=
  let after := Function.update cand.shape gi (cand.shape gi - steps)
  let finish := nowMs + stepCost policy cand gi * steps + shapeTimeMs policy cand after
  ⟨gpuCount gi, steps, if survives policy cand finish then 1 else 0, 1⟩

def scheduleOptions : List (Fin 4) → List ComboOption
  | [] => []
  | gi :: rest =>
    if cand.shape gi = 0 then scheduleOptions rest
    else if capacity < gpuCount gi then []
    else if stepCost policy cand gi ≤ 0 then scheduleOptions rest
    else
      let steps := min (cand.shape gi) ⌊roundDuration / stepCost policy cand gi⌋
      if steps ≤ 0 then scheduleOptions rest
      else scheduleOption policy nowMs cand gi steps :: scheduleOptions rest

def comboOptions : List ComboOption :=
  skipOption policy nowMs roundDuration cand ::
    scheduleOptions policy nowMs roundDuration capacity cand (List.finRange 4)

end Options

-- ---------------------------------------------------------------------------
-- The search
-- ---------------------------------------------------------------------------

/-- Survivors, scheduled requests and GPUs, compared in this order. -/
abbrev Objective := Nat ×ₗ Nat ×ₗ Nat

def ComboOption.objective (option : ComboOption) : Objective :=
  toLex (option.surv, toLex (option.sched, option.gpus))

/-- The states of `table` by GPUs used, with the entry of `choice` written
along with each: the GPUs used before and the option taken. -/
abbrev ComboRow := List (Option (Objective × (Nat × Nat)))

def ComboRow.cell (row : ComboRow) (used : Nat) : Option (Objective × (Nat × Nat)) :=
  (row[used]?).join

def ComboRow.improve (row : ComboRow) (entry : Nat × Objective × (Nat × Nat)) : ComboRow :=
  match row.cell entry.1 with
  | none => row.set entry.1 (some entry.2)
  | some (state, _) => if state < entry.2.1 then row.set entry.1 (some entry.2) else row

def firstRow (capacity : Nat) : ComboRow :=
  (List.replicate (capacity + 1) none).set 0 (some (toLex (0, toLex (0, 0)), (0, 0)))

/-- The states one request's options lead to, in the order they are tried. -/
def comboEntries (capacity : Nat) (row : ComboRow) (opts : List ComboOption) :
    List (Nat × Objective × (Nat × Nat)) :=
  (List.range (capacity + 1)).flatMap fun used =>
    match row.cell used with
    | none => []
    | some (state, _) => opts.zipIdx.filterMap fun (option, optIdx) =>
      if used + option.gpus > capacity then none
      else some (used + option.gpus, state + option.objective, (used, optIdx))

def nextRow (capacity : Nat) (row : ComboRow) (opts : List ComboOption) : ComboRow :=
  (comboEntries capacity row opts).foldl ComboRow.improve (List.replicate (capacity + 1) none)

/-- The rows after each request, the last one first, with its options. -/
abbrev ComboStages := List (ComboRow × List ComboOption)

def ComboStages.row (capacity : Nat) : ComboStages → ComboRow
  | [] => firstRow capacity
  | (row, _) :: _ => row

def comboStages (capacity : Nat) (options : List (List ComboOption)) : ComboStages :=
  options.foldl (fun stages opts =>
    (nextRow capacity (ComboStages.row capacity stages) opts, opts) :: stages) []

/-- `table[used] > best_state`; a state that was not reached is below all. -/
def beats : Option Objective → Option Objective → Bool
  | none, _ => false
  | some _, none => true
  | some a, some b => decide (b < a)

def bestUsed (capacity : Nat) (row : ComboRow) : Nat :=
  (List.range (capacity + 1)).foldl (fun best used =>
    if beats ((row.cell used).map Prod.fst) ((row.cell best).map Prod.fst) then used else best) 0

structure Combo where
  idx : Nat
  gpus : Nat
  gi : Nat
  steps : Int

def comboOf (idx : Nat) (option : ComboOption) : Combo :=
  ⟨idx, option.gpus, Nat.log2 option.gpus, option.steps⟩

/-- Going back along the choices; the last request's combo comes first. -/
def backtrack : ComboStages → Nat → List Combo
  | [], _ => []
  | (row, opts) :: earlier, used =>
    match row.cell used with
    | none => []
    | some (_, prevUsed, optIdx) =>
      match opts[optIdx]? with
      | none => []
      | some option =>
        if option.sched = 0 then backtrack earlier prevUsed
        else comboOf earlier.length option :: backtrack earlier prevUsed

def dpComboSearch (policy : RoundPolicy) (nowMs : ℚ) (cands : List Candidate) (roundDuration : ℚ)
    (capacity : Nat) : List Combo :=
  let stages := comboStages capacity
    (cands.map (comboOptions policy nowMs roundDuration capacity))
  (backtrack stages (bestUsed capacity (ComboStages.row capacity stages))).reverse

end Tetriserve

end GfDit
