import GfDit.Simulator.TetriRound
import GfDit.Topology
import Mathlib.Data.Finset.Sort

/-!
# Giving a round its ranks

What `TetriServeRoundPolicy._plan_round` does with the scheduled requests:
largest first, it scales them up to fill idle GPUs, reserves their ranks and
cuts their steps to the shortest of them.
-/

namespace GfDit

namespace Tetriserve

def candidateAt (cands : List Candidate) (idx : Nat) : Except PyError Candidate :=
  match cands[idx]? with
  | some cand => pure cand
  | none => throw (.indexError "list index out of range")

def addSteps (shape : Fin 4 → Int) (gi : Nat) (steps : Int) : Except PyError (Fin 4 → Int) :=
  if h : gi < 4 then pure (Function.update shape ⟨gi, h⟩ (shape ⟨gi, h⟩ + steps))
  else throw (.indexError "list index out of range")

-- ---------------------------------------------------------------------------
-- Scaling up
-- ---------------------------------------------------------------------------

/-- Doubles `needed` while that is strictly faster and fits. -/
def scaledGpus (cost : Nat → ℚ) (world rankUsed original needed : Nat) : Nat :=
  if rankUsed + needed * 2 ≤ world + original then
    if hslow : cost (needed * 2) ≤ 0 ∨ cost needed ≤ cost (needed * 2) then needed
    else if needed * 2 = 8 then needed
    else scaledGpus cost world rankUsed original (needed * 2)
  else needed
termination_by world + original - needed
decreasing_by
  have hpos : needed ≠ 0 := by
    rintro rfl
    exact hslow (.inr le_rfl)
  omega

def scaleCombos (policy : RoundPolicy) (world : Nat) :
    Nat → List Combo → List Candidate → Except PyError (List Combo × List Candidate)
  | _, [], cands => pure ([], cands)
  | rankUsed, combo :: rest, cands => do
    let cand ← candidateAt cands combo.idx
    let needed := scaledGpus (policy.estimate cand.latentSeqLen) world rankUsed combo.gpus combo.gpus
    if needed = combo.gpus then
      let (rest, cands) ← scaleCombos policy world rankUsed rest cands
      pure (combo :: rest, cands)
    else
      let shape ← addSteps cand.shape combo.gi (-combo.steps)
      let gi := Nat.log2 needed
      let shape ← addSteps shape gi combo.steps
      let (rest, cands) ← scaleCombos policy world (rankUsed + needed - combo.gpus) rest
        (cands.set combo.idx { cand with shape })
      pure ({ combo with gpus := needed, gi } :: rest, cands)

def gpuTotal (combos : List Combo) : Nat := (combos.map (·.gpus)).sum

def scaleUpToFillBubble (policy : RoundPolicy) (combos : List Combo) (cands : List Candidate)
    (world : Nat) : Except PyError (List Combo × List Candidate) :=
  if policy.gpuIsH100 then pure (combos, cands)
  else if gpuTotal combos ≥ world then pure (combos, cands)
  else scaleCombos policy world (gpuTotal combos) combos cands

-- ---------------------------------------------------------------------------
-- Ranks
-- ---------------------------------------------------------------------------

def requestRanks (topology : RuntimeTopology) (requestLastGroup : Dict String String)
    (requestId : String) : List Rank :=
  match requestLastGroup.get? requestId with
  | none => []
  | some groupId =>
    match topology.getGroup groupId with
    | .ok group => group.ranks
    | .error _ => []

/-- A combo with the ranks its request holds and those reserved for it. -/
structure Placing where
  gpus : Nat
  held : List Rank
  ranks : List Rank

def takeRanks (eligible : Rank → Bool) : List Rank → Nat → List Rank → List Rank
  | [], _, _ => []
  | _ :: _, 0, _ => []
  | rank :: rest, need + 1, reserved =>
    if eligible rank ∧ rank ∉ reserved then
      rank :: takeRanks eligible rest need (rank :: reserved)
    else takeRanks eligible rest (need + 1) reserved

/-- Both phases of the assignment: each combo in turn is filled up with ranks
eligible for it. -/
def reserve (eligible : Placing → Rank → Bool) (orderedFree : List Rank) :
    List Placing → List Rank → List Placing × List Rank
  | [], reserved => ([], reserved)
  | placing :: rest, reserved =>
    let taken := takeRanks (eligible placing) orderedFree (placing.gpus - placing.ranks.length)
      reserved
    let (rest, reserved) := reserve eligible orderedFree rest (reserved ++ taken)
    ({ placing with ranks := placing.ranks ++ taken } :: rest, reserved)

/-- What an assignment reads besides the combos. -/
structure Placement where
  topology : RuntimeTopology
  requestLastGroup : Dict String String
  freeRanks : Finset Rank

def heldRanks (policy : RoundPolicy) (placement : Placement) (cands : List Candidate)
    (combo : Combo) : Except PyError (List Rank) :=
  if policy.placementPreserving then do
    let cand ← candidateAt cands combo.idx
    pure (requestRanks placement.topology placement.requestLastGroup cand.requestId)
  else pure []

/-- `_assign_ranks`. Without placement preservation no rank counts as held. -/
def assignRanks (policy : RoundPolicy) (placement : Placement) (combos : List Combo)
    (cands : List Candidate) : Except PyError (List (List Rank)) := do
  let orderedFree := placement.freeRanks.sort
  let placings ← combos.mapM fun combo => do
    pure (Placing.mk combo.gpus (← heldRanks policy placement cands combo) [])
  let (placings, reserved) := reserve (fun placing rank => rank ∈ placing.held) orderedFree
    placings []
  let (placings, _) := reserve (fun _ _ => true) orderedFree placings reserved
  pure (placings.map (·.ranks))

-- ---------------------------------------------------------------------------
-- The round's dispatches
-- ---------------------------------------------------------------------------

def comboTime (policy : RoundPolicy) (cands : List Candidate) (combo : Combo) :
    Except PyError (ℚ × ℚ) := do
  let cand ← candidateAt cands combo.idx
  let perStep := policy.estimate cand.latentSeqLen combo.gpus
  pure (perStep, perStep * combo.steps)

def maxStep (perStep minTime : ℚ) (steps : Int) : Nat :=
  if 0 < perStep then
    ((List.range' 1 steps.toNat).takeWhile fun step : Nat =>
      decide (perStep * (step : ℚ) ≤ minTime + 1 / 10 ^ 9)).getLastD 1
  else 1

def synchronizeSteps (policy : RoundPolicy) (combos : List Combo) (cands : List Candidate) :
    Except PyError (List Combo) := do
  let times ← combos.mapM (comboTime policy cands)
  let minTime : WithTop ℚ := times.foldl (fun best time => min best (time.2 : WithTop ℚ)) ⊤
  pure ((combos.zip times).map fun (combo, time) =>
    { combo with steps := maxStep time.1 (minTime.untopD 0) combo.steps })

def blockStepGranularity (pixels : Nat) : Nat :=
  if pixels > 2048 * 2048 then 2 else if pixels ≥ 1024 * 1024 then 4 else 10

structure Commitment where
  requestId : String
  ranks : List Rank
  steps : Int
deriving DecidableEq

/-- A combo without steps or with too few ranks is skipped. -/
def commit (cands : List Candidate) (combo : Combo) (ranks : List Rank) :
    Except PyError (Option Commitment) :=
  if combo.steps ≤ 0 ∨ ranks.length ≠ combo.gpus then pure none
  else do
    let cand ← candidateAt cands combo.idx
    pure (some ⟨cand.requestId, ranks.mergeSort, min combo.steps (blockStepGranularity cand.pixels)⟩)

def largestFirst (combos : List Combo) : List Combo :=
  combos.mergeSort fun a b => decide (b.gpus ≤ a.gpus)

/-- `_plan_round` from the search's answer on. -/
def placeRound (policy : RoundPolicy) (placement : Placement) (combos : List Combo)
    (cands : List Candidate) : Except PyError (List Commitment) := do
  let (combos, cands) ← scaleUpToFillBubble policy (largestFirst combos) cands
    placement.freeRanks.card
  let groups ← assignRanks policy placement combos cands
  let combos ← synchronizeSteps policy combos cands
  let out ← (combos.zip groups).mapM fun (combo, ranks) => commit cands combo ranks
  pure (out.filterMap id)

end Tetriserve

end GfDit
