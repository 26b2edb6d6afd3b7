import GfDit.Lib.Dict
import Mathlib.Algebra.BigOperators.Fin
import Mathlib.Algebra.Order.Ring.Rat
import Mathlib.Data.Fin.VecNotation

/-!
# The optimal shape of a request

`_optimal_shape` of `policies/tetriserve.py`. A shape says how many of the
remaining denoising steps run on 1, 2, 4 and 8 GPUs. Among the shapes whose
total time is within a budget the policy wants one of least GPU time; it
enumerates all shapes once, keeps the staircase of those that need less GPU
time than every faster one, and answers a budget by a search in it.
-/

namespace GfDit

namespace Tetriserve

def gpuCount : Fin 4 → Nat := ![1, 2, 4, 8]

/-- Steps at each of the GPU counts. -/
abbrev Shape := Fin 4 → Nat

structure Frontier where
  times : List ℚ
  shapes : List Shape
  fallback : Shape

/-- `_frontier_cache`, by sequence length, steps and GPUs, and `_tstep_cache`. -/
structure ShapeCaches where
  frontier : Dict (Nat × Nat × Nat) Frontier
  tstep : Dict (Nat × Nat) ℚ

def ShapeCaches.empty : ShapeCaches := ⟨∅, ∅⟩

-- ---------------------------------------------------------------------------
-- The staircase
-- ---------------------------------------------------------------------------

structure Enumerated where
  total : ℚ
  gpuHours : ℚ
  shape : Shape

/-- `recurse`: all ways to spread `left` steps over the allowed configs. -/
def allocations : List (Fin 4) → Nat → Shape → List Shape
  | [], _, _ => []
  | [i], left, cur => [Function.update cur i left]
  | i :: rest, left, cur => (List.range (left + 1)).flatMap fun value =>
    allocations rest (left - value) (Function.update cur i value)

def enumerated (perStep : Fin 4 → ℚ) (allowed : List (Fin 4)) (shape : Shape) : Enumerated where
  total := (allowed.map fun i => shape i * perStep i).sum
  gpuHours := (allowed.map fun i => shape i * perStep i * gpuCount i).sum
  shape

def cheaperFirst (a b : Enumerated) : Bool :=
  decide (a.total < b.total ∨ a.total = b.total ∧ a.gpuHours ≤ b.gpuHours)

/-- The staircase so far and the least GPU time in it, if any. -/
structure Stairs where
  times : List ℚ
  shapes : List Shape
  best : Option ℚ

def Stairs.improves (stairs : Stairs) (cand : Enumerated) : Bool :=
  match stairs.best with
  | none => true
  | some best => decide (cand.gpuHours < best - 1 / 10 ^ 9)

def Stairs.sameTime (stairs : Stairs) (cand : Enumerated) : Bool :=
  match stairs.times.getLast? with
  | none => false
  | some last => decide (|last - cand.total| < 1 / 10 ^ 12)

def Stairs.step (stairs : Stairs) (cand : Enumerated) : Stairs :=
  if stairs.improves cand then
    if stairs.sameTime cand then
      { stairs with shapes := stairs.shapes.dropLast ++ [cand.shape], best := some cand.gpuHours }
    else ⟨stairs.times ++ [cand.total], stairs.shapes ++ [cand.shape], some cand.gpuHours⟩
  else stairs

def allowedConfigs (perStep : Fin 4 → ℚ) : List (Fin 4) :=
  (List.finRange 4).filter fun i => decide (0 < perStep i)

def sortedCands (perStep : Fin 4 → ℚ) (numSteps : Nat) : List Enumerated :=
  ((allocations (allowedConfigs perStep) numSteps fun _ => 0).map
    (enumerated perStep (allowedConfigs perStep))).mergeSort cheaperFirst

/-- The part of `_build_shape_frontier` after the costs are known. -/
def frontierOf (perStep : Fin 4 → ℚ) (numSteps : Nat) : Frontier :=
  if allowedConfigs perStep = [] ∨ numSteps = 0 then ⟨[], [], fun _ => 0⟩
  else
    let cands := sortedCands perStep numSteps
    let stairs := cands.foldl Stairs.step ⟨[], [], none⟩
    ⟨stairs.times, stairs.shapes, (cands.head?.map (·.shape)).getD fun _ => 0⟩

-- ---------------------------------------------------------------------------
-- Caches
-- ---------------------------------------------------------------------------

section Caches

-- `_safe_estimate` of a denoising step by sequence length and GPU count
variable (estimate : Nat → Nat → ℚ)

def tStep (latentSeqLen gpus : Nat) : StateM ShapeCaches ℚ := fun caches =>
  match caches.tstep.get? (latentSeqLen, gpus) with
  | some cached => (cached, caches)
  | none =>
    let cost := estimate latentSeqLen gpus
    (cost, { caches with tstep := caches.tstep.set (latentSeqLen, gpus) cost })

/-- The cost of a step at one GPU count, negative where it may not be used. -/
def configCost (latentSeqLen world : Nat) (gi : Fin 4) : StateM ShapeCaches ℚ := do
  let cost ← if gpuCount gi ≤ world then tStep estimate latentSeqLen (gpuCount gi) else pure (-1)
  pure (if 0 < cost then cost else -1)

def buildShapeFrontier (latentSeqLen numSteps world : Nat) : StateM ShapeCaches Frontier := do
  let c₀ ← configCost estimate latentSeqLen world 0
  let c₁ ← configCost estimate latentSeqLen world 1
  let c₂ ← configCost estimate latentSeqLen world 2
  let c₃ ← configCost estimate latentSeqLen world 3
  pure (frontierOf ![c₀, c₁, c₂, c₃] numSteps)

def cachedFrontier (latentSeqLen numSteps world : Nat) : StateM ShapeCaches Frontier := fun caches =>
  match caches.frontier.get? (latentSeqLen, numSteps, world) with
  | some frontier => (frontier, caches)
  | none =>
    let built := buildShapeFrontier estimate latentSeqLen numSteps world caches
    (built.1, { built.2 with
      frontier := built.2.frontier.set (latentSeqLen, numSteps, world) built.1 })

/-- No budget is an infinite one. -/
def withinBudget (budget : Option ℚ) (time : ℚ) : Bool :=
  match budget with
  | none => true
  | some budget => decide (time ≤ budget)

/-- `bisect.bisect_right` of an ascending list: how many entries are within. -/
def bisectRight (times : List ℚ) (budget : Option ℚ) : Nat :=
  (times.takeWhile (withinBudget budget)).length

/-- The last step of the staircase within the budget, or the fastest shape. -/
def Frontier.answer (frontier : Frontier) (budget : Option ℚ) : Shape :=
  if frontier.times = [] then fun _ => 0
  else
    match bisectRight frontier.times budget with
    | 0 => frontier.fallback
    | idx + 1 => (frontier.shapes[idx]?).getD fun _ => 0

def optimalShape (latentSeqLen numSteps world : Nat) (budget : Option ℚ) :
    StateM ShapeCaches Shape := do
  let frontier ← cachedFrontier estimate latentSeqLen numSteps world
  pure (frontier.answer budget)

end Caches

end Tetriserve

end GfDit
