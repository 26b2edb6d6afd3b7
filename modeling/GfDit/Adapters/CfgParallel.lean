import Mathlib.Data.List.Pairwise
import Mathlib.Data.Rat.Defs
import Mathlib.Data.Fin.Basic
import GfDit.Adapters.Sampling

/-!
# Denoising on a CFG group

`WanDenoiseExecutor.execute` on all ranks of a CFG group, with
`predict_noise_maybe_with_cfg` and the step of the solver. A step of the
program is a step of every rank: the gathering of the predictions and the
broadcast of the latents are collective. What the transformers, the solver and
the tensor arithmetic compute is a parameter.
-/

namespace GfDit

namespace Wan

inductive Conditioning
  | positive | negative

structure Denoiser (Latents Pred Solver Model : Type) where
  transformer : Option Model
  transformer2 : Option Model
  predictNoise : Model → Conditioning → Latents → ℚ → Pred
  combineCfgNoise : Pred → Pred → ℚ → Pred
  schedulerStep : Solver → Pred → ℚ → Latents → Latents × Solver
  -- where an image is there, its first frame in place of the latents' own
  mixFirstFrame : Option (Latents → Latents)

/-- What the request decides about the guidance. -/
structure Guidance where
  boundaryTimestep : ℚ
  low : ℚ
  high : ℚ
  -- whether there are embeddings of a negative prompt
  hasNegative : Bool

/-- A rank's part of `WanRuntimeState` that changes. -/
structure SolverState (Latents Solver : Type) where
  latents : Latents
  scheduler : Option Solver

namespace Guidance

def scaleAt (g : Guidance) (t : ℚ) : ℚ := if t < g.boundaryTimestep then g.high else g.low

def doTrueCfg (g : Guidance) (t : ℚ) : Bool := 1 < g.scaleAt t ∧ g.hasNegative

end Guidance

section Step

variable {Latents Pred Solver Model : Type} {n : Nat}

def noTransformer (stage : String) : PyError :=
  .runtimeError s!"No transformer available for {stage} stage"

def Denoiser.currentModel (d : Denoiser Latents Pred Solver Model) (g : Guidance) (t : ℚ) :
    Except PyError Model :=
  if t < g.boundaryTimestep then
    match d.transformer2, d.transformer with
    | some model, _ => pure model
    | none, some model => pure model
    | none, none => throw (noTransformer "low-noise")
  else
    match d.transformer, d.transformer2 with
    | some model, _ => pure model
    | none, some model => pure model
    | none, none => throw (noTransformer "high-noise")

def Denoiser.predict (d : Denoiser Latents Pred Solver Model) (model : Model) (t : ℚ)
    (conditioning : Conditioning) (latents : Latents) : Pred :=
  let latentModelInput := match d.mixFirstFrame with
    | some mix => mix latents
    | none => latents
  d.predictNoise model conditioning latentModelInput t

/-- `predict_noise_maybe_with_cfg` on every rank of a group of `n + 1`: in a
CFG group only rank 0 has the combined prediction. -/
def Denoiser.predictNoiseMaybeWithCfg (d : Denoiser Latents Pred Solver Model) (g : Guidance)
    (model : Model) (t : ℚ) (states : Fin (n + 1) → SolverState Latents Solver) :
    Fin (n + 1) → Option Pred :=
  if g.doTrueCfg t then
    if 1 < n + 1 then
      let gathered := List.ofFn fun rank => d.predict model t
        (if rank = 0 then .positive else .negative) (states rank).latents
      fun rank => if rank = 0 then
        match gathered with
        | positive :: negative :: _ => some (d.combineCfgNoise positive negative (g.scaleAt t))
        | _ => none
      else none
    else fun rank => some (d.combineCfgNoise (d.predict model t .positive (states rank).latents)
      (d.predict model t .negative (states rank).latents) (g.scaleAt t))
  else fun rank => some (d.predict model t .positive (states rank).latents)

def Denoiser.step (d : Denoiser Latents Pred Solver Model) (t : ℚ) (noisePred : Option Pred)
    (state : SolverState Latents Solver) : SolverState Latents Solver :=
  match noisePred, state.scheduler with
  | some pred, some solver =>
    let next := d.schedulerStep solver pred t state.latents
    ⟨next.1, some next.2⟩
  | _, _ => state

/-- `_scheduler_step_maybe_with_cfg`: in a CFG group rank 0 steps and
broadcasts the latents. -/
def Denoiser.schedulerStepMaybeWithCfg (d : Denoiser Latents Pred Solver Model) (g : Guidance)
    (t : ℚ) (noisePred : Fin (n + 1) → Option Pred)
    (states : Fin (n + 1) → SolverState Latents Solver) :
    Fin (n + 1) → SolverState Latents Solver :=
  if g.doTrueCfg t ∧ 1 < n + 1 then
    let first := d.step t (noisePred 0) (states 0)
    fun rank => if rank = 0 then first else { states rank with latents := first.latents }
  else fun rank => d.step t (noisePred rank) (states rank)

end Step

-- ---------------------------------------------------------------------------
-- Chunks
-- ---------------------------------------------------------------------------

/-- A run that notes every state it passes through, and ends in a state unless
it raises. -/
structure Traced (S : Type) where
  trace : List S
  final : Option S

def Traced.andThen {S : Type} (run : Traced S) (next : S → Traced S) : Traced S :=
  match run.final with
  | none => run
  | some state => ⟨run.trace ++ (next state).trace, (next state).final⟩

section Chunks

variable {Latents Pred Solver Model : Type} {n : Nat} (d : Denoiser Latents Pred Solver Model)
  (g : Guidance)

def Denoiser.loop : List ℚ → (Fin (n + 1) → SolverState Latents Solver) →
    Traced (Fin (n + 1) → SolverState Latents Solver)
  | [], states => ⟨[], some states⟩
  | t :: timesteps, states =>
    match d.currentModel g t with
    | .error _ => ⟨[], none⟩
    | .ok model =>
      let states := d.schedulerStepMaybeWithCfg g t
        (d.predictNoiseMaybeWithCfg g model t states) states
      let rest := Denoiser.loop timesteps states
      ⟨states :: rest.trace, rest.final⟩

/-- After the last timestep the solver goes and the image's frame is put back. -/
def Denoiser.finished (state : SolverState Latents Solver) : SolverState Latents Solver where
  latents := match d.mixFirstFrame with
    | some mix => mix state.latents
    | none => state.latents
  scheduler := none

def Denoiser.finish (states : Fin (n + 1) → SolverState Latents Solver) :
    Traced (Fin (n + 1) → SolverState Latents Solver) :=
  let states := fun rank => d.finished (states rank)
  ⟨[states], some states⟩

/-- `WanDenoiseExecutor.execute` on every rank. -/
def Denoiser.execute (timesteps : List ℚ) (range : StepRange)
    (states : Fin (n + 1) → SolverState Latents Solver) :
    Traced (Fin (n + 1) → SolverState Latents Solver) :=
  if ∀ rank, (states rank).scheduler.isSome then
    (d.loop g ((timesteps.take range.stop).drop range.start) states).andThen fun states =>
      if timesteps.length ≤ min range.stop timesteps.length then d.finish states
      else ⟨[], some states⟩
  else ⟨[], none⟩

def Denoiser.runChunks (timesteps : List ℚ) : List StepRange →
    (Fin (n + 1) → SolverState Latents Solver) → Traced (Fin (n + 1) → SolverState Latents Solver)
  | [], states => ⟨[], some states⟩
  | range :: ranges, states =>
    (d.execute g timesteps range states).andThen (Denoiser.runChunks timesteps ranges)

end Chunks

/-- Each chunk starts where the one before stopped. -/
def Consecutive : Nat → List StepRange → Prop
  | _, [] => True
  | start, range :: ranges => range.start = start ∧ Consecutive range.stop ranges

end Wan

end GfDit
