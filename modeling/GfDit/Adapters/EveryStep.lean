import Mathlib.Algebra.Order.Group.Nat
import GfDit.Adapters.QwenImage
import GfDit.Adapters.Wan

/-!
# Every denoising step once

The chunks of a plan run the solver through the timesteps the request got. The
plan is cut by the requested steps; the solver goes as soon as a chunk reaches
the last timestep. The two agree when no chunk starts after the last timestep
and none is left over.
-/

namespace GfDit

-- ---------------------------------------------------------------------------
-- Chunks on a grid
-- ---------------------------------------------------------------------------

/-- No chunk but the last reaches the last timestep, and the last one does. -/
def ReachesAtEnd (numTimesteps : Nat) : List StepRange → Prop
  | [] => False
  | range :: ranges =>
    if range.stop < numTimesteps then ReachesAtEnd numTimesteps ranges else ranges = []

/-- The last chunk of a grid starts before the last timestep, or is alone. -/
def FitsGrid (size numSteps numTimesteps : Nat) : Prop :=
  numTimesteps ≤ numSteps ∧ ((numSteps - 1) / size * size < numTimesteps ∨ numSteps ≤ size)

theorem Grid.eq_nil (h : Grid size last last ranges) : ranges = [] := by
  cases ranges with
  | nil => rfl
  | cons range ranges =>
    obtain ⟨hstart, hstop, -⟩ := h
    have := range.nonempty
    omega

theorem Grid.ne_nil (h : Grid size last start ranges) (hlt : start < last) : ranges ≠ [] := by
  rintro rfl
  exact absurd h (Nat.ne_of_lt hlt)

theorem Grid.reachesAtEnd_iff (hsize : 0 < size) {ranges : List StepRange} {i : Nat}
    (h : Grid size last (i * size) ranges) (hlt : i * size < last) :
    ReachesAtEnd numTimesteps ranges ↔ numTimesteps ≤ last ∧
      ((last - 1) / size * size < numTimesteps ∨ last ≤ (i + 1) * size) := by
  induction ranges generalizing i with
  | nil => exact absurd rfl (h.ne_nil hlt)
  | cons range ranges ih =>
    obtain ⟨-, hstop, hrest⟩ := h
    have hnext : i * size + size = (i + 1) * size := (Nat.succ_mul i size).symm
    rw [hnext] at hstop
    rcases Nat.lt_or_ge ((i + 1) * size) last with hmore | hend
    · -- another chunk follows
      rw [Nat.min_eq_left hmore.le] at hstop
      rw [hstop] at hrest
      have hle : (i + 1) * size ≤ (last - 1) / size * size :=
        Nat.mul_le_mul_right _ ((Nat.le_div_iff_mul_le hsize).mpr (by omega))
      rw [ReachesAtEnd, hstop]
      split
      · rename_i hreach
        rw [ih hrest hmore]
        refine and_congr_right fun _ => ?_
        constructor
        · rintro (hlast | hlast)
          · exact .inl hlast
          · left
            have hdiv : (last - 1) / size < i + 1 + 1 := (Nat.div_lt_iff_lt_mul hsize).mpr (by omega)
            have : (last - 1) / size * size ≤ (i + 1) * size :=
              Nat.mul_le_mul_right _ (Nat.lt_succ_iff.mp hdiv)
            omega
        · rintro (hlast | hlast)
          · exact .inl hlast
          · omega
      · rename_i hreach
        constructor
        · intro hnil
          exact absurd hnil (hrest.ne_nil hmore)
        · rintro ⟨-, hlast | hlast⟩ <;> omega
    · -- this is the last chunk
      rw [Nat.min_eq_right hend] at hstop
      rw [hstop] at hrest
      obtain rfl := hrest.eq_nil
      rw [ReachesAtEnd, hstop]
      split
      · rename_i hreach
        simp only [ReachesAtEnd, false_iff]
        omega
      · simp only [true_iff]
        exact ⟨by omega, .inr hend⟩

theorem Grid.fits_iff (hsize : 0 < size) (hlast : 0 < last) (h : Grid size last 0 ranges) :
    ReachesAtEnd numTimesteps ranges ↔ FitsGrid size last numTimesteps := by
  have h0 : Grid size last (0 * size) ranges := by rwa [Nat.zero_mul]
  rw [h0.reachesAtEnd_iff hsize (by omega), FitsGrid, Nat.zero_add, Nat.one_mul]

-- ---------------------------------------------------------------------------
-- Running the chunks
-- ---------------------------------------------------------------------------

def runChunks {σ : Type} (denoise : InferenceTask → σ → Except PyError (σ × List SolverEvent)) :
    List InferenceTask → σ → Except PyError (σ × List SolverEvent)
  | [], state => pure (state, [])
  | task :: tasks, state => do
    let (state, events) ← denoise task state
    let (state, later) ← runChunks denoise tasks state
    pure (state, events ++ later)

/-- The steps from an index on, and then the solver goes. -/
def stepsFrom (start numTimesteps : Nat) : List SolverEvent :=
  (List.range' start (numTimesteps - start)).map .step ++ [.drop]

/-- No chunk raises, and the solver steps through all timesteps, each once and
in order, and is then dropped. -/
def StepsOnce {σ : Type} (numTimesteps : Nat) (run : Except PyError (σ × List SolverEvent)) : Prop :=
  ∃ state, run = .ok (state, (List.range numTimesteps).map .step ++ [.drop])

structure Denoises {σ : Type} (denoise : InferenceTask → σ → Except PyError (σ × List SolverEvent))
    (numTimesteps : Nat) (ready : σ → Bool → Prop) : Prop where
  run : ∀ state task range, ready state true → task.stepRange = some range →
    ∃ state', denoise task state = .ok (state', chunkEvents range numTimesteps) ∧
      ready state' (range.stop < numTimesteps)
  refuse : ∀ state task range, ready state false → task.stepRange = some range →
    ∃ e, denoise task state = .error e

theorem stepsOnce_iff_stepsFrom {σ : Type} {run : Except PyError (σ × List SolverEvent)} :
    StepsOnce numTimesteps run ↔ ∃ state, run = .ok (state, stepsFrom 0 numTimesteps) := by
  rw [StepsOnce, stepsFrom, Nat.sub_zero, List.range_eq_range']

theorem chunkEvents_before (h : range.stop < numTimesteps) : chunkEvents range numTimesteps =
    (List.range' range.start (range.stop - range.start)).map .step := by
  have hmin : min range.stop numTimesteps = range.stop := Nat.min_eq_left h.le
  simp [chunkEvents, chunkSteps, hmin, h]

theorem chunkEvents_last (h : numTimesteps ≤ range.stop) :
    chunkEvents range numTimesteps = stepsFrom range.start numTimesteps := by
  have hmin : min range.stop numTimesteps = numTimesteps := Nat.min_eq_right h
  simp [chunkEvents, chunkSteps, stepsFrom, hmin]

theorem stepsFrom_append (hstart : start ≤ stop) (hstop : stop ≤ numTimesteps) :
    (List.range' start (stop - start)).map .step ++ stepsFrom stop numTimesteps =
      stepsFrom start numTimesteps := by
  rw [stepsFrom, ← List.append_assoc, ← List.map_append, stepsFrom]
  congr 2
  have hlen : numTimesteps - start = (stop - start) + (numTimesteps - stop) := by omega
  have hmid : start + 1 * (stop - start) = stop := by omega
  rw [hlen, ← List.range'_append, hmid]

/-- The chunks of a grid step once through the timesteps exactly when the last
of them reaches the end. -/
theorem Denoises.stepsFrom_iff {σ : Type} {ready : σ → Bool → Prop} {state : σ}
    {denoise : InferenceTask → σ → Except PyError (σ × List SolverEvent)}
    (h : Denoises denoise numTimesteps ready) {tasks : List InferenceTask}
    (hgrid : Grid size last start (tasks.filterMap InferenceTask.stepRange))
    (hranges : ∀ task ∈ tasks, ∃ range, task.stepRange = some range) (hready : ready state true) :
    (∃ final, runChunks denoise tasks state = .ok (final, stepsFrom start numTimesteps)) ↔
      ReachesAtEnd numTimesteps (tasks.filterMap InferenceTask.stepRange) := by
  induction tasks generalizing state start with
  | nil =>
    refine iff_of_false ?_ fun hr => hr
    rintro ⟨final, hrun⟩
    have hevents := congrArg Prod.snd (Except.ok.inj hrun)
    simp [stepsFrom] at hevents
  | cons task tasks ih =>
    obtain ⟨⟨range, hrange⟩, hranges⟩ := List.forall_mem_cons.mp hranges
    rw [List.filterMap_cons_some hrange] at hgrid ⊢
    obtain ⟨rfl, hstop, hgrid⟩ := hgrid
    obtain ⟨state', hdenoise, hready'⟩ := h.run state task range hready hrange
    have hrun : runChunks denoise (task :: tasks) state = (runChunks denoise tasks state').bind
        fun result => .ok (result.1, chunkEvents range numTimesteps ++ result.2) := by
      rw [runChunks, hdenoise]
      rfl
    rw [hrun, ReachesAtEnd]
    split
    · rename_i hbefore
      rw [decide_eq_true hbefore] at hready'
      rw [← ih hgrid hranges hready', chunkEvents_before hbefore,
        ← stepsFrom_append range.nonempty.le hbefore.le]
      cases runChunks denoise tasks state' with
      | error e => simp [Except.bind]
      | ok result => simp [Except.bind, Prod.ext_iff]
    · rename_i hend
      rw [decide_eq_false hend] at hready'
      rw [chunkEvents_last (Nat.le_of_not_lt hend)]
      cases tasks with
      | nil => simp [runChunks, Except.bind, pure, Except.pure]
      | cons next tasks =>
        obtain ⟨⟨range', hrange'⟩, -⟩ := List.forall_mem_cons.mp hranges
        obtain ⟨e, he⟩ := h.refuse state' next range' hready' hrange'
        rw [List.filterMap_cons_some hrange', runChunks, he]
        simp [Except.bind, bind]

-- ---------------------------------------------------------------------------
-- Wan
-- ---------------------------------------------------------------------------

namespace Wan

variable {pipeline : Pipeline} {state : RuntimeState}

/-- The latents of the image, if there are any, can be mixed into the others. -/
def Mixes (pipeline : Pipeline) (state : RuntimeState) : Prop :=
  ∀ condition mask latents, pipeline.expandTimesteps = true →
    state.latentCondition = some condition → state.firstFrameMask = some mask →
    state.latents = some latents → ∃ mixed, mixCondition mask condition latents = .ok mixed

structure Ready (pipeline : Pipeline) (numTimesteps : Nat) (state : RuntimeState)
    (solving : Bool) : Prop where
  latents : ∃ latents, state.latents = some latents
  timesteps : state.timesteps = some [numTimesteps]
  scheduler : state.scheduler = solving
  mixes : solving = true → Mixes pipeline state

theorem mixedLatents_ok (h : Mixes pipeline state) (hl : state.latents = some latents)
    (range : StepRange) (numTimesteps : Nat) :
    ∃ mixed, mixedLatents pipeline state range numTimesteps latents = .ok mixed := by
  unfold mixedLatents
  split
  · rename_i condition mask he hc hm
    split
    · exact ⟨latents, rfl⟩
    · exact h condition mask latents he hc hm hl
  · exact ⟨latents, rfl⟩

theorem denoises (pipeline : Pipeline) (numTimesteps : Nat) :
    Denoises (denoise pipeline) numTimesteps (Ready pipeline numTimesteps) where
  run := fun state task range hready hrange => by
    obtain ⟨⟨latents, hl⟩, ht, hs, hmix⟩ := hready
    obtain ⟨mixed, hmixed⟩ := mixedLatents_ok (hmix rfl) hl range numTimesteps
    unfold denoise
    simp only [hrange, ht, hl, hs, List.headD_cons, hmixed, Except.ok_bind]
    split
    · rename_i hend
      have hstop : ¬ range.stop < numTimesteps := by omega
      exact ⟨_, rfl, ⟨mixed, rfl⟩, rfl, (decide_eq_false hstop).symm,
        fun h => absurd (of_decide_eq_true h) hstop⟩
    · rename_i hbefore
      have hstop : range.stop < numTimesteps := by omega
      exact ⟨state, rfl, ⟨latents, hl⟩, ht, by rw [hs, decide_eq_true hstop], fun _ => hmix rfl⟩
  refuse := fun state task range hready hrange => by
    obtain ⟨⟨latents, hl⟩, ht, hs, -⟩ := hready
    unfold denoise
    simp only [hrange, ht, hl, hs]
    exact ⟨notReady, rfl⟩

theorem not_mixes (hrange : task.stepRange = some range) (hsteps : range.start < numTimesteps)
    (hl : state.latents = some latents) (ht : state.timesteps = some [numTimesteps])
    (hs : state.scheduler = true) (h : denoise pipeline task state = .ok result) :
    Mixes pipeline state := by
  intro condition mask latents' he hc hm hl'
  cases hl.symm.trans hl'
  have hne : chunkSteps range numTimesteps ≠ [] := by
    rw [chunkSteps, Ne, List.range'_eq_nil_iff]
    have := range.nonempty
    omega
  unfold denoise at h
  simp only [hrange, ht, hl, hs, List.headD_cons] at h
  obtain ⟨mixed, hmixed, -⟩ := Except.bind_eq_ok.mp h
  simp only [mixedLatents, he, hc, hm, hne, false_and, if_false] at hmixed
  exact ⟨mixed, hmixed⟩

theorem textEncode_numSteps (h : textEncode pipeline req = .ok state) :
    state.numSteps = numStepsOf req.samplingParams := by
  unfold textEncode at h
  obtain ⟨_, -, h⟩ := Except.bind_eq_ok.mp h
  obtain ⟨_, -, h⟩ := Except.bind_eq_ok.mp h
  obtain ⟨_, -, h⟩ := Except.bind_eq_ok.mp h
  cases h
  rfl

theorem latentPrepare_ok (h : latentPrepare pipeline state = .ok state') :
    state'.numSteps = state.numSteps ∧ ∃ latents, state'.latents = some latents := by
  unfold latentPrepare at h
  obtain ⟨_, -, h⟩ := Except.bind_eq_ok.mp h
  split at h
  · cases h
  · simp only at h
    split at h
    · obtain ⟨_, -, h⟩ := Except.bind_eq_ok.mp h
      obtain ⟨latents, -, h⟩ := Except.bind_eq_ok.mp h
      cases h
      exact ⟨rfl, latents, rfl⟩
    · obtain ⟨latents, -, h⟩ := Except.bind_eq_ok.mp h
      cases h
      exact ⟨rfl, latents, rfl⟩

theorem fitsGrid_self (hsteps : 0 < numSteps) : FitsGrid size numSteps numSteps := by
  refine ⟨le_rfl, .inl ?_⟩
  have := Nat.div_mul_le_self (numSteps - 1) size
  omega

/-- With the timesteps of the requested steps, only an image that cannot be
mixed in keeps the chunks from stepping through them. -/
theorem stepsOnce_iff {f : Nat → Nat → Nat} {compiler : TaskCompiler}
    (hplan : compileRequest f compiler request = .ok plan) (ho : DependencyOrder plan order)
    (hstate : (textEncode pipeline request.diffusionRequest >>= latentPrepare pipeline) = .ok state) :
    StepsOnce state.numSteps.toNat
      (runChunks (denoise pipeline) (chunksOf order) (timestepPrepare state)) ↔
        Mixes pipeline state := by
  obtain ⟨prompt, -, hsteps, -, chunks, lastChunk, hu⟩ := compileRequest_ok hplan
  obtain ⟨encoded, hencoded, hprepared⟩ := Except.bind_eq_ok.mp hstate
  obtain ⟨hsame, latents, hl⟩ := latentPrepare_ok hprepared
  rw [textEncode_numSteps hencoded] at hsame
  rw [← hu.dependencyOrder_eq ho, hu.chunksOf_eq, hsame]
  have hpos : 0 < (numStepsOf request.diffusionRequest.samplingParams).toNat := hu.positive.1
  have hranges : ∀ task ∈ chunks, ∃ range, task.stepRange = some range := fun task hm =>
    (hu.plain task hm).range
  have ht : (timestepPrepare state).timesteps =
      some [(numStepsOf request.diffusionRequest.samplingParams).toNat] := by
    rw [← hsame]
    rfl
  rw [stepsOnce_iff_stepsFrom]
  constructor
  · rintro ⟨final, hrun⟩
    cases chunks with
    | nil => exact absurd hu.grid (Nat.ne_of_lt hpos)
    | cons task tasks =>
      obtain ⟨range, hrange⟩ := hranges task (List.mem_cons_self ..)
      have hgrid := hu.grid
      rw [List.filterMap_cons_some hrange] at hgrid
      obtain ⟨result, hdenoise, -⟩ := Except.bind_eq_ok.mp hrun
      have hmix : Mixes pipeline (timestepPrepare state) :=
        not_mixes hrange (hgrid.1 ▸ hpos) hl ht rfl hdenoise
      exact hmix
  · intro hmix
    have hready : Ready pipeline (numStepsOf request.diffusionRequest.samplingParams).toNat
        (timestepPrepare state) true := ⟨⟨latents, hl⟩, ht, rfl, fun _ => hmix⟩
    refine ((denoises pipeline _).stepsFrom_iff hu.grid hranges hready).mpr ?_
    exact (hu.grid.fits_iff hu.positive.2 hpos).mpr (fitsGrid_self hpos)

end Wan

-- ---------------------------------------------------------------------------
-- Qwen-Image
-- ---------------------------------------------------------------------------

namespace QwenImage

variable {Token : Type} {pipeline : Pipeline Token} {state : RuntimeState Token}

structure Ready (numTimesteps : Nat) (state : RuntimeState Token) (solving : Bool) : Prop where
  latents : ∃ latents, state.latents = some latents
  timesteps : state.timesteps = some [numTimesteps]
  scheduler : state.scheduler = solving

theorem denoises (numTimesteps : Nat) :
    Denoises (denoise : InferenceTask → RuntimeState Token → _) numTimesteps (Ready numTimesteps) where
  run := fun state task range hready hrange => by
    obtain ⟨⟨latents, hl⟩, ht, hs⟩ := hready
    unfold denoise
    simp only [hrange, ht, hl, hs, List.headD_cons]
    refine ⟨_, rfl, ⟨latents, rfl⟩, rfl, decide_eq_decide.mpr ?_⟩
    omega
  refuse := fun state task range hready hrange => by
    obtain ⟨⟨latents, hl⟩, ht, hs⟩ := hready
    unfold denoise
    simp only [hrange, ht, hl, hs]
    exact ⟨notReady, rfl⟩

/-- The number of timesteps a request gets. -/
def numTimestepsOf (params : SamplingParams) : Nat :=
  match params.sigmas with
  | none => (numStepsOf params).toNat
  | some sigmas => sigmas.length

theorem textEncode_state (h : textEncode pipeline req = .ok state) :
    state.request = req ∧ state.numSteps = (numStepsOf req.samplingParams).toNat := by
  unfold textEncode at h
  obtain ⟨_, -, h⟩ := Except.bind_eq_ok.mp h
  simp only at h
  split at h
  · cases h
  · obtain ⟨_, -, h⟩ := Except.bind_eq_ok.mp h
    cases h
    exact ⟨rfl, rfl⟩

theorem latentPrepare_ok (h : latentPrepare pipeline state = .ok state') :
    state'.request = state.request ∧ state'.numSteps = state.numSteps ∧
      ∃ latents, state'.latents = some latents := by
  unfold latentPrepare at h
  split at h
  · cases h
  · obtain ⟨latents, -, h⟩ := Except.bind_eq_ok.mp h
    cases h
    exact ⟨rfl, rfl, latents, rfl⟩

theorem timestepPrepare_ready (h : timestepPrepare state = .ok state')
    (hreq : state.request.samplingParams = params) (hnum : state.numSteps = (numStepsOf params).toNat) :
    Ready (numTimestepsOf params) state' true := by
  unfold timestepPrepare at h
  split at h
  · cases h
  · rename_i latents hl
    cases h
    refine ⟨⟨latents, hl⟩, ?_, rfl⟩
    subst hreq
    refine congrArg (fun num => some [num]) ?_
    unfold numTimestepsOf
    cases state.request.samplingParams.sigmas with
    | none => exact hnum
    | some sigmas => rfl

theorem stepsOnce_iff {f : Nat → Nat → Nat} (hplan : compileRequest f request = .ok plan)
    (ho : DependencyOrder plan order)
    (hstate : (textEncode pipeline request.diffusionRequest >>= latentPrepare pipeline >>=
      timestepPrepare) = .ok state) :
    StepsOnce (numTimestepsOf request.diffusionRequest.samplingParams)
        (runChunks denoise (chunksOf order) state) ↔
      FitsGrid request.denoiseChunkSize
        (numStepsOf request.diffusionRequest.samplingParams).toNat
        (numTimestepsOf request.diffusionRequest.samplingParams) := by
  obtain ⟨prompt, -, hsteps, -, chunks, lastChunk, hu⟩ := compileRequest_ok hplan
  obtain ⟨prepared, hprepared, htimesteps⟩ := Except.bind_eq_ok.mp hstate
  obtain ⟨encoded, hencoded, hprepared⟩ := Except.bind_eq_ok.mp hprepared
  obtain ⟨hreq, hnum⟩ := textEncode_state hencoded
  obtain ⟨hreq', hnum', -⟩ := latentPrepare_ok hprepared
  have hready := timestepPrepare_ready htimesteps (by rw [hreq', hreq]) (hnum'.trans hnum)
  rw [← hu.dependencyOrder_eq ho, hu.chunksOf_eq, stepsOnce_iff_stepsFrom,
    (denoises _).stepsFrom_iff hu.grid (fun task hm => (hu.plain task hm).range) hready]
  exact hu.grid.fits_iff hu.positive.2 hu.positive.1

end QwenImage

-- ---------------------------------------------------------------------------
-- Both adapters
-- ---------------------------------------------------------------------------

/-- The chunks of a plan step through all timesteps, each once and in order,
before the solver goes: for Wan when the image can be mixed in, for Qwen-Image
when the timesteps fit the grid of the requested steps. -/
theorem every_step_once (f : Nat → Nat → Nat) (request : RuntimeRequest)
    (plan : RequestExecutionPlan) (order : List InferenceTask) (ho : DependencyOrder plan order) :
    (∀ (compiler : Wan.TaskCompiler) (pipeline : Wan.Pipeline) (state : Wan.RuntimeState),
      Wan.compileRequest f compiler request = .ok plan →
      (Wan.textEncode pipeline request.diffusionRequest >>= Wan.latentPrepare pipeline) = .ok state →
      (StepsOnce state.numSteps.toNat
          (runChunks (Wan.denoise pipeline) (chunksOf order) (Wan.timestepPrepare state)) ↔
        Wan.Mixes pipeline state)) ∧
    ∀ (Token : Type) (pipeline : QwenImage.Pipeline Token) (state : QwenImage.RuntimeState Token),
      QwenImage.compileRequest f request = .ok plan →
      (QwenImage.textEncode pipeline request.diffusionRequest >>= QwenImage.latentPrepare pipeline >>=
        QwenImage.timestepPrepare) = .ok state →
      (StepsOnce (QwenImage.numTimestepsOf request.diffusionRequest.samplingParams)
          (runChunks QwenImage.denoise (chunksOf order) state) ↔
        FitsGrid request.denoiseChunkSize
          (QwenImage.numStepsOf request.diffusionRequest.samplingParams).toNat
          (QwenImage.numTimestepsOf request.diffusionRequest.samplingParams)) :=
  ⟨fun _ _ _ hplan hstate => Wan.stepsOnce_iff hplan ho hstate,
    fun _ _ _ hplan hstate => QwenImage.stepsOnce_iff hplan ho hstate⟩

def stepsRequest (sigmas : Option (List ℚ)) : RuntimeRequest where
  diffusionRequest := ⟨[.text "a cat"], ⟨none, none, 1, 1, none, none, none, 4, 1, false, none, sigmas,
    none⟩, ⟨∅, none⟩⟩
  requestId := "r"
  denoiseChunkSize := 2
  priority := 0
  groupId := none
  chunk_pos := Nat.two_pos

def smallPipeline : QwenImage.Pipeline Nat where
  inChannels := 4
  guidanceEmbeds := false
  promptHiddenSize := 1
  promptDtype := "bfloat16"
  vaeDtype := "bfloat16"
  zeroToken := 0
  promptTokens := fun text => text.toList.map Char.toNat
  channels_div := by decide
  dtype_ne := by decide
  vae_dtype_ne := by decide

def smallWan : Wan.Pipeline where
  vaeScaleFactorSpatial := 8
  vaeScaleFactorTemporal := 4
  patchHeight := 2
  inChannels := 16
  outChannels := 16
  zDim := 16
  textHiddenSize := 1
  transformerDtype := "bfloat16"
  numTrainTimesteps := 1000
  expandTimesteps := false
  boundaryRatio := none
  defaultGuidanceScale := 4
  spatial_pos := by decide
  temporal_pos := by decide
  patch_pos := Nat.two_pos
  dtype_ne := by decide

def smallWanCompiler : Wan.TaskCompiler where
  latentGeometry := ⟨8, 4, 1, 2, 2, by decide, by decide⟩
  defaultGuidanceScale := 4
  schedulerTimesteps := fun _ => none
  boundaryRatio := none
  numTrainTimesteps := 1000

instance (size numSteps numTimesteps : Nat) : Decidable (FitsGrid size numSteps numTimesteps) :=
  inferInstanceAs (Decidable (_ ∧ _))

theorem stepsRequest_qwen (sigmas : Option (List ℚ)) (f : Nat → Nat → Nat) :
    ∃ plan order, QwenImage.compileRequest f (stepsRequest sigmas) = .ok plan ∧
      DependencyOrder plan order := by
  have hcheck : (QwenImage.planArgs (stepsRequest sigmas) (.text "a cat")).check = .ok none := rfl
  obtain ⟨plan, order, hplan, hchain, -⟩ :=
    ChunkedDitPlanArgs.exists_planChain f hcheck rfl
  exact ⟨plan, order, hplan, hchain.tasks, hchain.feeds⟩

theorem stepsRequest_wan (sigmas : Option (List ℚ)) (f : Nat → Nat → Nat) :
    ∃ plan order, Wan.compileRequest f smallWanCompiler (stepsRequest sigmas) = .ok plan ∧
      DependencyOrder plan order := by
  have hcheck : (Wan.planArgs smallWanCompiler (stepsRequest sigmas) (.text "a cat")).check =
      .ok none := rfl
  obtain ⟨plan, order, hplan, hchain, -⟩ :=
    ChunkedDitPlanArgs.exists_planChain f hcheck rfl
  exact ⟨plan, order, hplan, hchain.tasks, hchain.feeds⟩

/-- Four sigmas for Qwen-Image; Wan takes the steps. -/
theorem every_step_once_four :
    (∃ order, ∃ state : QwenImage.RuntimeState Nat,
      StepsOnce 4 (runChunks QwenImage.denoise (chunksOf order) state)) ∧
    ∃ order state, StepsOnce 4 (runChunks (Wan.denoise smallWan) (chunksOf order) state) := by
  constructor
  · obtain ⟨plan, order, hplan, ho⟩ :=
      stepsRequest_qwen (some [1, 3 / 4, 1 / 2, 1 / 4]) fun latents _ => latents
    exact ⟨order, _, ((every_step_once _ _ plan order ho).2 Nat smallPipeline _ hplan rfl).mpr
      (by decide)⟩
  · obtain ⟨plan, order, hplan, ho⟩ := stepsRequest_wan none fun latents _ => latents
    exact ⟨order, _, ((every_step_once _ _ plan order ho).1 _ smallWan _ hplan rfl).mpr
      fun _ _ _ h => absurd h Bool.false_ne_true⟩

/-- With two sigmas for four requested steps the first chunk drops the solver,
and the second is refused. -/
theorem two_sigmas_not_ready :
    ¬ ∀ (f : Nat → Nat → Nat) (request : RuntimeRequest) (plan : RequestExecutionPlan)
      (order : List InferenceTask) (state : QwenImage.RuntimeState Nat),
      QwenImage.compileRequest f request = .ok plan → DependencyOrder plan order →
      (QwenImage.textEncode smallPipeline request.diffusionRequest >>=
        QwenImage.latentPrepare smallPipeline >>= QwenImage.timestepPrepare) = .ok state →
      StepsOnce (QwenImage.numTimestepsOf request.diffusionRequest.samplingParams)
        (runChunks QwenImage.denoise (chunksOf order) state) := by
  intro h
  obtain ⟨plan, order, hplan, ho⟩ :=
    stepsRequest_qwen (some [1, 1 / 2]) fun latents _ => latents
  obtain ⟨state, hstate⟩ : ∃ state,
    (QwenImage.textEncode smallPipeline (stepsRequest (some [1, 1 / 2])).diffusionRequest >>=
      QwenImage.latentPrepare smallPipeline >>= QwenImage.timestepPrepare) = .ok state := ⟨_, rfl⟩
  have hfits := (QwenImage.stepsOnce_iff hplan ho hstate).mp (h _ _ plan order state hplan ho hstate)
  revert hfits
  decide

end GfDit
