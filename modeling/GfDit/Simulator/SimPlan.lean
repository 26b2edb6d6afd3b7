import GfDit.Adapters.UniformPlan
import GfDit.Policies.EdfGreedy
import GfDit.Simulator.Driver

/-!
# Plans of simulated requests

`build_sim_plan` compiles a simulated request to a chunked DiT plan. The
policies that place tasks themselves take the groups off it. The tasks form a
chain, and all but the last of the chunks end before the last step.
-/

namespace GfDit

/-- `SimRequest`, without the flag nobody reads (`preemptible`). -/
structure SimRequest where
  requestId : String
  arrivalMs : ℚ
  height : Nat
  width : Nat
  numFrames : Nat
  numSteps : Nat
  denoiseChunkSize : Nat
  textSeqLen : Nat
  priority : Int
  groupId : Option String
  deadlineMs : Option (WithTop ℚ)
  profiledOptimalLatencyMs : Option (WithTop ℚ)
  requestClass : Option String
  doTrueCfg : Option Bool
  latentSeqLenOverride : Option Nat
  voxelsOverride : Option Nat

def optionalFloat : Option (WithTop ℚ) → PyValue
  | none => .none
  | some ⊤ => .infinite
  | some (some value) => .float value

namespace SimRequest

def latentSeqLen (request : SimRequest) : Nat :=
  match request.latentSeqLenOverride with
  | some size => max 1 size
  | none =>
    let spatialTokens := max 1 (request.height / 16 * (request.width / 16))
    let temporalTokens := max 1 ((request.numFrames + 3) / 4)
    max 1 (spatialTokens * temporalTokens)

def voxels (request : SimRequest) : Nat :=
  match request.voxelsOverride with
  | some size => max 1 size
  | none => max 1 (request.height * request.width * request.numFrames)

def value (request : SimRequest) : HostValue where
  attributes := (∅ : Dict String PyValue).insertAll [
    ("arrival_ms", .float request.arrivalMs),
    ("num_steps", .int request.numSteps),
    ("denoise_chunk_size", .int request.denoiseChunkSize),
    ("text_seq_len", .int request.textSeqLen),
    ("latent_seq_len", .int request.latentSeqLen),
    ("voxels", .int request.voxels),
    ("priority", .int request.priority),
    ("deadline_ms", optionalFloat request.deadlineMs),
    ("profiled_optimal_latency_ms", optionalFloat request.profiledOptimalLatencyMs),
    ("request_class", (request.requestClass.map PyValue.text).getD .none)]
  extraArgs := none

def planArgs (request : SimRequest) : ChunkedDitPlanArgs where
  requestId := request.requestId
  requestValue := request.value
  requestType := "runtime_v2_policy_sim"
  numSteps := request.numSteps
  chunkSize := request.denoiseChunkSize
  priority := request.priority
  groupId := request.groupId
  textSeqLen := request.textSeqLen
  latentSeqLen := request.latentSeqLen
  stateCodecId := "sim_state"
  decodedCodecId := none
  metadata := (∅ : Dict String PyValue).insertAll [
    ("height", .int request.height),
    ("width", .int request.width),
    ("num_frames", .int request.numFrames),
    ("num_steps", .int request.numSteps),
    ("denoise_chunk_size", .int request.denoiseChunkSize),
    ("text_seq_len", .int request.textSeqLen),
    ("latent_seq_len", .int request.latentSeqLen),
    ("voxels", .int request.voxels)]
  stageGroupIds := none
  ditStepSchedule := []
  ditStepDoTrueCfg := request.doTrueCfg.map (List.replicate request.numSteps)

/-- `features[_stage_default_x_name(kind)]`. -/
def stageSize (request : SimRequest) : TaskKind → Nat
  | .textEncode => request.textSeqLen
  | .ditPrepare | .ditStepChunk => request.latentSeqLen
  | .timestepPrepare => request.numSteps
  | .vaeDecode => request.voxels
  | .finalize | .reshard => 1

end SimRequest

/-- The nested `sim_features` of the payload are left to `TaskPayload`. -/
def withSimPayload (request : SimRequest) (task : InferenceTask) : InferenceTask :=
  { task with payload := task.payload.set "seq_len" (.int (request.stageSize task.kind)) }

def buildSimPlan (effectiveChunkSeqLen : Nat → Nat → Nat) (request : SimRequest) :
    Except PyError RequestExecutionPlan := do
  let plan ← request.planArgs.buildChunkedDitPlan effectiveChunkSeqLen
  pure { plan with tasks := plan.tasks.mapValues (withSimPayload request) }

def withoutGroup (task : InferenceTask) : InferenceTask := { task with groupId := none }

/-- The hook `build_sim_plan` of the policies that place tasks themselves. -/
def buildPolicyPlan (effectiveChunkSeqLen : Nat → Nat → Nat) (request : SimRequest) :
    Except PyError RequestExecutionPlan := do
  let plan ← buildSimPlan effectiveChunkSeqLen request
  pure { plan with tasks := plan.tasks.mapValues withoutGroup }

def SimPlan (request : SimRequest) (plan : RequestExecutionPlan) : Prop :=
  ∃ effectiveChunkSeqLen, buildPolicyPlan effectiveChunkSeqLen request = .ok plan

-- ---------------------------------------------------------------------------
-- The chain of tasks
-- ---------------------------------------------------------------------------

/-- Each task depends on the one before it only. -/
def Linked (a b : InferenceTask) : Prop := b.dependencies = [a.taskId]

/-- The tasks in order: all denoising up to the last chunk, then the decoding. -/
structure DenoisingChain (plan : RequestExecutionPlan) (numSteps : Nat)
    (before : List InferenceTask) (last : InferenceTask) (after : List InferenceTask) : Prop where
  tasks : plan.tasks.values.Perm (before ++ last :: after)
  linked : (before ++ last :: after).IsChain Linked
  standard : ∀ task ∈ before ++ last :: after, task.kind ∈ standardTaskKinds
  early : ∀ task ∈ before, ∀ range, task.stepRange = some range → range.stop < numSteps
  final : ∀ range, last.stepRange = some range → range.stop ≤ numSteps
  decoding : ∀ task ∈ after, task.kind ∈ singleRankTaskKinds ∧ task.stepRange = none

theorem Grid.lt {size last start : Nat} {ranges : List StepRange} (h : Grid size last start ranges)
    (hne : ranges ≠ []) : start < last := by
  cases ranges with
  | nil => exact absurd rfl hne
  | cons range ranges =>
    obtain ⟨hstart, hstop, -⟩ := h
    have := range.nonempty
    omega

theorem Grid.stops {size last start : Nat} {ranges : List StepRange} {final : StepRange}
    (h : Grid size last start (ranges ++ [final])) :
    final.stop = last ∧ ∀ range ∈ ranges, range.stop < last := by
  induction ranges generalizing start with
  | nil => exact ⟨h.2.2, by simp⟩
  | cons range ranges ih =>
    obtain ⟨hfinal, hrest⟩ := ih h.2.2
    exact ⟨hfinal, List.forall_mem_cons.mpr ⟨h.2.2.lt (by simp), hrest⟩⟩

theorem SimPlan.chain {request : SimRequest} {plan : RequestExecutionPlan}
    (h : SimPlan request plan) :
    0 < request.numSteps ∧ plan.requestId = request.requestId ∧
      plan.initialArtifacts.head?.map (·.value) = some request.value ∧
      (∀ task ∈ plan.tasks.values, task.groupId = none) ∧
      ∃ before last after, DenoisingChain plan request.numSteps before last after := by
  obtain ⟨f, hplan⟩ := h
  obtain ⟨plan₁, hsim, hplan⟩ := Except.bind_eq_ok.mp hplan
  obtain ⟨plan₀, hbuild, hsim⟩ := Except.bind_eq_ok.mp hsim
  obtain rfl := Except.pure_eq_ok.mp hsim
  obtain rfl := Except.pure_eq_ok.mp hplan
  obtain ⟨chunks, lastChunk, huniform⟩ :=
    ChunkedDitPlanArgs.buildChunkedDitPlan_uniform rfl rfl hbuild
  have hplain : plan₀.requestId = request.requestId ∧
      plan₀.initialArtifacts = [⟨request.planArgs.reqHandle, request.value⟩] := by
    unfold ChunkedDitPlanArgs.buildChunkedDitPlan at hbuild
    obtain ⟨_, -, hbuild⟩ := Except.bind_eq_ok.mp hbuild
    obtain ⟨_, -, hbuild⟩ := Except.bind_eq_ok.mp hbuild
    obtain ⟨_, -, hbuild⟩ := Except.bind_eq_ok.mp hbuild
    obtain rfl := Except.pure_eq_ok.mp hbuild
    exact ⟨rfl, rfl⟩
  have hpos := huniform.positive.1
  refine ⟨hpos, hplain.1, by simp [hplain.2], ?_, ?_⟩
  · intro task hmem
    simp only [Dict.values_mapValues, List.map_map, List.mem_map] at hmem
    obtain ⟨_, -, rfl⟩ := hmem
    rfl
  -- The last chunk is the one whose range ends the grid.
  have hchunks : chunks ≠ [] := by
    rintro rfl
    exact absurd huniform.grid (by simpa [Grid] using hpos.ne)
  obtain ⟨init, last, rfl⟩ : ∃ init last, chunks = init ++ [last] :=
    ⟨_, _, (List.dropLast_append_getLast hchunks).symm⟩
  have hrange : ∀ task ∈ init ++ [last], ∃ range, task.stepRange = some range :=
    fun task hmem => (huniform.plain task hmem).range
  obtain ⟨final, hfinal⟩ := hrange last (by simp)
  have hgrid := huniform.grid
  rw [List.filterMap_append, List.filterMap_cons, hfinal, List.filterMap_nil] at hgrid
  obtain ⟨hstop, hearly⟩ := hgrid.stops
  let place := withoutGroup ∘ withSimPayload request
  let args := request.planArgs
  refine ⟨([args.textEncode args.groupId, args.ditPrepare args.groupId
      (args.taskId "text_encode:0") (args.stateHandle "state_text"),
      args.timestepPrepare args.groupId] ++ init).map place, place last,
    [args.vaeDecode args.groupId lastChunk (args.stateHandle "state_denoised"),
      args.finalize args.groupId].map place, ?_, ?_, ?_, ?_, ?_, ?_⟩
  · have hperm := huniform.chain.tasks.map place
    simpa [ChunkedDitPlanArgs.uniformChain, place, args, Function.comp_def] using hperm
  · have hfeeds := huniform.chain.feeds
    have hlinked : (args.uniformChain (init ++ [last]) lastChunk).IsChain
        fun a b => Linked (place a) (place b) := hfeeds.imp fun _ _ h => h.1
    have := (List.isChain_map place).mpr hlinked
    simpa [ChunkedDitPlanArgs.uniformChain, args] using this
  · have hchunk : ∀ task ∈ init ++ [last], (place task).kind ∈ standardTaskKinds := fun task hmem => by
      rw [show (place task).kind = .ditStepChunk from (huniform.plain task hmem).kind]
      decide
    intro task hmem
    simp only [List.map_append, List.map_cons, List.map_nil, List.mem_append, List.mem_cons,
      List.not_mem_nil, or_false, List.mem_map] at hmem
    rcases hmem with ((rfl | rfl | rfl) | ⟨other, hother, rfl⟩) | rfl | rfl | rfl
    · exact (by decide : TaskKind.textEncode ∈ standardTaskKinds)
    · exact (by decide : TaskKind.ditPrepare ∈ standardTaskKinds)
    · exact (by decide : TaskKind.timestepPrepare ∈ standardTaskKinds)
    · exact hchunk other (List.mem_append_left _ hother)
    · exact hchunk last (by simp)
    · exact (by decide : TaskKind.vaeDecode ∈ standardTaskKinds)
    · exact (by decide : TaskKind.finalize ∈ standardTaskKinds)
  · intro task hmem range htask
    obtain ⟨other, hother, rfl⟩ := List.mem_map.mp hmem
    rcases List.mem_append.mp hother with hother | hother
    · simp only [List.mem_cons, List.not_mem_nil, or_false] at hother
      rcases hother with rfl | rfl | rfl <;> cases htask
    · exact hearly range (List.mem_filterMap.mpr ⟨other, hother, htask⟩)
  · intro range htask
    have hsame : some range = some final := htask.symm.trans hfinal
    rw [Option.some.inj hsame]
    exact hstop.le
  · intro task hmem
    simp only [List.map_cons, List.map_nil, List.mem_cons, List.not_mem_nil, or_false] at hmem
    rcases hmem with rfl | rfl
    · exact ⟨(by decide : TaskKind.vaeDecode ∈ singleRankTaskKinds), rfl⟩
    · exact ⟨(by decide : TaskKind.finalize ∈ singleRankTaskKinds), rfl⟩

end GfDit
