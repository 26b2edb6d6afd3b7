import GfDit.Adapters.UniformPlan
import GfDit.Adapters.Sampling

/-!
# The Wan adapter

`adapters/wan.py`: the compiler, the layout codec of the runtime state and the
executors up to decoding, with the parts of the pipeline they rest on. What a
solver step computes is left out; it keeps the shape of the latents.
-/

namespace GfDit

namespace Wan

def stateCodecId : String := "wan.runtime_state.v1"
def decodedCodecId : String := "wan.decoded.v1"

-- ---------------------------------------------------------------------------
-- The compiler
-- ---------------------------------------------------------------------------

structure LatentGeometry where
  vaeScaleSpatial : Nat
  vaeScaleTemporal : Nat
  patchT : Nat
  patchH : Nat
  patchW : Nat
  -- a zero would raise at the first division
  scale_pos : 0 < vaeScaleSpatial ∧ 0 < vaeScaleTemporal
  patch_pos : 0 < patchT ∧ 0 < patchH ∧ 0 < patchW

def LatentGeometry.ditLatentSeqLen (g : LatentGeometry) (height width numFrames : Int) : Nat :=
  let hLat := max 1 (height / g.vaeScaleSpatial)
  let wLat := max 1 (width / g.vaeScaleSpatial)
  let fLat := max 1 ((numFrames + g.vaeScaleTemporal - 1) / g.vaeScaleTemporal)
  (max 1 ((fLat / g.patchT) * (hLat / g.patchH) * (wLat / g.patchW))).toNat

structure TaskCompiler where
  latentGeometry : LatentGeometry
  defaultGuidanceScale : ℚ
  -- the timesteps of the pipeline's scheduler, if it can be asked
  schedulerTimesteps : Nat → Option (List ℚ)
  boundaryRatio : Option ℚ
  numTrainTimesteps : Int

def numStepsOf (params : SamplingParams) : Int := orDefault (some params.numInferenceSteps) 40

def textSeqLenOf (params : SamplingParams) : Int := orDefault params.maxSequenceLength 512

def heightOf (params : SamplingParams) : Int := orDefault params.height 480

def widthOf (params : SamplingParams) : Int := orDefault params.width 832

def numFramesOf (params : SamplingParams) : Int := orDefault (some params.numFrames) 81

def numOutputsOf (params : SamplingParams) : Int := orDefault (some params.numOutputsPerPrompt) 1

/-- The two guidance scales, from what is taken when none is given. -/
def guidanceLow (params : SamplingParams) (fallback : ℚ) : ℚ :=
  if params.guidanceScaleProvided then params.guidanceScale else fallback

def guidanceHigh (params : SamplingParams) (fallback : ℚ) : ℚ :=
  params.guidanceScale2.getD (guidanceLow params fallback)

/-- CFG is on when one of the scales is above one. -/
def trueCfg (params : SamplingParams) (fallback : ℚ) : Bool :=
  1 < guidanceLow params fallback ∨ 1 < guidanceHigh params fallback

def boundaryRatioOf (own requested : Option ℚ) : ℚ := own.getD (requested.getD (875 / 1000))

def TaskCompiler.ditStepDoTrueCfg (compiler : TaskCompiler) (params : SamplingParams)
    (numSteps : Nat) : List Bool :=
  let low := guidanceLow params compiler.defaultGuidanceScale
  let high := guidanceHigh params compiler.defaultGuidanceScale
  if 1 < low ∧ 1 < high then List.replicate numSteps true
  else if low ≤ 1 ∧ high ≤ 1 then List.replicate numSteps false
  else
    let boundaryTimestep :=
      boundaryRatioOf compiler.boundaryRatio params.boundaryRatio * compiler.numTrainTimesteps
    match compiler.schedulerTimesteps numSteps with
    | none => List.replicate numSteps true
    | some timesteps => timesteps.map fun t => 1 < if t < boundaryTimestep then high else low

def hasImage : RawImage → Bool
  | .absent => false
  | .one _ => true
  | .list [] => false
  | .list (image :: _) => image.isSome

def metadata (compiler : TaskCompiler) (params : SamplingParams) (image : RawImage) :
    Dict String PyValue :=
  Dict.insertAll ∅ [("height", .int (max 1 (heightOf params))), ("width", .int (max 1 (widthOf params))),
    ("num_frames", .int (max 1 (numFramesOf params))),
    ("num_outputs_per_prompt", .int (numOutputsOf params)),
    ("do_true_cfg", boolValue (trueCfg params compiler.defaultGuidanceScale)),
    ("has_image", boolValue (hasImage image)),
    ("output_type", .text (textOr params.outputType "np"))]

def planArgs (compiler : TaskCompiler) (request : RuntimeRequest) (prompt : Prompt) :
    ChunkedDitPlanArgs :=
  let params := request.diffusionRequest.samplingParams
  let numSteps := (numStepsOf params).toNat
  { requestId := request.requestId
    requestValue := request.diffusionRequest.hostValue
    requestType := "wan_runtime_v2"
    numSteps := numSteps
    chunkSize := request.denoiseChunkSize
    priority := request.priority
    groupId := request.groupId
    textSeqLen := (textSeqLenOf params).toNat
    latentSeqLen := compiler.latentGeometry.ditLatentSeqLen (heightOf params) (widthOf params)
      (numFramesOf params)
    stateCodecId := stateCodecId
    decodedCodecId := some decodedCodecId
    metadata := metadata compiler params prompt.rawImage
    stageGroupIds := none
    ditStepSchedule := []
    ditStepDoTrueCfg := some (compiler.ditStepDoTrueCfg params numSteps) }

variable (effectiveChunkSeqLen : Nat → Nat → Nat)

def compileRequest (compiler : TaskCompiler) (request : RuntimeRequest) :
    Except PyError RequestExecutionPlan := do
  let params := request.diffusionRequest.samplingParams
  if numStepsOf params < 1 then
    throw (.valueError s!"num_inference_steps must be >= 1, got {numStepsOf params}")
  else if textSeqLenOf params < 1 then
    throw (.valueError s!"max_sequence_length must be >= 1, got {textSeqLenOf params}")
  else
    let prompt ← extractPrompt request.diffusionRequest
    (planArgs compiler request prompt).buildChunkedDitPlan effectiveChunkSeqLen

theorem compileRequest_ok {f : Nat → Nat → Nat} {compiler : TaskCompiler} {request : RuntimeRequest}
    (h : compileRequest f compiler request = .ok plan) :
    ∃ prompt, request.diffusionRequest.prompts = [prompt] ∧
      1 ≤ numStepsOf request.diffusionRequest.samplingParams ∧
      1 ≤ textSeqLenOf request.diffusionRequest.samplingParams ∧
      ∃ chunks lastChunk, (planArgs compiler request prompt).UniformPlan plan chunks lastChunk := by
  unfold compileRequest at h
  simp only at h
  split at h
  · cases h
  · split at h
    · cases h
    · rename_i hsteps htext
      obtain ⟨prompt, hprompt, h⟩ := Except.bind_eq_ok.mp h
      exact ⟨prompt, extractPrompt_ok hprompt, by omega, by omega,
        ChunkedDitPlanArgs.buildChunkedDitPlan_uniform rfl rfl h⟩

-- ---------------------------------------------------------------------------
-- The layout codec
-- ---------------------------------------------------------------------------

structure Pipeline where
  vaeScaleFactorSpatial : Nat
  vaeScaleFactorTemporal : Nat
  -- the second entry of the transformer's patch size
  patchHeight : Nat
  inChannels : Nat
  outChannels : Nat
  zDim : Nat
  textHiddenSize : Nat
  transformerDtype : String
  numTrainTimesteps : ℚ
  expandTimesteps : Bool
  boundaryRatio : Option ℚ
  defaultGuidanceScale : ℚ
  spatial_pos : 0 < vaeScaleFactorSpatial
  temporal_pos : 0 < vaeScaleFactorTemporal
  patch_pos : 0 < patchHeight
  dtype_ne : transformerDtype ≠ ""

variable (pipeline : Pipeline)

def Pipeline.modValue : Int := pipeline.vaeScaleFactorSpatial * pipeline.patchHeight

/-- `num_frames`, one more than a multiple of the temporal factor. -/
def Pipeline.roundFrames (numFrames : Int) : Int :=
  let temporal : Int := pipeline.vaeScaleFactorTemporal
  max 1 (if numFrames % temporal ≠ 1 then numFrames / temporal * temporal + 1 else numFrames)

def roundDown (size modValue : Int) : Int := size / modValue * modValue

def normalizedSize (metadata : Dict String PyValue) : Except PyError (Int × Int × Int) := do
  let height ← metadataAtLeastOne metadata "height" 480
  let width ← metadataAtLeastOne metadata "width" 832
  let numFrames ← metadataAtLeastOne metadata "num_frames" 81
  pure (max pipeline.modValue (roundDown height pipeline.modValue),
    max pipeline.modValue (roundDown width pipeline.modValue), pipeline.roundFrames numFrames)

def Pipeline.latentSizes (batch channels height width numFrames : Int) : List Int :=
  [batch, channels, (numFrames - 1) / pipeline.vaeScaleFactorTemporal + 1,
    height / pipeline.vaeScaleFactorSpatial, width / pipeline.vaeScaleFactorSpatial]

def latentShape (metadata : Dict String PyValue) : Except PyError Shape := do
  let batch ← metadataAtLeastOne metadata "num_outputs_per_prompt" 1
  let (height, width, numFrames) ← normalizedSize pipeline metadata
  let channels := if metadataFlag metadata "has_image" ∧ pipeline.expandTimesteps
    then pipeline.outChannels else pipeline.inChannels
  pure ((pipeline.latentSizes batch channels height width numFrames).map Int.toNat)

def validateArtifact (group : ExecutionGroupSpec) (groupRank : Nat) (artifact : ArtifactHandle) :
    Except PyError Unit :=
  if group.ranks.length ≤ groupRank then
    throw (.valueError s!"group_rank {groupRank} out of range for group {group.groupId}")
  else if artifact.codecId ≠ some stateCodecId then
    throw (.valueError <| s!"wan state codec cannot describe artifact {artifact.artifactId} " ++
      s!"with codec_id={optionText (artifact.codecId.map quoted)}")
  else pure ()

def declaredFields (metadata : Dict String PyValue) (artifactId : String) :
    Except PyError (List (String × Shape × String)) := do
  let batch ← metadataAtLeastOne metadata "num_outputs_per_prompt" 1
  let textSeqLen ← metadataAtLeastOne metadata "text_seq_len" 512
  let numSteps ← metadataAtLeastOne metadata "num_steps" 1
  let embeds : Shape := [batch, textSeqLen, pipeline.textHiddenSize]
  let latents ← if hasLatents artifactId then do
      let shape ← latentShape pipeline metadata
      pure (("latents", shape, "float32") ::
        if metadataFlag metadata "has_image" ∧ pipeline.expandTimesteps then
          [("latent_condition", shape, "float32"),
            ("first_frame_mask", [1, 1] ++ shape.drop 2, "float32")]
        else [])
    else pure []
  pure ([("prompt_embeds", embeds, pipeline.transformerDtype)] ++
    (if metadataFlag metadata "do_true_cfg" then
      [("negative_prompt_embeds", embeds, pipeline.transformerDtype)] else []) ++ latents ++
    if hasTimesteps artifactId then [("timesteps", [numSteps], "int64")] else [])

def describeOutput (group : ExecutionGroupSpec) (groupRank : Nat) (metadata : Dict String PyValue)
    (artifact : ArtifactHandle) : Except PyError OutputArtifactLayout := do
  validateArtifact group groupRank artifact
  let fields ← declaredFields pipeline metadata artifact.artifactId
  let tensors ← replicatedFields fields
  outputArtifactLayout artifact tensors

-- ---------------------------------------------------------------------------
-- The executors
-- ---------------------------------------------------------------------------

/-- `WanRuntimeState`. A solver is there from the timesteps to the last step. -/
structure RuntimeState where
  request : DiffusionRequest
  height : Int
  width : Int
  numFrames : Int
  numSteps : Int
  promptEmbeds : Option Shape
  negativePromptEmbeds : Option Shape
  latents : Option Shape
  timesteps : Option Shape
  scheduler : Bool
  latentCondition : Option Shape
  firstFrameMask : Option Shape

def RuntimeState.tensorFields (state : RuntimeState) : List (List String × Shape) :=
  presentFields [("prompt_embeds", state.promptEmbeds),
    ("negative_prompt_embeds", state.negativePromptEmbeds), ("latents", state.latents),
    ("timesteps", state.timesteps), ("latent_condition", state.latentCondition),
    ("first_frame_mask", state.firstFrameMask)]

/-- `pipeline.check_inputs`, on the sizes. -/
def checkInputs (height width : Int) : Except PyError Unit :=
  if height % 16 ≠ 0 ∨ width % 16 ≠ 0 then
    throw (.valueError <| "`height` and `width` have to be divisible by 16 but are " ++
      s!"{height} and {width}.")
  else pure ()

/-- `pipeline.encode_prompt`: text of the full length, repeated for every video. -/
def encodePrompt (doCfg : Bool) (numVideos maxSequenceLength : Int) :
    Except PyError (Shape × Option Shape) := do
  let embeds ← newTensor [numVideos, maxSequenceLength, pipeline.textHiddenSize]
  pure (embeds, if doCfg then some embeds else none)

/-- `WanTextEncodeExecutor`. -/
def textEncode (req : DiffusionRequest) : Except PyError RuntimeState := do
  let _ ← extractPrompt req
  let params := req.samplingParams
  let height := roundDown (heightOf params) pipeline.modValue
  let width := roundDown (widthOf params) pipeline.modValue
  checkInputs height width
  let (embeds, negative) ← encodePrompt pipeline (trueCfg params pipeline.defaultGuidanceScale)
    (numOutputsOf params) (textSeqLenOf params)
  pure {
    request := req
    height := height
    width := width
    numFrames := pipeline.roundFrames (numFramesOf params)
    numSteps := numStepsOf params
    promptEmbeds := some embeds
    negativePromptEmbeds := negative
    latents := none
    timesteps := none
    scheduler := false
    latentCondition := none
    firstFrameMask := none }

/-- `pipeline.prepare_latents`. -/
def prepareLatents (batch channels : Nat) (state : RuntimeState) : Except PyError Shape :=
  newTensor (pipeline.latentSizes batch channels state.height state.width state.numFrames)

/-- The image as one frame of a video: a picture is resized to the state's
size, a tensor is taken as it is. -/
def imageFrame (state : RuntimeState) : PromptImage → Except PyError (Nat × Nat × Nat)
  | .picture =>
    if state.height ≤ 0 ∨ state.width ≤ 0 then throw (.valueError "height and width must be > 0")
    else pure (1, state.height.toNat, state.width.toNat)
  | .tensor count height width => pure (count, height, width)

/-- The latents of an image, repeated for every video: the VAE encodes one
frame as one latent frame. -/
def conditionShape (batch : Nat) (frame : Nat × Nat × Nat) : Shape :=
  [frame.1 * batch, pipeline.zDim, 1, frame.2.1 / pipeline.vaeScaleFactorSpatial,
    frame.2.2 / pipeline.vaeScaleFactorSpatial]

def notSubscriptable : PyError := .attributeError "'NoneType' object has no attribute 'shape'"

/-- `WanLatentPrepareExecutor`. -/
def latentPrepare (state : RuntimeState) : Except PyError RuntimeState := do
  let prompt ← extractPrompt state.request
  match state.promptEmbeds with
  | none => throw notSubscriptable
  | some embeds =>
    let batch := embeds.headD 0
    match prompt.rawImage.first, pipeline.expandTimesteps with
    | some image, true =>
      let frame ← imageFrame state image
      let latents ← prepareLatents pipeline batch pipeline.outChannels state
      pure { state with
        latents := some latents
        latentCondition := some (conditionShape pipeline batch frame)
        firstFrameMask := some ([1, 1] ++ latents.drop 2) }
    | _, _ =>
      let latents ← prepareLatents pipeline batch pipeline.inChannels state
      pure { state with latents := some latents }

def timestepPrepare (state : RuntimeState) : RuntimeState :=
  { state with scheduler := true, timesteps := some [state.numSteps.toNat] }

def mixCondition (mask condition latents : Shape) : Except PyError Shape := do
  let kept ← broadcast mask condition
  let denoised ← broadcast mask latents
  broadcast kept denoised

def notReady : PyError := .runtimeError "state is not ready for denoising"

/-- The latents with the first frame of an image mixed in, which a chunk makes
at every step and once more at the end. -/
def mixedLatents (state : RuntimeState) (range : StepRange) (numTimesteps : Nat) (latents : Shape) :
    Except PyError Shape :=
  match pipeline.expandTimesteps, state.latentCondition, state.firstFrameMask with
  | true, some condition, some mask =>
    if chunkSteps range numTimesteps = [] ∧ min range.stop numTimesteps < numTimesteps then
      pure latents
    else mixCondition mask condition latents
  | _, _, _ => pure latents

/-- `WanDenoiseExecutor`, with what it does to the solver. -/
def denoise (task : InferenceTask) (state : RuntimeState) :
    Except PyError (RuntimeState × List SolverEvent) :=
  match task.stepRange, state.timesteps, state.latents, state.scheduler with
  | none, _, _, _ => throw (.valueError "dit_step_chunk requires step_range")
  | some range, some timesteps, some latents, true => do
    let numTimesteps := timesteps.headD 0
    let mixed ← mixedLatents pipeline state range numTimesteps latents
    if numTimesteps ≤ min range.stop numTimesteps then
      pure ({ state with latents := some mixed, scheduler := false },
        chunkEvents range numTimesteps)
    else pure (state, chunkEvents range numTimesteps)
  | some _, _, _, _ => throw notReady

end Wan

end GfDit
