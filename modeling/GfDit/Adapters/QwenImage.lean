import GfDit.Adapters.UniformPlan
import GfDit.Adapters.Sampling

/-!
# The Qwen-Image adapter

`adapters/qwen_image.py`: the compiler, the layout codecs of the runtime state
and of the decoded value and the executors up to decoding, with the parts of
the pipeline they rest on. Prompt embeddings keep their tokens, since they are
padded and trimmed; what a solver step computes is left out.
-/

namespace GfDit

namespace QwenImage

def stateCodecId : String := "qwen_image.runtime_state.v1"
def decodedCodecId : String := "qwen_image.decoded.v1"

/-- `_DEFAULT_QWEN_VAE_SCALE_FACTOR`, which is also the pipeline's. -/
def vaeScaleFactor : Nat := 8

/-- `pipeline.default_sample_size`. -/
def defaultSampleSize : Nat := 128

-- ---------------------------------------------------------------------------
-- Rows of tokens
-- ---------------------------------------------------------------------------

/-- A batch of rows of one length: token vectors, or the entries of a mask. -/
structure Rows (α : Type) where
  seqLen : Nat
  rows : List (List α)
  uniform : ∀ row ∈ rows, row.length = seqLen

namespace Rows

variable {α : Type}

@[ext] theorem ext {a b : Rows α} (hs : a.seqLen = b.seqLen) (hr : a.rows = b.rows) : a = b := by
  cases a
  cases b
  subst hs hr
  rfl

def repeated (row : List α) (count : Nat) : Rows α :=
  ⟨row.length, List.replicate count row, fun _ hm => by rw [List.eq_of_mem_replicate hm]⟩

/-- `torch.nn.functional.pad` at the end of every row. -/
def pad (rows : Rows α) (zero : α) (count : Nat) : Rows α where
  seqLen := rows.seqLen + count
  rows := rows.rows.map fun row => row ++ List.replicate count zero
  uniform := by
    intro row hm
    obtain ⟨row, hrow, rfl⟩ := List.mem_map.mp hm
    rw [List.length_append, List.length_replicate, rows.uniform row hrow]

def takeCols (rows : Rows α) (count : Nat) : Rows α where
  seqLen := min count rows.seqLen
  rows := rows.rows.map (·.take count)
  uniform := by
    intro row hm
    obtain ⟨row, hrow, rfl⟩ := List.mem_map.mp hm
    rw [List.length_take, rows.uniform row hrow]

end Rows

def padPromptToLen (zero : α) (embeds : Rows α) (mask : Rows Nat) (targetLen : Nat) :
    Rows α × Rows Nat :=
  if targetLen ≤ embeds.seqLen then (embeds, mask)
  else (embeds.pad zero (targetLen - embeds.seqLen), mask.pad 0 (targetLen - embeds.seqLen))

def trimPromptToSeqLens (embeds : Option (Rows α)) (mask : Option (Rows Nat))
    (seqLens : Option (List Nat)) : Option (Rows α) × Option (Rows Nat) :=
  match embeds, seqLens with
  | some rows, some (first :: rest) =>
    let real := rest.foldl max first
    if rows.seqLen ≤ real then (embeds, mask)
    else (some (rows.takeCols real), mask.map (·.takeCols real))
  | _, _ => (embeds, mask)

/-- `mask.sum(dim=1).tolist()`. -/
def maskSums (mask : Rows Nat) : List Nat := mask.rows.map List.sum

-- ---------------------------------------------------------------------------
-- The compiler
-- ---------------------------------------------------------------------------

def numStepsOf (params : SamplingParams) : Int := orDefault (some params.numInferenceSteps) 50

def textSeqLenOf (params : SamplingParams) : Int := orDefault params.maxSequenceLength 512

def heightOf (params : SamplingParams) : Int := orDefault params.height 1024

def widthOf (params : SamplingParams) : Int := orDefault params.width 1024

def numImagesOf (params : SamplingParams) : Nat :=
  if 0 < params.numOutputsPerPrompt then params.numOutputsPerPrompt.toNat else 1

def doTrueCfg (params : SamplingParams) (prompt : Prompt) : Bool :=
  1 < ratOr params.trueCfgScale 4 ∧ prompt.negativePrompt ≠ none

/-- `_estimate_packed_latent_seq_len`. -/
def packedLatentSeqLen (params : SamplingParams) : Nat :=
  let packed : Int := vaeScaleFactor * 2
  (max 1 (max 1 (max 1 (heightOf params) / packed) * max 1 (max 1 (widthOf params) / packed))).toNat

def metadata (params : SamplingParams) (prompt : Prompt) : Dict String PyValue :=
  Dict.insertAll ∅ [("height", .int (max 1 (heightOf params))), ("width", .int (max 1 (widthOf params))),
    ("num_images_per_prompt", .int (numImagesOf params)),
    ("do_true_cfg", boolValue (doTrueCfg params prompt)),
    ("output_type", .text (textOr params.outputType "pil"))]

def planArgs (request : RuntimeRequest) (prompt : Prompt) : ChunkedDitPlanArgs :=
  let params := request.diffusionRequest.samplingParams
  { requestId := request.requestId
    requestValue := request.diffusionRequest.hostValue
    requestType := "qwen_image_runtime_v2"
    numSteps := (numStepsOf params).toNat
    chunkSize := request.denoiseChunkSize
    priority := request.priority
    groupId := request.groupId
    textSeqLen := (textSeqLenOf params).toNat
    latentSeqLen := packedLatentSeqLen params
    stateCodecId := stateCodecId
    decodedCodecId := some decodedCodecId
    metadata := metadata params prompt
    stageGroupIds := none
    ditStepSchedule := []
    ditStepDoTrueCfg := none }

variable (effectiveChunkSeqLen : Nat → Nat → Nat)

def compileRequest (request : RuntimeRequest) : Except PyError RequestExecutionPlan := do
  let params := request.diffusionRequest.samplingParams
  if numStepsOf params < 1 then
    throw (.valueError s!"num_inference_steps must be >= 1, got {numStepsOf params}")
  else if textSeqLenOf params < 1 then
    throw (.valueError s!"max_sequence_length must be >= 1, got {textSeqLenOf params}")
  else
    let prompt ← extractPrompt request.diffusionRequest
    (planArgs request prompt).buildChunkedDitPlan effectiveChunkSeqLen

theorem compileRequest_ok {f : Nat → Nat → Nat} {request : RuntimeRequest}
    (h : compileRequest f request = .ok plan) :
    ∃ prompt, request.diffusionRequest.prompts = [prompt] ∧
      1 ≤ numStepsOf request.diffusionRequest.samplingParams ∧
      1 ≤ textSeqLenOf request.diffusionRequest.samplingParams ∧
      ∃ chunks lastChunk, (planArgs request prompt).UniformPlan plan chunks lastChunk := by
  unfold compileRequest at h
  simp only at h
  split at h
  · cases h
  · split at h
    · cases h
    · rename_i hsteps htext
      obtain ⟨prompt, hprompt, h⟩ := Except.bind_eq_ok.mp h
      exact ⟨prompt, extractPrompt_ok hprompt, by omega, by omega,
        ChunkedDitPlanArgs.buildChunkedDitPlan_uniform rfl rfl h⟩

-- ---------------------------------------------------------------------------
-- The layout codecs
-- ---------------------------------------------------------------------------

/-- What the adapter reads of a Qwen-Image pipeline. The text encoder gives the
tokens of a prompt; four latent channels are packed into each of the
transformer's. -/
structure Pipeline (Token : Type) where
  inChannels : Nat
  guidanceEmbeds : Bool
  promptHiddenSize : Nat
  promptDtype : String
  vaeDtype : String
  zeroToken : Token
  promptTokens : String → List Token
  channels_div : 4 ∣ inChannels
  dtype_ne : promptDtype ≠ ""
  vae_dtype_ne : vaeDtype ≠ ""

variable {Token : Type} (pipeline : Pipeline Token)

def validateArtifact (codec codecId : String) (group : ExecutionGroupSpec) (groupRank : Nat)
    (artifact : ArtifactHandle) : Except PyError Unit :=
  if group.ranks.length ≤ groupRank then
    throw (.valueError s!"group_rank {groupRank} out of range for group {group.groupId}")
  else if artifact.codecId ≠ some codecId then
    throw (.valueError <| s!"qwen-image {codec} codec cannot describe artifact " ++
      s!"{artifact.artifactId} with codec_id={optionText (artifact.codecId.map quoted)}")
  else pure ()

def declaredFields (metadata : Dict String PyValue) (artifactId : String) :
    Except PyError (List (String × Shape × String)) := do
  let batch ← metadataAtLeastOne metadata "num_images_per_prompt" 1
  let textSeqLen ← metadataAtLeastOne metadata "text_seq_len" 512
  let latentSeqLen ← metadataAtLeastOne metadata "latent_seq_len" 1
  let numSteps ← metadataAtLeastOne metadata "num_steps" 1
  let embeds : Shape := [batch, textSeqLen, pipeline.promptHiddenSize]
  pure ([("prompt_embeds", embeds, pipeline.promptDtype),
      ("prompt_embeds_mask", [batch, textSeqLen], "int64")] ++
    (if metadataFlag metadata "do_true_cfg" then
      [("negative_prompt_embeds", embeds, pipeline.promptDtype),
        ("negative_prompt_embeds_mask", [batch, textSeqLen], "int64")] else []) ++
    (if hasLatents artifactId then
      ("latents", [batch, latentSeqLen, pipeline.inChannels], pipeline.promptDtype) ::
        if pipeline.guidanceEmbeds then [("guidance", [batch], "float32")] else []
      else []) ++
    if hasTimesteps artifactId then [("timesteps", [numSteps], "float32")] else [])

def describeOutput (group : ExecutionGroupSpec) (groupRank : Nat) (metadata : Dict String PyValue)
    (artifact : ArtifactHandle) : Except PyError OutputArtifactLayout := do
  validateArtifact "state" stateCodecId group groupRank artifact
  let fields ← declaredFields pipeline metadata artifact.artifactId
  let tensors ← replicatedFields fields
  outputArtifactLayout artifact tensors

/-- `QwenImageDecodedLayoutCodec.describe_output`. -/
def describeDecoded (group : ExecutionGroupSpec) (groupRank : Nat) (metadata : Dict String PyValue)
    (artifact : ArtifactHandle) : Except PyError OutputArtifactLayout := do
  validateArtifact "decoded" decodedCodecId group groupRank artifact
  let batch ← metadataAtLeastOne metadata "num_images_per_prompt" 1
  let height ← metadataAtLeastOne metadata "height" 1024
  let width ← metadataAtLeastOne metadata "width" 1024
  let value ← if metadata.get? "output_type" = some (.text "latent") then do
      let latentSeqLen ← metadataAtLeastOne metadata "latent_seq_len" 1
      pure ("value", [batch, latentSeqLen, pipeline.inChannels], pipeline.promptDtype)
    else pure ("value", [batch, 3, height, width], pipeline.vaeDtype)
  let tensors ← replicatedFields [value]
  outputArtifactLayout artifact tensors

-- ---------------------------------------------------------------------------
-- The executors
-- ---------------------------------------------------------------------------

/-- `QwenImageRuntimeState`. A solver is there from the timesteps to the last
step. -/
structure RuntimeState (Token : Type) where
  request : DiffusionRequest
  height : Int
  width : Int
  numSteps : Nat
  outputType : String
  promptEmbeds : Option (Rows Token)
  promptEmbedsMask : Option (Rows Nat)
  negativePromptEmbeds : Option (Rows Token)
  negativePromptEmbedsMask : Option (Rows Nat)
  latents : Option Shape
  txtSeqLens : Option (List Nat)
  negativeTxtSeqLens : Option (List Nat)
  guidance : Option Shape
  timesteps : Option Shape
  scheduler : Bool

def embedsShape (rows : Rows Token) : Shape :=
  [rows.rows.length, rows.seqLen, pipeline.promptHiddenSize]

def maskShape (rows : Rows Nat) : Shape := [rows.rows.length, rows.seqLen]

def tensorFields (state : RuntimeState Token) : List (List String × Shape) :=
  presentFields [("prompt_embeds", state.promptEmbeds.map (embedsShape pipeline)),
    ("prompt_embeds_mask", state.promptEmbedsMask.map maskShape),
    ("negative_prompt_embeds", state.negativePromptEmbeds.map (embedsShape pipeline)),
    ("negative_prompt_embeds_mask", state.negativePromptEmbedsMask.map maskShape),
    ("latents", state.latents), ("guidance", state.guidance), ("timesteps", state.timesteps)]

/-- `pipeline.check_inputs`, on the length of the text. -/
def checkInputs (maxSequenceLength : Int) : Except PyError Unit :=
  if 1024 < maxSequenceLength then
    throw (.valueError <| "`max_sequence_length` cannot be greater than 1024 but is " ++
      s!"{maxSequenceLength}")
  else pure ()

/-- `pipeline.encode_prompt`: the tokens of a prompt, cut at the limit and
repeated for every image, and a mask of ones. -/
def encodePrompt (prompt : String) (numImages maxSequenceLength : Nat) : Rows Token × Rows Nat :=
  let tokens := (pipeline.promptTokens prompt).take maxSequenceLength
  (.repeated tokens numImages, .repeated (List.replicate tokens.length 1) numImages)

def promptText : Prompt → String
  | .text prompt => prompt
  | .data prompt _ _ => prompt

/-- `QwenImageTextEncodeExecutor`. -/
def textEncode (req : DiffusionRequest) : Except PyError (RuntimeState Token) := do
  let prompt ← extractPrompt req
  let params := req.samplingParams
  if numStepsOf params < 1 then
    throw (.valueError s!"num_inference_steps must be >= 1, got {numStepsOf params}")
  else
    checkInputs (textSeqLenOf params)
    let maxSequenceLength := (textSeqLenOf params).toNat
    let encode := fun text =>
      let encoded := encodePrompt pipeline text (numImagesOf params) maxSequenceLength
      padPromptToLen pipeline.zeroToken encoded.1 encoded.2 maxSequenceLength
    let positive := encode (promptText prompt)
    let negative := if doTrueCfg params prompt then prompt.negativePrompt.map encode else none
    pure {
      request := req
      height := orDefault params.height (defaultSampleSize * vaeScaleFactor)
      width := orDefault params.width (defaultSampleSize * vaeScaleFactor)
      numSteps := (numStepsOf params).toNat
      outputType := textOr params.outputType "pil"
      promptEmbeds := some positive.1
      promptEmbedsMask := some positive.2
      negativePromptEmbeds := negative.map Prod.fst
      negativePromptEmbedsMask := negative.map Prod.snd
      latents := none
      txtSeqLens := none
      negativeTxtSeqLens := none
      guidance := none
      timesteps := none
      scheduler := false }

/-- `pipeline.prepare_latents`: four latent pixels are packed into one entry. -/
def prepareLatents (batch channels : Nat) (height width : Int) : Except PyError Shape := do
  let packed : Int := vaeScaleFactor * 2
  let _ ← newTensor [batch, 1, channels, 2 * (height / packed), 2 * (width / packed)]
  pure [batch, ((height / packed) * (width / packed)).toNat, channels * 4]

def noEmbeds : PyError := .attributeError "'NoneType' object has no attribute 'shape'"

/-- `QwenImageLatentPrepareExecutor`. -/
def latentPrepare (state : RuntimeState Token) : Except PyError (RuntimeState Token) :=
  match state.promptEmbeds with
  | none => throw noEmbeds
  | some embeds => do
    let latents ← prepareLatents embeds.rows.length (pipeline.inChannels / 4) state.height state.width
    pure { state with
      latents := some latents
      txtSeqLens := state.promptEmbedsMask.map maskSums
      negativeTxtSeqLens := state.negativePromptEmbedsMask.map maskSums
      guidance := if pipeline.guidanceEmbeds then some [latents.headD 0] else none }

/-- `QwenImageTimestepPrepareExecutor`: a scheduler set to `k` sigmas has `k`
timesteps; without sigmas of its own a request gets one for each step. -/
def timestepPrepare (state : RuntimeState Token) : Except PyError (RuntimeState Token) :=
  match state.latents with
  | none => throw (.runtimeError "state.latents is None in timestep_prepare stage")
  | some _ =>
    let numTimesteps := match state.request.samplingParams.sigmas with
      | none => state.numSteps
      | some sigmas => sigmas.length
    pure { state with
      scheduler := true, timesteps := some [numTimesteps], numSteps := numTimesteps }

def notReady : PyError := .runtimeError "state is not ready for qwen-image denoising"

/-- `QwenImageDenoiseExecutor`, with what it does to the solver. -/
def denoise (task : InferenceTask) (state : RuntimeState Token) :
    Except PyError (RuntimeState Token × List SolverEvent) :=
  match task.stepRange, state.timesteps, state.latents, state.scheduler with
  | none, _, _, _ => throw (.valueError "dit_step_chunk requires step_range")
  | some range, some timesteps, some _, true =>
    let numTimesteps := timesteps.headD 0
    pure ({ state with scheduler := numTimesteps > min range.stop numTimesteps },
      chunkEvents range numTimesteps)
  | some _, _, _, _ => throw notReady

/-- The embeddings and the mask the model is given by a denoising chunk. -/
def modelPrompt (state : RuntimeState Token) : Option (Rows Token) × Option (Rows Nat) :=
  trimPromptToSeqLens state.promptEmbeds state.promptEmbedsMask state.txtSeqLens

def modelNegativePrompt (state : RuntimeState Token) : Option (Rows Token) × Option (Rows Nat) :=
  trimPromptToSeqLens state.negativePromptEmbeds state.negativePromptEmbedsMask
    state.negativeTxtSeqLens

/-- `QwenImageDecodeExecutor`: what is decoded has the size of the packed
latents, sixteen pixels for each entry. -/
def decode (state : RuntimeState Token) : Except PyError Shape :=
  match state.latents with
  | none => throw (.runtimeError "state.latents is None in decode stage")
  | some latents =>
    if state.outputType = "latent" then pure latents
    else
      let packed : Int := vaeScaleFactor * 2
      pure [latents.headD 0, 3, (packed * (state.height / packed)).toNat,
        (packed * (state.width / packed)).toNat]

def decodedFields (value : Shape) : List (List String × Shape) := presentFields [("value", some value)]

end QwenImage

end GfDit
