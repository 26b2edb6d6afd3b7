import GfDit.Adapters.DeclaredLayouts
import GfDit.Adapters.EveryStep

/-!
# Qwen-Image values and their declared layouts

What the executors return on an accepted request up to decoding, and when the
codecs declare just that: the image has at least one packed latent each way,
the request's own sigmas are as many as its steps, and pixels come in sixteens.
Padding the prompt to the declared length is always undone.
-/

namespace GfDit

namespace QwenImage

variable {Token : Type} {pipeline : Pipeline Token} {request : RuntimeRequest} {prompt : Prompt}
  {params : SamplingParams}

-- ---------------------------------------------------------------------------
-- Padding and trimming
-- ---------------------------------------------------------------------------

/-- Rows that were repeated are trimmed to where they ended before padding. -/
theorem takeCols_pad (row : List α) (count : Nat) (zero : α) (extra : Nat) :
    ((Rows.repeated row count).pad zero extra).takeCols row.length = Rows.repeated row count := by
  ext1
  · show min row.length (row.length + extra) = row.length
    omega
  · show ((List.replicate count row).map _).map _ = List.replicate count row
    simp only [List.map_replicate, List.take_left]

theorem maskSums_pad (len count extra : Nat) :
    maskSums ((Rows.repeated (List.replicate len 1) count).pad 0 extra) =
      List.replicate count len := by
  show ((List.replicate count _).map _).map _ = _
  simp [List.map_replicate]

theorem maskSums_repeated (len count : Nat) :
    maskSums (Rows.repeated (List.replicate len 1) count) = List.replicate count len := by
  show (List.replicate count _).map _ = _
  simp [List.map_replicate]

theorem foldl_max_replicate (len count : Nat) : (List.replicate count len).foldl max len = len := by
  induction count with
  | zero => rfl
  | succ count ih => rw [List.replicate_succ, List.foldl_cons, max_self, ih]

def encodedText (pipeline : Pipeline Token) (params : SamplingParams) (text : String) :
    Rows Token × Rows Nat :=
  encodePrompt pipeline text (numImagesOf params) (textSeqLenOf params).toNat

def paddedText (pipeline : Pipeline Token) (params : SamplingParams) (text : String) :
    Rows Token × Rows Nat :=
  padPromptToLen pipeline.zeroToken (encodedText pipeline params text).1
    (encodedText pipeline params text).2 (textSeqLenOf params).toNat

theorem numImagesOf_pos (params : SamplingParams) : 0 < numImagesOf params := by
  unfold numImagesOf
  split <;> omega

/-- Trimming by the sums of the mask gives back what was padded. -/
theorem trim_paddedText (pipeline : Pipeline Token) (params : SamplingParams) (text : String) :
    trimPromptToSeqLens (some (paddedText pipeline params text).1)
        (some (paddedText pipeline params text).2)
        (some (maskSums (paddedText pipeline params text).2)) =
      (some (encodedText pipeline params text).1, some (encodedText pipeline params text).2) := by
  obtain ⟨more, hmore⟩ := Nat.exists_eq_succ_of_ne_zero (numImagesOf_pos params).ne'
  unfold paddedText padPromptToLen encodedText encodePrompt
  simp only
  generalize (pipeline.promptTokens text).take (textSeqLenOf params).toNat = tokens
  split
  · rw [maskSums_repeated, hmore, List.replicate_succ]
    simp only [trimPromptToSeqLens, foldl_max_replicate]
    exact if_pos le_rfl
  · rename_i hlen
    rw [maskSums_pad, hmore, List.replicate_succ]
    simp only [trimPromptToSeqLens, foldl_max_replicate, Option.map_some, takeCols_pad]
    have hmask := takeCols_pad (List.replicate tokens.length 1) (more + 1) 0
      ((textSeqLenOf params).toNat - (Rows.repeated tokens (more + 1)).seqLen)
    rw [List.length_replicate] at hmask
    have hlonger : ¬ ((Rows.repeated tokens (more + 1)).pad pipeline.zeroToken
        ((textSeqLenOf params).toNat - (Rows.repeated tokens (more + 1)).seqLen)).seqLen ≤
          tokens.length := by
      show ¬ tokens.length + ((textSeqLenOf params).toNat - tokens.length) ≤ tokens.length
      have : ¬ (textSeqLenOf params).toNat ≤ tokens.length := hlen
      omega
    rw [if_neg hlonger, hmask]

theorem paddedText_shapes (pipeline : Pipeline Token) (params : SamplingParams) (text : String) :
    embedsShape pipeline (paddedText pipeline params text).1 =
        [numImagesOf params, (textSeqLenOf params).toNat, pipeline.promptHiddenSize] ∧
      maskShape (paddedText pipeline params text).2 =
        [numImagesOf params, (textSeqLenOf params).toNat] := by
  unfold paddedText padPromptToLen encodedText encodePrompt
  simp only
  have hlen : ((pipeline.promptTokens text).take (textSeqLenOf params).toNat).length ≤
    (textSeqLenOf params).toNat := List.length_take_le ..
  generalize (pipeline.promptTokens text).take (textSeqLenOf params).toNat = tokens at hlen
  split
  · rename_i hle
    have hseq : tokens.length = (textSeqLenOf params).toNat := le_antisymm hlen hle
    simp [embedsShape, maskShape, Rows.repeated, hseq]
  · simp [embedsShape, maskShape, Rows.repeated, Rows.pad]
    omega

-- ---------------------------------------------------------------------------
-- What the stages return
-- ---------------------------------------------------------------------------

/-- What the stages up to decoding return. -/
inductive Value (Token : Type)
  | state (state : RuntimeState Token)
  | decoded (value : Shape)

def valueFields (pipeline : Pipeline Token) : Value Token → List (List String × Shape)
  | .state state => tensorFields pipeline state
  | .decoded value => decodedFields value

def execute (pipeline : Pipeline Token) (req : DiffusionRequest) (task : InferenceTask)
    (value : Option (Value Token)) : Except PyError (Value Token) :=
  match task.kind, value with
  | .textEncode, _ => .state <$> textEncode pipeline req
  | .ditPrepare, some (.state state) => .state <$> latentPrepare pipeline state
  | .timestepPrepare, some (.state state) => .state <$> timestepPrepare state
  | .ditStepChunk, some (.state state) => (fun result => .state result.1) <$> denoise task state
  | .vaeDecode, some (.state state) => .decoded <$> decode state
  | _, _ => throw notReady

def negativeText (params : SamplingParams) (prompt : Prompt) : Option String :=
  if doTrueCfg params prompt then prompt.negativePrompt else none

def encodedState (pipeline : Pipeline Token) (req : DiffusionRequest) (prompt : Prompt) :
    RuntimeState Token where
  request := req
  height := heightOf req.samplingParams
  width := widthOf req.samplingParams
  numSteps := (numStepsOf req.samplingParams).toNat
  outputType := textOr req.samplingParams.outputType "pil"
  promptEmbeds := some (paddedText pipeline req.samplingParams (promptText prompt)).1
  promptEmbedsMask := some (paddedText pipeline req.samplingParams (promptText prompt)).2
  negativePromptEmbeds := (negativeText req.samplingParams prompt).map fun text =>
    (paddedText pipeline req.samplingParams text).1
  negativePromptEmbedsMask := (negativeText req.samplingParams prompt).map fun text =>
    (paddedText pipeline req.samplingParams text).2
  latents := none
  txtSeqLens := none
  negativeTxtSeqLens := none
  guidance := none
  timesteps := none
  scheduler := false

theorem textEncode_iff (hprompt : extractPrompt req = .ok prompt)
    (hsteps : 1 ≤ numStepsOf req.samplingParams) :
    textEncode pipeline req = .ok state ↔
      textSeqLenOf req.samplingParams ≤ 1024 ∧ state = encodedState pipeline req prompt := by
  have hnegative : ∀ {β : Type} (g : Rows Token × Rows Nat → β),
      ((if doTrueCfg req.samplingParams prompt then prompt.negativePrompt.map
        (paddedText pipeline req.samplingParams) else none).map g) =
      (negativeText req.samplingParams prompt).map fun text =>
        g (paddedText pipeline req.samplingParams text) := by
    intro β g
    unfold negativeText
    split
    · rw [Option.map_map]
      rfl
    · rfl
  unfold textEncode
  rw [hprompt, Except.ok_bind]
  simp only [if_neg (Int.not_lt.mpr hsteps), checkInputs]
  by_cases hlong : 1024 < textSeqLenOf req.samplingParams
  · rw [if_pos hlong]
    exact iff_of_false (fun h => nomatch h) fun h => absurd hlong (Int.not_lt.mpr h.1)
  · rw [if_neg hlong]
    simp only [Int.not_lt.mp hlong, true_and]
    refine Iff.trans Except.pure_eq_ok (eq_comm.trans ?_)
    rw [encodedState, ← hnegative Prod.fst, ← hnegative Prod.snd]
    rfl

def latentsOf (pipeline : Pipeline Token) (params : SamplingParams) : Shape :=
  [numImagesOf params, (heightOf params / 16 * (widthOf params / 16)).toNat, pipeline.inChannels]

def preparedState (pipeline : Pipeline Token) (req : DiffusionRequest) (prompt : Prompt) :
    RuntimeState Token :=
  { encodedState pipeline req prompt with
    latents := some (latentsOf pipeline req.samplingParams)
    txtSeqLens := some (maskSums (paddedText pipeline req.samplingParams (promptText prompt)).2)
    negativeTxtSeqLens := (negativeText req.samplingParams prompt).map fun text =>
      maskSums (paddedText pipeline req.samplingParams text).2
    guidance := if pipeline.guidanceEmbeds then some [numImagesOf req.samplingParams] else none }

theorem prepareLatents_eq (pipeline : Pipeline Token) (params : SamplingParams) :
    prepareLatents (numImagesOf params) (pipeline.inChannels / 4) (heightOf params)
        (widthOf params) =
      if 0 ≤ heightOf params ∧ 0 ≤ widthOf params then .ok (latentsOf pipeline params)
      else .error (.runtimeError "Trying to create tensor with negative dimension") := by
  have hchannels : pipeline.inChannels / 4 * 4 = pipeline.inChannels :=
    Nat.div_mul_cancel pipeline.channels_div
  have hall : (∀ size ∈ [(numImagesOf params : Int), 1, ((pipeline.inChannels / 4 : Nat) : Int),
      2 * (heightOf params / ((vaeScaleFactor : Nat) * 2)),
      2 * (widthOf params / ((vaeScaleFactor : Nat) * 2))], 0 ≤ size) ↔
      0 ≤ heightOf params ∧ 0 ≤ widthOf params := by
    simp only [List.forall_mem_cons, List.not_mem_nil, Int.natCast_nonneg, vaeScaleFactor,
      true_and, false_imp_iff, implies_true, and_true]
    omega
  unfold prepareLatents newTensor
  simp only [hall, hchannels]
  split <;> rfl

theorem latentPrepare_iff (req : DiffusionRequest) (prompt : Prompt) :
    latentPrepare pipeline (encodedState pipeline req prompt) = .ok state ↔
      (0 ≤ heightOf req.samplingParams ∧ 0 ≤ widthOf req.samplingParams) ∧
        state = preparedState pipeline req prompt := by
  have hrows : (paddedText pipeline req.samplingParams (promptText prompt)).1.rows.length =
      numImagesOf req.samplingParams := by
    have h := (paddedText_shapes pipeline req.samplingParams (promptText prompt)).1
    exact (List.cons.inj h).1
  have hneg : (encodedState pipeline req prompt).negativePromptEmbedsMask.map maskSums =
      (negativeText req.samplingParams prompt).map fun text =>
        maskSums (paddedText pipeline req.samplingParams text).2 :=
    Option.map_map ..
  unfold latentPrepare
  show (prepareLatents (paddedText pipeline req.samplingParams (promptText prompt)).1.rows.length
    _ (heightOf req.samplingParams) (widthOf req.samplingParams) >>= _) = _ ↔ _
  rw [hrows, prepareLatents_eq, hneg]
  refine Iff.trans ite_bind_iff (and_congr_right fun _ => Except.pure_eq_ok.trans eq_comm)

def timestepState (pipeline : Pipeline Token) (req : DiffusionRequest) (prompt : Prompt) :
    RuntimeState Token :=
  { preparedState pipeline req prompt with
    scheduler := true
    timesteps := some [numTimestepsOf req.samplingParams]
    numSteps := numTimestepsOf req.samplingParams }

-- ---------------------------------------------------------------------------
-- What the codecs declare
-- ---------------------------------------------------------------------------

def embedFields (pipeline : Pipeline Token) (params : SamplingParams) (prompt : Prompt) :
    List (String × Shape × String) :=
  let embeds : Shape := [numImagesOf params, (textSeqLenOf params).toNat, pipeline.promptHiddenSize]
  let mask : Shape := [numImagesOf params, (textSeqLenOf params).toNat]
  [("prompt_embeds", embeds, pipeline.promptDtype), ("prompt_embeds_mask", mask, "int64")] ++
    if doTrueCfg params prompt then
      [("negative_prompt_embeds", embeds, pipeline.promptDtype),
        ("negative_prompt_embeds_mask", mask, "int64")]
    else []

def declaredLatents (pipeline : Pipeline Token) (params : SamplingParams) : Shape :=
  [numImagesOf params, packedLatentSeqLen params, pipeline.inChannels]

def guidanceFields (pipeline : Pipeline Token) (params : SamplingParams) :
    List (String × Shape × String) :=
  if pipeline.guidanceEmbeds then [("guidance", [numImagesOf params], "float32")] else []

def stateFields (pipeline : Pipeline Token) (params : SamplingParams) (prompt : Prompt)
    (artifactId : String) : List (String × Shape × String) :=
  embedFields pipeline params prompt ++
    (if hasLatents artifactId then
      ("latents", declaredLatents pipeline params, pipeline.promptDtype) ::
        guidanceFields pipeline params
    else []) ++
    if hasTimesteps artifactId then [("timesteps", [(numStepsOf params).toNat], "float32")] else []

def decodedField (pipeline : Pipeline Token) (params : SamplingParams) : String × Shape × String :=
  if textOr params.outputType "pil" = "latent" then
    ("value", declaredLatents pipeline params, pipeline.promptDtype)
  else
    ("value", [numImagesOf params, 3, (max 1 (heightOf params)).toNat,
      (max 1 (widthOf params)).toNat], pipeline.vaeDtype)

theorem metadata_numImages :
    metadataAtLeastOne (planArgs request prompt).planMetadata "num_images_per_prompt" 1 =
      .ok (numImagesOf request.diffusionRequest.samplingParams) := by
  have hpos := numImagesOf_pos request.diffusionRequest.samplingParams
  have hvalue : (planArgs request prompt).planMetadata.get? "num_images_per_prompt" =
    some (.int (numImagesOf request.diffusionRequest.samplingParams)) := rfl
  rw [metadataAtLeastOne_int hvalue (by omega), Int.toNat_natCast]

theorem metadata_latentSeqLen :
    metadataAtLeastOne (planArgs request prompt).planMetadata "latent_seq_len" 1 =
      .ok (packedLatentSeqLen request.diffusionRequest.samplingParams) := by
  have hpos : 1 ≤ packedLatentSeqLen request.diffusionRequest.samplingParams := by
    unfold packedLatentSeqLen
    simp only
    omega
  have hvalue : (planArgs request prompt).planMetadata.get? "latent_seq_len" =
    some (.int (packedLatentSeqLen request.diffusionRequest.samplingParams)) := rfl
  rw [metadataAtLeastOne_int hvalue (by omega), Int.toNat_natCast]

theorem declaredFields_eq (htext : 1 ≤ textSeqLenOf request.diffusionRequest.samplingParams)
    (hsteps : 1 ≤ numStepsOf request.diffusionRequest.samplingParams) (artifactId : String) :
    declaredFields pipeline (planArgs request prompt).planMetadata artifactId =
      .ok (stateFields pipeline request.diffusionRequest.samplingParams prompt artifactId) := by
  have hlen : metadataAtLeastOne (planArgs request prompt).planMetadata "text_seq_len" 512 =
      .ok (textSeqLenOf request.diffusionRequest.samplingParams).toNat := by
    have hvalue : (planArgs request prompt).planMetadata.get? "text_seq_len" =
      some (.int (textSeqLenOf request.diffusionRequest.samplingParams).toNat) := rfl
    rw [metadataAtLeastOne_int hvalue (by omega), Int.toNat_natCast]
  have hnum : metadataAtLeastOne (planArgs request prompt).planMetadata "num_steps" 1 =
      .ok (numStepsOf request.diffusionRequest.samplingParams).toNat := by
    have hvalue : (planArgs request prompt).planMetadata.get? "num_steps" =
      some (.int (numStepsOf request.diffusionRequest.samplingParams).toNat) := rfl
    rw [metadataAtLeastOne_int hvalue (by omega), Int.toNat_natCast]
  have hcfg : metadataFlag (planArgs request prompt).planMetadata "do_true_cfg" =
      doTrueCfg request.diffusionRequest.samplingParams prompt := truthy_boolValue _
  simp only [declaredFields, metadata_numImages, hlen, hnum, hcfg, metadata_latentSeqLen,
    Except.ok_bind]
  rfl

def describeArtifact (pipeline : Pipeline Token) (group : ExecutionGroupSpec) (groupRank : Nat)
    (metadata : Dict String PyValue) (artifact : ArtifactHandle) :
    Except PyError OutputArtifactLayout :=
  if artifact.codecId = some decodedCodecId then
    describeDecoded pipeline group groupRank metadata artifact
  else describeOutput pipeline group groupRank metadata artifact

def Declared (pipeline : Pipeline Token) (group : ExecutionGroupSpec) (groupRank : Nat)
    (plan : RequestExecutionPlan) (left : InferenceTask × Value Token) : Prop :=
  ∀ artifact ∈ left.1.outputs,
    DeclaresShapes (describeArtifact pipeline group groupRank plan.metadata artifact)
      (valueFields pipeline left.2)

theorem stateFields_dtype (artifactId : String) :
    ∀ field ∈ stateFields pipeline params prompt artifactId, field.2.2 ≠ "" := by
  have hembeds : ∀ field ∈ embedFields pipeline params prompt, field.2.2 ≠ "" := by
    unfold embedFields
    cases doTrueCfg params prompt <;> simp [pipeline.dtype_ne]
  have hlatents : ∀ field ∈ (("latents", declaredLatents pipeline params, pipeline.promptDtype) ::
      guidanceFields pipeline params : List (String × Shape × String)), field.2.2 ≠ "" := by
    unfold guidanceFields
    cases pipeline.guidanceEmbeds <;> simp [pipeline.dtype_ne]
  intro field hm
  rcases List.mem_append.mp hm with hm | hm
  · rcases List.mem_append.mp hm with hm | hm
    · exact hembeds field hm
    · split at hm
      · exact hlatents field hm
      · cases hm
  · split at hm
    · rw [List.mem_singleton.mp hm]
      exact (by decide : "float32" ≠ "")
    · cases hm

theorem validateArtifact_ok {group : ExecutionGroupSpec} (hr : groupRank < group.ranks.length)
    (hc : artifact.codecId = some codecId) :
    validateArtifact codec codecId group groupRank artifact = .ok () := by
  rw [validateArtifact, if_neg (Nat.not_le.mpr hr), if_neg (fun h => h hc)]
  rfl

theorem declared_state_iff {group : ExecutionGroupSpec} (hr : groupRank < group.ranks.length)
    (htext : 1 ≤ textSeqLenOf request.diffusionRequest.samplingParams)
    (hsteps : 1 ≤ numStepsOf request.diffusionRequest.samplingParams)
    (hmeta : plan.metadata = (planArgs request prompt).planMetadata)
    (houtputs : task.outputs = [(planArgs request prompt).stateHandle artifactId]) :
    Declared pipeline group groupRank plan (task, .state state) ↔
      (namedShapes (stateFields pipeline request.diffusionRequest.samplingParams prompt
        artifactId)).Perm (tensorFields pipeline state) := by
  have hdescribed : describeArtifact pipeline group groupRank (planArgs request prompt).planMetadata
      ((planArgs request prompt).stateHandle artifactId) =
      (replicatedFields (stateFields pipeline request.diffusionRequest.samplingParams prompt
        artifactId) >>= outputArtifactLayout ((planArgs request prompt).stateHandle artifactId)) := by
    have hid : ((planArgs request prompt).stateHandle artifactId).artifactId = artifactId := rfl
    have hcodec : ((planArgs request prompt).stateHandle artifactId).codecId ≠
      some decodedCodecId := fun h =>
        (by decide : stateCodecId ≠ decodedCodecId) (Option.some.inj h)
    rw [describeArtifact, if_neg hcodec]
    unfold describeOutput
    rw [validateArtifact_ok hr rfl, Except.ok_bind, hid, declaredFields_eq htext hsteps,
      Except.ok_bind]
  simp only [Declared, houtputs, List.mem_singleton, forall_eq, hmeta]
  exact declaresShapes_iff hdescribed rfl (stateFields_dtype _)

theorem declared_decoded_iff {group : ExecutionGroupSpec} (hr : groupRank < group.ranks.length)
    (hmeta : plan.metadata = (planArgs request prompt).planMetadata)
    (houtputs : task.outputs = [(planArgs request prompt).decoded]) :
    Declared pipeline group groupRank plan (task, .decoded value) ↔
      (decodedField pipeline request.diffusionRequest.samplingParams).2.1 = value := by
  have hheight : metadataAtLeastOne (planArgs request prompt).planMetadata "height" 1024 =
      .ok _ := metadataAtLeastOne_int rfl (Int.le_max_left _ _)
  have hwidth : metadataAtLeastOne (planArgs request prompt).planMetadata "width" 1024 =
      .ok _ := metadataAtLeastOne_int rfl (Int.le_max_left _ _)
  have houtput : (planArgs request prompt).planMetadata.get? "output_type" =
      some (.text "latent") ↔
      textOr request.diffusionRequest.samplingParams.outputType "pil" = "latent" := by
    have hvalue : (planArgs request prompt).planMetadata.get? "output_type" =
      some (.text (textOr request.diffusionRequest.samplingParams.outputType "pil")) := rfl
    rw [hvalue, Option.some.injEq, PyValue.text.injEq]
  have hdescribed : describeArtifact pipeline group groupRank (planArgs request prompt).planMetadata
      (planArgs request prompt).decoded =
      (replicatedFields [decodedField pipeline request.diffusionRequest.samplingParams] >>=
        outputArtifactLayout (planArgs request prompt).decoded) := by
    have hcodec : (planArgs request prompt).decoded.codecId = some decodedCodecId := rfl
    rw [describeArtifact, if_pos hcodec]
    unfold describeDecoded decodedField
    rw [validateArtifact_ok hr rfl]
    simp only [metadata_numImages, hheight, hwidth, metadata_latentSeqLen, Except.ok_bind, houtput]
    split <;> rfl
  have hname : (decodedField pipeline request.diffusionRequest.samplingParams).1 = "value" := by
    unfold decodedField
    split <;> rfl
  simp only [Declared, houtputs, List.mem_singleton, forall_eq, hmeta]
  refine (declaresShapes_iff hdescribed rfl ?_).trans ?_
  · intro field hm
    rw [List.mem_singleton.mp hm, decodedField]
    split
    · exact pipeline.dtype_ne
    · exact pipeline.vae_dtype_ne
  · show ([([_], _)] : List (List String × Shape)).Perm [(["value"], value)] ↔ _
    rw [List.singleton_perm_singleton, hname, Prod.mk.injEq]
    exact and_iff_right rfl

-- ---------------------------------------------------------------------------
-- Stage by stage
-- ---------------------------------------------------------------------------

/-- The requested sizes, steps and pixels are those of the executors. -/
structure SizesFit (params : SamplingParams) : Prop where
  height : 16 ≤ heightOf params
  width : 16 ≤ widthOf params
  sigmas : ∀ sigmas, params.sigmas = some sigmas → sigmas.length = (numStepsOf params).toNat
  pixels : textOr params.outputType "pil" = "latent" ∨
    16 ∣ heightOf params ∧ 16 ∣ widthOf params

/-- Where the stages return values at all, the codecs' metadata fit them. -/
def LayoutsFit (params : SamplingParams) : Prop :=
  textSeqLenOf params ≤ 1024 → 0 ≤ heightOf params ∧ 0 ≤ widthOf params → SizesFit params

theorem encodedState_tensorFields (req : DiffusionRequest) (prompt : Prompt) :
    tensorFields pipeline (encodedState pipeline req prompt) =
      namedShapes (embedFields pipeline req.samplingParams prompt) := by
  have hshapes := paddedText_shapes pipeline req.samplingParams
  have hnone : negativeText req.samplingParams prompt = none ↔
      doTrueCfg req.samplingParams prompt = false := by
    unfold negativeText doTrueCfg
    cases prompt.negativePrompt <;> simp
  unfold tensorFields embedFields encodedState
  cases hcfg : doTrueCfg req.samplingParams prompt with
  | false =>
    rw [hnone.mpr hcfg]
    simp [presentFields, namedShapes, hshapes]
  | true =>
    obtain ⟨text, htext⟩ := Option.ne_none_iff_exists'.mp (mt hnone.mp (by simp [hcfg]))
    rw [htext]
    simp [presentFields, namedShapes, hshapes]

/-- The latents and the guidance of a prepared state. -/
def preparedFields (pipeline : Pipeline Token) (params : SamplingParams) :
    List (List String × Shape) :=
  (["latents"], latentsOf pipeline params) :: namedShapes (guidanceFields pipeline params)

theorem preparedState_tensorFields (req : DiffusionRequest) (prompt : Prompt) :
    tensorFields pipeline (preparedState pipeline req prompt) =
      namedShapes (embedFields pipeline req.samplingParams prompt) ++
        preparedFields pipeline req.samplingParams := by
  rw [← encodedState_tensorFields]
  unfold tensorFields preparedFields guidanceFields preparedState encodedState
  cases pipeline.guidanceEmbeds <;> cases negativeText req.samplingParams prompt <;> rfl

theorem timestepState_tensorFields (req : DiffusionRequest) (prompt : Prompt) (solving : Bool) :
    tensorFields pipeline { timestepState pipeline req prompt with scheduler := solving } =
      tensorFields pipeline (preparedState pipeline req prompt) ++
        [(["timesteps"], [numTimestepsOf req.samplingParams])] := by
  unfold tensorFields timestepState preparedState encodedState
  cases pipeline.guidanceEmbeds <;> cases negativeText req.samplingParams prompt <;> rfl

theorem latents_iff (hh : 0 ≤ heightOf params) (hw : 0 ≤ widthOf params) :
    declaredLatents pipeline params = latentsOf pipeline params ↔
      16 ≤ heightOf params ∧ 16 ≤ widthOf params := by
  have hlen : packedLatentSeqLen params = (heightOf params / 16 * (widthOf params / 16)).toNat ↔
      16 ≤ heightOf params ∧ 16 ≤ widthOf params := by
    have hunit : ((vaeScaleFactor : Nat) : Int) * 2 = 16 := rfl
    unfold packedLatentSeqLen
    simp only [hunit]
    by_cases hsize : 16 ≤ heightOf params ∧ 16 ≤ widthOf params
    · refine iff_of_true ?_ hsize
      have h1 : 1 ≤ heightOf params / 16 := by omega
      have h2 : 1 ≤ widthOf params / 16 := by omega
      have hmul : 1 ≤ heightOf params / 16 * (widthOf params / 16) :=
        Int.mul_pos (by omega) (by omega)
      rw [max_eq_right (by omega : 1 ≤ heightOf params),
        max_eq_right (by omega : 1 ≤ widthOf params), max_eq_right h1, max_eq_right h2,
        max_eq_right hmul]
    · refine iff_of_false (fun heq => ?_) hsize
      have hzero : heightOf params / 16 * (widthOf params / 16) = 0 := by
        rcases not_and_or.mp hsize with hlt | hlt
        · rw [Int.ediv_eq_zero_of_lt hh (by omega), zero_mul]
        · rw [Int.ediv_eq_zero_of_lt hw (by omega), mul_zero]
      rw [hzero] at heq
      omega
  rw [← hlen]
  simp only [declaredLatents, latentsOf, List.cons.injEq, true_and, and_true]

theorem decode_iff (pipeline : Pipeline Token) (req : DiffusionRequest) (prompt : Prompt) (solving : Bool)
    (hh : 16 ≤ heightOf req.samplingParams) (hw : 16 ≤ widthOf req.samplingParams) :
    ∃ value, decode { timestepState pipeline req prompt with scheduler := solving } = .ok value ∧
      ((decodedField pipeline req.samplingParams).2.1 = value ↔
        textOr req.samplingParams.outputType "pil" = "latent" ∨
          16 ∣ heightOf req.samplingParams ∧ 16 ∣ widthOf req.samplingParams) := by
  have hstate : decode { timestepState pipeline req prompt with scheduler := solving } =
      if textOr req.samplingParams.outputType "pil" = "latent" then
        .ok (latentsOf pipeline req.samplingParams)
      else .ok [numImagesOf req.samplingParams, 3, (16 * (heightOf req.samplingParams / 16)).toNat,
        (16 * (widthOf req.samplingParams / 16)).toNat] := rfl
  rw [hstate]
  unfold decodedField
  split
  · rename_i hlatent
    refine ⟨_, rfl, iff_of_true ?_ (.inl hlatent)⟩
    exact (latents_iff (by omega) (by omega)).mpr ⟨hh, hw⟩
  · rename_i hlatent
    refine ⟨_, rfl, ?_⟩
    simp only [List.cons.injEq, true_and, and_true, hlatent, false_or]
    omega

theorem forall_leftBy_chunks {args : ChunkedDitPlanArgs} {base : RuntimeState Token}
    {p : InferenceTask × Value Token → Prop} {chunks rest : List InferenceTask}
    (hl : base.latents = some latents) (ht : base.timesteps = some [last])
    (hplain : ∀ task ∈ chunks, args.PlainChunk task)
    (hgrid : Grid size last start (chunks.filterMap InferenceTask.stepRange))
    (hp : ∀ task ∈ chunks, ∀ solving, p (task, .state { base with scheduler := solving })) :
    (∀ left ∈ leftBy (execute pipeline req) (chunks ++ rest)
        (some (.state { base with scheduler := start < last })), p left) ↔
      ∀ left ∈ leftBy (execute pipeline req) rest
        (some (.state { base with scheduler := false })), p left := by
  induction chunks generalizing start with
  | nil =>
    have hend : start = last := hgrid
    rw [List.nil_append, decide_eq_false (by omega)]
  | cons task chunks ih =>
    obtain ⟨hplain, hmore⟩ := List.forall_mem_cons.mp hplain
    obtain ⟨hp, hpmore⟩ := List.forall_mem_cons.mp hp
    obtain ⟨range, hrange⟩ := hplain.range
    rw [List.filterMap_cons_some hrange] at hgrid
    obtain ⟨rfl, hstop, hgrid⟩ := hgrid
    have hnonempty := range.nonempty
    have hstep : execute pipeline req task (some (.state { base with
        scheduler := decide (range.start < last) })) =
        .ok (.state { base with scheduler := decide (range.stop < last) }) := by
      have hbefore : range.start < last := by omega
      have hmin : min range.stop last = range.stop := by omega
      simp only [execute, hplain.kind, denoise, hrange, ht, hl, hbefore, decide_true, List.headD_cons,
        hmin, gt_iff_lt]
      rfl
    rw [List.cons_append, forall_leftBy_cons, hstep, ← ih hmore hgrid hpmore]
    constructor
    · exact fun h => (h _ rfl).2
    · rintro h left heq
      cases heq
      exact ⟨hp _, h⟩

-- ---------------------------------------------------------------------------
-- The whole plan
-- ---------------------------------------------------------------------------

/-- Trimming the prompts of a state by its text lengths gives back the prompts
as they were encoded. -/
def Trimmed (pipeline : Pipeline Token) (params : SamplingParams) (prompt : Prompt) :
    Value Token → Prop
  | .state state => ∀ lens, state.txtSeqLens = some lens →
    modelPrompt state = (some (encodedText pipeline params (promptText prompt)).1,
      some (encodedText pipeline params (promptText prompt)).2) ∧
    modelNegativePrompt state =
      ((negativeText params prompt).map fun text => (encodedText pipeline params text).1,
        (negativeText params prompt).map fun text => (encodedText pipeline params text).2)
  | .decoded _ => True

theorem encodedState_trimmed (req : DiffusionRequest) (prompt : Prompt) :
    Trimmed pipeline req.samplingParams prompt (.state (encodedState pipeline req prompt)) :=
  fun _ h => nomatch h

theorem preparedState_trimmed (req : DiffusionRequest) (prompt : Prompt) :
    Trimmed pipeline req.samplingParams prompt (.state (preparedState pipeline req prompt)) := by
  intro lens _
  refine ⟨trim_paddedText pipeline req.samplingParams (promptText prompt), ?_⟩
  unfold modelNegativePrompt preparedState encodedState
  simp only
  cases negativeText req.samplingParams prompt with
  | none => rfl
  | some text => exact trim_paddedText pipeline req.samplingParams text

theorem timestepState_trimmed (req : DiffusionRequest) (prompt : Prompt) (solving : Bool) :
    Trimmed pipeline req.samplingParams prompt
      (.state { timestepState pipeline req prompt with scheduler := solving }) :=
  fun lens h => preparedState_trimmed req prompt lens h

theorem numTimesteps_iff (params : SamplingParams) :
    (numStepsOf params).toNat = numTimestepsOf params ↔
      ∀ sigmas, params.sigmas = some sigmas → sigmas.length = (numStepsOf params).toNat := by
  unfold numTimestepsOf
  cases params.sigmas with
  | none => simp
  | some sigmas => simp [eq_comm]

theorem stateFields_latent (params : SamplingParams) (prompt : Prompt) :
    stateFields pipeline params prompt "state_latent" = embedFields pipeline params prompt ++
      ("latents", declaredLatents pipeline params, pipeline.promptDtype) ::
        guidanceFields pipeline params := by
  rw [stateFields, if_pos (by decide), if_neg (by decide), List.append_nil]

theorem stateFields_denoised (params : SamplingParams) (prompt : Prompt)
    (hl : hasLatents artifactId = true) (ht : hasTimesteps artifactId = true) :
    stateFields pipeline params prompt artifactId = stateFields pipeline params prompt "state_latent" ++
      [("timesteps", [(numStepsOf params).toNat], "float32")] := by
  rw [stateFields_latent, stateFields, if_pos hl, if_pos ht]

theorem prepared_perm_iff (req : DiffusionRequest) (prompt : Prompt) :
    (namedShapes (stateFields pipeline req.samplingParams prompt "state_latent")).Perm
        (tensorFields pipeline (preparedState pipeline req prompt)) ↔
      declaredLatents pipeline req.samplingParams = latentsOf pipeline req.samplingParams := by
  rw [stateFields_latent, preparedState_tensorFields, namedShapes_append, List.perm_append_left_iff,
    preparedFields]
  show (_ :: namedShapes (guidanceFields pipeline req.samplingParams)).Perm _ ↔ _
  constructor
  · intro h
    have hkeys := h.eq_of_keys Prod.fst rfl (by
      unfold guidanceFields
      cases pipeline.guidanceEmbeds <;> simp [namedShapes])
    exact (Prod.mk.inj (List.cons.inj hkeys).1).2
  · intro h
    rw [h]

section Plan

variable {plan : RequestExecutionPlan} {chunks : List InferenceTask} {lastChunk : String}
  {group : ExecutionGroupSpec} {groupRank : Nat}

/-- The timesteps a state has are as many as the codec declares. -/
theorem timestepState_declared_iff
    (hu : (planArgs request prompt).UniformPlan plan chunks lastChunk)
    (hr : groupRank < group.ranks.length)
    (htext : 1 ≤ textSeqLenOf request.diffusionRequest.samplingParams)
    (hsteps : 1 ≤ numStepsOf request.diffusionRequest.samplingParams)
    (hh : 16 ≤ heightOf request.diffusionRequest.samplingParams)
    (hw : 16 ≤ widthOf request.diffusionRequest.samplingParams) (solving : Bool)
    {task : InferenceTask} {artifactId : String}
    (houtputs : task.outputs = [(planArgs request prompt).stateHandle artifactId])
    (hl : hasLatents artifactId = true) (ht : hasTimesteps artifactId = true) :
    Declared pipeline group groupRank plan (task, .state
      { timestepState pipeline request.diffusionRequest prompt with scheduler := solving }) ↔
      (numStepsOf request.diffusionRequest.samplingParams).toNat =
        numTimestepsOf request.diffusionRequest.samplingParams := by
  have hprepared : namedShapes (stateFields pipeline request.diffusionRequest.samplingParams prompt
      "state_latent") = tensorFields pipeline
        (preparedState pipeline request.diffusionRequest prompt) := by
    rw [stateFields_latent, preparedState_tensorFields, namedShapes_append,
      (latents_iff (by omega) (by omega)).mpr ⟨hh, hw⟩]
    rfl
  rw [declared_state_iff hr htext hsteps hu.metadata houtputs, timestepState_tensorFields,
    stateFields_denoised _ _ hl ht, namedShapes_append, hprepared, List.perm_append_left_iff]
  show [(["timesteps"], [_])].Perm [(["timesteps"], [_])] ↔ _
  simp

/-- Denoising and decoding, once the timesteps are as many as declared. -/
theorem chunks_declared_iff (hu : (planArgs request prompt).UniformPlan plan chunks lastChunk)
    (hr : groupRank < group.ranks.length)
    (htext : 1 ≤ textSeqLenOf request.diffusionRequest.samplingParams)
    (hsteps : 1 ≤ numStepsOf request.diffusionRequest.samplingParams)
    (hh : 16 ≤ heightOf request.diffusionRequest.samplingParams)
    (hw : 16 ≤ widthOf request.diffusionRequest.samplingParams) (groupId : Option String)
    (hnum : (numStepsOf request.diffusionRequest.samplingParams).toNat =
      numTimestepsOf request.diffusionRequest.samplingParams) :
    (∀ left ∈ leftBy (execute pipeline request.diffusionRequest) (chunks ++
        [(planArgs request prompt).vaeDecode groupId lastChunk
          ((planArgs request prompt).stateHandle "state_denoised"),
          (planArgs request prompt).finalize groupId])
        (some (.state (timestepState pipeline request.diffusionRequest prompt))),
      Declared pipeline group groupRank plan left ∧
        Trimmed pipeline request.diffusionRequest.samplingParams prompt left.2) ↔
      textOr request.diffusionRequest.samplingParams.outputType "pil" = "latent" ∨
        16 ∣ heightOf request.diffusionRequest.samplingParams ∧
          16 ∣ widthOf request.diffusionRequest.samplingParams := by
  have hchunk : ∀ task ∈ chunks, ∀ solving,
      Declared pipeline group groupRank plan (task, .state
        { timestepState pipeline request.diffusionRequest prompt with scheduler := solving }) ∧
      Trimmed pipeline request.diffusionRequest.samplingParams prompt (.state
        { timestepState pipeline request.diffusionRequest prompt with scheduler := solving }) := by
    intro task hm solving
    obtain ⟨artifactId, houtputs, hl, ht⟩ := (hu.plain task hm).denoised
    exact ⟨(timestepState_declared_iff hu hr htext hsteps hh hw solving houtputs hl ht).mpr hnum,
      timestepState_trimmed _ _ _⟩
  have hpos : 0 < (numStepsOf request.diffusionRequest.samplingParams).toNat := hu.positive.1
  have hstart : timestepState pipeline request.diffusionRequest prompt =
      { timestepState pipeline request.diffusionRequest prompt with
        scheduler := decide (0 < (numStepsOf request.diffusionRequest.samplingParams).toNat) } := by
    rw [decide_eq_true hpos]
    rfl
  have ht : (timestepState pipeline request.diffusionRequest prompt).timesteps =
      some [(numStepsOf request.diffusionRequest.samplingParams).toNat] := by
    rw [hnum]
    rfl
  obtain ⟨value, hdecode, hiff⟩ := decode_iff pipeline request.diffusionRequest prompt false hh hw
  rw [hstart, forall_leftBy_chunks rfl ht hu.plain hu.grid hchunk, forall_leftBy_cons, ← hiff]
  have hexecute : execute pipeline request.diffusionRequest ((planArgs request prompt).vaeDecode
      groupId lastChunk ((planArgs request prompt).stateHandle "state_denoised"))
      (some (.state { timestepState pipeline request.diffusionRequest prompt with
        scheduler := false })) = .ok (.decoded value) := by
    show Value.decoded <$> decode _ = _
    rw [hdecode]
    rfl
  rw [hexecute]
  constructor
  · exact fun h => (declared_decoded_iff hr hu.metadata rfl).mp (h _ rfl).1.1
  · rintro h left heq
    cases heq
    refine ⟨⟨(declared_decoded_iff hr hu.metadata rfl).mpr h, trivial⟩, ?_⟩
    exact forall_leftBy_cons.mpr fun left heq => nomatch heq

theorem later_declared_iff (hu : (planArgs request prompt).UniformPlan plan chunks lastChunk)
    (hr : groupRank < group.ranks.length)
    (htext : 1 ≤ textSeqLenOf request.diffusionRequest.samplingParams)
    (hsteps : 1 ≤ numStepsOf request.diffusionRequest.samplingParams)
    (hh : 16 ≤ heightOf request.diffusionRequest.samplingParams)
    (hw : 16 ≤ widthOf request.diffusionRequest.samplingParams) (groupId : Option String) :
    (∀ left ∈ leftBy (execute pipeline request.diffusionRequest)
        ((planArgs request prompt).timestepPrepare groupId :: (chunks ++
          [(planArgs request prompt).vaeDecode groupId lastChunk
            ((planArgs request prompt).stateHandle "state_denoised"),
            (planArgs request prompt).finalize groupId]))
        (some (.state (preparedState pipeline request.diffusionRequest prompt))),
      Declared pipeline group groupRank plan left ∧
        Trimmed pipeline request.diffusionRequest.samplingParams prompt left.2) ↔
      SizesFit request.diffusionRequest.samplingParams := by
  rw [forall_leftBy_cons]
  constructor
  · intro h
    obtain ⟨⟨hd, -⟩, hlater⟩ := h (.state (timestepState pipeline _ prompt)) rfl
    have hnum := (timestepState_declared_iff hu hr htext hsteps hh hw true rfl (by decide)
      (by decide)).mp hd
    exact ⟨hh, hw, (numTimesteps_iff _).mp hnum,
      (chunks_declared_iff hu hr htext hsteps hh hw groupId hnum).mp hlater⟩
  · intro hfit left heq
    cases heq
    have hnum := (numTimesteps_iff _).mpr hfit.sigmas
    exact ⟨⟨(timestepState_declared_iff hu hr htext hsteps hh hw true rfl (by decide)
      (by decide)).mpr hnum, timestepState_trimmed _ _ true⟩,
      (chunks_declared_iff hu hr htext hsteps hh hw groupId hnum).mpr hfit.pixels⟩

theorem uniform_declared_iff (hu : (planArgs request prompt).UniformPlan plan chunks lastChunk)
    (hr : groupRank < group.ranks.length)
    (hprompt : request.diffusionRequest.prompts = [prompt])
    (htext : 1 ≤ textSeqLenOf request.diffusionRequest.samplingParams)
    (hsteps : 1 ≤ numStepsOf request.diffusionRequest.samplingParams) :
    (∀ left ∈ leftBy (execute pipeline request.diffusionRequest)
        ((planArgs request prompt).uniformChain chunks lastChunk) none,
        Declared pipeline group groupRank plan left ∧
          Trimmed pipeline request.diffusionRequest.samplingParams prompt left.2) ↔
      LayoutsFit request.diffusionRequest.samplingParams := by
  have hextract : extractPrompt request.diffusionRequest = .ok prompt := by
    rw [extractPrompt, hprompt]
    rfl
  have hencoded : Declared pipeline group groupRank plan
      ((planArgs request prompt).textEncode (planArgs request prompt).groupId,
        .state (encodedState pipeline request.diffusionRequest prompt)) := by
    rw [declared_state_iff hr htext hsteps hu.metadata rfl, encodedState_tensorFields, stateFields,
      if_neg (by decide), if_neg (by decide), List.append_nil, List.append_nil]
  rw [ChunkedDitPlanArgs.uniformChain, List.cons_append, List.singleton_append]
  constructor
  · intro hall hlen hsize
    obtain ⟨-, hlater⟩ := forall_leftBy_cons.mp hall (.state (encodedState pipeline _ prompt))
      (Except.map_eq_ok.mpr ⟨_, (textEncode_iff hextract hsteps).mpr ⟨hlen, rfl⟩, rfl⟩)
    obtain ⟨⟨hprepared, -⟩, hlater⟩ := forall_leftBy_cons.mp hlater
      (.state (preparedState pipeline _ prompt))
      (Except.map_eq_ok.mpr ⟨_, (latentPrepare_iff _ _).mpr ⟨hsize, rfl⟩, rfl⟩)
    rw [declared_state_iff hr htext hsteps hu.metadata rfl, prepared_perm_iff,
      latents_iff hsize.1 hsize.2] at hprepared
    exact (later_declared_iff hu hr htext hsteps hprepared.1 hprepared.2 _).mp hlater
  · intro hfit
    rw [forall_leftBy_cons]
    intro value hvalue
    obtain ⟨state, hstate, rfl⟩ := Except.map_eq_ok.mp hvalue
    obtain ⟨hlen, rfl⟩ := (textEncode_iff hextract hsteps).mp hstate
    refine ⟨⟨hencoded, encodedState_trimmed _ _⟩, ?_⟩
    rw [forall_leftBy_cons]
    intro value hvalue
    obtain ⟨state, hstate, rfl⟩ := Except.map_eq_ok.mp hvalue
    obtain ⟨hsize, rfl⟩ := (latentPrepare_iff _ _).mp hstate
    have hsizes := hfit hlen hsize
    refine ⟨⟨?_, preparedState_trimmed _ _⟩,
      (later_declared_iff hu hr htext hsteps hsizes.height hsizes.width _).mpr hsizes⟩
    rw [declared_state_iff hr htext hsteps hu.metadata rfl, prepared_perm_iff,
      latents_iff hsize.1 hsize.2]
    exact ⟨hsizes.height, hsizes.width⟩

end Plan

/-- The codecs declare the values of a plan as they are exactly when the
request's sizes and steps fit the executors; the prompts can be trimmed anyway. -/
theorem image_layouts_declared (Token : Type) (f : Nat → Nat → Nat) (pipeline : Pipeline Token)
    (request : RuntimeRequest) (prompt : Prompt) (plan : RequestExecutionPlan)
    (order : List InferenceTask) (group : ExecutionGroupSpec) (groupRank : Nat)
    (hprompt : request.diffusionRequest.prompts = [prompt])
    (hplan : compileRequest f request = .ok plan) (ho : DependencyOrder plan order)
    (hr : groupRank < group.ranks.length) :
    (∀ left ∈ leftBy (execute pipeline request.diffusionRequest) order none,
        Declared pipeline group groupRank plan left ∧
          Trimmed pipeline request.diffusionRequest.samplingParams prompt left.2) ↔
      LayoutsFit request.diffusionRequest.samplingParams := by
  obtain ⟨prompt', hprompt', hsteps, htext, chunks, lastChunk, hu⟩ := compileRequest_ok hplan
  cases hprompt.symm.trans hprompt'
  rw [← hu.dependencyOrder_eq ho]
  exact uniform_declared_iff hu hr hprompt htext hsteps

def squareRequest (size : Int) : RuntimeRequest where
  diffusionRequest := ⟨[.text "a cat"], ⟨none, none, 1, 1, some size, some size, none, 4, 1, false,
    none, none, none⟩, ⟨∅, none⟩⟩
  requestId := "r"
  denoiseChunkSize := 2
  priority := 0
  groupId := none
  chunk_pos := Nat.two_pos

theorem squareRequest_plan (f : Nat → Nat → Nat)
    (hcheck : (planArgs (squareRequest size) (.text "a cat")).check = .ok none) :
    ∃ plan order, compileRequest f (squareRequest size) = .ok plan ∧ DependencyOrder plan order := by
  obtain ⟨plan, order, hplan, hchain, -⟩ :=
    ChunkedDitPlanArgs.exists_planChain f hcheck rfl
  exact ⟨plan, order, hplan, hchain.tasks, hchain.feeds⟩

theorem image_layouts_declared_square : ∃ plan order,
    compileRequest (fun latents _ => latents) (squareRequest 1024) = .ok plan ∧
    ∀ left ∈ leftBy (execute smallPipeline (squareRequest 1024).diffusionRequest) order none,
      Declared smallPipeline oneRank 0 plan left ∧ Trimmed smallPipeline
        (squareRequest 1024).diffusionRequest.samplingParams (.text "a cat") left.2 := by
  obtain ⟨plan, order, hplan, ho⟩ := @squareRequest_plan 1024 (fun latents _ => latents) rfl
  have hfit : LayoutsFit (squareRequest 1024).diffusionRequest.samplingParams := fun _ _ =>
    ⟨by decide, by decide, (fun _ h => nomatch h), .inr (by decide)⟩
  exact ⟨plan, order, hplan, (image_layouts_declared Nat _ smallPipeline _ _ plan order oneRank 0 rfl hplan
    ho (by decide)).mpr hfit⟩

/-- Pixels asked for in steps of eight are decoded in steps of sixteen. -/
theorem unaligned_pixels_not_declared :
    ¬ ∀ (f : Nat → Nat → Nat) (request : RuntimeRequest) (prompt : Prompt)
      (plan : RequestExecutionPlan) (order : List InferenceTask) (group : ExecutionGroupSpec)
      (groupRank : Nat),
      request.diffusionRequest.prompts = [prompt] →
      compileRequest f request = .ok plan → DependencyOrder plan order →
      groupRank < group.ranks.length →
      ∀ left ∈ leftBy (execute smallPipeline request.diffusionRequest) order none,
        Declared smallPipeline group groupRank plan left ∧
          Trimmed smallPipeline request.diffusionRequest.samplingParams prompt left.2 := by
  intro h
  obtain ⟨plan, order, hplan, ho⟩ := @squareRequest_plan 1000 (fun latents _ => latents) rfl
  have hall := h _ _ _ plan order oneRank 0 rfl hplan ho (by decide)
  obtain ⟨prompt, hprompt, hsteps, htext, chunks, lastChunk, hu⟩ := compileRequest_ok hplan
  cases hprompt
  rw [← hu.dependencyOrder_eq ho] at hall
  have hfit := (uniform_declared_iff hu (by decide) rfl htext hsteps).mp hall (by decide) (by decide)
  exact absurd hfit.pixels (by decide)

end QwenImage

end GfDit
