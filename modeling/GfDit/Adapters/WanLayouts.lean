import GfDit.Adapters.DeclaredLayouts
import GfDit.Adapters.EveryStep

/-!
# Wan states and their declared layouts

What the executors return on an accepted request, and when the codec declares
just that: the two decide alike about CFG, no size is below the one unit the
codec rounds up to, and a video that an image is mixed into has one latent
frame, as the image has.
-/

namespace GfDit

namespace Wan

variable {pipeline : Pipeline} {compiler : TaskCompiler} {request : RuntimeRequest}
  {prompt : Prompt} {params : SamplingParams}

-- ---------------------------------------------------------------------------
-- The condition
-- ---------------------------------------------------------------------------

/-- The text encoder takes the sizes and the number of videos. -/
structure Encodes (pipeline : Pipeline) (params : SamplingParams) : Prop where
  height : roundDown (heightOf params) pipeline.modValue % 16 = 0
  width : roundDown (widthOf params) pipeline.modValue % 16 = 0
  outputs : 0 ≤ numOutputsOf params

def conditionImage (pipeline : Pipeline) (prompt : Prompt) : Option PromptImage :=
  if pipeline.expandTimesteps then prompt.rawImage.first else none

/-- Latents of the sizes can be made, and a picture can be resized to them. -/
structure Prepares (pipeline : Pipeline) (params : SamplingParams) (image : Option PromptImage) :
    Prop where
  height : 0 ≤ heightOf params
  width : 0 ≤ widthOf params
  picture : image = some .picture →
    pipeline.modValue ≤ heightOf params ∧ pipeline.modValue ≤ widthOf params

/-- A batch of frames is one frame of the latents' size. -/
def FrameFits (pipeline : Pipeline) (params : SamplingParams) : PromptImage → Prop
  | .picture => True
  | .tensor count height width =>
    count = 1 ∧
      height / pipeline.vaeScaleFactorSpatial =
        (roundDown (heightOf params) pipeline.modValue).toNat / pipeline.vaeScaleFactorSpatial ∧
      width / pipeline.vaeScaleFactorSpatial =
        (roundDown (widthOf params) pipeline.modValue).toNat / pipeline.vaeScaleFactorSpatial

/-- The sizes the codec computes are those of the latents. -/
structure SizesFit (pipeline : Pipeline) (params : SamplingParams) (image : Option PromptImage) :
    Prop where
  height : pipeline.modValue ≤ heightOf params
  width : pipeline.modValue ≤ widthOf params
  frames : 0 < numFramesOf params ∨ pipeline.vaeScaleFactorTemporal ≠ 1
  image : ∀ frame, image = some frame → numFramesOf params < pipeline.vaeScaleFactorTemporal ∧
    pipeline.zDim = pipeline.outChannels ∧ FrameFits pipeline params frame

/-- Where a stage returns a state at all, the codec's metadata fit it. -/
def LayoutsFit (compiler : TaskCompiler) (pipeline : Pipeline) (params : SamplingParams)
    (image : Option PromptImage) : Prop :=
  Encodes pipeline params →
    trueCfg params compiler.defaultGuidanceScale = trueCfg params pipeline.defaultGuidanceScale ∧
      (Prepares pipeline params image → SizesFit pipeline params image)

-- ---------------------------------------------------------------------------
-- What the stages return
-- ---------------------------------------------------------------------------

def execute (pipeline : Pipeline) (req : DiffusionRequest) (task : InferenceTask)
    (state : Option RuntimeState) : Except PyError RuntimeState :=
  match task.kind, state with
  | .textEncode, _ => textEncode pipeline req
  | .ditPrepare, some state => latentPrepare pipeline state
  | .timestepPrepare, some state => pure (timestepPrepare state)
  | .ditStepChunk, some state => (·.1) <$> denoise pipeline task state
  | _, _ => throw notReady

def embedsOf (pipeline : Pipeline) (params : SamplingParams) : Shape :=
  [(numOutputsOf params).toNat, (textSeqLenOf params).toNat, pipeline.textHiddenSize]

def encodedState (pipeline : Pipeline) (req : DiffusionRequest) : RuntimeState where
  request := req
  height := roundDown (heightOf req.samplingParams) pipeline.modValue
  width := roundDown (widthOf req.samplingParams) pipeline.modValue
  numFrames := pipeline.roundFrames (numFramesOf req.samplingParams)
  numSteps := numStepsOf req.samplingParams
  promptEmbeds := some (embedsOf pipeline req.samplingParams)
  negativePromptEmbeds :=
    if trueCfg req.samplingParams pipeline.defaultGuidanceScale then
      some (embedsOf pipeline req.samplingParams)
    else none
  latents := none
  timesteps := none
  scheduler := false
  latentCondition := none
  firstFrameMask := none

theorem numOutputsOf_ne_zero (params : SamplingParams) : numOutputsOf params ≠ 0 := by
  simp only [numOutputsOf, orDefault]
  split <;> omega

theorem textEncode_iff (hprompt : extractPrompt req = .ok prompt)
    (htext : 1 ≤ textSeqLenOf req.samplingParams) :
    textEncode pipeline req = .ok state ↔
      Encodes pipeline req.samplingParams ∧ state = encodedState pipeline req := by
  have hnew : newTensor [numOutputsOf req.samplingParams, textSeqLenOf req.samplingParams,
      pipeline.textHiddenSize] =
      if 0 ≤ numOutputsOf req.samplingParams then .ok (embedsOf pipeline req.samplingParams)
      else .error (.runtimeError "Trying to create tensor with negative dimension") := by
    have h0 : 0 ≤ textSeqLenOf req.samplingParams := by omega
    simp [newTensor, h0, embedsOf]
    rfl
  unfold textEncode
  rw [hprompt, Except.ok_bind]
  simp only [checkInputs, encodePrompt, hnew]
  by_cases hsize : roundDown (heightOf req.samplingParams) pipeline.modValue % 16 ≠ 0 ∨
      roundDown (widthOf req.samplingParams) pipeline.modValue % 16 ≠ 0
  · rw [if_pos hsize]
    refine iff_of_false (fun h => nomatch h) fun h => ?_
    rcases hsize with hsize | hsize
    · exact hsize h.1.height
    · exact hsize h.1.width
  · rw [if_neg hsize]
    by_cases hout : 0 ≤ numOutputsOf req.samplingParams
    · have he : Encodes pipeline req.samplingParams := ⟨by omega, by omega, hout⟩
      simp only [if_pos hout, he, true_and]
      exact ⟨fun h => (Except.ok.inj h).symm, fun h => congrArg _ h.symm⟩
    · simp only [if_neg hout]
      exact iff_of_false (fun h => nomatch h) fun h => hout h.1.outputs

theorem Pipeline.modValue_pos (pipeline : Pipeline) : 0 < pipeline.modValue := by
  have := pipeline.spatial_pos
  have := pipeline.patch_pos
  unfold Pipeline.modValue
  positivity

theorem roundDown_nonneg (hm : 0 < m) : 0 ≤ roundDown size m ↔ 0 ≤ size := by
  rw [roundDown, mul_nonneg_iff_of_pos_right hm, Int.ediv_nonneg_iff_of_pos hm]

theorem roundDown_pos (hm : 0 < m) : 0 < roundDown size m ↔ m ≤ size := by
  rw [roundDown, mul_pos_iff_of_pos_right hm, Int.lt_iff_add_one_le, zero_add,
    Int.le_ediv_iff_mul_le hm, one_mul]

def latentsOf (pipeline : Pipeline) (params : SamplingParams) (channels : Nat) : Shape :=
  (pipeline.latentSizes (numOutputsOf params).toNat channels
    (roundDown (heightOf params) pipeline.modValue) (roundDown (widthOf params) pipeline.modValue)
    (pipeline.roundFrames (numFramesOf params))).map Int.toNat

def frameOf (pipeline : Pipeline) (params : SamplingParams) : PromptImage → Nat × Nat × Nat
  | .picture => (1, (roundDown (heightOf params) pipeline.modValue).toNat,
      (roundDown (widthOf params) pipeline.modValue).toNat)
  | .tensor count height width => (count, height, width)

def preparedState (pipeline : Pipeline) (req : DiffusionRequest) : Option PromptImage → RuntimeState
  | none => { encodedState pipeline req with
      latents := some (latentsOf pipeline req.samplingParams pipeline.inChannels) }
  | some image => { encodedState pipeline req with
      latents := some (latentsOf pipeline req.samplingParams pipeline.outChannels)
      latentCondition := some (conditionShape pipeline (numOutputsOf req.samplingParams).toNat
        (frameOf pipeline req.samplingParams image))
      firstFrameMask :=
        some ([1, 1] ++ (latentsOf pipeline req.samplingParams pipeline.outChannels).drop 2) }

theorem prepareLatents_encoded (req : DiffusionRequest) (channels : Nat) :
    prepareLatents pipeline (numOutputsOf req.samplingParams).toNat channels
        (encodedState pipeline req) =
      if 0 ≤ heightOf req.samplingParams ∧ 0 ≤ widthOf req.samplingParams then
        .ok (latentsOf pipeline req.samplingParams channels)
      else .error (.runtimeError "Trying to create tensor with negative dimension") := by
  have hmod := pipeline.modValue_pos
  have hspatial : (0 : Int) < pipeline.vaeScaleFactorSpatial := mod_cast pipeline.spatial_pos
  have hframes : 0 ≤ (pipeline.roundFrames (numFramesOf req.samplingParams) - 1) /
      pipeline.vaeScaleFactorTemporal + 1 := by
    have h1 : 0 ≤ pipeline.roundFrames (numFramesOf req.samplingParams) - 1 := by
      have := Int.le_max_left 1 (if numFramesOf req.samplingParams %
        pipeline.vaeScaleFactorTemporal ≠ 1 then numFramesOf req.samplingParams /
          pipeline.vaeScaleFactorTemporal * pipeline.vaeScaleFactorTemporal + 1
        else numFramesOf req.samplingParams)
      exact Int.sub_nonneg.mpr this
    have := Int.ediv_nonneg h1 (Int.natCast_nonneg pipeline.vaeScaleFactorTemporal)
    omega
  have hall : (∀ size ∈ pipeline.latentSizes (numOutputsOf req.samplingParams).toNat channels
      (encodedState pipeline req).height (encodedState pipeline req).width
      (encodedState pipeline req).numFrames, 0 ≤ size) ↔
      0 ≤ heightOf req.samplingParams ∧ 0 ≤ widthOf req.samplingParams := by
    simp only [Pipeline.latentSizes, encodedState, List.forall_mem_cons, List.not_mem_nil,
      Int.natCast_nonneg, hframes, Int.ediv_nonneg_iff_of_pos hspatial, roundDown_nonneg hmod,
      true_and, false_imp_iff, implies_true, and_true]
  unfold prepareLatents newTensor
  simp only [hall]
  rfl

theorem imageFrame_encoded (req : DiffusionRequest) (image : PromptImage) :
    imageFrame (encodedState pipeline req) image =
      if image = .picture → pipeline.modValue ≤ heightOf req.samplingParams ∧
          pipeline.modValue ≤ widthOf req.samplingParams then
        .ok (frameOf pipeline req.samplingParams image)
      else .error (.valueError "height and width must be > 0") := by
  cases image with
  | tensor count height width => rfl
  | picture =>
    have hmod := pipeline.modValue_pos
    have hsize : (encodedState pipeline req).height ≤ 0 ∨ (encodedState pipeline req).width ≤ 0 ↔
        ¬ (pipeline.modValue ≤ heightOf req.samplingParams ∧
          pipeline.modValue ≤ widthOf req.samplingParams) := by
      rw [← roundDown_pos hmod, ← roundDown_pos hmod]
      show roundDown _ _ ≤ 0 ∨ roundDown _ _ ≤ 0 ↔ _
      omega
    simp only [imageFrame, hsize, true_imp_iff, ite_not]
    rfl

theorem latentPrepare_iff (hprompt : extractPrompt req = .ok prompt) :
    latentPrepare pipeline (encodedState pipeline req) = .ok state ↔
      Prepares pipeline req.samplingParams (conditionImage pipeline prompt) ∧
        state = preparedState pipeline req (conditionImage pipeline prompt) := by
  have hbatch : (embedsOf pipeline req.samplingParams).headD 0 =
    (numOutputsOf req.samplingParams).toNat := rfl
  have hreq : (encodedState pipeline req).request = req := rfl
  have hembeds : (encodedState pipeline req).promptEmbeds =
    some (embedsOf pipeline req.samplingParams) := rfl
  unfold latentPrepare conditionImage
  rw [hreq, hprompt, Except.ok_bind, hembeds]
  simp only [hbatch, prepareLatents_encoded, imageFrame_encoded]
  cases hexpand : pipeline.expandTimesteps with
  | false =>
    have hiff : Prepares pipeline req.samplingParams none ↔
        0 ≤ heightOf req.samplingParams ∧ 0 ≤ widthOf req.samplingParams :=
      ⟨fun h => ⟨h.height, h.width⟩, fun h => ⟨h.1, h.2, fun h => nomatch h⟩⟩
    simp only [if_neg Bool.false_ne_true, hiff]
    cases prompt.rawImage.first <;>
      exact Iff.trans ite_bind_iff (and_congr_right fun _ => Except.pure_eq_ok.trans eq_comm)
  | true =>
    simp only [if_true]
    cases hfirst : prompt.rawImage.first with
    | none =>
      have hiff : Prepares pipeline req.samplingParams none ↔
          0 ≤ heightOf req.samplingParams ∧ 0 ≤ widthOf req.samplingParams :=
        ⟨fun h => ⟨h.height, h.width⟩, fun h => ⟨h.1, h.2, fun h => nomatch h⟩⟩
      simp only [hiff]
      exact Iff.trans ite_bind_iff (and_congr_right fun _ => Except.pure_eq_ok.trans eq_comm)
    | some image =>
      have hiff : Prepares pipeline req.samplingParams (some image) ↔
          (image = .picture → pipeline.modValue ≤ heightOf req.samplingParams ∧
            pipeline.modValue ≤ widthOf req.samplingParams) ∧
          0 ≤ heightOf req.samplingParams ∧ 0 ≤ widthOf req.samplingParams :=
        ⟨fun h => ⟨fun hp => h.picture (congrArg some hp), h.height, h.width⟩,
          fun h => ⟨h.2.1, h.2.2, fun hp => h.1 (Option.some.inj hp)⟩⟩
      rw [hiff, and_assoc]
      refine Iff.trans ite_bind_iff (and_congr_right fun _ => ?_)
      exact Iff.trans ite_bind_iff (and_congr_right fun _ => Except.pure_eq_ok.trans eq_comm)

-- ---------------------------------------------------------------------------
-- What the codec declares
-- ---------------------------------------------------------------------------

def declaredLatents (pipeline : Pipeline) (params : SamplingParams) (channels : Nat) : Shape :=
  (pipeline.latentSizes (numOutputsOf params).toNat channels
    (max pipeline.modValue (roundDown (max 1 (heightOf params)) pipeline.modValue))
    (max pipeline.modValue (roundDown (max 1 (widthOf params)) pipeline.modValue))
    (pipeline.roundFrames (max 1 (numFramesOf params)))).map Int.toNat

def latentFields (pipeline : Pipeline) (params : SamplingParams) :
    Option PromptImage → List (String × Shape × String)
  | none => [("latents", declaredLatents pipeline params pipeline.inChannels, "float32")]
  | some _ =>
    let shape := declaredLatents pipeline params pipeline.outChannels
    [("latents", shape, "float32"), ("latent_condition", shape, "float32"),
      ("first_frame_mask", [1, 1] ++ shape.drop 2, "float32")]

def embedFields (pipeline : Pipeline) (params : SamplingParams) (doTrueCfg : Bool) :
    List (String × Shape × String) :=
  ("prompt_embeds", embedsOf pipeline params, pipeline.transformerDtype) ::
    if doTrueCfg then
      [("negative_prompt_embeds", embedsOf pipeline params, pipeline.transformerDtype)]
    else []

def stateFields (compiler : TaskCompiler) (pipeline : Pipeline) (params : SamplingParams)
    (image : Option PromptImage) (artifactId : String) : List (String × Shape × String) :=
  embedFields pipeline params (trueCfg params compiler.defaultGuidanceScale) ++
    (if hasLatents artifactId then latentFields pipeline params image else []) ++
    if hasTimesteps artifactId then [("timesteps", [(numStepsOf params).toNat], "int64")] else []

theorem hasImage_eq (image : RawImage) : hasImage image = image.first.isSome := by
  cases image with
  | list images => cases images <;> rfl
  | _ => rfl

theorem conditioned_iff : (metadataFlag (planArgs compiler request prompt).planMetadata "has_image" ∧
    pipeline.expandTimesteps) ↔ (conditionImage pipeline prompt).isSome := by
  have himage : metadataFlag (planArgs compiler request prompt).planMetadata "has_image" =
      hasImage prompt.rawImage := truthy_boolValue _
  rw [himage, hasImage_eq, conditionImage]
  cases pipeline.expandTimesteps <;> simp

theorem latentShape_eq (hout : 1 ≤ numOutputsOf request.diffusionRequest.samplingParams) :
    latentShape pipeline (planArgs compiler request prompt).planMetadata =
      .ok (declaredLatents pipeline request.diffusionRequest.samplingParams
        (if (conditionImage pipeline prompt).isSome then pipeline.outChannels
          else pipeline.inChannels)) := by
  have hbatch : metadataAtLeastOne (planArgs compiler request prompt).planMetadata
      "num_outputs_per_prompt" 1 = .ok _ := metadataAtLeastOne_int rfl hout
  have hheight : metadataAtLeastOne (planArgs compiler request prompt).planMetadata "height" 480 =
      .ok _ := metadataAtLeastOne_int rfl (Int.le_max_left _ _)
  have hwidth : metadataAtLeastOne (planArgs compiler request prompt).planMetadata "width" 832 =
      .ok _ := metadataAtLeastOne_int rfl (Int.le_max_left _ _)
  have hframes : metadataAtLeastOne (planArgs compiler request prompt).planMetadata "num_frames" 81 =
      .ok _ := metadataAtLeastOne_int rfl (Int.le_max_left _ _)
  have hmax : ∀ size : Int, ((max 1 size).toNat : Int) = max 1 size := fun size =>
    Int.toNat_of_nonneg (by omega)
  simp only [latentShape, normalizedSize, hbatch, hheight, hwidth, hframes, Except.ok_bind, hmax,
    conditioned_iff]
  rfl

theorem declaredFields_eq (hout : 1 ≤ numOutputsOf request.diffusionRequest.samplingParams)
    (htext : 1 ≤ textSeqLenOf request.diffusionRequest.samplingParams)
    (hsteps : 1 ≤ numStepsOf request.diffusionRequest.samplingParams) (artifactId : String) :
    declaredFields pipeline (planArgs compiler request prompt).planMetadata artifactId =
      .ok (stateFields compiler pipeline request.diffusionRequest.samplingParams
        (conditionImage pipeline prompt) artifactId) := by
  have hbatch : metadataAtLeastOne (planArgs compiler request prompt).planMetadata
      "num_outputs_per_prompt" 1 = .ok _ := metadataAtLeastOne_int rfl hout
  have hlen : metadataAtLeastOne (planArgs compiler request prompt).planMetadata "text_seq_len" 512 =
      .ok _ := metadataAtLeastOne_int rfl (by
        show 1 ≤ ((textSeqLenOf request.diffusionRequest.samplingParams).toNat : Int)
        omega)
  have hnum : metadataAtLeastOne (planArgs compiler request prompt).planMetadata "num_steps" 1 =
      .ok _ := metadataAtLeastOne_int rfl (by
        show 1 ≤ ((numStepsOf request.diffusionRequest.samplingParams).toNat : Int)
        omega)
  have hcfg : metadataFlag (planArgs compiler request prompt).planMetadata "do_true_cfg" =
      trueCfg request.diffusionRequest.samplingParams compiler.defaultGuidanceScale :=
    truthy_boolValue _
  simp only [declaredFields, hbatch, hlen, hnum, hcfg, Except.ok_bind, latentShape_eq hout,
    conditioned_iff, stateFields]
  cases conditionImage pipeline prompt <;> cases hasLatents artifactId <;> rfl

-- ---------------------------------------------------------------------------
-- Sizes
-- ---------------------------------------------------------------------------

theorem toNat_ediv_natCast (size : Int) (hn : 0 < n) :
    (size / (n : Nat)).toNat = size.toNat / n := by
  rcases Int.le_total 0 size with h | h
  · obtain ⟨k, rfl⟩ := Int.eq_ofNat_of_zero_le h
    norm_cast
  · rw [Int.toNat_of_nonpos h, Int.toNat_of_nonpos, Nat.zero_div]
    exact Int.ediv_nonpos_of_nonpos_of_neg h (mod_cast hn)

theorem numFramesOf_ne_zero (params : SamplingParams) : numFramesOf params ≠ 0 := by
  simp only [numFramesOf, orDefault]
  split <;> omega

theorem declaredSide_iff (pipeline : Pipeline) (hsize : 0 ≤ size) :
    (max pipeline.modValue (roundDown (max 1 size) pipeline.modValue) /
        pipeline.vaeScaleFactorSpatial).toNat =
      (roundDown size pipeline.modValue / pipeline.vaeScaleFactorSpatial).toNat ↔
        pipeline.modValue ≤ size := by
  have hmod := pipeline.modValue_pos
  have hspatial : (0 : Int) < pipeline.vaeScaleFactorSpatial := mod_cast pipeline.spatial_pos
  constructor
  · intro heq
    by_contra hlt
    have hdown : roundDown size pipeline.modValue = 0 := by
      have hnot : ¬ 0 < roundDown size pipeline.modValue := (roundDown_pos hmod).not.mpr hlt
      have hnonneg : 0 ≤ roundDown size pipeline.modValue := (roundDown_nonneg hmod).mpr hsize
      omega
    have hunit : 1 ≤ max pipeline.modValue (roundDown (max 1 size) pipeline.modValue) /
        pipeline.vaeScaleFactorSpatial := by
      rw [Int.le_ediv_iff_mul_le hspatial, one_mul]
      refine le_max_of_le_left ?_
      have hpatch : (1 : Int) ≤ pipeline.patchHeight := mod_cast pipeline.patch_pos
      exact le_mul_of_one_le_right hspatial.le hpatch
    rw [hdown, Int.zero_ediv] at heq
    omega
  · intro hle
    have hmax : max 1 size = size := max_eq_right (by omega)
    have hunit : pipeline.modValue ≤ roundDown size pipeline.modValue := by
      have h1 : 1 ≤ size / pipeline.modValue := by
        rwa [Int.le_ediv_iff_mul_le hmod, one_mul]
      exact le_mul_of_one_le_left hmod.le h1
    rw [hmax, max_eq_right hunit]

theorem latentFrames_pos (pipeline : Pipeline) (h : 0 < numFrames) :
    (pipeline.roundFrames numFrames - 1) / pipeline.vaeScaleFactorTemporal =
      numFrames / pipeline.vaeScaleFactorTemporal := by
  have ht : (0 : Int) < pipeline.vaeScaleFactorTemporal := mod_cast pipeline.temporal_pos
  have hdiv : 0 ≤ numFrames / pipeline.vaeScaleFactorTemporal := Int.ediv_nonneg h.le ht.le
  unfold Pipeline.roundFrames
  simp only
  split
  · have hmul := Int.mul_nonneg hdiv ht.le
    rw [max_eq_right (by omega), Int.add_sub_cancel, Int.mul_ediv_cancel _ ht.ne']
  · rename_i hone
    rw [not_not] at hone
    rw [max_eq_right (by omega)]
    have hsplit := Int.mul_ediv_add_emod numFrames pipeline.vaeScaleFactorTemporal
    rw [hone] at hsplit
    have hsub : numFrames - 1 =
        pipeline.vaeScaleFactorTemporal * (numFrames / pipeline.vaeScaleFactorTemporal) := by omega
    rw [hsub, Int.mul_ediv_cancel_left _ ht.ne']

/-- A video of fewer frames than none is one frame. -/
theorem roundFrames_neg (pipeline : Pipeline) (h : numFrames < 0) :
    pipeline.roundFrames numFrames = 1 := by
  have ht : (0 : Int) < pipeline.vaeScaleFactorTemporal := mod_cast pipeline.temporal_pos
  have hdiv : numFrames / pipeline.vaeScaleFactorTemporal < 0 := Int.ediv_neg_of_neg_of_pos h ht
  have hmul := Int.mul_neg_of_neg_of_pos hdiv ht
  unfold Pipeline.roundFrames
  simp only
  split <;> omega

theorem declaredFrames_iff (pipeline : Pipeline) (h : numFrames ≠ 0) :
    ((pipeline.roundFrames (max 1 numFrames) - 1) / pipeline.vaeScaleFactorTemporal + 1).toNat =
      ((pipeline.roundFrames numFrames - 1) / pipeline.vaeScaleFactorTemporal + 1).toNat ↔
        0 < numFrames ∨ pipeline.vaeScaleFactorTemporal ≠ 1 := by
  rcases Int.lt_or_gt_of_ne h with hneg | hpos
  · rw [max_eq_left (by omega), roundFrames_neg pipeline hneg, latentFrames_pos pipeline one_pos]
    have ht := pipeline.temporal_pos
    by_cases hone : pipeline.vaeScaleFactorTemporal = 1
    · simp [hone]
      omega
    · have hzero : (1 : Int) / pipeline.vaeScaleFactorTemporal = 0 :=
        Int.ediv_eq_zero_of_lt one_pos.le (by omega)
      simp [hone, hzero]
  · rw [max_eq_right (by omega)]
    simp [hpos]

theorem oneLatentFrame_iff (pipeline : Pipeline) (h : numFrames ≠ 0) :
    ((pipeline.roundFrames numFrames - 1) / pipeline.vaeScaleFactorTemporal + 1).toNat = 1 ↔
      numFrames < pipeline.vaeScaleFactorTemporal := by
  have ht : (0 : Int) < pipeline.vaeScaleFactorTemporal := mod_cast pipeline.temporal_pos
  rcases Int.lt_or_gt_of_ne h with hneg | hpos
  · rw [roundFrames_neg pipeline hneg]
    refine iff_of_true ?_ (by omega)
    simp
  · rw [latentFrames_pos pipeline hpos]
    have hdiv : 0 ≤ numFrames / pipeline.vaeScaleFactorTemporal := Int.ediv_nonneg hpos.le ht.le
    have hiff : numFrames / pipeline.vaeScaleFactorTemporal < 1 ↔
        numFrames < pipeline.vaeScaleFactorTemporal := by
      rw [Int.ediv_lt_iff_lt_mul ht, one_mul]
    rw [← hiff]
    omega

-- ---------------------------------------------------------------------------
-- Text encoding and latent preparation
-- ---------------------------------------------------------------------------

def preparedFields (pipeline : Pipeline) (params : SamplingParams) :
    Option PromptImage → List (List String × Shape)
  | none => [(["latents"], latentsOf pipeline params pipeline.inChannels)]
  | some image =>
    let shape := latentsOf pipeline params pipeline.outChannels
    [(["latents"], shape), (["latent_condition"], conditionShape pipeline
      (numOutputsOf params).toNat (frameOf pipeline params image)),
      (["first_frame_mask"], [1, 1] ++ shape.drop 2)]

theorem encodedState_tensorFields (req : DiffusionRequest) :
    (encodedState pipeline req).tensorFields = namedShapes (embedFields pipeline req.samplingParams
      (trueCfg req.samplingParams pipeline.defaultGuidanceScale)) := by
  unfold RuntimeState.tensorFields encodedState embedFields
  cases trueCfg req.samplingParams pipeline.defaultGuidanceScale <;> rfl

theorem preparedState_tensorFields (req : DiffusionRequest) (image : Option PromptImage) :
    (preparedState pipeline req image).tensorFields =
      namedShapes (embedFields pipeline req.samplingParams
        (trueCfg req.samplingParams pipeline.defaultGuidanceScale)) ++
        preparedFields pipeline req.samplingParams image := by
  unfold RuntimeState.tensorFields embedFields
  cases image <;> simp only [preparedState, encodedState] <;>
    cases trueCfg req.samplingParams pipeline.defaultGuidanceScale <;> rfl

theorem embedFields_perm_iff {declared actual : Bool} :
    (namedShapes (embedFields pipeline params declared)).Perm
      (namedShapes (embedFields pipeline params actual)) ↔ declared = actual := by
  constructor
  · intro h
    have hlen := h.length_eq
    cases declared <;> cases actual <;> simp [namedShapes, embedFields] at hlen ⊢
  · rintro rfl
    exact .refl _

theorem declaredLatents_iff (pipeline : Pipeline) (channels : Nat) (hheight : 0 ≤ heightOf params)
    (hwidth : 0 ≤ widthOf params) :
    declaredLatents pipeline params channels = latentsOf pipeline params channels ↔
      pipeline.modValue ≤ heightOf params ∧ pipeline.modValue ≤ widthOf params ∧
        (0 < numFramesOf params ∨ pipeline.vaeScaleFactorTemporal ≠ 1) := by
  rw [← declaredSide_iff pipeline hheight, ← declaredSide_iff pipeline hwidth,
    ← declaredFrames_iff pipeline (numFramesOf_ne_zero params)]
  simp only [declaredLatents, latentsOf, Pipeline.latentSizes, List.map_cons, List.map_nil,
    List.cons.injEq, true_and, and_true]
  tauto

theorem conditionShape_iff (hout : 0 < (numOutputsOf params).toNat) (image : PromptImage) :
    latentsOf pipeline params pipeline.outChannels =
        conditionShape pipeline (numOutputsOf params).toNat (frameOf pipeline params image) ↔
      numFramesOf params < pipeline.vaeScaleFactorTemporal ∧
        pipeline.zDim = pipeline.outChannels ∧ FrameFits pipeline params image := by
  rw [← oneLatentFrame_iff pipeline (numFramesOf_ne_zero params)]
  simp only [latentsOf, Pipeline.latentSizes, conditionShape, List.map_cons, List.map_nil,
    List.cons.injEq, Int.toNat_natCast, and_true, toNat_ediv_natCast _ pipeline.spatial_pos]
  cases image with
  | picture =>
    simp only [frameOf, FrameFits, Nat.one_mul, true_and, and_true]
    tauto
  | tensor count height width =>
    have hcount : (numOutputsOf params).toNat = count * (numOutputsOf params).toNat ↔ count = 1 := by
      rw [eq_comm, Nat.mul_eq_right hout.ne']
    simp only [frameOf, FrameFits, hcount]
    tauto

theorem preparedFields_perm_iff (hout : 0 < (numOutputsOf params).toNat)
    {image : Option PromptImage} (hp : Prepares pipeline params image) :
    (namedShapes (latentFields pipeline params image)).Perm (preparedFields pipeline params image) ↔
      SizesFit pipeline params image := by
  have hperm : (namedShapes (latentFields pipeline params image)).Perm
      (preparedFields pipeline params image) ↔
      namedShapes (latentFields pipeline params image) = preparedFields pipeline params image := by
    refine ⟨fun h => h.eq_of_keys Prod.fst ?_ ?_, fun h => h ▸ .refl _⟩
    · cases image <;> rfl
    · cases image <;> simp [namedShapes, latentFields]
  have hdeclared := fun channels =>
    declaredLatents_iff pipeline channels hp.height hp.width
  rw [hperm]
  cases image with
  | none =>
    have heq : namedShapes (latentFields pipeline params none) = preparedFields pipeline params none ↔
        declaredLatents pipeline params pipeline.inChannels =
          latentsOf pipeline params pipeline.inChannels := by
      simp [namedShapes, latentFields, preparedFields]
    rw [heq, hdeclared]
    exact ⟨fun h => ⟨h.1, h.2.1, h.2.2, fun _ h => nomatch h⟩, fun h => ⟨h.height, h.width, h.frames⟩⟩
  | some image =>
    have heq : namedShapes (latentFields pipeline params (some image)) =
        preparedFields pipeline params (some image) ↔
        declaredLatents pipeline params pipeline.outChannels =
            latentsOf pipeline params pipeline.outChannels ∧
          latentsOf pipeline params pipeline.outChannels = conditionShape pipeline
            (numOutputsOf params).toNat (frameOf pipeline params image) := by
      simp only [namedShapes, latentFields, preparedFields, List.map_cons, List.map_nil,
        List.cons.injEq, Prod.mk.injEq, true_and, and_true]
      constructor
      · rintro ⟨hl, hc, -⟩
        exact ⟨hl, hl ▸ hc⟩
      · rintro ⟨hl, hc⟩
        exact ⟨hl, hl.trans hc, by rw [hl]⟩
    rw [heq, hdeclared, conditionShape_iff hout]
    constructor
    · rintro ⟨⟨hh, hw, hf⟩, himage⟩
      refine ⟨hh, hw, hf, fun frame hframe => ?_⟩
      cases hframe
      exact himage
    · exact fun h => ⟨⟨h.height, h.width, h.frames⟩, h.image image rfl⟩

-- ---------------------------------------------------------------------------
-- Denoising
-- ---------------------------------------------------------------------------

theorem broadcast_self (shape : Shape) : broadcast shape shape = .ok shape := by
  induction shape with
  | nil => rfl
  | cons dim dims ih =>
    simp only [broadcast, broadcastDim, if_true, ih]
    rfl

theorem broadcast_mask (batch channels : Nat) (sizes : Shape) :
    broadcast ([1, 1] ++ sizes) (batch :: channels :: sizes) = .ok (batch :: channels :: sizes) := by
  have hone : ∀ n : Nat, broadcastDim 1 n = .ok n := fun n => by
    unfold broadcastDim
    by_cases h : 1 = n
    · subst h
      rfl
    · rw [if_neg h, if_pos rfl]
      rfl
  show broadcast (1 :: 1 :: sizes) (batch :: channels :: sizes) = _
  simp only [broadcast, hone, broadcast_self]
  rfl

/-- Mixing keeps the shape of the latents, if it does not raise. -/
def Steady (pipeline : Pipeline) (state : RuntimeState) : Prop :=
  ∀ range numTimesteps latents mixed, state.latents = some latents →
    mixedLatents pipeline state range numTimesteps latents = .ok mixed → mixed = latents

theorem denoise_steady (hs : Steady pipeline state)
    (h : denoise pipeline task state = .ok (state', events)) :
    Steady pipeline state' ∧ state'.tensorFields = state.tensorFields := by
  unfold denoise at h
  split at h
  · cases h
  · rename_i range timesteps latents hrange ht hl hsolver
    obtain ⟨mixed, hmixed, hrun⟩ := Except.bind_eq_ok.mp h
    obtain rfl := hs _ _ _ _ hl hmixed
    split at hrun
    · cases hrun
      refine ⟨fun range n latents' mixed' hl' hmix => ?_, ?_⟩
      · exact hs range n latents' mixed' (hl.trans hl') hmix
      · simp only [RuntimeState.tensorFields, hl]
    · cases hrun
      exact ⟨hs, rfl⟩
  · cases h

/-- Latents that fit the image stay as they are. -/
theorem timestepPrepare_steady {image : Option PromptImage}
    (hout : 0 < (numOutputsOf req.samplingParams).toNat)
    (hfit : SizesFit pipeline req.samplingParams image) :
    Steady pipeline (timestepPrepare (preparedState pipeline req image)) := by
  intro range numTimesteps latents mixed hl hmix
  cases image with
  | none =>
    unfold mixedLatents at hmix
    split at hmix
    · rename_i hc hm
      cases hc
    · exact (Except.ok.inj hmix).symm
  | some image =>
    cases hl
    have hcondition := (conditionShape_iff hout image).mpr (hfit.image image rfl)
    have hkept : mixCondition ([1, 1] ++
        (latentsOf pipeline req.samplingParams pipeline.outChannels).drop 2)
        (conditionShape pipeline (numOutputsOf req.samplingParams).toNat
          (frameOf pipeline req.samplingParams image))
        (latentsOf pipeline req.samplingParams pipeline.outChannels) =
        .ok (latentsOf pipeline req.samplingParams pipeline.outChannels) := by
      rw [← hcondition]
      simp only [latentsOf, Pipeline.latentSizes, List.map_cons, List.map_nil, List.drop_succ_cons,
        List.drop_zero, mixCondition, broadcast_mask, Except.ok_bind, broadcast_self]
    unfold mixedLatents at hmix
    split at hmix
    · rename_i hc hm
      cases hc
      cases hm
      split at hmix
      · exact (Except.ok.inj hmix).symm
      · exact Except.ok.inj (hmix.symm.trans hkept)
    · exact (Except.ok.inj hmix).symm

-- ---------------------------------------------------------------------------
-- The whole plan
-- ---------------------------------------------------------------------------

def Declared (pipeline : Pipeline) (group : ExecutionGroupSpec) (groupRank : Nat)
    (plan : RequestExecutionPlan) (left : InferenceTask × RuntimeState) : Prop :=
  ∀ artifact ∈ left.1.outputs,
    DeclaresShapes (describeOutput pipeline group groupRank plan.metadata artifact)
      left.2.tensorFields

theorem stateFields_dtype (image : Option PromptImage) (artifactId : String) :
    ∀ field ∈ stateFields compiler pipeline params image artifactId, field.2.2 ≠ "" := by
  have hembeds : ∀ doTrueCfg, ∀ field ∈ embedFields pipeline params doTrueCfg, field.2.2 ≠ "" := by
    intro doTrueCfg
    cases doTrueCfg <;> simp [embedFields, pipeline.dtype_ne]
  have hlatents : ∀ field ∈ latentFields pipeline params image, field.2.2 ≠ "" := by
    cases image <;> simp [latentFields]
  intro field hm
  rcases List.mem_append.mp hm with hm | hm
  · rcases List.mem_append.mp hm with hm | hm
    · exact hembeds _ field hm
    · split at hm
      · exact hlatents field hm
      · cases hm
  · split at hm
    · rw [List.mem_singleton.mp hm]
      exact (by decide : "int64" ≠ "")
    · cases hm

theorem declared_iff {group : ExecutionGroupSpec} (hr : groupRank < group.ranks.length)
    (hout : 1 ≤ numOutputsOf request.diffusionRequest.samplingParams)
    (htext : 1 ≤ textSeqLenOf request.diffusionRequest.samplingParams)
    (hsteps : 1 ≤ numStepsOf request.diffusionRequest.samplingParams)
    (hmeta : plan.metadata = (planArgs compiler request prompt).planMetadata)
    (houtputs : task.outputs = [(planArgs compiler request prompt).stateHandle artifactId]) :
    Declared pipeline group groupRank plan (task, state) ↔
      (namedShapes (stateFields compiler pipeline request.diffusionRequest.samplingParams
        (conditionImage pipeline prompt) artifactId)).Perm state.tensorFields := by
  have hvalid : validateArtifact group groupRank
      ((planArgs compiler request prompt).stateHandle artifactId) = .ok () := by
    rw [validateArtifact, if_neg (Nat.not_le.mpr hr), if_neg (fun h => h rfl)]
    rfl
  have hdescribed : describeOutput pipeline group groupRank
      (planArgs compiler request prompt).planMetadata
      ((planArgs compiler request prompt).stateHandle artifactId) =
      (replicatedFields (stateFields compiler pipeline request.diffusionRequest.samplingParams
        (conditionImage pipeline prompt) artifactId) >>=
        outputArtifactLayout ((planArgs compiler request prompt).stateHandle artifactId)) := by
    have hid : ((planArgs compiler request prompt).stateHandle artifactId).artifactId =
      artifactId := rfl
    unfold describeOutput
    rw [hvalid, Except.ok_bind, hid, declaredFields_eq hout htext hsteps, Except.ok_bind]
  simp only [Declared, houtputs, List.mem_singleton, forall_eq, hmeta]
  exact declaresShapes_iff hdescribed rfl (stateFields_dtype _ _)

theorem stateFields_text (image : Option PromptImage) :
    stateFields compiler pipeline params image "state_text" =
      embedFields pipeline params (trueCfg params compiler.defaultGuidanceScale) := by
  rw [stateFields, if_neg (by decide), if_neg (by decide), List.append_nil, List.append_nil]

theorem stateFields_latent (image : Option PromptImage) :
    stateFields compiler pipeline params image "state_latent" =
      embedFields pipeline params (trueCfg params compiler.defaultGuidanceScale) ++
        latentFields pipeline params image := by
  rw [stateFields, if_pos (by decide), if_neg (by decide), List.append_nil]

theorem stateFields_denoised (image : Option PromptImage) (hl : hasLatents artifactId = true)
    (ht : hasTimesteps artifactId = true) :
    stateFields compiler pipeline params image artifactId =
      stateFields compiler pipeline params image "state_latent" ++
        [("timesteps", [(numStepsOf params).toNat], "int64")] := by
  rw [stateFields_latent, stateFields, if_pos hl, if_pos ht]

theorem timestepPrepare_tensorFields (req : DiffusionRequest) (image : Option PromptImage) :
    ((preparedState pipeline req image).tensorFields ++
      [(["timesteps"], [(numStepsOf req.samplingParams).toNat])]).Perm
      (timestepPrepare (preparedState pipeline req image)).tensorFields := by
  rw [preparedState_tensorFields, List.append_assoc]
  have hfields : (timestepPrepare (preparedState pipeline req image)).tensorFields =
      namedShapes (embedFields pipeline req.samplingParams
        (trueCfg req.samplingParams pipeline.defaultGuidanceScale)) ++
        (preparedFields pipeline req.samplingParams image).take 1 ++
        (["timesteps"], [(numStepsOf req.samplingParams).toNat]) ::
          (preparedFields pipeline req.samplingParams image).drop 1 := by
    unfold RuntimeState.tensorFields embedFields
    cases image <;> simp only [timestepPrepare, preparedState, encodedState] <;>
      cases trueCfg req.samplingParams pipeline.defaultGuidanceScale <;> rfl
  rw [hfields, List.append_assoc]
  refine .append_left _ ?_
  conv_lhs => rw [← List.take_append_drop 1 (preparedFields pipeline req.samplingParams image),
    List.append_assoc]
  exact .append_left _ (List.perm_append_singleton _ _)

section Plan

variable {plan : RequestExecutionPlan} {chunks : List InferenceTask} {lastChunk : String}
  {group : ExecutionGroupSpec} {groupRank : Nat}

theorem later_declared (hu : (planArgs compiler request prompt).UniformPlan plan chunks lastChunk)
    (hr : groupRank < group.ranks.length)
    (hout : 1 ≤ numOutputsOf request.diffusionRequest.samplingParams)
    (htext : 1 ≤ textSeqLenOf request.diffusionRequest.samplingParams)
    (hsteps : 1 ≤ numStepsOf request.diffusionRequest.samplingParams) {image : Option PromptImage}
    (himage : conditionImage pipeline prompt = image)
    (hfit : SizesFit pipeline request.diffusionRequest.samplingParams image)
    (hprepared : (namedShapes (stateFields compiler pipeline
      request.diffusionRequest.samplingParams image "state_latent")).Perm
      (preparedState pipeline request.diffusionRequest image).tensorFields) (groupId : Option String) :
    ∀ left ∈ leftBy (execute pipeline request.diffusionRequest)
        ((planArgs compiler request prompt).timestepPrepare groupId :: (chunks ++
          [(planArgs compiler request prompt).vaeDecode groupId lastChunk
            ((planArgs compiler request prompt).stateHandle "state_denoised"),
            (planArgs compiler request prompt).finalize groupId]))
        (some (preparedState pipeline request.diffusionRequest image)),
      Declared pipeline group groupRank plan left := by
  subst himage
  have hdeclared : ∀ {task state artifactId},
      task.outputs = [(planArgs compiler request prompt).stateHandle artifactId] →
      hasLatents artifactId = true → hasTimesteps artifactId = true →
      state.tensorFields = (timestepPrepare (preparedState pipeline request.diffusionRequest
        (conditionImage pipeline prompt))).tensorFields →
      Declared pipeline group groupRank plan (task, state) := by
    intro task state artifactId houtputs hl ht hfields
    rw [declared_iff hr hout htext hsteps hu.metadata houtputs, hfields,
      stateFields_denoised _ hl ht, namedShapes_append]
    exact (hprepared.append_right _).trans (timestepPrepare_tensorFields _ _)
  rw [forall_leftBy_cons]
  intro state hstate
  obtain rfl := Except.ok.inj hstate
  refine ⟨hdeclared rfl (by decide) (by decide) rfl, ?_⟩
  refine forall_leftBy (fun state => Steady pipeline state ∧ state.tensorFields =
    (timestepPrepare (preparedState pipeline request.diffusionRequest
      (conditionImage pipeline prompt))).tensorFields) ?_
    ⟨timestepPrepare_steady (by omega) hfit, rfl⟩
  intro task hm state left ⟨hsteady, hfields⟩ hleft
  rcases List.mem_append.mp hm with hm | hm
  · have hplain := hu.plain task hm
    obtain ⟨artifactId, houtputs, hl, ht⟩ := hplain.denoised
    simp only [execute, hplain.kind] at hleft
    obtain ⟨⟨left', events⟩, hdenoise, rfl⟩ := Except.map_eq_ok.mp hleft
    obtain ⟨hsteady', hfields'⟩ := denoise_steady hsteady hdenoise
    exact ⟨⟨hsteady', hfields'.trans hfields⟩, hdeclared houtputs hl ht (hfields'.trans hfields)⟩
  · -- decoding and finalizing leave no state
    rcases List.mem_cons.mp hm with rfl | hm
    · cases hleft
    · rw [List.mem_singleton.mp hm] at hleft
      cases hleft

theorem uniform_declared_iff
    (hu : (planArgs compiler request prompt).UniformPlan plan chunks lastChunk)
    (hr : groupRank < group.ranks.length)
    (hprompt : request.diffusionRequest.prompts = [prompt])
    (htext : 1 ≤ textSeqLenOf request.diffusionRequest.samplingParams)
    (hsteps : 1 ≤ numStepsOf request.diffusionRequest.samplingParams) :
    (∀ left ∈ leftBy (execute pipeline request.diffusionRequest)
        ((planArgs compiler request prompt).uniformChain chunks lastChunk) none,
        Declared pipeline group groupRank plan left) ↔
      LayoutsFit compiler pipeline request.diffusionRequest.samplingParams
        (conditionImage pipeline prompt) := by
  have hextract : extractPrompt request.diffusionRequest = .ok prompt := by
    rw [extractPrompt, hprompt]
    rfl
  have hsome : 0 ≤ numOutputsOf request.diffusionRequest.samplingParams →
      1 ≤ numOutputsOf request.diffusionRequest.samplingParams := by
    have := numOutputsOf_ne_zero request.diffusionRequest.samplingParams
    omega
  rw [ChunkedDitPlanArgs.uniformChain, List.cons_append, List.singleton_append]
  constructor
  · intro hall he
    have hout := hsome he.outputs
    obtain ⟨hencoded, hlater⟩ := forall_leftBy_cons.mp hall (encodedState pipeline _)
      ((textEncode_iff hextract htext).mpr ⟨he, rfl⟩)
    rw [declared_iff hr hout htext hsteps hu.metadata rfl, stateFields_text,
      encodedState_tensorFields, embedFields_perm_iff] at hencoded
    refine ⟨hencoded, fun hp => ?_⟩
    obtain ⟨hprepared, -⟩ := forall_leftBy_cons.mp hlater (preparedState pipeline _ _)
      ((latentPrepare_iff hextract).mpr ⟨hp, rfl⟩)
    rw [declared_iff hr hout htext hsteps hu.metadata rfl, stateFields_latent,
      preparedState_tensorFields, hencoded, namedShapes_append, List.perm_append_left_iff]
      at hprepared
    exact (preparedFields_perm_iff (by omega) hp).mp hprepared
  · intro hfit
    rw [forall_leftBy_cons]
    intro state hstate
    obtain ⟨he, rfl⟩ := (textEncode_iff hextract htext).mp hstate
    obtain ⟨hcfg, hfit⟩ := hfit he
    have hout := hsome he.outputs
    refine ⟨?_, ?_⟩
    · rw [declared_iff hr hout htext hsteps hu.metadata rfl, stateFields_text,
        encodedState_tensorFields, embedFields_perm_iff]
      exact hcfg
    · rw [forall_leftBy_cons]
      intro state hstate
      obtain ⟨hp, rfl⟩ := (latentPrepare_iff hextract).mp hstate
      have hprepared : (namedShapes (stateFields compiler pipeline
          request.diffusionRequest.samplingParams (conditionImage pipeline prompt)
          "state_latent")).Perm (preparedState pipeline request.diffusionRequest
            (conditionImage pipeline prompt)).tensorFields := by
        rw [stateFields_latent, preparedState_tensorFields, hcfg, namedShapes_append,
          List.perm_append_left_iff]
        exact (preparedFields_perm_iff (by omega) hp).mpr (hfit hp)
      exact ⟨(declared_iff hr hout htext hsteps hu.metadata rfl).mpr hprepared,
        later_declared hu hr hout htext hsteps rfl (hfit hp) hprepared _⟩

end Plan

/-- The codec declares the states of a plan as they are exactly when its
metadata fit the executors. -/
theorem video_layouts_declared (f : Nat → Nat → Nat) (compiler : TaskCompiler) (pipeline : Pipeline)
    (request : RuntimeRequest) (prompt : Prompt) (plan : RequestExecutionPlan)
    (order : List InferenceTask) (group : ExecutionGroupSpec) (groupRank : Nat)
    (hprompt : request.diffusionRequest.prompts = [prompt])
    (hplan : compileRequest f compiler request = .ok plan) (ho : DependencyOrder plan order)
    (hr : groupRank < group.ranks.length) :
    (∀ left ∈ leftBy (execute pipeline request.diffusionRequest) order none,
        Declared pipeline group groupRank plan left) ↔
      LayoutsFit compiler pipeline request.diffusionRequest.samplingParams
        (conditionImage pipeline prompt) := by
  obtain ⟨prompt', hprompt', hsteps, htext, chunks, lastChunk, hu⟩ := compileRequest_ok hplan
  cases hprompt.symm.trans hprompt'
  rw [← hu.dependencyOrder_eq ho]
  exact uniform_declared_iff hu hr hprompt htext hsteps

def frameRequest (image : RawImage) (numFrames : Int) : RuntimeRequest where
  diffusionRequest := ⟨[.data "a cat" none image], ⟨none, none, 1, numFrames, none, none, none, 4, 1,
    false, none, none, none⟩, ⟨∅, none⟩⟩
  requestId := "r"
  denoiseChunkSize := 2
  priority := 0
  groupId := none
  chunk_pos := Nat.two_pos

def expandingWan : Pipeline := { smallWan with expandTimesteps := true }

theorem frameRequest_plan (f : Nat → Nat → Nat)
    (hcheck : (planArgs smallWanCompiler (frameRequest image numFrames)
      (.data "a cat" none image)).check = .ok none) :
    ∃ plan order, compileRequest f smallWanCompiler (frameRequest image numFrames) = .ok plan ∧
      DependencyOrder plan order := by
  obtain ⟨plan, order, hplan, hchain, -⟩ :=
    ChunkedDitPlanArgs.exists_planChain f hcheck rfl
  exact ⟨plan, order, hplan, hchain.tasks, hchain.feeds⟩

/-- A single frame with an image to start from. -/
theorem video_layouts_declared_frame : ∃ plan order,
    compileRequest (fun latents _ => latents) smallWanCompiler (frameRequest (.one .picture) 1) =
      .ok plan ∧
    ∀ left ∈ leftBy (execute expandingWan (frameRequest (.one .picture) 1).diffusionRequest) order
      none, Declared expandingWan oneRank 0 plan left := by
  obtain ⟨plan, order, hplan, ho⟩ := @frameRequest_plan (.one .picture) 1 (fun latents _ => latents) rfl
  have hfit : LayoutsFit smallWanCompiler expandingWan
      (frameRequest (.one .picture) 1).diffusionRequest.samplingParams
      (conditionImage expandingWan (.data "a cat" none (.one .picture))) := fun _ =>
    ⟨rfl, fun _ => ⟨by decide, by decide, .inl (by decide), fun image himage => by
      cases himage
      exact ⟨by decide, rfl, trivial⟩⟩⟩
  exact ⟨plan, order, hplan, (video_layouts_declared _ _ _ _ _ plan order oneRank 0 rfl hplan ho
    (by decide)).mpr hfit⟩

/-- A video that starts from an image: its condition is declared with as many
latent frames as the video, and has one. -/
theorem video_condition_not_declared :
    ¬ ∀ (f : Nat → Nat → Nat) (compiler : TaskCompiler) (pipeline : Pipeline)
      (request : RuntimeRequest) (plan : RequestExecutionPlan) (order : List InferenceTask)
      (group : ExecutionGroupSpec) (groupRank : Nat),
      compileRequest f compiler request = .ok plan → DependencyOrder plan order →
      groupRank < group.ranks.length →
      ∀ left ∈ leftBy (execute pipeline request.diffusionRequest) order none,
        Declared pipeline group groupRank plan left := by
  intro h
  obtain ⟨plan, order, hplan, ho⟩ := @frameRequest_plan (.one .picture) 81 (fun latents _ => latents) rfl
  have hall := h _ _ expandingWan _ plan order oneRank 0 hplan ho (by decide)
  obtain ⟨prompt, hprompt, hsteps, htext, chunks, lastChunk, hu⟩ := compileRequest_ok hplan
  cases hprompt
  rw [← hu.dependencyOrder_eq ho] at hall
  have hfit := (uniform_declared_iff hu (by decide) rfl htext hsteps).mp hall
    ⟨by decide, by decide, by decide⟩
  have hsizes := hfit.2 ⟨by decide, by decide, fun _ => ⟨by decide, by decide⟩⟩
  exact absurd (hsizes.image .picture rfl).1 (by decide)

end Wan

end GfDit
