import Mathlib.Tactic.Linarith
import GfDit.Adapters.Common
import GfDit.Layout

/-!
# Diffusion requests

The fields of a diffusion request that the adapters read, and what both
adapters do with them. A tensor is its shape: no adapter decides anything by
an element. A request brings no latents of its own.
-/

namespace GfDit

abbrev Shape := List Nat

inductive PromptImage
  | picture
  | tensor (count height width : Nat)
  deriving DecidableEq

/-- `multi_modal_data.get("image")`. -/
inductive RawImage
  | absent
  | one (image : PromptImage)
  | list (images : List (Option PromptImage))
  deriving DecidableEq

inductive Prompt
  | text (prompt : String)
  | data (prompt : String) (negativePrompt : Option String) (image : RawImage)
  deriving DecidableEq

def Prompt.negativePrompt : Prompt → Option String
  | .text _ => none
  | .data _ negativePrompt _ => negativePrompt

def Prompt.rawImage : Prompt → RawImage
  | .text _ => .absent
  | .data _ _ image => image

def RawImage.first : RawImage → Option PromptImage
  | .absent => none
  | .one image => some image
  | .list [] => none
  | .list (image :: _) => image

structure SamplingParams where
  maxSequenceLength : Option Int
  outputType : Option String
  numOutputsPerPrompt : Int
  numFrames : Int
  height : Option Int
  width : Option Int
  boundaryRatio : Option ℚ
  numInferenceSteps : Int
  guidanceScale : ℚ
  guidanceScaleProvided : Bool
  guidanceScale2 : Option ℚ
  sigmas : Option (List ℚ)
  trueCfgScale : Option ℚ
  deriving DecidableEq

structure DiffusionRequest where
  prompts : List Prompt
  samplingParams : SamplingParams
  -- what a policy can look up in the request
  hostValue : HostValue
  deriving DecidableEq

/-- The request of either adapter, `WanRuntimeRequest` and
`QwenImageRuntimeRequest`. -/
structure RuntimeRequest where
  diffusionRequest : DiffusionRequest
  requestId : String
  denoiseChunkSize : Nat
  priority : Int
  groupId : Option String
  chunk_pos : 0 < denoiseChunkSize

def extractPrompt (req : DiffusionRequest) : Except PyError Prompt :=
  match req.prompts with
  | [prompt] => pure prompt
  | _ => throw (.valueError "runtime_v2 currently supports exactly one prompt per request")

theorem extractPrompt_ok (h : extractPrompt req = .ok prompt) : req.prompts = [prompt] := by
  unfold extractPrompt at h
  split at h
  · rename_i heq
    cases h
    exact heq
  · cases h

-- ---------------------------------------------------------------------------
-- Python values
-- ---------------------------------------------------------------------------

def orDefault (value : Option Int) (fallback : Int) : Int :=
  match value with
  | none => fallback
  | some value => if value = 0 then fallback else value

def textOr (value : Option String) (fallback : String) : String :=
  match value with
  | none => fallback
  | some text => if text = "" then fallback else text

def ratOr (value : Option ℚ) (fallback : ℚ) : ℚ :=
  match value with
  | none => fallback
  | some value => if value = 0 then fallback else value

def PyValue.toInt : PyValue → Except PyError Int
  | .int value => pure value
  | .float value => pure (value.num.tdiv value.den)
  | .infinite => throw (.overflowError "cannot convert float infinity to integer")
  | .none =>
    throw (.typeError <| "int() argument must be a string, a bytes-like object or a real number, " ++
      "not 'NoneType'")
  | .text value =>
    match value.toInt? with
    | some value => pure value
    | .none => throw (.valueError s!"invalid literal for int() with base 10: {quoted value}")

def PyValue.truthy : PyValue → Bool
  | .int value => value ≠ 0
  | .float value => value ≠ 0
  | .infinite => true
  | .none => false
  | .text value => value ≠ ""

def boolValue (flag : Bool) : PyValue := .int flag.toNat

theorem truthy_boolValue (flag : Bool) : (boolValue flag).truthy = flag := by
  cases flag <;> rfl

def metadataAtLeastOne (metadata : Dict String PyValue) (key : String) (fallback : Int) :
    Except PyError Nat := do
  let value ← ((metadata.get? key).getD (.int fallback)).toInt
  if value < 1 then throw (.valueError s!"{key} must be >= 1, got {value}") else pure value.toNat

def metadataFlag (metadata : Dict String PyValue) (key : String) : Bool :=
  ((metadata.get? key).getD (boolValue false)).truthy

-- ---------------------------------------------------------------------------
-- Shapes
-- ---------------------------------------------------------------------------

def newTensor (sizes : List Int) : Except PyError Shape :=
  if ∀ size ∈ sizes, 0 ≤ size then pure (sizes.map Int.toNat)
  else throw (.runtimeError "Trying to create tensor with negative dimension")

def broadcastDim (a b : Nat) : Except PyError Nat :=
  if a = b then pure a
  else if a = 1 then pure b
  else if b = 1 then pure a
  else throw (.runtimeError s!"The size of tensor a ({a}) must match the size of tensor b ({b})")

/-- The shape of an elementwise operation on two tensors of the same rank. -/
def broadcast : Shape → Shape → Except PyError Shape
  | a :: as, b :: bs => do
    let dim ← broadcastDim a b
    let dims ← broadcast as bs
    pure (dim :: dims)
  | [], bs => pure bs
  | as, [] => pure as

def presentFields (fields : List (String × Option Shape)) : List (List String × Shape) :=
  fields.filterMap fun field => field.2.map fun shape => ([field.1], shape)

/-- The fields a layout declares, with their global shapes. -/
def OutputArtifactLayout.shapes (layout : OutputArtifactLayout) : List (List String × Shape) :=
  layout.tensors.map fun field => (field.fieldPath, field.globalShape)

def startsWith (text start : String) : Bool := start.toList.isPrefixOf text.toList

def hasLatents (artifactId : String) : Bool :=
  artifactId = "state_latent" ∨ artifactId = "state_timestep" ∨
    startsWith artifactId "state_denoised"

def hasTimesteps (artifactId : String) : Bool :=
  artifactId = "state_timestep" ∨ startsWith artifactId "state_denoised"

def replicatedFields (fields : List (String × Shape × String)) :
    Except PyError (List TensorFieldLayout) :=
  fields.mapM fun field => replicatedTensorField [field.1] field.2.1 field.2.2

def outputArtifactLayout (handle : ArtifactHandle) (tensors : List TensorFieldLayout) :
    Except PyError OutputArtifactLayout :=
  if h : handle.hasCodec = true then pure ⟨handle, tensors, h⟩
  else throw (.valueError "output artifact layout requires handle.codec_id")

-- ---------------------------------------------------------------------------
-- The denoising loop
-- ---------------------------------------------------------------------------

/-- What a denoising executor does to the solver. -/
inductive SolverEvent
  | step (index : Nat)
  | drop
  deriving DecidableEq

/-- The indices a chunk runs through, clamped to the timesteps there are. -/
def chunkSteps (range : StepRange) (numTimesteps : Nat) : List Nat :=
  List.range' range.start (min range.stop numTimesteps - range.start)

def chunkEvents (range : StepRange) (numTimesteps : Nat) : List SolverEvent :=
  (chunkSteps range numTimesteps).map .step ++
    if numTimesteps ≤ min range.stop numTimesteps then [.drop] else []

end GfDit
