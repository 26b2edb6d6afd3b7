import GfDit.Lib.Objects
import GfDit.Adapters.Common
import GfDit.Layout

/-!
# The metadata of a state

How a codec packs a state for a migration and puts it together again, after
`pack_metadata`, `migration_extra_fields` and `assemble` of the Wan and
Qwen-Image state codecs and the helpers of `ArtifactLayoutCodec`. The tensors a
layout declares and the scheduler's tensors on a device travel by themselves,
the rest is pickled. A pickle is the memory it was taken from.
-/

namespace GfDit

namespace Codec

open Objects

inductive Device
  | host
  | cuda (index : Nat)
  deriving DecidableEq

def Device.text : Device → String
  | .host => "cpu"
  | .cuda index => s!"cuda:{index}"

/-- A tensor: `data` is what it holds, wherever it is. -/
structure DeviceTensor (T : Type) where
  shape : List Nat
  dtype : String
  data : T
  device : Device
  dtype_ne : dtype ≠ ""

inductive Leaf (T : Type)
  | scalar (text : String)
  | tensor (t : DeviceTensor T)

abbrev Held (T : Type) := Value (Leaf T)

variable {T : Type}

namespace DeviceTensor

def isCuda (t : DeviceTensor T) : Bool := t.device ≠ .host

def onto (device : Device) (t : DeviceTensor T) : DeviceTensor T := { t with device := device }

end DeviceTensor

def Leaf.onto (device : Device) : Leaf T → Leaf T
  | .scalar text => .scalar text
  | .tensor t => .tensor (t.onto device)

def isCudaTensor : Held T → Bool
  | .leaf (.tensor t) => t.isCuda
  | _ => false

-- ---------------------------------------------------------------------------
-- The scheduler
-- ---------------------------------------------------------------------------

/-- `_tensor_tree_to_device`: plain lists, tuples and dictionaries are built
anew, instances of any other class are left as they are. -/
def tensorTreeToDevice (value : Held T) (device : Device) : Held T :=
  value.mapLeaves (Leaf.onto device)

/-- What the skeleton has in place of an attribute, if anything else. -/
def strippedAttr : Held T → Option (Held T)
  | .leaf (.tensor t) => if t.isCuda then some .none else none
  | .container .list items =>
    if items.any isCudaTensor then
      some (.container .list (items.map fun it => if isCudaTensor it then .none else it))
    else none
  | _ => none

def strippedAttrs (attributes : Dict String (Held T)) : List (String × Held T) :=
  attributes.entries.filterMap fun entry => (strippedAttr entry.2).map (entry.1, ·)

/-- What is looked at once more in an attribute of the skeleton. -/
def scanned : Held T → List (Held T)
  | .leaf (.tensor t) => [.leaf (.tensor t)]
  | .container .list items => items
  | _ => []

def deviceText : Held T → String
  | .leaf (.tensor t) => t.device.text
  | _ => ""

def stillOnDevice (name : String) (it : Held T) : PyError :=
  .runtimeError <| "scheduler attribute " ++ quoted name ++ " still holds an on-device " ++
    s!"tensor (device={deviceText it}) after skeleton stripping -- " ++
    "it must migrate via migration_extra_fields, not be pickled"

def noAttributes : PyError := .typeError "vars() argument must have __dict__ attribute"

def schedulerSkeleton (m : Memory (Leaf T)) (scheduler : Held T) :
    Except PyError (Memory (Leaf T) × Held T) :=
  match scheduler with
  | .none => pure (m, .none)
  | .object ref => do
    let attributes := m.attrs ref
    let (m, skeleton) := m.alloc attributes
    let m := m.setattrs skeleton (strippedAttrs attributes)
    (m.attrs skeleton).entries.forM fun entry =>
      match (scanned entry.2).find? isCudaTensor with
      | some it => throw (stillOnDevice entry.1 it)
      | none => pure ()
    pure (m, .object skeleton)
  | _ => throw noAttributes

def moveSchedulerTensors (m : Memory (Leaf T)) (scheduler : Held T) (device : Device) :
    Except PyError (Memory (Leaf T)) :=
  match scheduler with
  | .none => pure m
  | .object ref => pure <| m.setattrs ref <|
      (m.attrs ref).entries.map fun entry => (entry.1, tensorTreeToDevice entry.2 device)
  | _ => throw noAttributes

-- ---------------------------------------------------------------------------
-- Field paths
-- ---------------------------------------------------------------------------

def indexOf (kind : String) (length : Nat) (part : String) : Except PyError Nat :=
  match Numerals.readInt part with
  | none =>
    throw (.valueError ("invalid literal for int() with base 10: " ++ quoted part))
  | some i =>
    let i := if i < 0 then i + length else i
    if 0 ≤ i ∧ i < length then pure i.toNat
    else throw (.indexError s!"{kind} index out of range")

/-- One step of the cursor along a path. The attributes of tensors and of
values without parts are left out. -/
def getPart (m : Memory (Leaf T)) (cursor : Held T) (part : String) : Except PyError (Held T) :=
  match cursor with
  | .object ref =>
    match (m.attrs ref).get? part with
    | some value => pure value
    | none => throw (.attributeError part)
  | .container (.dict keys) items =>
    match (keys.zip items).lookup part with
    | some value => pure value
    | none => throw (.keyError part)
  | .container .list items => do
    let i ← indexOf "list" items.length part
    pure (items.getD i .none)
  | .container .tuple items => do
    let i ← indexOf "tuple" items.length part
    pure (items.getD i .none)
  | _ => throw (.attributeError part)

def readField (m : Memory (Leaf T)) (value : Held T) (fieldPath : List String) :
    Except PyError (Held T) :=
  fieldPath.foldlM (getPart m) value

def setEntry (keys : List String) (items : List (Held T)) (key : String) (value : Held T) :
    Held T :=
  let i := keys.idxOf key
  if i < keys.length then .container (.dict keys) (items.set i value)
  else .container (.dict (keys ++ [key])) (items ++ [value])

/-- The assignment at the end of a path. -/
def setLeaf (m : Memory (Leaf T)) (cursor : Held T) (leaf : String) (value : Held T) :
    Except PyError (Memory (Leaf T) × Held T) :=
  match cursor with
  | .object ref => pure (m.setattr ref leaf value, .object ref)
  | .container (.dict keys) items => pure (m, setEntry keys items leaf value)
  | .container .list items => do
    let i ← indexOf "list assignment" items.length leaf
    pure (m, .container .list (items.set i value))
  | _ => throw (.attributeError leaf)

/-- A container inside another was written to in place. -/
def putBack (m : Memory (Leaf T)) (cursor : Held T) (part : String) (value : Held T) :
    Except PyError (Memory (Leaf T) × Held T) :=
  match cursor with
  | .container .tuple items => do
    let i ← indexOf "tuple" items.length part
    pure (m, .container .tuple (items.set i value))
  | _ => setLeaf m cursor part value

/-- `_write_field`, with the value as it is afterwards. -/
def writeField (m : Memory (Leaf T)) (value : Held T) (fieldPath : List String)
    (newValue : Held T) : Except PyError (Memory (Leaf T) × Held T) :=
  match fieldPath with
  | [] => throw (.valueError "field_path must be non-empty")
  | [leaf] => setLeaf m value leaf newValue
  | part :: rest => do
    let inner ← getPart m value part
    let (m, inner) ← writeField m inner rest newValue
    putBack m value part inner

-- ---------------------------------------------------------------------------
-- Packing
-- ---------------------------------------------------------------------------

/-- The graph of objects that can be reached from `root`. -/
structure Pickle (T : Type) where
  memory : Memory (Leaf T)
  root : Nat

def declaredPaths (layout : OutputArtifactLayout) : List (List String) :=
  layout.tensors.map TensorFieldLayout.fieldPath

def undeclared (name : String) (t : DeviceTensor T) : PyError :=
  .runtimeError <| "codec pack_metadata: attribute " ++ quoted name ++ " on artifact value is a " ++
    s!"torch.Tensor (device={t.device.text}, dtype={t.dtype}, shape={natTuple t.shape}) " ++
    "but the codec layout did not declare it. Pickling this would leak the " ++
    "src-rank device to the dst rank. Either include this field in " ++
    "describe_output so it migrates via NCCL, or null it on the src side " ++
    "before pack_metadata is called."

instance decidablePathListed (path : List String) (paths : List (List String)) :
    Decidable (path ∈ paths) := inferInstance

def assertNoUndeclaredTensorFields (m : Memory (Leaf T)) (value : Nat)
    (layout : OutputArtifactLayout) : Except PyError Unit :=
  (m.attrs value).entries.forM fun entry =>
    match entry.2 with
    | .leaf (.tensor t) =>
      if [entry.1] ∈ declaredPaths layout then pure () else throw (undeclared entry.1 t)
    | _ => pure ()

def dataclassesReplace (m : Memory (Leaf T)) (value : Nat) (changes : Dict String (Held T)) :
    Except PyError (Memory (Leaf T) × Nat) :=
  match changes.keys.find? fun name => !(m.attrs value).contains name with
  | some name => throw (.typeError ("__init__() got an unexpected keyword argument " ++ quoted name))
  | none => pure (m.alloc ((m.attrs value).insertAll changes.entries))

/-- The request and its sampling parameters, where those have a generator. -/
def seededRequest (m : Memory (Leaf T)) (request : Held T) : Option (Nat × Nat) :=
  match request with
  | .object ref =>
    match (m.attrs ref).get? "sampling_params" with
    | some (.object params) =>
      match (m.attrs params).get? "generator" with
      | none | some .none => none
      | some _ => some (ref, params)
    | _ => none
  | _ => none

def dropGenerator (m : Memory (Leaf T)) (skeleton : Nat) : Except PyError (Memory (Leaf T)) :=
  match (m.attrs skeleton).get? "request" with
  | none => throw (.attributeError "request")
  | some request =>
    match seededRequest m request with
    | none => pure m
    | some (ref, params) => do
      let (m, cleanParams) ← dataclassesReplace m params (Dict.set ∅ "generator" .none)
      let (m, cleanRequest) ← dataclassesReplace m ref
        (Dict.set ∅ "sampling_params" (.object cleanParams))
      pure (m.setattr skeleton "request" (.object cleanRequest))

def schedulerOf (m : Memory (Leaf T)) (value : Nat) : Held T :=
  ((m.attrs value).get? "scheduler").getD .none

def packMetadata (m : Memory (Leaf T)) (value : Nat) (layout : OutputArtifactLayout) :
    Except PyError (Memory (Leaf T) × Pickle T) := do
  assertNoUndeclaredTensorFields m value layout
  let (m, skeletonScheduler) ← schedulerSkeleton m (schedulerOf m value)
  let nulled := layout.tensors.map fun field => (field.fieldPath.head field.path_ne, Value.none)
  let replacements := (((∅ : Dict String (Held T)).insertAll nulled).set "device" .none).set
    "scheduler" skeletonScheduler
  let (m, skeleton) ← dataclassesReplace m value replacements
  let m ← dropGenerator m skeleton
  pure (m, ⟨m, skeleton⟩)

def deviceSlots (name : String) : Held T → List (List String × DeviceTensor T)
  | .leaf (.tensor t) => if t.isCuda then [(["scheduler", name], t)] else []
  | .container .list items => items.zipIdx.filterMap fun item =>
    match item.1 with
    | .leaf (.tensor t) =>
      if t.isCuda then some (["scheduler", name, toString item.2], t) else none
    | _ => none
  | _ => []

def migrationExtraFields (m : Memory (Leaf T)) (value : Nat) (layout : OutputArtifactLayout) :
    Except PyError (List TensorFieldLayout) :=
  match schedulerOf m value with
  | .none => pure []
  | .object ref => do
    let fields ← ((m.attrs ref).entries.flatMap fun entry => deviceSlots entry.1 entry.2).mapM
      fun slot => replicatedTensorField slot.1 slot.2.shape slot.2.dtype
    pure (fields.filter fun field => field.fieldPath ∉ declaredPaths layout)
  | _ => throw noAttributes

-- ---------------------------------------------------------------------------
-- Putting together
-- ---------------------------------------------------------------------------

def injectTensorFields (m : Memory (Leaf T)) (skeleton : Nat)
    (tensors : Dict (List String) (DeviceTensor T)) (fields : List TensorFieldLayout) :
    Except PyError (Memory (Leaf T)) :=
  fields.foldlM (fun m field =>
    match tensors.get? field.fieldPath with
    | none => throw <| .keyError <|
        s!"missing tensor for field_path={strTuple field.fieldPath} during artifact assembly"
    | some t => do
      let (m, _) ← writeField m (.object skeleton) field.fieldPath (.leaf (.tensor t))
      pure m) m

/-- The other tensors go where they came from. -/
def writeExtraTensors (m : Memory (Leaf T)) (state : Nat) (declared : List (List String))
    (tensors : List (List String × DeviceTensor T)) : Except PyError (Memory (Leaf T)) :=
  tensors.foldlM (fun m entry =>
    if entry.1 ∈ declared then pure m else do
      let (m, _) ← writeField m (.object state) entry.1 (.leaf (.tensor entry.2))
      pure m) m

def stateAttr (m : Memory (Leaf T)) (state : Nat) (name : String) : Except PyError (Held T) :=
  getPart m (.object state) name

def shareTimesteps (m : Memory (Leaf T)) (state : Nat) : Except PyError (Memory (Leaf T)) := do
  match ← stateAttr m state "scheduler" with
  | .none => pure m
  | scheduler =>
    match ← stateAttr m state "timesteps" with
    | .none => pure m
    | timesteps =>
      let (m, _) ← setLeaf m scheduler "timesteps" timesteps
      pure m

/-- `assemble`, on the memory the metadata is loaded into. -/
def assembleState (codecName : String) (metadata : Pickle T)
    (tensors : Dict (List String) (DeviceTensor T)) (layout : OutputArtifactLayout)
    (device : Option Device) : Except PyError (Memory (Leaf T) × Nat) :=
  match device with
  | none => throw <| .valueError <| codecName ++ ".assemble requires a device kwarg so the " ++
      "dst rank can rebind state.device after migration"
  | some device => do
    let state := metadata.root
    let m ← injectTensorFields metadata.memory state tensors layout.tensors
    let m ← writeExtraTensors m state (declaredPaths layout) tensors.entries
    let m := m.setattr state "device" (.leaf (.scalar device.text))
    let m ← moveSchedulerTensors m (← stateAttr m state "scheduler") device
    let m ← shareTimesteps m state
    pure (m, state)

inductive StateCodec
  | wan
  | qwenImage
  deriving DecidableEq

def StateCodec.className : StateCodec → String
  | .wan => "WanStateLayoutCodec"
  | .qwenImage => "QwenImageStateLayoutCodec"

def StateCodec.assemble (codec : StateCodec) (metadata : Pickle T)
    (tensors : Dict (List String) (DeviceTensor T)) (layout : OutputArtifactLayout)
    (device : Option Device) : Except PyError (Memory (Leaf T) × Nat) :=
  assembleState codec.className metadata tensors layout device

end Codec

end GfDit
