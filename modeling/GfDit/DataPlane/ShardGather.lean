import GfDit.DataPlane.Execute
import GfDit.Lib.Collective
import GfDit.Lib.Dict
import Mathlib.Algebra.GroupWithZero.Nat

/-!
# Sharded fields at the ends of a task

Between tasks the ranks of a sequence-parallel group store shards of a field,
while a task sees the whole tensor: `shard_output_artifact` cuts, and
`materialize_input_artifact` gathers, of `data_plane.py`. A rank first learns
from all others what they hold, then the lengths, then the padded shards. The
value of an artifact is what its fields hold, by path.
-/

namespace GfDit

open Collective (Member)

inductive FieldValue (α : Type)
  | none
  | tensor (tensor : Tensor α)
  | other (typeName : String)

/-- An artifact's value, as far as fields are read and written. -/
abbrev FieldValues (α : Type) := Dict FieldPath (FieldValue α)

def FieldValues.readField {α : Type} (value : FieldValues α) (path : FieldPath) :
    Except PyError (FieldValue α) :=
  match value.get? path with
  | some held => pure held
  | none => throw (.attributeError (strTuple path))

def FieldValue.typeName {α : Type} : FieldValue α → String
  | .none => "NoneType"
  | .tensor _ => "Tensor"
  | .other typeName => typeName

inductive ShardedFieldStatus
  | fieldMissing
  | fieldLocal
  | fieldGlobal
  | fieldInvalid
  deriving DecidableEq, Repr

def ShardedFieldStatus.code : ShardedFieldStatus → Nat
  | fieldMissing => 0
  | fieldLocal => 1
  | fieldGlobal => 2
  | fieldInvalid => 3

inductive GatherKind
  | status
  | length
  | shard

def GatherPayload (α : Type) : GatherKind → Type
  | .status => ShardedFieldStatus
  | .length => Nat
  | .shard => Tensor α

abbrev SpRank (n : Nat) (α β : Type) := Member (Fin n) (GatherPayload α) PyError β

variable {α : Type} {n : Nat}

-- ---------------------------------------------------------------------------
-- Gathering a tensor
-- ---------------------------------------------------------------------------

/-- What is in a tensor nobody wrote, and what `zero_` puts there. -/
structure Blank (α : Type) where
  empty : List Nat → α
  zero : α

/-- The shard at the start of a tensor as long as the longest. -/
def padShard (blank : Blank α) (dim maxLen : Nat) (tensor : Tensor α) : Tensor α where
  shape := tensor.shape.set dim maxLen
  dtype := tensor.dtype
  data := fun index =>
    if Box.Contains (Box.ofShape tensor.shape) index then tensor.data index
    else if maxLen > tensor.shape.getD dim 0 then blank.zero
    else blank.empty index

def narrow (dim length : Nat) (chunk : Tensor α) : Tensor α :=
  { chunk with shape := chunk.shape.set dim length }

def catData (dim : Nat) : Tensor α → List (Tensor α) → List Nat → α
  | piece, [], index => piece.data index
  | piece, next :: rest, index =>
    if index.getD dim 0 < piece.shape.getD dim 0 then piece.data index
    else catData dim next rest (index.set dim (index.getD dim 0 - piece.shape.getD dim 0))

/-- `torch.cat`, for pieces that differ along the dimension only. -/
def catPieces (dim : Nat) (piece : Tensor α) (rest : List (Tensor α)) : Tensor α where
  shape := piece.shape.set dim ((piece :: rest).map fun p => p.shape.getD dim 0).sum
  dtype := piece.dtype
  data := catData dim piece rest

def ownShard (dim : Nat) (padded : Tensor α) (lengths : Fin n → Nat) (gathered : Fin n → Tensor α)
    (i : Fin n) : Tensor α := narrow dim (lengths i) { padded with data := (gathered i).data }

def joinShards (blank : Blank α) (field : TensorFieldLayout) (dim : Nat) (padded : Tensor α)
    (lengths : Fin n → Nat) (gathered : Fin n → Tensor α) : Tensor α :=
  match ((List.finRange n).filter fun i => lengths i > 0).map
      (ownShard dim padded lengths gathered) with
  | piece :: rest => catPieces dim piece rest
  | [] => ⟨field.globalShape, padded.dtype, blank.empty⟩

def allGatherShardedTensor (blank : Blank α) (tensor : Tensor α) (field : TensorFieldLayout) :
    SpRank n α (Tensor α) :=
  match field.layout with
  | .sharded dim =>
    if n = 1 then .done tensor
    else if dim ≥ tensor.shape.length then
      .raise (.valueError <| s!"invalid shard_dim={dim} for tensor shape=" ++
        natTuple tensor.shape)
    else
      .gather .length (tensor.shape.getD dim 0) fun lengths =>
        let padded := padShard blank dim ((List.ofFn lengths).foldl max 0) tensor
        .gather .shard padded fun gathered =>
          let full := joinShards blank field dim padded lengths gathered
          if full.shape ≠ field.globalShape then
            .raise (.runtimeError <| "runtime_v2 sharded gather produced wrong shape: field_path=" ++
              strTuple field.fieldPath ++ ", got=" ++ natTuple full.shape ++ ", expected=" ++
              natTuple field.globalShape)
          else .done full
  | .ownerOnly | .replicated =>
    .raise (.valueError <| "missing shard spec for field_path=" ++ strTuple field.fieldPath)

-- ---------------------------------------------------------------------------
-- What the ranks hold
-- ---------------------------------------------------------------------------

def classifyShardedFieldTensor (held : FieldValue α) (field : TensorFieldLayout) :
    ShardedFieldStatus :=
  match held with
  | .none => .fieldMissing
  | .other _ => .fieldInvalid
  | .tensor tensor =>
    if tensor.shape = field.localShape then .fieldLocal
    else if tensor.shape = field.globalShape then .fieldGlobal
    else .fieldInvalid

def gatherShardedFieldStatus (held : FieldValue α) (field : TensorFieldLayout) :
    SpRank n α (List ShardedFieldStatus) :=
  let status := classifyShardedFieldTensor held field
  if n = 1 then .done [status]
  else .gather .status status fun all => .done (List.ofFn all)

def notATensor (artifact : ArtifactHandle) (field : TensorFieldLayout) (what : String)
    (held : FieldValue α) : PyError :=
  .typeError <| s!"runtime_v2 sharded {what} field is not a tensor: artifact_id=" ++
    artifact.artifactId ++ ", field_path=" ++ strTuple field.fieldPath ++ ", got " ++ held.typeName

/-- Whether to gather; the ranks have to hold alike. -/
def validateShardedFieldStatus (artifact : ArtifactHandle) (field : TensorFieldLayout)
    (localStatus : ShardedFieldStatus) (allStatuses : List ShardedFieldStatus)
    (held : FieldValue α) : Except PyError Bool :=
  let codes := "[" ++ ", ".intercalate (allStatuses.map fun status => toString status.code) ++ "]"
  if ∀ other ∈ allStatuses, other = ShardedFieldStatus.fieldMissing then pure false
  else if ShardedFieldStatus.fieldInvalid ∈ allStatuses then
    match held with
    | .tensor tensor =>
      throw (.runtimeError <| "runtime_v2 sharded input shape mismatch: artifact_id=" ++
        artifact.artifactId ++ ", field_path=" ++ strTuple field.fieldPath ++ ", tensor_shape=" ++
        natTuple tensor.shape ++ ", local_shape=" ++ natTuple field.localShape ++
        ", global_shape=" ++ natTuple field.globalShape ++ ", rank_statuses=" ++ codes)
    | .none | .other _ => throw (notATensor artifact field "input" held)
  else if ∀ other ∈ allStatuses, other = ShardedFieldStatus.fieldGlobal then pure false
  else if ∀ other ∈ allStatuses, other = ShardedFieldStatus.fieldLocal then pure true
  else
    throw (.runtimeError <| "runtime_v2 sharded input has inconsistent per-rank materialization " ++
      "state: artifact_id=" ++ artifact.artifactId ++ ", field_path=" ++
      strTuple field.fieldPath ++ s!", local_status={localStatus.code}, rank_statuses=" ++ codes ++
      ". All ranks in an SP group must either hold local shards or all hold full tensors.")

-- ---------------------------------------------------------------------------
-- The two ends of a task
-- ---------------------------------------------------------------------------

/-- What a rank does once it knows what all of its SP group hold. -/
def fillField (blank : Blank α) (artifact : ArtifactHandle) (groupRank : Nat)
    (field : TensorFieldLayout) (value : FieldValues α) (held : FieldValue α)
    (statuses : List ShardedFieldStatus) : SpRank n α (FieldValues α) :=
  match statuses[groupRank]? with
  | none => .raise (.indexError "list index out of range")
  | some localStatus =>
    match validateShardedFieldStatus artifact field localStatus statuses held with
    | .error e => .raise e
    | .ok false => .done value
    | .ok true =>
      match held with
      | .tensor tensor =>
        (allGatherShardedTensor blank tensor field).bind fun full =>
          .done (value.set field.fieldPath (.tensor full))
      | .none | .other _ => .raise (notATensor artifact field "input" held)

/-- One turn of the loop of `materialize_input_artifact`. -/
def materializeField (blank : Blank α) (artifact : ArtifactHandle) (groupRank : Nat)
    (field : TensorFieldLayout) (value : FieldValues α) : SpRank n α (FieldValues α) :=
  match field.layout with
  | .ownerOnly | .replicated => .done value
  | .sharded _ =>
    match value.readField field.fieldPath with
    | .error e => .raise e
    | .ok held =>
      (gatherShardedFieldStatus held field).bind
        (fillField blank artifact groupRank field value held)

def materializeFields (blank : Blank α) (artifact : ArtifactHandle) (groupRank : Nat) :
    List TensorFieldLayout → FieldValues α → SpRank n α (FieldValues α)
  | [], value => .done value
  | field :: fields, value =>
    (materializeField blank artifact groupRank field value).bind
      (materializeFields blank artifact groupRank fields)

/-- `describeOutput` is the registry's answer to a rank of the group. -/
def materializeInputArtifact (blank : Blank α)
    (describeOutput : Nat → Except PyError OutputArtifactLayout) (artifact : ArtifactHandle)
    (groupRank : Nat) (value : FieldValues α) : SpRank n α (FieldValues α) :=
  if artifact.hasCodec then
    (Member.ofExcept (describeOutput groupRank)).bind fun layout =>
      materializeFields blank artifact groupRank layout.tensors value
  else .done value

def fieldSlice (field : TensorFieldLayout) : TensorSliceSpec where
  fieldPath := field.fieldPath
  offset := field.globalOffset
  shape := field.localShape
  dtype := field.dtype
  path_ne := field.path_ne
  dtype_ne := field.dtype_ne
  rank_eq := field.rank_offset.trans field.rank_local.symm

/-- One turn of the loop of `shard_output_artifact`. -/
def shardField (artifact : ArtifactHandle) (field : TensorFieldLayout) (value : FieldValues α) :
    Except PyError (FieldValues α) :=
  match field.layout with
  | .ownerOnly | .replicated => pure value
  | .sharded _ => do
    let held ← value.readField field.fieldPath
    match held with
    | .none => pure value
    | .other _ => throw (notATensor artifact field "output" held)
    | .tensor tensor =>
      if tensor.shape = field.localShape then pure value
      else if tensor.shape ≠ field.globalShape then
        throw (.runtimeError <| "runtime_v2 sharded output shape mismatch: artifact_id=" ++
          artifact.artifactId ++ ", field_path=" ++ strTuple field.fieldPath ++
          ", tensor_shape=" ++ natTuple tensor.shape ++ ", local_shape=" ++
          natTuple field.localShape ++ ", global_shape=" ++ natTuple field.globalShape)
      else
        let view ← tensorSliceView tensor (fieldSlice field)
        pure (value.set field.fieldPath (.tensor view))

def shardFields (artifact : ArtifactHandle) :
    List TensorFieldLayout → FieldValues α → Except PyError (FieldValues α)
  | [], value => pure value
  | field :: fields, value => do
    let value ← shardField artifact field value
    shardFields artifact fields value

def shardOutputArtifact (describeOutput : Nat → Except PyError OutputArtifactLayout)
    (artifact : ArtifactHandle) (groupRank : Nat) (value : FieldValues α) :
    Except PyError (FieldValues α) :=
  if artifact.hasCodec then do
    let layout ← describeOutput groupRank
    shardFields artifact layout.tensors value
  else pure value

end GfDit
