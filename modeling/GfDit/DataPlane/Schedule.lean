import GfDit.Layout
import GfDit.Lib.Dict
import Mathlib.Data.List.Sort

/-!
# Building the migration schedule

`build_layout_migration_schedule` of `data_plane.py`: from the field layouts
the ranks described, one edge for every overlap of a destination field with a
selected source field. A replicated source is read from a single rank; of
sharded sources one rank is kept for each distinct shard.
-/

namespace GfDit

abbrev FieldPath := List String

abbrev FieldEntry := Rank × TensorFieldLayout

def tensorNumel (shape : List Nat) : Nat := shape.foldl (· * ·) 1

def layoutSupported : TensorLayout → Bool
  | .replicated | .sharded _ => true
  | .ownerOnly => false

def validateMigrationFieldPair (artifactId : String) (srcField dstField : TensorFieldLayout) :
    Except PyError Unit := do
  if !layoutSupported srcField.layout then
    throw (.notImplementedError <| "migration schedule does not support source tensor layout: " ++
      "artifact_id=" ++ artifactId ++ ", field_path=" ++ strTuple srcField.fieldPath ++
      ", layout=" ++ srcField.layout.value)
  if !layoutSupported dstField.layout then
    throw (.notImplementedError <| "migration schedule does not support destination tensor layout: "
      ++ "artifact_id=" ++ artifactId ++ ", field_path=" ++ strTuple dstField.fieldPath ++
      ", layout=" ++ dstField.layout.value)
  if srcField.dtype ≠ dstField.dtype then
    throw (.runtimeError <| "migration dtype mismatch: artifact_id=" ++ artifactId ++
      ", field_path=" ++ strTuple dstField.fieldPath ++ ", src=" ++ srcField.dtype ++
      ", dst=" ++ dstField.dtype)
  if srcField.globalShape ≠ dstField.globalShape then
    throw (.runtimeError <| "migration global shape mismatch: artifact_id=" ++ artifactId ++
      ", field_path=" ++ strTuple dstField.fieldPath ++ ", src=" ++ natTuple srcField.globalShape ++
      ", dst=" ++ natTuple dstField.globalShape)

/-- The loop of `intersect_field_slices` over the zipped axes; `zip` is strict. -/
def intersectAxes : List Box.Axis → List Box.Axis → Except PyError (Option (List Box.Axis))
  | [], [] => pure (some [])
  | src :: srcs, dst :: dsts => do
    let interStart := max src.1 dst.1
    let interEnd := min (src.1 + src.2) (dst.1 + dst.2)
    if interEnd ≤ interStart then return none
    let rest ← intersectAxes srcs dsts
    return rest.map ((interStart, interEnd - interStart) :: ·)
  | _, _ => throw (.valueError "zip() arguments differ in length")

def intersectFieldSlices (srcField dstField : TensorFieldLayout) :
    Except PyError (Option (List Nat × List Nat)) := do
  let common ← intersectAxes srcField.axes dstField.axes
  return common.map fun axes => (axes.map Prod.fst, axes.map Prod.snd)

-- ---------------------------------------------------------------------------
-- Choosing the sources of one destination field
-- ---------------------------------------------------------------------------

/-- `min(entries, key=rank)`: the first entry of least rank. -/
def minRankEntry (first : FieldEntry) (rest : List FieldEntry) : FieldEntry :=
  rest.foldl (fun best entry => if entry.1 < best.1 then entry else best) first

abbrev ShardKey := List Nat × List Nat × List Nat × String

def shardKey (field : TensorFieldLayout) : ShardKey :=
  (field.globalOffset, field.localShape, field.globalShape, field.dtype)

/-- One turn of the deduplicating loop: a shard already seen is taken over by
the destination rank itself, by the source leader or by a smaller rank. -/
def dedupStep (dstRank srcLeaderRank : Rank) (deduped : Dict ShardKey FieldEntry)
    (entry : FieldEntry) : Dict ShardKey FieldEntry :=
  let (rank, field) := entry
  match deduped.get? (shardKey field) with
  | none => deduped.set (shardKey field) (rank, field)
  | some (previousRank, _) =>
    if previousRank = dstRank then deduped
    else if rank = dstRank ∨ (previousRank ≠ srcLeaderRank ∧ rank = srcLeaderRank) ∨
        rank < previousRank then
      deduped.set (shardKey field) (rank, field)
    else deduped

def entryLe (a b : FieldEntry) : Prop :=
  a.2.globalOffset < b.2.globalOffset ∨ a.2.globalOffset = b.2.globalOffset ∧ a.1 ≤ b.1

instance : DecidableRel entryLe := fun _ _ => inferInstanceAs (Decidable (_ ∨ _))

def selectSourceFieldsForDst (srcEntries : List FieldEntry) (dstRank srcLeaderRank : Rank) :
    List FieldEntry :=
  match srcEntries.filter (·.2.layout.isReplicated) with
  | first :: rest =>
    let replicated := first :: rest
    match replicated.find? (·.1 = dstRank) with
    | some entry => [entry]
    | none =>
      match replicated.find? (·.1 = srcLeaderRank) with
      | some entry => [entry]
      | none => [minRankEntry first rest]
  | [] =>
    (srcEntries.foldl (dedupStep dstRank srcLeaderRank) ∅).values.insertionSort entryLe

-- ---------------------------------------------------------------------------
-- Edges
-- ---------------------------------------------------------------------------

/-- One turn of the loop over the selected sources: no edge when the boxes do
not meet, else the overlap in the coordinates of each side. -/
def edgeFor (artifactId : String) (dstRank : Rank) (dstField : TensorFieldLayout)
    (source : FieldEntry) : Except PyError (Option TensorMigrationEdge) := do
  let (srcRank, srcField) := source
  validateMigrationFieldPair artifactId srcField dstField
  match ← intersectFieldSlices srcField dstField with
  | none => return none
  | some (globalOffset, shape) =>
    if shape.any (· = 0) then return none
    let srcSlice ← TensorSliceSpec.make srcField.fieldPath
      (Box.shiftDown srcField.globalOffset globalOffset) shape srcField.dtype
    let dstSlice ← TensorSliceSpec.make dstField.fieldPath
      (Box.shiftDown dstField.globalOffset globalOffset) shape dstField.dtype
    let edge ← TensorMigrationEdge.make artifactId srcRank dstRank srcSlice dstSlice
      (srcRank = dstRank)
    return some edge

def dstFieldEdges (artifactId : String) (srcLeaderRank : Rank)
    (srcFieldsByPath : Dict FieldPath (List FieldEntry)) (dstRank : Rank)
    (dstField : TensorFieldLayout) : Except PyError (List TensorMigrationEdge) := do
  let srcEntries := srcFieldsByPath.getD dstField.fieldPath []
  if srcEntries.isEmpty then
    throw (.runtimeError <| "migration source field missing: artifact_id=" ++ artifactId ++
      ", field_path=" ++ strTuple dstField.fieldPath)
  let emitted ← (selectSourceFieldsForDst srcEntries dstRank srcLeaderRank).mapM
    (edgeFor artifactId dstRank dstField)
  let edges := emitted.filterMap id
  if edges.isEmpty && 0 < tensorNumel dstField.localShape then
    throw (.runtimeError <| "migration source fields do not cover destination field: artifact_id=" ++
      artifactId ++ ", field_path=" ++ strTuple dstField.fieldPath ++ ", dst_offset=" ++
      natTuple dstField.globalOffset ++ ", dst_shape=" ++ natTuple dstField.localShape)
  return edges

/-- The layouts one side's ranks described for an artifact, by rank. -/
def collectLayouts (side : MigrateArtifactsRankResult → List OutputArtifactLayout)
    (artifactId : String) (results : List MigrateArtifactsRankResult) :
    Dict Rank OutputArtifactLayout :=
  results.foldl (fun layouts result =>
    (side result).foldl (fun layouts layout =>
      if layout.handle.artifactId = artifactId then layouts.set result.workerRank layout
      else layouts) layouts) ∅

def fieldsByPath (srcLayouts : Dict Rank OutputArtifactLayout) :
    Dict FieldPath (List FieldEntry) :=
  srcLayouts.entries.foldl (fun fields entry =>
    entry.2.tensors.foldl (fun fields field =>
      fields.set field.fieldPath (fields.getD field.fieldPath [] ++ [(entry.1, field)])) fields) ∅

def artifactEdges (command : MigrateArtifactsCommand) (spec : MigrateArtifactSpec) :
    Except PyError (List TensorMigrationEdge) := do
  let artifactId := spec.handle.artifactId
  let srcLayouts := collectLayouts (·.srcLayouts) artifactId command.layoutResults
  let dstLayouts := collectLayouts (·.dstLayouts) artifactId command.layoutResults
  if srcLayouts.entries.isEmpty then
    throw (.runtimeError ("migration source layouts missing for artifact " ++ artifactId))
  if dstLayouts.entries.isEmpty then
    throw (.runtimeError ("migration destination layouts missing for artifact " ++ artifactId))
  let srcFieldsByPath := fieldsByPath srcLayouts
  let edges ← dstLayouts.entries.mapM fun (dstRank, dstLayout) => do
    let fields ← dstLayout.tensors.mapM
      (dstFieldEdges artifactId command.srcGroup.leader srcFieldsByPath dstRank)
    return fields.flatten
  return edges.flatten

/-- `sorted(set(src) | set(dst))`. -/
def participantRanks (src dst : ExecutionGroupSpec) : List Rank :=
  (src.ranks ++ dst.ranks).dedup.insertionSort (· ≤ ·)

def buildLayoutMigrationSchedule (command : MigrateArtifactsCommand) :
    Except PyError ArtifactMigrationSchedule := do
  let edges ← command.plan.artifacts.mapM (artifactEdges command)
  ArtifactMigrationSchedule.make command.migrateId command.plan.requestId command.srcGroup.groupId
    command.dstGroup.groupId command.srcGroup.ranks command.dstGroup.ranks
    (participantRanks command.srcGroup command.dstGroup) edges.flatten

-- ---------------------------------------------------------------------------
-- What the source leader returns
-- ---------------------------------------------------------------------------

/-- The edges of a tensor the layouts do not declare: the leader's whole
tensor to every destination rank. -/
def extraFieldEdges (artifactId : String) (srcLeader : Rank) (dstRanks : List Rank)
    (field : TensorFieldLayout) : Except PyError (List TensorMigrationEdge) := do
  let slice ← TensorSliceSpec.make field.fieldPath (field.localShape.map fun _ => 0)
    field.localShape field.dtype
  dstRanks.mapM fun dstRank =>
    TensorMigrationEdge.make artifactId srcLeader dstRank slice slice (srcLeader = dstRank)

/-- `_build_migration_schedule_result`. For each artifact `pack` reads the
leader's value: the codec's extra fields and its pickled metadata, or the
error of a value that is not there. -/
def buildMigrationScheduleResult (workerRank : Rank) (command : MigrateArtifactsCommand)
    (pack : MigrateArtifactSpec → Except PyError (List TensorFieldLayout × String)) :
    Except PyError MigrateArtifactsRankResult := do
  let srcLeader := command.srcGroup.leader
  if workerRank ≠ srcLeader then
    throw (.runtimeError <| s!"migration schedule must be built by src leader {srcLeader}, " ++
      s!"got rank {workerRank}")
  let schedule ← buildLayoutMigrationSchedule command
  let packed ← command.plan.artifacts.mapM fun spec => do
    let (extraFields, payload) ← pack spec
    let edges ← extraFields.mapM
      (extraFieldEdges spec.handle.artifactId srcLeader command.dstGroup.ranks)
    return (edges.flatten, (spec.handle.artifactId, payload))
  return { migrateId := command.migrateId, requestId := command.plan.requestId, workerRank
           phase := command.phase, srcLayouts := [], dstLayouts := []
           schedule := some { schedule with
             edges := schedule.edges ++ (packed.map Prod.fst).flatten }
           metadataPayloads := packed.map Prod.snd, error := none }

end GfDit
