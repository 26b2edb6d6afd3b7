import GfDit.Lib.Box

/-!
# The runtime's records

Groups, artifact handles, tensor layouts, migration edges and the migration
commands and replies, after `protocol.py` and the message types of
`multiproc_worker.py`. A record whose constructor checks its arguments
carries the checked facts as fields, so a value that the constructor would
refuse cannot be built; `make` runs the checks in the order of the source and
raises its errors. Shapes, offsets and ranks are natural numbers, which
leaves the sign checks nothing to refuse.
-/

namespace GfDit

/-- The exceptions the runtime raises, with their text. -/
inductive PyError
  | valueError (message : String)
  | runtimeError (message : String)
  | keyError (key : String)
  | typeError (message : String)
  | assertionError (message : String)
  | notImplementedError (message : String)
  | timeoutError (message : String)
  | overflowError (message : String)
  | indexError (message : String)
  | attributeError (message : String)
  | recursionError
  deriving DecidableEq, Repr

abbrev Rank := Nat

/-- A tuple as `str` prints it. -/
def tupleText : List String → String
  | [] => "()"
  | [item] => "(" ++ item ++ ",)"
  | items => "(" ++ ", ".intercalate items ++ ")"

def natTuple (items : List Nat) : String := tupleText (items.map toString)

def quoted (text : String) : String := "'" ++ text ++ "'"

def strTuple (items : List String) : String := tupleText (items.map quoted)

-- ---------------------------------------------------------------------------
-- Tasks and groups
-- ---------------------------------------------------------------------------

inductive TaskKind
  | textEncode | ditPrepare | timestepPrepare | ditStepChunk | vaeDecode | finalize
  -- A cross-group artifact migration. It belongs to no single group.
  | reshard
  deriving DecidableEq, Repr

def TaskKind.value : TaskKind → String
  | .textEncode => "text_encode"
  | .ditPrepare => "dit_prepare"
  | .timestepPrepare => "timestep_prepare"
  | .ditStepChunk => "dit_step_chunk"
  | .vaeDecode => "vae_decode"
  | .finalize => "finalize"
  | .reshard => "reshard"

inductive TaskStatus
  | pending | ready | dispatched | running | finished | failed
  deriving DecidableEq, Repr

inductive WorkerEventKind
  | taskLaunchBegin | taskLaunchEnd | taskExecBegin | taskExecEnd | taskFailed
  | requestFinished | requestFailed
  deriving DecidableEq, Repr

def WorkerEventKind.value : WorkerEventKind → String
  | .taskLaunchBegin => "task_launch_begin"
  | .taskLaunchEnd => "task_launch_end"
  | .taskExecBegin => "task_exec_begin"
  | .taskExecEnd => "task_exec_end"
  | .taskFailed => "task_failed"
  | .requestFinished => "request_finished"
  | .requestFailed => "request_failed"

structure ParallelSpec where
  tp : Nat
  sp : Nat
  cfg : Nat
  tp_pos : 0 < tp
  sp_pos : 0 < sp
  cfg_pos : 0 < cfg
  deriving DecidableEq

def ParallelSpec.cfgParallel (spec : ParallelSpec) : Bool := 1 < spec.cfg

def ParallelSpec.make (tp sp cfg : Nat) (cfgParallel : Bool) : Except PyError ParallelSpec :=
  if htp : tp < 1 then throw (.valueError s!"tp must be >= 1, got {tp}")
  else if hsp : sp < 1 then throw (.valueError s!"sp must be >= 1, got {sp}")
  else if hcfg : cfg < 1 then throw (.valueError s!"cfg must be >= 1, got {cfg}")
  else
    pure { tp, sp, cfg := if cfgParallel && cfg == 1 then 2 else cfg,
           tp_pos := by omega, sp_pos := by omega, cfg_pos := by split <;> omega }

structure ExecutionGroupSpec where
  groupId : String
  ranks : List Rank
  parallelSpec : ParallelSpec
  supportedTaskKinds : List TaskKind
  ulyssesDegree : Nat
  ringDegree : Nat
  ranks_ne : ranks ≠ []
  sp_eq : parallelSpec.sp = ulyssesDegree * ringDegree
  deriving DecidableEq

/-- The group's first rank, which builds schedules and owns results. -/
def ExecutionGroupSpec.leader (group : ExecutionGroupSpec) : Rank := group.ranks.head group.ranks_ne

theorem ExecutionGroupSpec.leader_mem (group : ExecutionGroupSpec) :
    group.leader ∈ group.ranks := List.head_mem _

def ExecutionGroupSpec.make (groupId : String) (ranks : List Rank) (parallelSpec : ParallelSpec)
    (supportedTaskKinds : List TaskKind) (ulyssesDegree ringDegree : Nat) :
    Except PyError ExecutionGroupSpec :=
  if hr : ranks = [] then throw (.valueError "execution group must contain at least one rank")
  else if ulyssesDegree < 1 then
    throw (.valueError s!"ulysses_degree must be >= 1, got {ulyssesDegree}")
  else if ringDegree < 1 then throw (.valueError s!"ring_degree must be >= 1, got {ringDegree}")
  else
    let sp := parallelSpec.sp
    -- Degrees left at their defaults follow the sequence-parallel size.
    let ulyssesDegree :=
      if sp ≠ ulyssesDegree * ringDegree ∧ ulyssesDegree = 1 ∧ ringDegree = 1 then sp
      else ulyssesDegree
    if hsp : parallelSpec.sp = ulyssesDegree * ringDegree then
      pure { groupId, ranks, parallelSpec, supportedTaskKinds, ulyssesDegree, ringDegree,
             ranks_ne := hr, sp_eq := hsp }
    else
      throw (.valueError <| "execution group sequence parallel mismatch: " ++
        s!"sp={sp} != ulysses_degree({ulyssesDegree}) * ring_degree({ringDegree})")

-- ---------------------------------------------------------------------------
-- Artifacts
-- ---------------------------------------------------------------------------

structure ArtifactHandle where
  requestId : String
  artifactId : String
  codecId : Option String
  deriving DecidableEq, Repr

/-- `bool(handle.codec_id)`: neither absent nor empty. -/
def ArtifactHandle.hasCodec (handle : ArtifactHandle) : Bool :=
  match handle.codecId with
  | none => false
  | some codec => codec ≠ ""

structure WorkerLocalArtifactRef where
  handle : ArtifactHandle
  groupId : String
  workerRank : Rank
  deriving DecidableEq, Repr

/-- `handle` is where the value goes; `sourceHandle` where it is read when
the compiler renamed the artifact across the group boundary. -/
structure MigrateArtifactSpec where
  handle : ArtifactHandle
  sourceHandle : Option ArtifactHandle
  artifact_ne : handle.artifactId ≠ ""
  source_ok : ∀ source ∈ sourceHandle,
    source.artifactId ≠ "" ∧ source.requestId = handle.requestId
  deriving DecidableEq

def MigrateArtifactSpec.make (handle : ArtifactHandle) (sourceHandle : Option ArtifactHandle) :
    Except PyError MigrateArtifactSpec :=
  if ha : handle.artifactId = "" then
    throw (.valueError "migrate artifact spec requires artifact_id")
  else
    match sourceHandle with
    | none => pure { handle, sourceHandle := none, artifact_ne := ha, source_ok := by simp }
    | some source =>
      if hs : source.artifactId = "" then
        throw (.valueError "migrate artifact spec source_handle requires artifact_id")
      else if hr : source.requestId = handle.requestId then
        pure { handle, sourceHandle := some source, artifact_ne := ha,
               source_ok := by simp [hs, hr] }
      else
        throw (.valueError <| "migrate artifact spec source/destination request_id mismatch: src=" ++
          quoted source.requestId ++ ", dst=" ++ quoted handle.requestId)

def MigrateArtifactSpec.effectiveSourceHandle (spec : MigrateArtifactSpec) : ArtifactHandle :=
  spec.sourceHandle.getD spec.handle

structure MigrateArtifactsPlan where
  requestId : String
  srcGroupId : String
  dstGroupId : String
  artifacts : List MigrateArtifactSpec
  request_ne : requestId ≠ ""
  src_ne : srcGroupId ≠ ""
  dst_ne : dstGroupId ≠ ""
  artifacts_ne : artifacts ≠ []
  request_eq : ∀ spec ∈ artifacts, spec.handle.requestId = requestId
  deriving DecidableEq

def MigrateArtifactsPlan.make (requestId srcGroupId dstGroupId : String)
    (artifacts : List MigrateArtifactSpec) : Except PyError MigrateArtifactsPlan :=
  if hr : requestId = "" then throw (.valueError "migrate artifacts plan requires request_id")
  else if hs : srcGroupId = "" then
    throw (.valueError "migrate artifacts plan requires src_group_id")
  else if hd : dstGroupId = "" then
    throw (.valueError "migrate artifacts plan requires dst_group_id")
  else if ha : artifacts = [] then
    throw (.valueError "migrate artifacts plan requires at least one artifact spec")
  else
    match he : artifacts.find? fun spec => spec.handle.requestId ≠ requestId with
    | some spec =>
      throw (.valueError <| "migrate artifacts plan request_id mismatch: plan=" ++ requestId ++
        ", artifact=" ++ spec.handle.requestId)
    | none =>
      pure { requestId, srcGroupId, dstGroupId, artifacts,
             request_ne := hr, src_ne := hs, dst_ne := hd, artifacts_ne := ha,
             request_eq := by simpa using he }

-- ---------------------------------------------------------------------------
-- Tensor layouts
-- ---------------------------------------------------------------------------

/-- What each rank of a group owns of a tensor. The shard dimension is part
of the sharded layout and of no other. -/
inductive TensorLayout
  | ownerOnly
  | replicated
  | sharded (dim : Nat)
  deriving DecidableEq, Repr

def TensorLayout.value : TensorLayout → String
  | .ownerOnly => "owner_only"
  | .replicated => "replicated"
  | .sharded _ => "sharded"

def TensorLayout.isReplicated (layout : TensorLayout) : Bool := layout = .replicated

/-- `offset + length <= full` on every axis, all three of the same rank. -/
inductive FitsAxes : List Nat → List Nat → List Nat → Prop
  | nil : FitsAxes [] [] []
  | cons : o + n ≤ full → FitsAxes os ns fulls → FitsAxes (o :: os) (n :: ns) (full :: fulls)

instance decidableFitsAxes : (os ns fulls : List Nat) → Decidable (FitsAxes os ns fulls)
  | [], [], [] => isTrue .nil
  | o :: os, n :: ns, full :: fulls =>
    have := decidableFitsAxes os ns fulls
    decidable_of_iff (o + n ≤ full ∧ FitsAxes os ns fulls)
      ⟨fun h => .cons h.1 h.2, fun h => by cases h with | cons ha hb => exact ⟨ha, hb⟩⟩
  | [], [], _ :: _ | [], _ :: _, _ | _ :: _, [], _ | _ :: _, _ :: _, [] =>
    isFalse fun h => nomatch h

theorem FitsAxes.length (h : FitsAxes os ns fulls) :
    os.length = fulls.length ∧ ns.length = fulls.length := by
  induction h with
  | nil => simp
  | cons _ _ ih => simp [ih]

/-- One tensor field of an artifact as one rank holds it: a box of the global
tensor, from `globalOffset` with the sizes `localShape`. -/
structure TensorFieldLayout where
  fieldPath : List String
  localShape : List Nat
  dtype : String
  layout : TensorLayout
  globalShape : List Nat
  globalOffset : List Nat
  path_ne : fieldPath ≠ []
  dtype_ne : dtype ≠ ""
  fits : FitsAxes globalOffset localShape globalShape
  deriving DecidableEq

def TensorFieldLayout.make (fieldPath : List String) (localShape : List Nat) (dtype : String)
    (layout : TensorLayout) (globalShape globalOffset : List Nat) :
    Except PyError TensorFieldLayout :=
  if hp : fieldPath = [] then throw (.valueError "tensor field layout requires a path")
  else if hd : dtype = "" then throw (.valueError "tensor field layout requires dtype")
  else if localShape.length ≠ globalShape.length then
    throw (.valueError <| "tensor field local/global rank mismatch: local_shape=" ++
      natTuple localShape ++ ", global_shape=" ++ natTuple globalShape)
  else if globalOffset.length ≠ globalShape.length then
    throw (.valueError <| "tensor field offset/global rank mismatch: global_offset=" ++
      natTuple globalOffset ++ ", global_shape=" ++ natTuple globalShape)
  else if hf : FitsAxes globalOffset localShape globalShape then
    pure { fieldPath, localShape, dtype, layout, globalShape, globalOffset,
           path_ne := hp, dtype_ne := hd, fits := hf }
  else
    throw (.valueError <| "tensor field local slice exceeds global shape: offset=" ++
      natTuple globalOffset ++ ", local_shape=" ++ natTuple localShape ++
      ", global_shape=" ++ natTuple globalShape)

def TensorFieldLayout.axes (field : TensorFieldLayout) : List Box.Axis :=
  field.globalOffset.zip field.localShape

theorem TensorFieldLayout.rank_offset (field : TensorFieldLayout) :
    field.globalOffset.length = field.globalShape.length := field.fits.length.1

theorem TensorFieldLayout.rank_local (field : TensorFieldLayout) :
    field.localShape.length = field.globalShape.length := field.fits.length.2

structure OutputArtifactLayout where
  handle : ArtifactHandle
  tensors : List TensorFieldLayout
  codec : handle.hasCodec = true
  deriving DecidableEq

-- ---------------------------------------------------------------------------
-- Migration edges and schedules
-- ---------------------------------------------------------------------------

structure TensorSliceSpec where
  fieldPath : List String
  offset : List Nat
  shape : List Nat
  dtype : String
  path_ne : fieldPath ≠ []
  rank_eq : offset.length = shape.length
  dtype_ne : dtype ≠ ""
  deriving DecidableEq

def TensorSliceSpec.make (fieldPath : List String) (offset shape : List Nat) (dtype : String) :
    Except PyError TensorSliceSpec :=
  if hp : fieldPath = [] then throw (.valueError "tensor slice spec requires field_path")
  else if hr : offset.length = shape.length then
    if hd : dtype = "" then throw (.valueError "tensor slice spec requires dtype")
    else pure { fieldPath, offset, shape, dtype, path_ne := hp, rank_eq := hr, dtype_ne := hd }
  else
    throw (.valueError <| "tensor slice offset/shape rank mismatch: offset=" ++
      natTuple offset ++ ", shape=" ++ natTuple shape)

structure TensorMigrationEdge where
  artifactId : String
  srcRank : Rank
  dstRank : Rank
  srcSlice : TensorSliceSpec
  dstSlice : TensorSliceSpec
  localCopy : Bool
  artifact_ne : artifactId ≠ ""
  dtype_eq : srcSlice.dtype = dstSlice.dtype
  shape_eq : srcSlice.shape = dstSlice.shape
  deriving DecidableEq

def TensorMigrationEdge.make (artifactId : String) (srcRank dstRank : Rank)
    (srcSlice dstSlice : TensorSliceSpec) (localCopy : Bool) : Except PyError TensorMigrationEdge :=
  if ha : artifactId = "" then throw (.valueError "tensor migration edge requires artifact_id")
  else if hd : srcSlice.dtype = dstSlice.dtype then
    if hs : srcSlice.shape = dstSlice.shape then
      pure { artifactId, srcRank, dstRank, srcSlice, dstSlice, localCopy,
             artifact_ne := ha, dtype_eq := hd, shape_eq := hs }
    else
      throw (.valueError <| "tensor migration edge slice shape mismatch: src=" ++
        natTuple srcSlice.shape ++ ", dst=" ++ natTuple dstSlice.shape)
  else
    throw (.valueError <| "tensor migration edge dtype mismatch: src=" ++ srcSlice.dtype ++
      ", dst=" ++ dstSlice.dtype)

structure ArtifactMigrationSchedule where
  migrateId : String
  requestId : String
  srcGroupId : String
  dstGroupId : String
  srcRanks : List Rank
  dstRanks : List Rank
  participantRanks : List Rank
  edges : List TensorMigrationEdge
  migrate_ne : migrateId ≠ ""
  request_ne : requestId ≠ ""
  deriving DecidableEq

def ArtifactMigrationSchedule.make (migrateId requestId srcGroupId dstGroupId : String)
    (srcRanks dstRanks participantRanks : List Rank) (edges : List TensorMigrationEdge) :
    Except PyError ArtifactMigrationSchedule :=
  if hm : migrateId = "" then throw (.valueError "artifact migration schedule requires migrate_id")
  else if hr : requestId = "" then
    throw (.valueError "artifact migration schedule requires request_id")
  else pure { migrateId, requestId, srcGroupId, dstGroupId, srcRanks, dstRanks, participantRanks,
              edges, migrate_ne := hm, request_ne := hr }

-- ---------------------------------------------------------------------------
-- Migration commands and replies
-- ---------------------------------------------------------------------------

inductive MigratePhase
  | describeLayout | buildSchedule | acceptSchedule | executeTransfer
  deriving DecidableEq, Repr

def MigratePhase.value : MigratePhase → String
  | .describeLayout => "describe_layout"
  | .buildSchedule => "build_schedule"
  | .acceptSchedule => "accept_schedule"
  | .executeTransfer => "execute_transfer"

/-- One rank's reply to one phase command. The metadata payloads are the
pickled skeletons the source leader packs, opaque to everything here. -/
structure MigrateArtifactsRankResult where
  migrateId : String
  requestId : String
  workerRank : Rank
  phase : MigratePhase
  srcLayouts : List OutputArtifactLayout
  dstLayouts : List OutputArtifactLayout
  schedule : Option ArtifactMigrationSchedule
  metadataPayloads : List (String × String)
  error : Option String
  deriving DecidableEq

/-- `bool(result.error)`: neither absent nor empty. -/
def MigrateArtifactsRankResult.failed (result : MigrateArtifactsRankResult) : Bool :=
  match result.error with
  | none => false
  | some text => text ≠ ""

structure MigrateArtifactsCommand where
  migrateId : String
  phase : MigratePhase
  plan : MigrateArtifactsPlan
  srcGroup : ExecutionGroupSpec
  dstGroup : ExecutionGroupSpec
  layoutResults : List MigrateArtifactsRankResult
  schedule : Option ArtifactMigrationSchedule
  metadataPayloads : List (String × String)
  deriving DecidableEq

-- ---------------------------------------------------------------------------
-- Plain groups
-- ---------------------------------------------------------------------------

def soloSpec (groupId : String) (rank : Rank) (kinds : List TaskKind) : ExecutionGroupSpec :=
  ⟨groupId, [rank], ⟨1, 1, 1, Nat.one_pos, Nat.one_pos, Nat.one_pos⟩, kinds, 1, 1, by simp, rfl⟩

def tensorSpec (groupId : String) (a b : Rank) (kinds : List TaskKind) : ExecutionGroupSpec :=
  ⟨groupId, [a, b], ⟨2, 1, 1, Nat.two_pos, Nat.one_pos, Nat.one_pos⟩, kinds, 1, 1, by simp, rfl⟩

def sequenceSpec (groupId : String) (first : Rank) (others : List Rank) (kinds : List TaskKind) :
    ExecutionGroupSpec :=
  ⟨groupId, first :: others, ⟨1, others.length + 1, 1, Nat.one_pos, Nat.succ_pos _, Nat.one_pos⟩,
    kinds, others.length + 1, 1, by simp, by simp⟩

theorem one_worker : ([0] : List Rank).Nodup := by decide

theorem two_workers : ([0, 1] : List Rank).Nodup := by decide

-- ---------------------------------------------------------------------------
-- A small plan between two groups of two ranks
-- ---------------------------------------------------------------------------

def smallHandle : ArtifactHandle := ⟨"r", "latent", some "codec"⟩

def smallSpec : MigrateArtifactSpec := ⟨smallHandle, none, by decide, by simp⟩

def smallPlan : MigrateArtifactsPlan :=
  ⟨"r", "src", "dst", [smallSpec], by decide, by decide, by decide, by decide, by decide⟩

def smallGroup (groupId : String) (a b : Rank) : ExecutionGroupSpec :=
  sequenceSpec groupId a [b] []

end GfDit
