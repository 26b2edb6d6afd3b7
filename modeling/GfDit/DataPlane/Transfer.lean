import GfDit.DataPlane.Schedule
import GfDit.Lib.Except
import GfDit.Lib.Rendezvous
import GfDit.Lib.Unique

/-!
# Executing a migration schedule

`_execute_migration_transfer` of `data_plane.py`. Every rank sorts the edges
of the schedule it was sent, walks them once and picks its own part: local
copies are done at once, sends and receives are collected and then moved in
order, each buffer in chunks of at most `max_collective_bytes`. No rank sees
another's list, so the two ends of a transfer agree only because both derive
it from the same edges.
-/

namespace GfDit

open Except (bind_eq_ok pure_eq_ok)

variable {α : Type u}

-- ---------------------------------------------------------------------------
-- Tensors
-- ---------------------------------------------------------------------------

/-- A tensor's elements by index; only indices inside `shape` mean anything. -/
structure Tensor (α : Type u) where
  shape : List Nat
  dtype : String
  data : List Nat → α

/-- The dtype names are those torch prints, so comparing a tensor's dtype with
a parsed name is comparing the names. -/
def tensorSliceView (tensor : Tensor α) (spec : TensorSliceSpec) : Except PyError (Tensor α) :=
  if tensor.dtype ≠ spec.dtype then
    throw (.runtimeError <| "runtime_v2 tensor slice dtype mismatch: field_path=" ++
      strTuple spec.fieldPath ++ ", tensor_dtype=" ++ tensor.dtype ++ ", spec_dtype=" ++ spec.dtype)
  else if spec.offset.length ≠ tensor.shape.length ∨ spec.shape.length ≠ tensor.shape.length then
    throw (.runtimeError <| "runtime_v2 tensor slice rank mismatch: field_path=" ++
      strTuple spec.fieldPath ++ ", tensor_shape=" ++ natTuple tensor.shape ++ ", offset=" ++
      natTuple spec.offset ++ ", shape=" ++ natTuple spec.shape)
  else if FitsAxes spec.offset spec.shape tensor.shape then
    pure { shape := spec.shape, dtype := tensor.dtype
           data := fun index => tensor.data (Box.shiftUp spec.offset index) }
  else
    throw (.runtimeError <| "runtime_v2 tensor slice exceeds tensor shape: field_path=" ++
      strTuple spec.fieldPath ++ ", tensor_shape=" ++ natTuple tensor.shape ++ ", offset=" ++
      natTuple spec.offset ++ ", shape=" ++ natTuple spec.shape)

/-- One element stored into a destination tensor of a rank. -/
structure ElementWrite (α : Type u) where
  artifactId : String
  fieldPath : FieldPath
  index : List Nat
  value : α

/-- `copy_tensor_slice` from the start of `src`: the elements it stores, in
row-major order. -/
def copyTensorSlice (artifactId : String) (dst : TensorSliceSpec) (src : Tensor α) :
    List (ElementWrite α) :=
  if dst.shape.any (· = 0) then []
  else (Box.indices dst.shape).map fun index =>
    { artifactId, fieldPath := dst.fieldPath
      index := Box.shiftUp dst.offset index, value := src.data index }

-- ---------------------------------------------------------------------------
-- Walking the edges
-- ---------------------------------------------------------------------------

/-- The sort key of the edges: artifact, source path, ranks, offsets. -/
def edgeOrder (e f : TensorMigrationEdge) : Ordering :=
  (compare e.artifactId f.artifactId).then <|
  (compare e.srcSlice.fieldPath f.srcSlice.fieldPath).then <|
  (compare e.srcRank f.srcRank).then <|
  (compare e.dstRank f.dstRank).then <|
  (compare e.srcSlice.offset f.srcSlice.offset).then
    (compare e.dstSlice.offset f.dstSlice.offset)

def sortEdges (edges : List TensorMigrationEdge) : List TensorMigrationEdge :=
  edges.insertionSort fun e f => edgeOrder e f ≠ .gt

inductive P2pOp (α : Type u)
  | send (peer : Rank) (buffer : Tensor α)
  | recv (peer : Rank) (edge : TensorMigrationEdge)

/-- What a rank has done and queued after walking some edges. -/
structure Posted (α : Type u) where
  copies : List (ElementWrite α)
  ops : List (P2pOp α)

def Posted.empty : Posted α := ⟨[], []⟩

def Posted.append (a b : Posted α) : Posted α := ⟨a.copies ++ b.copies, a.ops ++ b.ops⟩

/-- The tensors a rank holds, by destination artifact and field path. -/
abbrev SourceValues (α : Type u) := String → FieldPath → Option (Tensor α)

def readField (values : SourceValues α) (edge : TensorMigrationEdge) (what : String) :
    Except PyError (Tensor α) :=
  match values edge.artifactId edge.srcSlice.fieldPath with
  | some tensor => pure tensor
  | none =>
    throw (.typeError <| "RESHARD " ++ what ++ " field is not a tensor: artifact_id=" ++
      edge.artifactId ++ ", field_path=" ++ strTuple edge.srcSlice.fieldPath)

/-- One turn of the loop over the sorted edges. -/
def postEdge (values : SourceValues α) (rank : Rank) (edge : TensorMigrationEdge) :
    Except PyError (Posted α) :=
  if edge.srcSlice.shape.any (· = 0) then pure .empty
  else if edge.localCopy then
    if edge.srcRank = rank ∧ rank = edge.dstRank then do
      let tensor ← readField values edge "local-copy source"
      let view ← tensorSliceView tensor edge.srcSlice
      return ⟨copyTensorSlice edge.artifactId edge.dstSlice view, []⟩
    else pure .empty
  else if edge.srcRank = rank then do
    let tensor ← readField values edge "source"
    if tensor.dtype ≠ edge.srcSlice.dtype then
      throw (.runtimeError <| "RESHARD source dtype mismatch: artifact_id=" ++ edge.artifactId ++
        ", field_path=" ++ strTuple edge.srcSlice.fieldPath ++ ", src_value_dtype=" ++
        tensor.dtype ++ ", schedule_dtype=" ++ edge.srcSlice.dtype)
    let buffer ← tensorSliceView tensor edge.srcSlice
    return ⟨[], [.send edge.dstRank buffer]⟩
  else if edge.dstRank = rank then pure ⟨[], [.recv edge.srcRank edge]⟩
  else pure .empty

def postEdges (values : SourceValues α) (rank : Rank) :
    List TensorMigrationEdge → Except PyError (Posted α)
  | [] => pure .empty
  | edge :: edges => do
    let first ← postEdge values rank edge
    let rest ← postEdges values rank edges
    return first.append rest

-- ---------------------------------------------------------------------------
-- Chunks
-- ---------------------------------------------------------------------------

/-- The loop of `_gfc_p2p_chunked`: the byte lengths moved from `offset` on. -/
def chunksFrom (maxBytes total : Nat) (hpos : 0 < maxBytes) (offset : Nat) : List Nat :=
  if offset < total then
    let n := min maxBytes (total - offset)
    n :: chunksFrom maxBytes total hpos (offset + n)
  else []
termination_by total - offset

/-- A process's element sizes and chunk limit. -/
structure P2pConfig where
  itemsize : String → Nat
  maxCollectiveBytes : Nat
  max_pos : 0 < maxCollectiveBytes

def P2pConfig.chunks (config : P2pConfig) (shape : List Nat) (dtype : String) : List Nat :=
  chunksFrom config.maxCollectiveBytes (tensorNumel shape * config.itemsize dtype) config.max_pos 0

/-- The chunk calls one queued operation makes, with the peer and the length. -/
def P2pOp.calls (config : P2pConfig) : P2pOp α → List (Rendezvous.Op Rank Nat)
  | .send peer buffer => (config.chunks buffer.shape buffer.dtype).map (.send peer)
  | .recv peer edge => (config.chunks edge.dstSlice.shape edge.dstSlice.dtype).map (.recv peer)

/-- Everything a rank hands to the transport, in order. -/
def Posted.calls (config : P2pConfig) (posted : Posted α) : List (Rendezvous.Op Rank Nat) :=
  posted.ops.flatMap (P2pOp.calls config)

def sentTo (peer : Rank) (calls : List (Rendezvous.Op Rank Nat)) : List Nat :=
  calls.filterMap fun | .send p n => if p = peer then some n else none | .recv .. => none

def receivedFrom (peer : Rank) (calls : List (Rendezvous.Op Rank Nat)) : List Nat :=
  calls.filterMap fun | .recv p n => if p = peer then some n else none | .send .. => none

-- ---------------------------------------------------------------------------
-- One global order behind all lists
-- ---------------------------------------------------------------------------

/-- The chunk transfers of one edge, as seen from outside. -/
def edgeTransfers (config : P2pConfig) (edge : TensorMigrationEdge) :
    List (Rendezvous.Transfer Rank Nat) :=
  if edge.srcSlice.shape.any (· = 0) ∨ edge.localCopy = true then []
  else (config.chunks edge.srcSlice.shape edge.srcSlice.dtype).map
    fun n => ⟨edge.srcRank, edge.dstRank, n⟩

def transferOrder (config : P2pConfig) (edges : List TensorMigrationEdge) :
    List (Rendezvous.Transfer Rank Nat) := (sortEdges edges).flatMap (edgeTransfers config)

/-- An edge from a rank to itself is marked as a local copy. Both places that
build edges set the mark this way. -/
def SelfEdgesLocal (edges : List TensorMigrationEdge) : Prop :=
  ∀ edge ∈ edges, edge.srcRank = edge.dstRank → edge.localCopy = true

theorem edgeMake_local (h : TensorMigrationEdge.make artifactId srcRank dstRank srcSlice dstSlice
    (srcRank = dstRank) = .ok edge) : edge.srcRank = edge.dstRank → edge.localCopy = true := by
  unfold TensorMigrationEdge.make at h
  split at h
  · cases h
  · split at h
    · split at h
      · obtain rfl := pure_eq_ok.mp h
        exact decide_eq_true
      · cases h
    · cases h

theorem edgeFor_local (h : edgeFor artifactId dstRank dstField source = .ok (some edge)) :
    edge.srcRank = edge.dstRank → edge.localCopy = true := by
  unfold edgeFor at h
  obtain ⟨_, -, h⟩ := bind_eq_ok.mp h
  obtain ⟨common, -, h⟩ := bind_eq_ok.mp h
  split at h
  · cases pure_eq_ok.mp h
  · split at h
    · cases pure_eq_ok.mp h
    · obtain ⟨_, -, h⟩ := bind_eq_ok.mp h
      obtain ⟨_, -, h⟩ := bind_eq_ok.mp h
      obtain ⟨e, he, h⟩ := bind_eq_ok.mp h
      cases pure_eq_ok.mp h
      exact edgeMake_local he

theorem dstFieldEdges_local
    (h : dstFieldEdges artifactId leader byPath dstRank dstField = .ok edges) :
    SelfEdgesLocal edges := by
  simp only [dstFieldEdges] at h
  split at h
  · cases h
  obtain ⟨emitted, hem, h⟩ := bind_eq_ok.mp h
  split at h
  · cases h
  obtain rfl := pure_eq_ok.mp h
  intro edge he
  obtain ⟨_, hm, rfl⟩ := List.mem_filterMap.mp he
  obtain ⟨source, -, hs⟩ := Except.exists_of_mem_mapM hem hm
  exact edgeFor_local hs

theorem artifactEdges_local (h : artifactEdges command spec = .ok edges) :
    SelfEdgesLocal edges := by
  simp only [artifactEdges] at h
  split at h
  · cases h
  split at h
  · cases h
  obtain ⟨byRank, hr, h⟩ := bind_eq_ok.mp h
  obtain rfl := pure_eq_ok.mp h
  intro edge he
  obtain ⟨_, hm, he⟩ := List.mem_flatten.mp he
  obtain ⟨⟨rank, layout⟩, -, hl⟩ := Except.exists_of_mem_mapM hr hm
  obtain ⟨byField, hf, hl⟩ := bind_eq_ok.mp hl
  obtain rfl := pure_eq_ok.mp hl
  obtain ⟨_, hm, he⟩ := List.mem_flatten.mp he
  obtain ⟨field, -, hd⟩ := Except.exists_of_mem_mapM hf hm
  exact dstFieldEdges_local hd edge he

theorem extraFieldEdges_local (h : extraFieldEdges artifactId leader ranks field = .ok edges) :
    SelfEdgesLocal edges := by
  obtain ⟨slice, -, h⟩ := bind_eq_ok.mp h
  intro edge he
  obtain ⟨rank, -, hr⟩ := Except.exists_of_mem_mapM h he
  exact edgeMake_local hr

/-- The schedule a source leader returns, extra edges included. -/
theorem buildMigrationScheduleResult_local
    (h : buildMigrationScheduleResult workerRank command pack = .ok result)
    (hs : result.schedule = some schedule) : SelfEdgesLocal schedule.edges := by
  simp only [buildMigrationScheduleResult] at h
  split at h
  · cases h
  obtain ⟨base, hb, h⟩ := bind_eq_ok.mp h
  obtain ⟨packed, hp, h⟩ := bind_eq_ok.mp h
  obtain rfl := pure_eq_ok.mp h
  cases hs
  intro edge he
  rcases List.mem_append.mp he with he | he
  · obtain ⟨byArtifact, ha, hb⟩ := bind_eq_ok.mp hb
    have hedges : base.edges = byArtifact.flatten := by
      unfold ArtifactMigrationSchedule.make at hb
      split at hb
      · cases hb
      · split at hb
        · cases hb
        · obtain rfl := pure_eq_ok.mp hb
          rfl
    rw [hedges] at he
    obtain ⟨_, hm, he⟩ := List.mem_flatten.mp he
    obtain ⟨spec, -, hs⟩ := Except.exists_of_mem_mapM ha hm
    exact artifactEdges_local hs edge he
  · obtain ⟨_, hm, he⟩ := List.mem_flatten.mp he
    obtain ⟨pair, hpair, rfl⟩ := List.mem_map.mp hm
    obtain ⟨spec, -, hs⟩ := Except.exists_of_mem_mapM hp hpair
    obtain ⟨⟨extra, payload⟩, -, hs⟩ := bind_eq_ok.mp hs
    obtain ⟨byField, hf, hs⟩ := bind_eq_ok.mp hs
    obtain rfl := pure_eq_ok.mp hs
    obtain ⟨_, hm, he⟩ := List.mem_flatten.mp he
    obtain ⟨field, -, hx⟩ := Except.exists_of_mem_mapM hf hm
    exact extraFieldEdges_local hx edge he

theorem tensorSliceView_ok {tensor view : Tensor α} (h : tensorSliceView tensor spec = .ok view) :
    view.shape = spec.shape ∧ view.dtype = spec.dtype := by
  unfold tensorSliceView at h
  split at h
  · cases h
  · split at h
    · cases h
    · split at h
      · cases h
        exact ⟨rfl, by simp_all⟩
      · cases h

theorem postEdge_calls {values : SourceValues α} (config : P2pConfig)
    (hself : edge.srcRank = edge.dstRank → edge.localCopy = true)
    (h : postEdge values rank edge = .ok posted) :
    posted.calls config = Rendezvous.project rank (edgeTransfers config edge) := by
  unfold postEdge at h
  split at h
  · obtain rfl := pure_eq_ok.mp h
    simp [edgeTransfers, *, Posted.empty, Posted.calls]
  rename_i hne
  split at h
  · rename_i hl
    -- A local copy queues nothing, on its own rank and on every other.
    have hcalls : posted.ops = [] := by
      split at h
      · obtain ⟨_, _, h⟩ := bind_eq_ok.mp h
        obtain ⟨_, _, h⟩ := bind_eq_ok.mp h
        obtain rfl := pure_eq_ok.mp h
        rfl
      · obtain rfl := pure_eq_ok.mp h
        rfl
    simp [edgeTransfers, hl, Posted.calls, hcalls]
  rename_i hl
  have hsd : edge.srcRank ≠ edge.dstRank := fun e => hl (hself e)
  have htr : edgeTransfers config edge =
      (config.chunks edge.srcSlice.shape edge.srcSlice.dtype).map
        fun n => ⟨edge.srcRank, edge.dstRank, n⟩ := by
    simp only [edgeTransfers, hne, hl]
    simp
  rw [htr, Rendezvous.project, List.filterMap_map]
  split at h
  · rename_i hs
    obtain ⟨tensor, _, h⟩ := bind_eq_ok.mp h
    split at h
    · cases h
    · obtain ⟨buffer, hb, h⟩ := bind_eq_ok.mp h
      obtain rfl := pure_eq_ok.mp h
      obtain ⟨h1, h2⟩ := tensorSliceView_ok hb
      simp [Posted.calls, P2pOp.calls, Rendezvous.Transfer.opOf, hs, h1, h2]
  rename_i hs
  split at h
  · rename_i hd
    obtain rfl := pure_eq_ok.mp h
    simp [Posted.calls, P2pOp.calls, Rendezvous.Transfer.opOf, hs, hd, ← edge.shape_eq,
      ← edge.dtype_eq]
  · rename_i hd
    obtain rfl := pure_eq_ok.mp h
    simp [Posted.calls, Posted.empty, Rendezvous.Transfer.opOf, hs, hd, Function.comp_def]

/-- A rank's whole list is the projection of the one order. -/
theorem postEdges_calls {values : SourceValues α} (config : P2pConfig)
    (hself : SelfEdgesLocal edges) (h : postEdges values rank edges = .ok posted) :
    posted.calls config =
      Rendezvous.project rank (edges.flatMap (edgeTransfers config)) := by
  induction edges generalizing posted with
  | nil =>
    obtain rfl := pure_eq_ok.mp h
    rfl
  | cons edge edges ih =>
    obtain ⟨first, hf, h⟩ := bind_eq_ok.mp h
    obtain ⟨rest, hr, h⟩ := bind_eq_ok.mp h
    obtain rfl := pure_eq_ok.mp h
    have h1 := postEdge_calls config (hself edge (List.mem_cons_self ..)) hf
    have h2 := ih (fun e he => hself e (List.mem_cons_of_mem _ he)) hr
    simp only [Posted.calls, Posted.append, List.flatMap_append, List.flatMap_cons,
      Rendezvous.project, List.filterMap_append] at h1 h2 ⊢
    rw [h1, h2]

theorem transferOrder_noSelf (config : P2pConfig) (hself : SelfEdgesLocal edges) :
    Rendezvous.NoSelf (transferOrder config edges) := by
  intro t ht
  obtain ⟨edge, he, ht⟩ := List.mem_flatMap.mp ht
  have hm : edge ∈ edges := (List.perm_insertionSort _ _).mem_iff.mp he
  unfold edgeTransfers at ht
  split at ht
  · cases ht
  · rename_i hl
    obtain ⟨n, _, rfl⟩ := List.mem_map.mp ht
    intro e
    exact hl (.inr (hself edge hm e))

theorem sentTo_project (order : List (Rendezvous.Transfer Rank Nat)) (a b : Rank) :
    sentTo b (Rendezvous.project a order) =
      order.filterMap fun t => if t.src = a ∧ t.dst = b then some t.payload else none := by
  rw [sentTo, Rendezvous.project, List.filterMap_filterMap]
  congr 1
  funext t
  simp only [Rendezvous.Transfer.opOf]
  by_cases ha : t.src = a
  · simp [ha]
  · by_cases hd : t.dst = a <;> simp [ha, hd]

theorem receivedFrom_project {order : List (Rendezvous.Transfer Rank Nat)}
    (hn : Rendezvous.NoSelf order) (a b : Rank) :
    receivedFrom a (Rendezvous.project b order) =
      order.filterMap fun t => if t.src = a ∧ t.dst = b then some t.payload else none := by
  rw [receivedFrom, Rendezvous.project, List.filterMap_filterMap]
  refine List.filterMap_congr fun t ht => ?_
  have hne := hn t ht
  simp only [Rendezvous.Transfer.opOf]
  by_cases hb : t.src = b
  · have : t.dst ≠ b := fun h => hne (hb.trans h.symm)
    simp [hb, this]
  · by_cases hd : t.dst = b <;> simp [hb, hd]

/-- For any two ranks that post their edges the chunks one sends are the chunks
the other receives, every rank's list is the projection of one order, and when
all ranks post, blocking transfers never get stuck: in every state reached all
lists are done or some send and its receive are both next. -/
def PairedTransfers (config : P2pConfig) (edges : List TensorMigrationEdge)
    (values : Rank → SourceValues α) : Prop :=
  (∀ a b posted posted', postEdges (values a) a (sortEdges edges) = .ok posted →
    postEdges (values b) b (sortEdges edges) = .ok posted' →
    sentTo b (posted.calls config) = receivedFrom a (posted'.calls config)) ∧
  (∀ rank posted, postEdges (values rank) rank (sortEdges edges) = .ok posted →
    posted.calls config = Rendezvous.project rank (transferOrder config edges)) ∧
  ∀ posted : Rank → Posted α,
    (∀ rank, postEdges (values rank) rank (sortEdges edges) = .ok (posted rank)) →
    ∀ s, Relation.ReflTransGen Rendezvous.Step (fun rank => (posted rank).calls config) s →
      Rendezvous.Done s ∨ Rendezvous.Ready s

theorem pairedTransfers (config : P2pConfig) {edges : List TensorMigrationEdge}
    (hself : SelfEdgesLocal edges) (values : Rank → SourceValues α) :
    PairedTransfers config edges values := by
  have hsorted : SelfEdgesLocal (sortEdges edges) := fun e he =>
    hself e ((List.perm_insertionSort _ _).mem_iff.mp he)
  have hcalls : ∀ rank posted, postEdges (values rank) rank (sortEdges edges) = .ok posted →
      posted.calls config = Rendezvous.project rank (transferOrder config edges) :=
    fun rank posted h => postEdges_calls config hsorted h
  have hn := transferOrder_noSelf config hself
  refine ⟨fun a b posted posted' ha hb => ?_, hcalls, fun posted hposted s hs => ?_⟩
  · rw [hcalls a posted ha, hcalls b posted' hb, sentTo_project, receivedFrom_project hn]
  · refine Rendezvous.done_or_ready hn ?_
    have : (fun rank => (posted rank).calls config) =
        Rendezvous.start (transferOrder config edges) :=
      funext fun rank => hcalls rank _ (hposted rank)
    rwa [this] at hs

/-- So it is for every schedule that a source leader returns. -/
theorem built_pairedTransfers (config : P2pConfig)
    (h : buildMigrationScheduleResult workerRank command pack = .ok result)
    (hs : result.schedule = some schedule) (values : Rank → SourceValues α) :
    PairedTransfers config schedule.edges values :=
  pairedTransfers config (buildMigrationScheduleResult_local h hs) values

theorem transfer_paired_and_deadlock_free (config : P2pConfig) {edges : List TensorMigrationEdge}
    (hself : SelfEdgesLocal edges) (values : Rank → SourceValues α) :
    (∀ a b posted posted', postEdges (values a) a (sortEdges edges) = .ok posted →
      postEdges (values b) b (sortEdges edges) = .ok posted' →
      sentTo b (posted.calls config) = receivedFrom a (posted'.calls config)) ∧
    (∀ rank posted, postEdges (values rank) rank (sortEdges edges) = .ok posted →
      posted.calls config = Rendezvous.project rank (transferOrder config edges)) ∧
    ∀ posted : Rank → Posted α,
      (∀ rank, postEdges (values rank) rank (sortEdges edges) = .ok (posted rank)) →
      ∀ s, Relation.ReflTransGen Rendezvous.Step (fun rank => (posted rank).calls config) s →
        Rendezvous.Done s ∨ Rendezvous.Ready s :=
  pairedTransfers config hself values

theorem xPath_ne : (["x"] : FieldPath) ≠ [] := List.cons_ne_nil _ _

theorem float32_ne : "float32" ≠ "" := by decide

def floatSlice : TensorSliceSpec := ⟨["x"], [0], [3], "float32", xPath_ne, rfl, float32_ne⟩

def floatEdge : TensorMigrationEdge :=
  ⟨"latent", 0, 1, floatSlice, floatSlice, false, by decide, rfl, rfl⟩

def floatConfig : P2pConfig := ⟨fun _ => 4, 5, by decide⟩

def floatValues (_ : Rank) : SourceValues Nat := fun _ _ => some ⟨[3], "float32", fun _ => 7⟩

def floatPosted (rank : Rank) : Posted Nat :=
  if rank = 0 then ⟨[], [.send 1 ⟨[3], "float32", fun _ => 7⟩]⟩
  else if rank = 1 then ⟨[], [.recv 0 floatEdge]⟩
  else .empty

theorem float_posted (rank : Rank) :
    postEdges (floatValues rank) rank (sortEdges [floatEdge]) = .ok (floatPosted rank) := by
  by_cases h0 : rank = 0
  · subst h0
    rfl
  · by_cases h1 : rank = 1
    · subst h1
      rfl
    · simp [sortEdges, postEdges, postEdge, floatPosted, floatEdge, floatSlice, h0, h1,
        Ne.symm h0, Ne.symm h1, Posted.append, Posted.empty, bind, Except.bind, pure, Except.pure]

theorem float_transfer_paired :
    sentTo 1 ((floatPosted 0).calls floatConfig) =
      receivedFrom 0 ((floatPosted 1).calls floatConfig) ∧
    ∀ s, Relation.ReflTransGen Rendezvous.Step
      (fun rank => (floatPosted rank).calls floatConfig) s →
      Rendezvous.Done s ∨ Rendezvous.Ready s := by
  have hself : SelfEdgesLocal [floatEdge] := by
    intro edge he h
    rw [List.mem_singleton.mp he] at h
    exact absurd h (by decide)
  obtain ⟨hpair, -, hready⟩ := transfer_paired_and_deadlock_free floatConfig hself floatValues
  exact ⟨hpair 0 1 _ _ (float_posted 0) (float_posted 1), hready floatPosted float_posted⟩

end GfDit
