import GfDit.DataPlane.Transfer

/-!
# What a transfer writes

The rest of `_execute_migration_transfer`: the receives complete in the order
they were queued, each with the next buffer its peer sent, and the buffers
are then copied into the destination tensors. When every edge can be read at
its source, every receive gets its buffer and a rank's writes are those of
the edges that end at it.
-/

namespace GfDit

variable {α : Type u} {view : TensorMigrationEdge → Tensor α} {edges : List TensorMigrationEdge}

def sendsTo (peer : Rank) (ops : List (P2pOp α)) : List (Tensor α) :=
  ops.filterMap fun
    | .send p buffer => if p = peer then some buffer else none
    | .recv .. => none

def receiveAll : List (P2pOp α) → (Rank → List (Tensor α)) → Option (List (ElementWrite α))
  | [], _ => some []
  | .send .. :: ops, channel => receiveAll ops channel
  | .recv peer edge :: ops, channel =>
    match channel peer with
    | [] => none
    | buffer :: rest =>
      (receiveAll ops (Function.update channel peer rest)).map
        (copyTensorSlice edge.artifactId edge.dstSlice buffer ++ ·)

/-- The stores a rank makes, local copies first. -/
def executeTransfer (posted : Rank → Posted α) (rank : Rank) : Option (List (ElementWrite α)) :=
  (receiveAll (posted rank).ops fun peer => sendsTo rank (posted peer).ops).map
    ((posted rank).copies ++ ·)

-- ---------------------------------------------------------------------------
-- Posting readable edges
-- ---------------------------------------------------------------------------

def Readable (values : Rank → SourceValues α) (view : TensorMigrationEdge → Tensor α)
    (edge : TensorMigrationEdge) : Prop :=
  ∃ tensor, values edge.srcRank edge.artifactId edge.srcSlice.fieldPath = some tensor ∧
    tensorSliceView tensor edge.srcSlice = .ok (view edge)

/-- The mark of every edge says whether it stays on its rank. -/
def LocalMarked (edges : List TensorMigrationEdge) : Prop :=
  ∀ edge ∈ edges, edge.localCopy = decide (edge.srcRank = edge.dstRank)

def edgeWrites (view : TensorMigrationEdge → Tensor α) (edge : TensorMigrationEdge) :
    List (ElementWrite α) := copyTensorSlice edge.artifactId edge.dstSlice (view edge)

def copiesOf (view : TensorMigrationEdge → Tensor α) (rank : Rank) (edge : TensorMigrationEdge) :
    List (ElementWrite α) :=
  if edge.localCopy ∧ edge.srcRank = rank ∧ rank = edge.dstRank then edgeWrites view edge else []

def opsOf (view : TensorMigrationEdge → Tensor α) (rank : Rank) (edge : TensorMigrationEdge) :
    List (P2pOp α) :=
  if edge.srcSlice.shape.any (· = 0) ∨ edge.localCopy = true then []
  else if edge.srcRank = rank then [.send edge.dstRank (view edge)]
  else if edge.dstRank = rank then [.recv edge.srcRank edge]
  else []

theorem edgeWrites_empty (h : edge.srcSlice.shape.any (· = 0) = true) :
    edgeWrites view edge = [] := by
  rw [edge.shape_eq] at h
  rw [edgeWrites, copyTensorSlice, if_pos h]

theorem postEdge_ok {values : Rank → SourceValues α} (h : Readable values view edge)
    (rank : Rank) :
    postEdge (values rank) rank edge = .ok ⟨copiesOf view rank edge, opsOf view rank edge⟩ := by
  obtain ⟨tensor, ht, hv⟩ := h
  have hread : ∀ what, readField (values edge.srcRank) edge what = .ok tensor := fun what => by
    simp [readField, ht, pure, Except.pure]
  unfold postEdge
  by_cases hz : edge.srcSlice.shape.any (· = 0) = true
  · simp [hz, copiesOf, opsOf, edgeWrites_empty hz, Posted.empty, pure, Except.pure]
  · by_cases hl : edge.localCopy = true
    · by_cases hs : edge.srcRank = rank ∧ rank = edge.dstRank
      · obtain ⟨rfl, hs⟩ := hs
        rw [if_neg hz, if_pos hl, if_pos ⟨rfl, hs⟩, hread]
        simp only [bind, Except.bind, hv]
        simp [hl, hs, copiesOf, opsOf, edgeWrites, pure, Except.pure]
      · simp [hz, hl, hs, copiesOf, opsOf, Posted.empty, pure, Except.pure]
    · by_cases hs : edge.srcRank = rank
      · subst hs
        have hd : tensor.dtype = edge.srcSlice.dtype := by
          by_contra hne
          simp [tensorSliceView, hne, throw, throwThe, MonadExceptOf.throw] at hv
        simp [hz, hl, copiesOf, opsOf, hread, hv, hd, bind, Except.bind, pure, Except.pure]
      · by_cases hr : edge.dstRank = rank
        · simp [hz, hl, hs, hr, copiesOf, opsOf, pure, Except.pure]
        · simp [hz, hl, hs, hr, copiesOf, opsOf, Posted.empty, pure, Except.pure]

theorem postEdges_ok {values : Rank → SourceValues α}
    (h : ∀ edge ∈ edges, Readable values view edge) (rank : Rank) :
    postEdges (values rank) rank edges =
      .ok ⟨edges.flatMap (copiesOf view rank), edges.flatMap (opsOf view rank)⟩ := by
  induction edges with
  | nil => rfl
  | cons edge edges ih =>
    rw [postEdges, postEdge_ok (h edge (List.mem_cons_self ..)) rank,
      ih fun e he => h e (List.mem_cons_of_mem _ he)]
    rfl

-- ---------------------------------------------------------------------------
-- Every receive meets its buffer
-- ---------------------------------------------------------------------------

def copiedTo (rank : Rank) (edge : TensorMigrationEdge) : Bool :=
  edge.dstRank = rank && edge.localCopy

def sentToRank (rank : Rank) (edge : TensorMigrationEdge) : Bool :=
  edge.dstRank = rank && !edge.localCopy

theorem copies_eq (hm : LocalMarked edges) (rank : Rank) :
    edges.flatMap (copiesOf view rank) = (edges.filter (copiedTo rank)).flatMap (edgeWrites view) := by
  rw [List.flatMap_filter]
  refine List.flatMap_congr fun edge he => ?_
  have hmark := hm edge he
  simp only [copiesOf, copiedTo]
  by_cases hd : edge.dstRank = rank
  · by_cases hl : edge.localCopy = true
    · have hs : edge.srcRank = rank := by simp_all
      simp [hl, hd, hs]
    · simp [hl]
  · simp [hd, Ne.symm hd]

/-- The receives of a rank meet the buffers of the same edges, in order. -/
theorem receiveAll_eq (hm : LocalMarked edges) (rank : Rank) :
    receiveAll (edges.flatMap (opsOf view rank))
        (fun peer => sendsTo rank (edges.flatMap (opsOf view peer))) =
      some ((edges.filter (sentToRank rank)).flatMap (edgeWrites view)) := by
  induction edges with
  | nil => rfl
  | cons edge edges ih =>
    have ih := ih fun e he => hm e (List.mem_cons_of_mem _ he)
    have hmark := hm edge (List.mem_cons_self ..)
    by_cases hz : edge.srcSlice.shape.any (· = 0) ∨ edge.localCopy = true
    · -- Nothing is moved: the edge is empty or stays on its rank.
      have hops : ∀ peer, opsOf view peer edge = [] := fun peer => if_pos hz
      simp only [List.flatMap_cons, hops, List.nil_append, ih, List.filter_cons]
      split
      · rename_i hs
        rcases hz with hz | hl
        · rw [List.flatMap_cons, edgeWrites_empty hz, List.nil_append]
        · simp [sentToRank, hl] at hs
      · rfl
    · have hl : edge.localCopy = false := by
        cases h : edge.localCopy with
        | false => rfl
        | true => exact absurd (.inr h) hz
      have hsd : edge.srcRank ≠ edge.dstRank := fun h => by simp [hl, h] at hmark
      by_cases hd : edge.dstRank = rank
      · -- The edge ends here: its buffer is the next one of its source.
        subst hd
        have hops : ∀ peer, opsOf view peer edge = if edge.srcRank = peer then
            [.send edge.dstRank (view edge)] else if edge.dstRank = peer then
            [.recv edge.srcRank edge] else [] := fun peer => if_neg hz
        have hchan : ∀ peer, sendsTo edge.dstRank (opsOf view peer edge) =
            if edge.srcRank = peer then [view edge] else [] := by
          intro peer
          rw [hops]
          split
          · simp [sendsTo]
          · split <;> simp [sendsTo]
        have hrest : Function.update
            (fun peer => sendsTo edge.dstRank (List.flatMap (opsOf view peer) (edge :: edges)))
            edge.srcRank (sendsTo edge.dstRank (List.flatMap (opsOf view edge.srcRank) edges)) =
            fun peer => sendsTo edge.dstRank (List.flatMap (opsOf view peer) edges) := by
          funext peer
          by_cases hp : peer = edge.srcRank
          · rw [hp, Function.update_self]
          · rw [Function.update_of_ne hp, List.flatMap_cons, sendsTo, List.filterMap_append]
            have := hchan peer
            rw [if_neg (Ne.symm hp), sendsTo] at this
            rw [this, List.nil_append, sendsTo]
        have hfront : sendsTo edge.dstRank (List.flatMap (opsOf view edge.srcRank) (edge :: edges)) =
            view edge :: sendsTo edge.dstRank (List.flatMap (opsOf view edge.srcRank) edges) := by
          have := hchan edge.srcRank
          rw [if_pos rfl, sendsTo] at this
          rw [List.flatMap_cons, sendsTo, List.filterMap_append, this]
          rfl
        have hmine : opsOf view edge.dstRank edge = [.recv edge.srcRank edge] := by
          simp [hops, hsd]
        have hsent : sentToRank edge.dstRank edge = true := by simp [sentToRank, hl]
        rw [List.flatMap_cons, hmine, List.singleton_append, receiveAll]
        simp only [hfront, hrest, ih, List.filter_cons_of_pos hsent]
        rfl
      · -- The edge ends elsewhere: at most a send is queued here.
        have hchan : ∀ peer, sendsTo rank (opsOf view peer edge) = [] := by
          intro peer
          rw [opsOf, if_neg hz]
          split
          · simp [sendsTo, hd]
          · split <;> simp [sendsTo]
        have hchannel : (fun peer => sendsTo rank (List.flatMap (opsOf view peer) (edge :: edges))) =
            fun peer => sendsTo rank (List.flatMap (opsOf view peer) edges) := by
          funext peer
          have := hchan peer
          rw [sendsTo] at this
          rw [List.flatMap_cons, sendsTo, List.filterMap_append, this, List.nil_append, sendsTo]
        have hsent : ¬ sentToRank rank edge = true := by simp [sentToRank, hd]
        rw [hchannel, List.filter_cons_of_neg hsent, ← ih, List.flatMap_cons, opsOf, if_neg hz]
        split
        · rfl
        · rfl

/-- A rank's writes are those of the edges that end at it. -/
theorem executeTransfer_writes (hm : LocalMarked edges) (posted : Rank → Posted α)
    (hp : ∀ rank, posted rank =
      ⟨edges.flatMap (copiesOf view rank), edges.flatMap (opsOf view rank)⟩) (rank : Rank) :
    ∃ writes, executeTransfer posted rank = some writes ∧
      writes.Perm ((edges.filter (·.dstRank = rank)).flatMap (edgeWrites view)) := by
  refine ⟨edges.flatMap (copiesOf view rank) ++
    (edges.filter (sentToRank rank)).flatMap (edgeWrites view), ?_, ?_⟩
  · simp only [executeTransfer, hp, receiveAll_eq hm rank, Option.map_some]
  rw [copies_eq hm, ← List.flatMap_append]
  refine List.Perm.flatMap_right _ ?_
  have hsplit := List.filter_append_perm (·.localCopy) (edges.filter (·.dstRank = rank))
  rw [List.filter_filter, List.filter_filter] at hsplit
  have hcopied : copiedTo rank = fun e => e.localCopy && decide (e.dstRank = rank) :=
    funext fun e => Bool.and_comm ..
  have hsent : sentToRank rank = fun e => !e.localCopy && decide (e.dstRank = rank) :=
    funext fun e => Bool.and_comm ..
  rwa [hcopied, hsent]

end GfDit
