import GfDit.DataPlane.Placement
import GfDit.DataPlane.ShardGather

/-!
# Joining the shards restores the tensor

The balanced pieces of a dimension, each padded to the longest, cut back to
its own length and put one behind the other, have the shape and the elements
of the tensor they were cut from.
-/

namespace GfDit

variable {α : Type} {n : Nat}

structure Tensor.Same (a b : Tensor α) : Prop where
  shape : a.shape = b.shape
  dtype : a.dtype = b.dtype
  data : ∀ index, Box.Contains (Box.ofShape a.shape) index → a.data index = b.data index

theorem Tensor.Same.refl (a : Tensor α) : a.Same a := ⟨rfl, rfl, fun _ _ => rfl⟩

/-- The fields the ranks of an SP group of `n` describe for one tensor. -/
structure CutFields (path : FieldPath) (dtype : String) (shape : List Nat) (dim : Nat)
    (fields : Fin n → TensorFieldLayout) : Prop where
  path : ∀ i, (fields i).fieldPath = path
  dtype : ∀ i, (fields i).dtype = dtype
  layout : ∀ i, (fields i).layout = .sharded dim
  globalShape : ∀ i, (fields i).globalShape = shape
  localShape : ∀ i, (fields i).localShape = shape.set dim (shardLength (shape.getD dim 0) n i)
  offset : ∀ i, (fields i).globalOffset =
    (shape.map fun _ => 0).set dim (shardStart (shape.getD dim 0) n i)
  dim_lt : dim < shape.length

structure PieceOf (full : Tensor α) (field : TensorFieldLayout) (piece : Tensor α) : Prop where
  shape : piece.shape = field.localShape
  dtype : piece.dtype = full.dtype
  data : ∀ index, Box.Contains (Box.ofShape field.localShape) index →
    piece.data index = full.data (Box.shiftUp field.globalOffset index)

-- ---------------------------------------------------------------------------
-- Lengths
-- ---------------------------------------------------------------------------

theorem sum_shardLength (size worldSize count : Nat) :
    ((List.range count).map (shardLength size worldSize)).sum = shardStart size worldSize count := by
  induction count with
  | zero => simp [shardStart_zero]
  | succ count ih => simp [List.range_succ, ih, shardStart_succ]

theorem sum_filter_pos (items : List α) (length : α → Nat) :
    ((items.filter fun item => length item > 0).map length).sum = (items.map length).sum := by
  induction items with
  | nil => rfl
  | cons item items ih =>
    by_cases h : length item > 0
    · simp [h, ih]
    · simp [ih, Nat.eq_zero_of_not_pos h]

theorem getD_set_self {dim : Nat} {shape : List Nat} (h : dim < shape.length) (size : Nat) :
    (shape.set dim size).getD dim 0 = size := by
  simp [List.getD, h]

theorem set_getD_self (shape : List Nat) (dim : Nat) : shape.set dim (shape.getD dim 0) = shape := by
  by_cases h : dim < shape.length
  · simp [List.getD, h]
  · simp [List.set_eq_of_length_le (Nat.le_of_not_lt h)]

-- ---------------------------------------------------------------------------
-- Indices
-- ---------------------------------------------------------------------------

theorem ofShape_set (shape : List Nat) (dim size : Nat) :
    Box.ofShape (shape.set dim size) = (Box.ofShape shape).set dim (0, size) := by
  simp [Box.ofShape, List.map_set]

theorem contains_set_coord {box : List Box.Axis} {index : List Nat} {dim x : Nat} {axis : Box.Axis}
    (h : Box.Contains box index) (hx : axis.Contains x) :
    Box.Contains (box.set dim axis) (index.set dim x) := by
  induction h generalizing dim with
  | nil => exact .nil
  | cons ha hb ih =>
    cases dim with
    | zero => exact .cons hx hb
    | succ dim => exact .cons ha ih

theorem shiftUp_zeros {shape index : List Nat} (hlen : index.length = shape.length) :
    Box.shiftUp (shape.map fun _ => 0) index = index := by
  induction shape generalizing index with
  | nil => simp_all [Box.shiftUp]
  | cons size shape ih =>
    cases index with
    | nil => simp at hlen
    | cons i index =>
      have hrest := ih (by simpa using hlen)
      simpa [Box.shiftUp] using hrest

theorem shiftUp_set {shape index : List Nat} {dim start x : Nat}
    (hlen : index.length = shape.length) (hx : index.getD dim 0 = start + x) :
    Box.shiftUp ((shape.map fun _ => 0).set dim start) (index.set dim x) = index := by
  induction shape generalizing dim index with
  | nil => simp_all [Box.shiftUp]
  | cons size shape ih =>
    cases index with
    | nil => simp at hlen
    | cons i index =>
      have hlen : index.length = shape.length := by simpa using hlen
      cases dim with
      | zero =>
        simp only [List.getD_cons_zero] at hx
        simpa [Box.shiftUp, hx] using shiftUp_zeros hlen
      | succ dim =>
        have := ih hlen (by simpa using hx)
        simpa [Box.shiftUp] using this

theorem contains_length {shape index : List Nat} (h : Box.Contains (Box.ofShape shape) index) :
    index.length = shape.length := by
  simpa [Box.ofShape] using h.length.symm

-- ---------------------------------------------------------------------------
-- Pieces one behind the other
-- ---------------------------------------------------------------------------

theorem catData_at {dim x : Nat} {piece : Tensor α} {before after items : List (Tensor α)}
    {first : Tensor α} {index : List Nat} (heq : first :: items = before ++ piece :: after)
    (hdim : dim < index.length) (hx : x < piece.shape.getD dim 0)
    (hindex : index.getD dim 0 = (before.map fun p => p.shape.getD dim 0).sum + x) :
    catData dim first items index = piece.data (index.set dim x) := by
  induction before generalizing first items index with
  | nil =>
    obtain ⟨rfl, rfl⟩ := List.cons.inj heq
    have hsame : index.set dim x = index := by
      have hx' : index.getD dim 0 = x := by simpa using hindex
      rw [← hx', set_getD_self]
    have hlt : index.getD dim 0 < first.shape.getD dim 0 := by
      rw [hindex]
      simpa using hx
    cases items with
    | nil => rw [catData, hsame]
    | cons next items => rw [catData, if_pos hlt, hsame]
  | cons other before ih =>
    obtain ⟨rfl, rfl⟩ := List.cons.inj heq
    obtain ⟨next, rest, hrest⟩ : ∃ next rest, before ++ piece :: after = next :: rest :=
      List.exists_cons_of_ne_nil (by simp)
    simp only [List.map_cons, List.sum_cons] at hindex
    have hge : ¬ index.getD dim 0 < first.shape.getD dim 0 := by omega
    show catData dim first (before ++ piece :: after) index = _
    rw [hrest, catData, if_neg hge, ih hrest.symm (by simpa using hdim) ?_, List.set_set]
    rw [getD_set_self hdim]
    omega

-- ---------------------------------------------------------------------------
-- The whole tensor
-- ---------------------------------------------------------------------------

variable {path : FieldPath} {dtype : String} {shape : List Nat} {dim : Nat}
  {fields : Fin n → TensorFieldLayout} {blank : Blank α}

def cutLengths (shape : List Nat) (dim n : Nat) : Fin n → Nat := fun i =>
  shardLength (shape.getD dim 0) n i

theorem sum_cutLengths (shape : List Nat) (dim : Nat) (hn : 0 < n) :
    ((List.finRange n).map (cutLengths shape dim n)).sum = shape.getD dim 0 := by
  have hrange : (List.finRange n).map (cutLengths shape dim n) =
      (List.range n).map (shardLength (shape.getD dim 0) n) := by
    rw [← List.map_coe_finRange_eq_range, List.map_map]
    rfl
  rw [hrange, sum_shardLength, shardStart_last _ hn]

theorem joinShards_eq (field : TensorFieldLayout) (padded : Tensor α) (lengths : Fin n → Nat)
    (gathered : Fin n → Tensor α) :
    (∃ first rest, ((List.finRange n).filter fun i => lengths i > 0).map
        (ownShard dim padded lengths gathered) = first :: rest ∧
      joinShards blank field dim padded lengths gathered = catPieces dim first rest) ∨
    ((∀ i, lengths i = 0) ∧ joinShards blank field dim padded lengths gathered =
      ⟨field.globalShape, padded.dtype, blank.empty⟩) := by
  cases hitems : ((List.finRange n).filter fun i => lengths i > 0).map
      (ownShard dim padded lengths gathered) with
  | nil =>
    refine .inr ⟨fun i => ?_, ?_⟩
    · have hnot := List.filter_eq_nil_iff.mp (List.map_eq_nil_iff.mp hitems) i (List.mem_finRange i)
      simpa using hnot
    · unfold joinShards
      simp only [hitems]
  | cons first rest =>
    refine .inl ⟨first, rest, rfl, ?_⟩
    unfold joinShards
    simp only [hitems]

theorem ownShard_shape {padded : Tensor α} {lengths : Fin n → Nat} {gathered : Fin n → Tensor α}
    {size : Nat} (hshape : padded.shape = shape.set dim size) (i : Fin n) :
    (ownShard dim padded lengths gathered i).shape = shape.set dim (lengths i) := by
  rw [ownShard, narrow, hshape, List.set_set]

theorem joinShards_shape {padded : Tensor α} {gathered : Fin n → Tensor α} {size : Nat}
    {field : TensorFieldLayout} (hn : 0 < n) (hdim : dim < shape.length)
    (hfield : field.globalShape = shape) (hshape : padded.shape = shape.set dim size) :
    (joinShards blank field dim padded (cutLengths shape dim n) gathered).shape = shape := by
  rcases @joinShards_eq α n dim blank field padded (cutLengths shape dim n) gathered with
    ⟨first, rest, hitems, heq⟩ | ⟨-, heq⟩
  · obtain ⟨i, others, -, rfl, -⟩ := List.map_eq_cons_iff.mp hitems
    have hlengths : (ownShard dim padded (cutLengths shape dim n) gathered i :: rest).map
        (fun p => p.shape.getD dim 0) =
          ((List.finRange n).filter fun i => cutLengths shape dim n i > 0).map
            (cutLengths shape dim n) := by
      rw [← hitems, List.map_map]
      refine List.map_congr_left fun j _ => ?_
      simp only [Function.comp_apply, ownShard_shape hshape, getD_set_self hdim]
    rw [heq, catPieces]
    simp only [hlengths, sum_filter_pos, sum_cutLengths shape dim hn, ownShard_shape hshape,
      List.set_set, set_getD_self]
  · rw [heq]
    exact hfield

theorem PieceOf.shape_eq {full : Tensor α} {pieces : Fin n → Tensor α}
    (hcut : CutFields path dtype shape dim fields) (i : Fin n)
    (h : PieceOf full (fields i) (pieces i)) :
    (pieces i).shape = shape.set dim (cutLengths shape dim n i) :=
  h.shape.trans (hcut.localShape i)

/-- Joining what the ranks have padded gives the tensor they cut. -/
theorem joinShards_same {full : Tensor α} {pieces : Fin n → Tensor α}
    (hcut : CutFields path dtype shape dim fields) (hfull : full.shape = shape)
    (hpieces : ∀ i, PieceOf full (fields i) (pieces i)) (maxLen : Nat) (i : Fin n) :
    (joinShards blank (fields i) dim (padShard blank dim maxLen (pieces i))
      (cutLengths shape dim n) fun j => padShard blank dim maxLen (pieces j)).Same full := by
  have hn : 0 < n := i.pos
  have hpadded : (padShard blank dim maxLen (pieces i)).shape = shape.set dim maxLen := by
    rw [padShard, (hpieces i).shape_eq hcut, List.set_set]
  have hwhole := @joinShards_shape α n shape dim blank _
    (fun j => padShard blank dim maxLen (pieces j)) _ _ hn hcut.dim_lt (hcut.globalShape i) hpadded
  refine ⟨hwhole.trans hfull.symm, ?_, ?_⟩
  · rcases @joinShards_eq α n dim blank (fields i) (padShard blank dim maxLen (pieces i))
      (cutLengths shape dim n) (fun j => padShard blank dim maxLen (pieces j)) with
      ⟨first, rest, hitems, heq⟩ | ⟨-, heq⟩
    · obtain ⟨j, others, -, rfl, -⟩ := List.map_eq_cons_iff.mp hitems
      rw [heq]
      exact (hpieces i).dtype
    · rw [heq]
      exact (hpieces i).dtype
  · intro index hindex
    rw [hwhole] at hindex
    have hlt := coord_lt hcut.dim_lt hindex
    -- The piece the coordinate falls on.
    obtain ⟨rank, hrank, hon⟩ := exists_shard hn hlt
    let j : Fin n := ⟨rank, hrank⟩
    obtain ⟨hstart, hstop⟩ := hon
    simp only [shardAxis] at hstart hstop
    have hlength : cutLengths shape dim n j = shardLength (shape.getD dim 0) n rank := rfl
    obtain ⟨x, hx⟩ := Nat.exists_eq_add_of_le hstart
    have hxlt : x < cutLengths shape dim n j := by omega
    rcases @joinShards_eq α n dim blank (fields i) (padShard blank dim maxLen (pieces i))
      (cutLengths shape dim n) (fun j => padShard blank dim maxLen (pieces j)) with
      ⟨first, rest, hitems, heq⟩ | ⟨hzero, -⟩
    · have hsplit : List.finRange n =
          (List.finRange n).take rank ++ j :: (List.finRange n).drop (rank + 1) := by
        have hdrop : (List.finRange n).drop rank = j :: (List.finRange n).drop (rank + 1) := by
          rw [List.drop_eq_getElem_cons (by simpa using hrank)]
          simp [j]
        rw [← hdrop, List.take_append_drop]
      have hbefore : (((List.finRange n).take rank).map (cutLengths shape dim n)).sum =
          shardStart (shape.getD dim 0) n rank := by
        rw [← sum_shardLength]
        congr 1
        have hrange : ((List.finRange n).take rank).map Fin.val = List.range rank := by
          rw [List.map_take, List.map_coe_finRange_eq_range, List.take_range,
            Nat.min_eq_left hrank.le]
        rw [← hrange, List.map_map]
        rfl
      have hlens : ∀ items : List (Fin n), (items.map (ownShard dim
          (padShard blank dim maxLen (pieces i)) (cutLengths shape dim n)
            fun j => padShard blank dim maxLen (pieces j))).map (fun p => p.shape.getD dim 0) =
          items.map (cutLengths shape dim n) := by
        intro items
        rw [List.map_map]
        refine List.map_congr_left fun k _ => ?_
        simp only [Function.comp_apply, ownShard_shape hpadded, getD_set_self hcut.dim_lt]
      have hpos : decide (cutLengths shape dim n j > 0) = true := by
        simpa using Nat.zero_lt_of_lt hxlt
      rw [hsplit] at hitems
      simp only [List.filter_append, List.filter_cons, hpos, if_true, List.map_append,
        List.map_cons] at hitems
      have hxpiece : x < (ownShard dim (padShard blank dim maxLen (pieces i))
          (cutLengths shape dim n) (fun j => padShard blank dim maxLen (pieces j)) j).shape.getD
            dim 0 := by
        rw [ownShard_shape hpadded, getD_set_self hcut.dim_lt]
        exact hxlt
      have hat := @catData_at α dim x _ _ _ _ _ index hitems.symm
        (by rw [contains_length hindex]; exact hcut.dim_lt) hxpiece
        (by rw [hlens, sum_filter_pos, hbefore, hx])
      have hinside : Box.Contains (Box.ofShape (fields j).localShape) (index.set dim x) := by
        rw [hcut.localShape, ofShape_set]
        exact contains_set_coord hindex ⟨Nat.zero_le x, by simpa [cutLengths] using hxlt⟩
      rw [heq]
      show catData dim first rest index = full.data index
      rw [hat]
      show (padShard blank dim maxLen (pieces j)).data (index.set dim x) = full.data index
      have hshape : Box.Contains (Box.ofShape (pieces j).shape) (index.set dim x) := by
        rw [(hpieces j).shape]
        exact hinside
      rw [padShard]
      simp only [if_pos hshape]
      rw [(hpieces j).data _ hinside, hcut.offset, shiftUp_set (contains_length hindex) hx]
    · exact absurd (hzero j) (by omega)

end GfDit
