import GfDit.Protocol
import Mathlib.Order.Monotone.Basic

/-!
# Replicated and balanced sharded fields

The field layouts of `adapters/common.py`: a replicated field is the whole
tensor on every rank, a sharded one cuts a single dimension into
`shard_world_size` consecutive pieces whose lengths differ by at most one.
The pieces may be empty when there are more ranks than elements.
-/

namespace GfDit

def replicatedTensorField (fieldPath : List String) (localShape : List Nat) (dtype : String) :
    Except PyError TensorFieldLayout :=
  TensorFieldLayout.make fieldPath localShape dtype .replicated localShape (localShape.map fun _ => 0)

def shardStart (size worldSize rank : Nat) : Nat :=
  rank * (size / worldSize) + min rank (size % worldSize)

def shardLength (size worldSize rank : Nat) : Nat :=
  size / worldSize + if rank < size % worldSize then 1 else 0

def balancedShardBounds (size worldSize rank : Nat) : Except PyError (Nat × Nat) :=
  if worldSize < 1 then throw (.valueError s!"shard world_size must be >= 1, got {worldSize}")
  else if rank ≥ worldSize then
    throw (.valueError s!"shard rank {rank} out of range for world_size={worldSize}")
  else pure (shardStart size worldSize rank, shardLength size worldSize rank)

def normalizeDim (shardDim : Int) (rank : Nat) : Int :=
  if shardDim < 0 then shardDim + rank else shardDim

def shardedTensorField (fieldPath : List String) (globalShape : List Nat) (dtype : String)
    (shardDim : Int) (shardWorldSize shardRank : Nat) : Except PyError TensorFieldLayout := do
  let shardDim := normalizeDim shardDim globalShape.length
  if shardDim < 0 ∨ shardDim ≥ globalShape.length then
    throw (.valueError <| s!"shard_dim {shardDim} out of range for global_shape=" ++
      natTuple globalShape)
  let dim := shardDim.toNat
  let (offset, length) ← balancedShardBounds (globalShape.getD dim 0) shardWorldSize shardRank
  TensorFieldLayout.make fieldPath (globalShape.set dim length) dtype (.sharded dim) globalShape
    ((globalShape.map fun _ => 0).set dim offset)

/-- CFG ranks hold the same shard: only the rank's place within the
sequence-parallel part of the group selects it. -/
def spShardedTensorField (group : ExecutionGroupSpec) (groupRank : Nat) (fieldPath : List String)
    (globalShape : List Nat) (dtype : String) (shardDim : Int) : Except PyError TensorFieldLayout :=
  let spWorldSize := group.parallelSpec.sp
  if spWorldSize ≤ 1 then replicatedTensorField fieldPath globalShape dtype
  else
    shardedTensorField fieldPath globalShape dtype shardDim spWorldSize (groupRank % spWorldSize)

-- ---------------------------------------------------------------------------
-- The balanced pieces tile the dimension
-- ---------------------------------------------------------------------------

theorem shardStart_zero (size worldSize : Nat) : shardStart size worldSize 0 = 0 := by
  simp [shardStart]

theorem shardStart_succ (size worldSize rank : Nat) :
    shardStart size worldSize (rank + 1) =
      shardStart size worldSize rank + shardLength size worldSize rank := by
  simp only [shardStart, shardLength, Nat.succ_mul]
  split <;> omega

theorem shardStart_last (size : Nat) {worldSize : Nat} (hw : 0 < worldSize) :
    shardStart size worldSize worldSize = size := by
  have hm : size % worldSize < worldSize := Nat.mod_lt _ hw
  rw [shardStart, Nat.min_eq_right (Nat.le_of_lt hm), Nat.div_add_mod]

theorem shardStart_mono (size worldSize : Nat) : Monotone (shardStart size worldSize) :=
  monotone_nat_of_le_succ fun rank => by
    rw [shardStart_succ]
    exact Nat.le_add_right _ _

theorem shard_end_le (size : Nat) {worldSize rank : Nat} (h : rank < worldSize) :
    shardStart size worldSize rank + shardLength size worldSize rank ≤ size := by
  rw [← shardStart_succ]
  calc shardStart size worldSize (rank + 1)
      ≤ shardStart size worldSize worldSize := shardStart_mono _ _ h
    _ = size := shardStart_last size (by omega)

def shardAxis (size worldSize rank : Nat) : Box.Axis :=
  (shardStart size worldSize rank, shardLength size worldSize rank)

theorem exists_shard (hw : 0 < worldSize) (hx : x < size) :
    ∃ rank < worldSize, (shardAxis size worldSize rank).Contains x := by
  -- The last rank whose piece starts at or before `x`.
  have key : ∀ n ≤ worldSize, x < shardStart size worldSize n →
      ∃ rank < n, (shardAxis size worldSize rank).Contains x := by
    intro n
    induction n with
    | zero =>
      intro _ h
      simp [shardStart_zero] at h
    | succ n ih =>
      intro hn h
      by_cases hl : x < shardStart size worldSize n
      · obtain ⟨rank, hr, hc⟩ := ih (by omega) hl
        exact ⟨rank, by omega, hc⟩
      · rw [shardStart_succ] at h
        exact ⟨n, by omega, by simp [shardAxis, Box.Axis.Contains]; omega⟩
  obtain ⟨rank, hr, hc⟩ := key worldSize le_rfl (by rwa [shardStart_last size hw])
  exact ⟨rank, hr, hc⟩

theorem shard_unique (ha : (shardAxis size worldSize a).Contains x)
    (hb : (shardAxis size worldSize b).Contains x) : a = b := by
  have step : ∀ {a b}, (shardAxis size worldSize a).Contains x →
      (shardAxis size worldSize b).Contains x → ¬ a < b := by
    intro a b ha hb hab
    have hm := shardStart_mono size worldSize (show a + 1 ≤ b from hab)
    rw [shardStart_succ] at hm
    simp only [shardAxis, Box.Axis.Contains] at ha hb
    omega
  exact Nat.le_antisymm (Nat.le_of_not_lt (step hb ha)) (Nat.le_of_not_lt (step ha hb))

-- ---------------------------------------------------------------------------
-- What the constructors return
-- ---------------------------------------------------------------------------

theorem fitsAxes_zero (shape : List Nat) : FitsAxes (shape.map fun _ => 0) shape shape := by
  induction shape with
  | nil => exact .nil
  | cons n shape ih => exact .cons (Nat.le_of_eq (Nat.zero_add n)) ih

theorem FitsAxes.set (h : FitsAxes os ns fulls) (hd : o + n ≤ fulls.getD dim 0) :
    FitsAxes (os.set dim o) (ns.set dim n) fulls := by
  induction h generalizing dim with
  | nil => exact .nil
  | cons ha hb ih =>
    cases dim with
    | zero => exact .cons (by simpa using hd) hb
    | succ dim => exact .cons ha (ih (by simpa using hd))

theorem makeField_ok (hp : path ≠ []) (hd : dtype ≠ "") (hf : FitsAxes offset part shape) :
    TensorFieldLayout.make path part dtype layout shape offset =
      .ok ⟨path, part, dtype, layout, shape, offset, hp, hd, hf⟩ := by
  have := hf.length
  simp [TensorFieldLayout.make, hp, hd, hf, this.1, this.2, pure, Except.pure]

theorem replicatedTensorField_ok (hp : path ≠ []) (hd : dtype ≠ "") :
    replicatedTensorField path shape dtype =
      .ok ⟨path, shape, dtype, .replicated, shape, shape.map fun _ => 0, hp, hd,
        fitsAxes_zero shape⟩ :=
  makeField_ok hp hd _

theorem replicatedTensorField_eq {tensor : TensorFieldLayout} (hp : path ≠ [])
    (h : replicatedTensorField path shape dtype = .ok tensor) :
    tensor.fieldPath = path ∧ tensor.globalShape = shape ∧ tensor.dtype = dtype := by
  by_cases hd : dtype = ""
  · rw [replicatedTensorField, TensorFieldLayout.make, dif_neg hp, dif_pos hd] at h
    cases h
  · rw [replicatedTensorField_ok hp hd] at h
    cases h
    exact ⟨rfl, rfl, rfl⟩

def shardDimOf (shardDim : Int) (shape : List Nat) : Nat :=
  (normalizeDim shardDim shape.length).toNat

def DimExists (shardDim : Int) (shape : List Nat) : Prop :=
  0 ≤ normalizeDim shardDim shape.length ∧ normalizeDim shardDim shape.length < shape.length

theorem shardDimOf_lt (h : DimExists shardDim shape) : shardDimOf shardDim shape < shape.length := by
  obtain ⟨h0, h1⟩ := h
  unfold shardDimOf
  omega

theorem shardedTensorField_ok (hp : path ≠ []) (hd : dtype ≠ "")
    (hdim : DimExists dim shape) (hr : rank < worldSize) :
    shardedTensorField path shape dtype dim worldSize rank =
      .ok ⟨path, shape.set (shardDimOf dim shape)
          (shardLength (shape.getD (shardDimOf dim shape) 0) worldSize rank), dtype,
        .sharded (shardDimOf dim shape), shape,
        (shape.map fun _ => 0).set (shardDimOf dim shape)
          (shardStart (shape.getD (shardDimOf dim shape) 0) worldSize rank), hp, hd,
        (fitsAxes_zero shape).set (shard_end_le _ hr)⟩ := by
  have hw : ¬ worldSize < 1 := by omega
  have hr' : ¬ rank ≥ worldSize := by omega
  have hn : ¬ (normalizeDim dim shape.length < 0) := by have := hdim.1; omega
  have hge : ¬ (normalizeDim dim shape.length ≥ shape.length) := by have := hdim.2; omega
  simp only [shardedTensorField, hn, if_false, hge, or_self, balancedShardBounds, hw, hr',
    pure_bind]
  exact makeField_ok hp hd _

end GfDit
