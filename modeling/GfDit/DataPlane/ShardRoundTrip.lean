import GfDit.DataPlane.ShardRuns
import GfDit.Lib.Forall2

/-!
# Sharding an artifact and materializing it again

The ranks of one SP group, which all hold the whole tensors a task left, store
shards of them, and get the whole tensors back at the next task. The group has
one SP group for each CFG rank; `cfgRank` is theirs.
-/

namespace GfDit

open Collective (Member Runs)
open ShardedFieldStatus

variable {α : Type} {n : Nat}

-- ---------------------------------------------------------------------------
-- Declared fields
-- ---------------------------------------------------------------------------

/-- A field as a codec declares it: whole on every rank, or cut over the SP ranks. -/
structure ShardSpec where
  path : FieldPath
  dtype : String
  shape : List Nat
  shardDim : Option Int

namespace ShardSpec

def field (spec : ShardSpec) (group : ExecutionGroupSpec) (groupRank : Nat) :
    Except PyError TensorFieldLayout :=
  match spec.shardDim with
  | none => replicatedTensorField spec.path spec.shape spec.dtype
  | some dim => spShardedTensorField group groupRank spec.path spec.shape spec.dtype dim

/-- The field is cut on `n` SP ranks. -/
def IsCut (spec : ShardSpec) (n : Nat) : Prop := spec.shardDim ≠ none ∧ 1 < n

def dim (spec : ShardSpec) : Nat :=
  match spec.shardDim with
  | none => 0
  | some dim => shardDimOf dim spec.shape

def size (spec : ShardSpec) : Nat := spec.shape.getD spec.dim 0

def Whole (spec : ShardSpec) (values : Fin n → FieldValues α) : Prop :=
  (∀ i, (values i).get? spec.path = some .none) ∨ ∃ full : Tensor α, full.shape = spec.shape ∧
    full.dtype = spec.dtype ∧ ∀ i, (values i).get? spec.path = some (.tensor full)

end ShardSpec

theorem makeField_eq {localShape offset shape : List Nat} {layout : TensorLayout}
    {path : FieldPath} {dtype : String} {field : TensorFieldLayout}
    (h : TensorFieldLayout.make path localShape dtype layout shape offset = .ok field) :
    field.fieldPath = path ∧ field.localShape = localShape ∧ field.dtype = dtype ∧
      field.layout = layout ∧ field.globalShape = shape ∧ field.globalOffset = offset := by
  unfold TensorFieldLayout.make at h
  split_ifs at h
  cases h
  exact ⟨rfl, rfl, rfl, rfl, rfl, rfl⟩

structure CutField (spec : ShardSpec) (n rank : Nat) (field : TensorFieldLayout) : Prop where
  path : field.fieldPath = spec.path
  dtype : field.dtype = spec.dtype
  layout : field.layout = .sharded spec.dim
  globalShape : field.globalShape = spec.shape
  localShape : field.localShape = spec.shape.set spec.dim (shardLength spec.size n rank)
  offset : field.globalOffset =
    (spec.shape.map fun _ => 0).set spec.dim (shardStart spec.size n rank)
  dim_lt : spec.dim < spec.shape.length

theorem ShardSpec.cutField {spec : ShardSpec} {group : ExecutionGroupSpec} {groupRank : Nat}
    {field : TensorFieldLayout} (hcut : spec.IsCut group.parallelSpec.sp)
    (h : spec.field group groupRank = .ok field) :
    CutField spec group.parallelSpec.sp (groupRank % group.parallelSpec.sp) field := by
  obtain ⟨shardDim, hdim⟩ := Option.ne_none_iff_exists'.mp hcut.1
  have hspec : spec.dim = shardDimOf shardDim spec.shape := by rw [ShardSpec.dim, hdim]
  have hsize : spec.size = spec.shape.getD (shardDimOf shardDim spec.shape) 0 := by
    rw [ShardSpec.size, hspec]
  simp only [ShardSpec.field, hdim, spShardedTensorField, Nat.not_le.mpr hcut.2, if_false] at h
  unfold shardedTensorField at h
  dsimp only at h
  split at h
  · cases h
  · next hexists =>
    obtain ⟨⟨offset, length⟩, hbounds, h⟩ := Except.bind_eq_ok.mp h
    unfold balancedShardBounds at hbounds
    split_ifs at hbounds
    cases hbounds
    obtain ⟨hpath, hlocal, hdtype, hlayout, hglobal, hoffset⟩ := makeField_eq h
    refine ⟨hpath, hdtype, hspec ▸ hlayout, hglobal, ?_, ?_, ?_⟩
    · rw [hsize, hspec]
      exact hlocal
    · rw [hsize, hspec]
      exact hoffset
    · rw [hspec]
      exact shardDimOf_lt ⟨by omega, by omega⟩

theorem ShardSpec.plain {spec : ShardSpec} {group : ExecutionGroupSpec} {groupRank : Nat}
    {field : TensorFieldLayout} (hcut : ¬ spec.IsCut group.parallelSpec.sp)
    (h : spec.field group groupRank = .ok field) : field.layout = .replicated := by
  have hreplicated : replicatedTensorField spec.path spec.shape spec.dtype = .ok field := by
    unfold ShardSpec.field at h
    split at h
    · exact h
    · next hdim =>
      have hle : group.parallelSpec.sp ≤ 1 :=
        Nat.not_lt.mp fun hlt => hcut ⟨by simp [hdim], hlt⟩
      rwa [spShardedTensorField, if_pos hle] at h
  exact (makeField_eq hreplicated).2.2.2.1

section Group

variable {group : ExecutionGroupSpec} {cfgRank : Nat}

def spRankOf (group : ExecutionGroupSpec) (cfgRank : Nat) (i : Fin group.parallelSpec.sp) : Nat :=
  cfgRank * group.parallelSpec.sp + i

theorem ShardSpec.cutFields {spec : ShardSpec}
    {fields : Fin group.parallelSpec.sp → TensorFieldLayout}
    (hcut : spec.IsCut group.parallelSpec.sp)
    (h : ∀ i, spec.field group (spRankOf group cfgRank i) = .ok (fields i)) :
    CutFields spec.path spec.dtype spec.shape spec.dim fields := by
  have hfield : ∀ i : Fin group.parallelSpec.sp,
      CutField spec group.parallelSpec.sp i (fields i) := by
    intro i
    have hmod : spRankOf group cfgRank i % group.parallelSpec.sp = i := by
      rw [spRankOf, Nat.mul_comm, Nat.mul_add_mod, Nat.mod_eq_of_lt i.isLt]
    exact hmod ▸ ShardSpec.cutField hcut (h i)
  exact ⟨fun i => (hfield i).path, fun i => (hfield i).dtype, fun i => (hfield i).layout,
    fun i => (hfield i).globalShape, fun i => (hfield i).localShape, fun i => (hfield i).offset,
    (hfield ⟨0, Nat.zero_lt_of_lt hcut.2⟩).dim_lt⟩

def SpDescribed (group : ExecutionGroupSpec) (cfgRank : Nat) (specs : List ShardSpec)
    (tensors : Fin group.parallelSpec.sp → List TensorFieldLayout) : Prop :=
  ∀ i, List.Forall₂ (fun spec field => spec.field group (spRankOf group cfgRank i) = .ok field)
    specs (tensors i)

theorem SpDescribed.cons {spec : ShardSpec} {specs : List ShardSpec}
    {tensors : Fin group.parallelSpec.sp → List TensorFieldLayout}
    (h : SpDescribed group cfgRank (spec :: specs) tensors) :
    ∃ (fields : Fin group.parallelSpec.sp → TensorFieldLayout)
      (rest : Fin group.parallelSpec.sp → List TensorFieldLayout),
      tensors = (fun i => fields i :: rest i) ∧
      (∀ i, spec.field group (spRankOf group cfgRank i) = .ok (fields i)) ∧
      SpDescribed group cfgRank specs rest := by
  choose fields rest hfields hrest htensors using fun i => List.forall₂_cons_left_iff.mp (h i)
  exact ⟨fields, rest, funext htensors, hfields, hrest⟩

theorem SpDescribed.nil {tensors : Fin group.parallelSpec.sp → List TensorFieldLayout}
    (h : SpDescribed group cfgRank [] tensors) : tensors = fun _ => [] :=
  funext fun i => List.forall₂_nil_left_iff.mp (h i)

-- ---------------------------------------------------------------------------
-- Sharding
-- ---------------------------------------------------------------------------

variable {artifact : ArtifactHandle} {blank : Blank α}

def CutAt (group : ExecutionGroupSpec) (cfgRank : Nat) (spec : ShardSpec)
    (orig values : Fin group.parallelSpec.sp → FieldValues α) : Prop :=
  (∀ i, (orig i).get? spec.path = some .none ∧ (values i).get? spec.path = some .none) ∨
  ∃ full : Tensor α, full.shape = spec.shape ∧ ∀ i,
    (orig i).get? spec.path = some (.tensor full) ∧
    ∃ field piece, spec.field group (spRankOf group cfgRank i) = .ok field ∧
      (values i).get? spec.path = some (.tensor piece) ∧ PieceOf full field piece

theorem setZero (shape : List Nat) (dim : Nat) :
    (shape.map fun _ => 0).set dim 0 = shape.map fun _ => 0 := by
  have hzero : (shape.map fun _ => 0).getD dim 0 = 0 := by
    rw [List.getD_eq_getElem?_getD, List.getElem?_map]
    cases shape[dim]? <;> rfl
  have hset := set_getD_self (shape.map fun _ => 0) dim
  rwa [hzero] at hset

theorem pieceOf_whole {path : FieldPath} {dtype : String} {shape : List Nat} {dim : Nat}
    {fields : Fin n → TensorFieldLayout} (hcut : CutFields path dtype shape dim fields) (i : Fin n)
    {full : Tensor α} (hshape : full.shape = shape) (hlocal : shape = (fields i).localShape) :
    PieceOf full (fields i) full := by
  refine ⟨hshape.trans hlocal, rfl, fun index hindex => ?_⟩
  have hlength : shardLength (shape.getD dim 0) n i = shape.getD dim 0 := by
    have := congrArg (fun shape : List Nat => shape.getD dim 0) (hlocal.trans (hcut.localShape i))
    simp only [getD_set_self hcut.dim_lt] at this
    exact this.symm
  have hstart : shardStart (shape.getD dim 0) n i = 0 := by
    have := shard_end_le (shape.getD dim 0) i.isLt
    omega
  rw [← hlocal] at hindex
  rw [hcut.offset, hstart, setZero, shiftUp_zeros (contains_length hindex)]

theorem tensorSliceView_field {field : TensorFieldLayout} {full : Tensor α}
    (hshape : full.shape = field.globalShape) (hdtype : full.dtype = field.dtype) :
    tensorSliceView full (fieldSlice field) = .ok ⟨field.localShape, full.dtype,
      fun index => full.data (Box.shiftUp field.globalOffset index)⟩ := by
  have hfits : FitsAxes (fieldSlice field).offset (fieldSlice field).shape full.shape :=
    hshape ▸ field.fits
  have hlengths := hfits.length
  have hranks : ¬ ((fieldSlice field).offset.length ≠ full.shape.length ∨
      (fieldSlice field).shape.length ≠ full.shape.length) := by
    rw [hlengths.1, hlengths.2]
    exact not_or.mpr ⟨not_not.mpr rfl, not_not.mpr rfl⟩
  have hdtypes : ¬ full.dtype ≠ (fieldSlice field).dtype := not_not.mpr hdtype
  rw [tensorSliceView, if_neg hdtypes, if_neg hranks, if_pos hfits]
  rfl

theorem shardField_tensor {path : FieldPath} {dtype : String} {shape : List Nat} {dim : Nat}
    {fields : Fin n → TensorFieldLayout} (hcut : CutFields path dtype shape dim fields) (i : Fin n)
    {value : FieldValues α} {full : Tensor α} (hread : value.get? path = some (.tensor full))
    (hshape : full.shape = shape) (hdtype : full.dtype = dtype) :
    ∃ later piece, shardField artifact (fields i) value = .ok later ∧
      later.get? path = some (.tensor piece) ∧ PieceOf full (fields i) piece ∧
      ∀ other, other ≠ path → later.get? other = value.get? other := by
  have hfound : value.readField (fields i).fieldPath = .ok (.tensor full) := by
    rw [FieldValues.readField, hcut.path i, hread]
    rfl
  have hglobal : full.shape = (fields i).globalShape := hshape.trans (hcut.globalShape i).symm
  simp only [shardField, hcut.layout i, hfound, Except.ok_bind]
  by_cases hlocal : full.shape = (fields i).localShape
  · rw [if_pos hlocal]
    exact ⟨value, full, rfl, hread, pieceOf_whole hcut i hshape (hshape.symm.trans hlocal),
      fun _ _ => rfl⟩
  · have hview := tensorSliceView_field hglobal (hdtype.trans (hcut.dtype i).symm)
    rw [if_neg hlocal, if_neg (not_not.mpr hglobal), hview, Except.ok_bind, hcut.path i]
    exact ⟨_, _, rfl, Dict.get?_set_self .., ⟨rfl, rfl, fun _ _ => rfl⟩,
      fun other hne => Dict.get?_set_ne _ hne.symm _⟩

theorem shardField_none {path : FieldPath} {dtype : String} {shape : List Nat} {dim : Nat}
    {fields : Fin n → TensorFieldLayout} (hcut : CutFields path dtype shape dim fields) (i : Fin n)
    {value : FieldValues α} (hread : value.get? path = some .none) :
    shardField artifact (fields i) value = .ok value := by
  have hfound : value.readField (fields i).fieldPath = .ok .none := by
    rw [FieldValues.readField, hcut.path i, hread]
    rfl
  simp only [shardField, hcut.layout i, hfound, Except.ok_bind]
  rfl

theorem shardField_plain {field : TensorFieldLayout} (h : field.layout = .replicated)
    (value : FieldValues α) : shardField artifact field value = .ok value := by
  simp only [shardField, h]
  rfl

theorem shardField_cut {spec : ShardSpec} {fields : Fin group.parallelSpec.sp → TensorFieldLayout}
    {values : Fin group.parallelSpec.sp → FieldValues α}
    (hfields : ∀ i, spec.field group (spRankOf group cfgRank i) = .ok (fields i))
    (hwhole : spec.IsCut group.parallelSpec.sp → spec.Whole values) :
    ∃ later : Fin group.parallelSpec.sp → FieldValues α,
      (∀ i, shardField artifact (fields i) (values i) = .ok (later i)) ∧
      (spec.IsCut group.parallelSpec.sp → CutAt group cfgRank spec values later) ∧
      ∀ i path, (spec.IsCut group.parallelSpec.sp → path ≠ spec.path) →
        (later i).get? path = (values i).get? path := by
  by_cases hcut : spec.IsCut group.parallelSpec.sp
  · have hcuts := ShardSpec.cutFields hcut hfields
    rcases hwhole hcut with hnone | ⟨full, hshape, hdtype, hfull⟩
    · exact ⟨values, fun i => shardField_none hcuts i (hnone i),
        fun _ => .inl fun i => ⟨hnone i, hnone i⟩, fun _ _ _ => rfl⟩
    · choose later piece hok hread hpiece hother using fun i =>
        @shardField_tensor α _ artifact _ _ _ _ _ hcuts i _ full (hfull i) hshape hdtype
      exact ⟨later, hok, fun _ => .inr ⟨full, hshape, fun i => ⟨hfull i, fields i, piece i,
        hfields i, hread i, hpiece i⟩⟩, fun i path hne => hother i path (hne hcut)⟩
  · exact ⟨values, fun i => shardField_plain (spec.plain hcut (hfields i)) _,
      fun h => absurd h hcut, fun _ _ _ => rfl⟩

theorem CutAt.congr {spec : ShardSpec}
    {orig values orig' values' : Fin group.parallelSpec.sp → FieldValues α}
    (h : CutAt group cfgRank spec orig values)
    (horig : ∀ i, (orig' i).get? spec.path = (orig i).get? spec.path)
    (hvalues : ∀ i, (values' i).get? spec.path = (values i).get? spec.path) :
    CutAt group cfgRank spec orig' values' := by
  simpa only [CutAt, horig, hvalues] using h

theorem ShardSpec.Whole.congr {spec : ShardSpec} {values values' : Fin n → FieldValues α}
    (h : spec.Whole values) (hsame : ∀ i, (values' i).get? spec.path = (values i).get? spec.path) :
    spec.Whole values' := by
  simpa only [ShardSpec.Whole, hsame] using h

/-- Sharding whole fields leaves every rank its pieces. -/
theorem shardFields_ok {specs : List ShardSpec}
    {tensors : Fin group.parallelSpec.sp → List TensorFieldLayout}
    {values : Fin group.parallelSpec.sp → FieldValues α}
    (hdescribed : SpDescribed group cfgRank specs tensors) (hpaths : (specs.map (·.path)).Nodup)
    (hwhole : ∀ spec ∈ specs, spec.IsCut group.parallelSpec.sp → spec.Whole values) :
    ∃ stored : Fin group.parallelSpec.sp → FieldValues α,
      (∀ i, shardFields artifact (tensors i) (values i) = .ok (stored i)) ∧
      (∀ spec ∈ specs, spec.IsCut group.parallelSpec.sp → CutAt group cfgRank spec values stored) ∧
      ∀ i path, (∀ spec ∈ specs, spec.IsCut group.parallelSpec.sp → path ≠ spec.path) →
        (stored i).get? path = (values i).get? path := by
  induction specs generalizing tensors values with
  | nil =>
    rw [hdescribed.nil]
    exact ⟨values, fun _ => rfl, by simp, fun _ _ _ => rfl⟩
  | cons spec specs ih =>
    obtain ⟨fields, rest, rfl, hfields, hrest⟩ := hdescribed.cons
    obtain ⟨hnot, hpaths⟩ := List.nodup_cons.mp hpaths
    have hne : ∀ other ∈ specs, other.path ≠ spec.path :=
      fun other hmem heq => hnot (List.mem_map.mpr ⟨other, hmem, heq⟩)
    obtain ⟨later, hok, hcut, hother⟩ := @shardField_cut α group cfgRank artifact _ _ _ hfields
      (hwhole spec (List.mem_cons_self ..))
    obtain ⟨stored, hstored, hcuts, hothers⟩ := ih hrest hpaths fun other hmem hother' =>
      (hwhole other (List.mem_cons_of_mem _ hmem) hother').congr fun i =>
        hother i _ fun _ => hne other hmem
    refine ⟨stored, fun i => ?_, fun other hmem hother' => ?_, fun i path hpath => ?_⟩
    · rw [shardFields, hok i]
      exact hstored i
    · rcases List.mem_cons.mp hmem with rfl | hmem
      · exact (hcut hother').congr (fun _ => rfl) fun i => hothers i _ fun spec' hmem' _ =>
          (hne spec' hmem').symm
      · exact (hcuts other hmem hother').congr
          (fun i => (hother i _ fun _ => hne other hmem).symm) fun _ => rfl
    · exact (hothers i path fun other hmem => hpath other (List.mem_cons_of_mem _ hmem)).trans
        (hother i path (hpath spec (List.mem_cons_self ..)))

-- ---------------------------------------------------------------------------
-- Materializing
-- ---------------------------------------------------------------------------

/-- Two values of a field that are the same to a task. -/
inductive FieldValue.Same : FieldValue α → FieldValue α → Prop
  | none : Same .none .none
  | tensor {a b : Tensor α} : a.Same b → Same (.tensor a) (.tensor b)
  | other (typeName : String) : Same (.other typeName) (.other typeName)

theorem FieldValue.Same.refl (held : FieldValue α) : held.Same held := by
  cases held with
  | none => exact .none
  | tensor tensor => exact .tensor (.refl tensor)
  | other typeName => exact .other typeName

def SameFields (a b : FieldValues α) : Prop :=
  ∀ path, Option.Rel FieldValue.Same (a.get? path) (b.get? path)

theorem SameFields.refl_at {a b : Option (FieldValue α)} (h : a = b) :
    Option.Rel FieldValue.Same a b := by
  subst h
  cases a with
  | none => exact .none
  | some held => exact .some (.refl held)

theorem spRankOf_zero (i : Fin group.parallelSpec.sp) :
    spRankOf group 0 i < group.parallelSpec.sp := by
  rw [spRankOf, Nat.zero_mul, Nat.zero_add]
  exact i.isLt

theorem le_spRankOf (h : cfgRank ≠ 0) (i : Fin group.parallelSpec.sp) :
    group.parallelSpec.sp ≤ spRankOf group cfgRank i :=
  (Nat.le_mul_of_pos_left _ (Nat.pos_of_ne_zero h)).trans (Nat.le_add_right ..)

theorem materializeField_plain {field : TensorFieldLayout} (h : field.layout = .replicated)
    (groupRank : Nat) (value : FieldValues α) :
    (materializeField blank artifact groupRank field value : SpRank n α _) = .done value := by
  simp only [materializeField, h]

theorem materializeField_missing {path : FieldPath} {dtype : String} {shape : List Nat} {dim : Nat}
    {fields : Fin n → TensorFieldLayout} {ranks : Fin n → Nat} {values : Fin n → FieldValues α}
    (hn : n ≠ 1) (hcut : CutFields path dtype shape dim fields) (hranks : ∀ i, ranks i < n)
    (hnone : ∀ i, (values i).get? path = some .none) :
    Runs (fun i => materializeField blank artifact (ranks i) (fields i) (values i))
      fun i => .ok (values i) := by
  refine materializeField_skips hn hcut hnone hranks (.inl fun status hmem => ?_)
  obtain ⟨i, rfl⟩ := mem_statusesOf.mp hmem
  rfl

/-- The pieces of one tensor become that tensor on every rank. -/
theorem materializeField_pieces {path : FieldPath} {dtype : String} {shape : List Nat} {dim : Nat}
    {fields : Fin n → TensorFieldLayout} {ranks : Fin n → Nat} {values : Fin n → FieldValues α}
    {full : Tensor α} {pieces : Fin n → Tensor α} (hn : n ≠ 1)
    (hcut : CutFields path dtype shape dim fields) (hranks : ∀ i, ranks i < n)
    (hshape : full.shape = shape) (hread : ∀ i, (values i).get? path = some (.tensor (pieces i)))
    (hpieces : ∀ i, PieceOf full (fields i) (pieces i)) :
    ∃ later : Fin n → FieldValues α,
      (Runs (fun i => materializeField blank artifact (ranks i) (fields i) (values i))
        fun i => .ok (later i)) ∧
      (∀ i, Option.Rel FieldValue.Same ((later i).get? path) (some (.tensor full))) ∧
      ∀ i other, other ≠ path → (later i).get? other = (values i).get? other := by
  refine ⟨_, materializeField_gathers hn hcut hread hranks fun i => (hpieces i).shape,
    fun i => ?_, fun i other hne => Dict.get?_set_ne _ hne.symm _⟩
  rw [Dict.get?_set_self]
  exact .some (.tensor (joinShards_same hcut hshape hpieces _ i))

theorem materializeField_cut {spec : ShardSpec}
    {fields : Fin group.parallelSpec.sp → TensorFieldLayout}
    {orig values : Fin group.parallelSpec.sp → FieldValues α}
    (hfields : ∀ i, spec.field group (spRankOf group 0 i) = .ok (fields i))
    (hstored : spec.IsCut group.parallelSpec.sp → CutAt group 0 spec orig values) :
    ∃ later : Fin group.parallelSpec.sp → FieldValues α,
      (Runs (fun i => materializeField blank artifact (spRankOf group 0 i) (fields i) (values i))
        fun i => .ok (later i)) ∧
      (spec.IsCut group.parallelSpec.sp → ∀ i,
        Option.Rel FieldValue.Same ((later i).get? spec.path) ((orig i).get? spec.path)) ∧
      ∀ i path, (spec.IsCut group.parallelSpec.sp → path ≠ spec.path) →
        (later i).get? path = (values i).get? path := by
  by_cases hcut : spec.IsCut group.parallelSpec.sp
  · have hcuts := ShardSpec.cutFields hcut hfields
    have hn := hcut.2.ne'
    rcases hstored hcut with hnone | ⟨full, hshape, hfull⟩
    · refine ⟨values, materializeField_missing hn hcuts spRankOf_zero fun i => (hnone i).2,
        fun _ i => SameFields.refl_at ((hnone i).2.trans (hnone i).1.symm), fun _ _ _ => rfl⟩
    · choose horig field pieces hfield hread hpiece using hfull
      have hpieces : ∀ i, PieceOf full (fields i) (pieces i) :=
        fun i => Except.ok.inj ((hfield i).symm.trans (hfields i)) ▸ hpiece i
      obtain ⟨later, hruns, hsame, hother⟩ := @materializeField_pieces α _ artifact blank _ _ _ _ _ _
        _ _ _ hn hcuts spRankOf_zero hshape hread hpieces
      exact ⟨later, hruns, fun _ i => horig i ▸ hsame i, fun i path hne => hother i path (hne hcut)⟩
  · exact ⟨values, .ended fun i => materializeField_plain (spec.plain hcut (hfields i)) _ _,
      fun h => absurd h hcut, fun _ _ _ => rfl⟩

/-- The first SP group gets back what it stored. -/
theorem materializeFields_restores {specs : List ShardSpec}
    {tensors : Fin group.parallelSpec.sp → List TensorFieldLayout}
    {orig values : Fin group.parallelSpec.sp → FieldValues α}
    (hdescribed : SpDescribed group 0 specs tensors) (hpaths : (specs.map (·.path)).Nodup)
    (hstored : ∀ spec ∈ specs, spec.IsCut group.parallelSpec.sp → CutAt group 0 spec orig values) :
    ∃ restored : Fin group.parallelSpec.sp → FieldValues α,
      (Runs (fun i => materializeFields blank artifact (spRankOf group 0 i) (tensors i) (values i))
        fun i => .ok (restored i)) ∧
      (∀ spec ∈ specs, spec.IsCut group.parallelSpec.sp → ∀ i,
        Option.Rel FieldValue.Same ((restored i).get? spec.path) ((orig i).get? spec.path)) ∧
      ∀ i path, (∀ spec ∈ specs, spec.IsCut group.parallelSpec.sp → path ≠ spec.path) →
        (restored i).get? path = (values i).get? path := by
  induction specs generalizing tensors values with
  | nil =>
    rw [hdescribed.nil]
    exact ⟨values, .done values, by simp, fun _ _ _ => rfl⟩
  | cons spec specs ih =>
    obtain ⟨fields, rest, rfl, hfields, hrest⟩ := hdescribed.cons
    obtain ⟨hnot, hpaths⟩ := List.nodup_cons.mp hpaths
    have hne : ∀ other ∈ specs, other.path ≠ spec.path :=
      fun other hmem heq => hnot (List.mem_map.mpr ⟨other, hmem, heq⟩)
    obtain ⟨later, hruns, hsame, hother⟩ := @materializeField_cut α group artifact blank _ _ _ _
      hfields (hstored spec (List.mem_cons_self ..))
    obtain ⟨restored, hrestored, hsames, hothers⟩ := ih hrest hpaths fun other hmem hother' =>
      (hstored other (List.mem_cons_of_mem _ hmem) hother').congr (fun _ => rfl) fun i =>
        hother i _ fun _ => hne other hmem
    refine ⟨restored, hruns.bind hrestored, fun other hmem hother' i => ?_, fun i path hpath => ?_⟩
    · rcases List.mem_cons.mp hmem with rfl | hmem
      · rw [hothers i _ fun spec' hmem' _ => (hne spec' hmem').symm]
        exact hsame hother' i
      · exact hsames other hmem hother' i
    · exact (hothers i path fun other hmem => hpath other (List.mem_cons_of_mem _ hmem)).trans
        (hother i path (hpath spec (List.mem_cons_self ..)))

-- ---------------------------------------------------------------------------
-- Beyond the SP ranks
-- ---------------------------------------------------------------------------

theorem materializeFields_plain {specs : List ShardSpec}
    {tensors : Fin group.parallelSpec.sp → List TensorFieldLayout}
    (hnone : ∀ spec ∈ specs, ¬ spec.IsCut group.parallelSpec.sp)
    (hdescribed : SpDescribed group cfgRank specs tensors)
    (values : Fin group.parallelSpec.sp → FieldValues α) :
    Runs (fun i => materializeFields blank artifact (spRankOf group cfgRank i) (tensors i) (values i))
      fun i => .ok (values i) := by
  induction specs generalizing tensors with
  | nil =>
    rw [hdescribed.nil]
    exact .done values
  | cons spec specs ih =>
    obtain ⟨fields, rest, rfl, hfields, hrest⟩ := hdescribed.cons
    obtain ⟨hspec, hnone⟩ := List.forall_mem_cons.mp hnone
    exact Runs.bind (.ended fun i => materializeField_plain (spec.plain hspec (hfields i)) _ _)
      (ih hnone hrest)

/-- In any other SP group the first field that is cut raises. -/
theorem materializeFields_short {specs : List ShardSpec}
    {tensors : Fin group.parallelSpec.sp → List TensorFieldLayout}
    {values : Fin group.parallelSpec.sp → FieldValues α} (hcfg : cfgRank ≠ 0)
    (hdescribed : SpDescribed group cfgRank specs tensors)
    (hread : ∀ spec ∈ specs, spec.IsCut group.parallelSpec.sp →
      ∀ i, ∃ held, (values i).get? spec.path = some held)
    (hcut : ∃ spec ∈ specs, spec.IsCut group.parallelSpec.sp) :
    Runs (fun i => materializeFields blank artifact (spRankOf group cfgRank i) (tensors i) (values i))
      fun _ => .error (.indexError "list index out of range") := by
  induction specs generalizing tensors with
  | nil =>
    obtain ⟨spec, hmem, -⟩ := hcut
    cases hmem
  | cons spec specs ih =>
    obtain ⟨fields, rest, rfl, hfields, hrest⟩ := hdescribed.cons
    by_cases hspec : spec.IsCut group.parallelSpec.sp
    · choose held hheld using hread spec (List.mem_cons_self ..) hspec
      exact (materializeField_short hspec.2.ne' (ShardSpec.cutFields hspec hfields) hheld
        (le_spRankOf hcfg)).bind_raise
    · obtain ⟨other, hmem, hother⟩ := hcut
      have hmem := (List.mem_cons.mp hmem).resolve_left fun heq => hspec (heq ▸ hother)
      exact Runs.bind
        (.ended fun i => materializeField_plain (spec.plain hspec (hfields i)) _ (values i))
        (ih hrest (fun other hmem => hread other (List.mem_cons_of_mem _ hmem)) ⟨other, hmem, hother⟩)

-- ---------------------------------------------------------------------------
-- The round trip
-- ---------------------------------------------------------------------------

def Declares (specs : List ShardSpec) (group : ExecutionGroupSpec)
    (describeOutput : Nat → Except PyError OutputArtifactLayout) : Prop :=
  ∀ groupRank < group.ranks.length, ∃ layout, describeOutput groupRank = .ok layout ∧
    List.Forall₂ (fun spec field => spec.field group groupRank = .ok field) specs layout.tensors

theorem Declares.described {specs : List ShardSpec}
    {describeOutput : Nat → Except PyError OutputArtifactLayout}
    (h : Declares specs group describeOutput)
    (hcfg : (cfgRank + 1) * group.parallelSpec.sp ≤ group.ranks.length) :
    ∃ layouts : Fin group.parallelSpec.sp → OutputArtifactLayout,
      (∀ i, describeOutput (spRankOf group cfgRank i) = .ok (layouts i)) ∧
      SpDescribed group cfgRank specs fun i => (layouts i).tensors := by
  have hlt : ∀ i : Fin group.parallelSpec.sp, spRankOf group cfgRank i < group.ranks.length := by
    intro i
    have := i.isLt
    rw [Nat.succ_mul] at hcfg
    unfold spRankOf
    omega
  choose layouts hok hfields using fun i => h _ (hlt i)
  exact ⟨layouts, hok, hfields⟩

theorem shardOutputArtifact_eq {describeOutput : Nat → Except PyError OutputArtifactLayout}
    (hcodec : artifact.hasCodec = true) {groupRank : Nat} {layout : OutputArtifactLayout}
    (h : describeOutput groupRank = .ok layout) (value : FieldValues α) :
    shardOutputArtifact describeOutput artifact groupRank value =
      shardFields artifact layout.tensors value := by
  rw [shardOutputArtifact, if_pos hcodec, h]
  rfl

theorem materializeInputArtifact_eq {describeOutput : Nat → Except PyError OutputArtifactLayout}
    (hcodec : artifact.hasCodec = true)
    {layouts : Fin group.parallelSpec.sp → OutputArtifactLayout}
    (h : ∀ i, describeOutput (spRankOf group cfgRank i) = .ok (layouts i))
    (values : Fin group.parallelSpec.sp → FieldValues α) :
    (fun i => (materializeInputArtifact blank describeOutput artifact (spRankOf group cfgRank i)
      (values i) : SpRank group.parallelSpec.sp α _)) = fun i =>
        materializeFields blank artifact (spRankOf group cfgRank i) (layouts i).tensors (values i) := by
  funext i
  rw [materializeInputArtifact, if_pos hcodec, h i]
  rfl

end Group

-- ---------------------------------------------------------------------------
-- Two SP ranks
-- ---------------------------------------------------------------------------

def rowsSpec : ShardSpec := ⟨["latents"], "torch.float32", [3, 2], some 0⟩

def rowsTensor : Tensor Nat := ⟨[3, 2], "torch.float32", List.sum⟩

theorem smallHandle_hasCodec : smallHandle.hasCodec = true := rfl

def describeRows (groupRank : Nat) : Except PyError OutputArtifactLayout := do
  let tensors ← [rowsSpec].mapM fun spec => spec.field (smallGroup "g" 0 1) groupRank
  pure ⟨smallHandle, tensors, smallHandle_hasCodec⟩

theorem describeRows_declares : Declares [rowsSpec] (smallGroup "g" 0 1) describeRows := by
  intro groupRank hlt
  have hfields : ∃ tensors, ([rowsSpec].mapM fun spec =>
      spec.field (smallGroup "g" 0 1) groupRank) = .ok tensors := by
    have hrank : groupRank = 0 ∨ groupRank = 1 := by
      have : (smallGroup "g" 0 1).ranks.length = 2 := rfl
      omega
    rcases hrank with rfl | rfl
    · exact ⟨_, rfl⟩
    · exact ⟨_, rfl⟩
  obtain ⟨tensors, hfields⟩ := hfields
  refine ⟨⟨smallHandle, tensors, smallHandle_hasCodec⟩, ?_, Except.forall₂_of_mapM hfields⟩
  rw [describeRows, hfields]
  rfl

def wholeRows (_ : Fin 2) : FieldValues Nat :=
  (∅ : FieldValues Nat).set ["latents"] (.tensor rowsTensor)

theorem wholeRows_whole : ∀ spec ∈ [rowsSpec], spec.IsCut 2 → spec.Whole wholeRows := by
  intro spec hmem _
  rw [List.mem_singleton.mp hmem]
  exact .inr ⟨rowsTensor, rfl, rfl, fun _ => rfl⟩

end GfDit
