import GfDit.DataPlane.JoinShards

/-!
# An SP group materializes a field

All ranks learn the same statuses, so they go the same way: they all raise,
all leave the field or all gather it. A group rank beyond the size of the SP
group finds no status of its own.
-/

namespace GfDit

open Collective (Member Runs EndsAlike)
open ShardedFieldStatus

variable {α : Type} {n : Nat} {path : FieldPath} {dtype : String} {shape : List Nat} {dim : Nat}
  {fields : Fin n → TensorFieldLayout} {blank : Blank α} {artifact : ArtifactHandle}

-- ---------------------------------------------------------------------------
-- Statuses
-- ---------------------------------------------------------------------------

/-- What all ranks learn. -/
def statusesOf (held : Fin n → FieldValue α) (fields : Fin n → TensorFieldLayout) :
    List ShardedFieldStatus := List.ofFn fun i => classifyShardedFieldTensor (held i) (fields i)

theorem gatherShardedFieldStatus_runs (hn : n ≠ 1) (held : Fin n → FieldValue α)
    (fields : Fin n → TensorFieldLayout) :
    Runs (fun i => (gatherShardedFieldStatus (held i) (fields i) : SpRank n α _))
      fun _ => .ok (statusesOf held fields) := by
  refine .gather .status (fun i => classifyShardedFieldTensor (held i) (fields i))
    (fun _ all => .done (List.ofFn all)) (fun i => ?_) (.done _)
  simp only [gatherShardedFieldStatus, hn, if_false]

def Skips (statuses : List ShardedFieldStatus) : Prop :=
  (∀ status ∈ statuses, status = fieldMissing) ∨ ∀ status ∈ statuses, status = fieldGlobal

theorem validate_skips {field : TensorFieldLayout} {statuses : List ShardedFieldStatus}
    (h : Skips statuses) (localStatus : ShardedFieldStatus) (held : FieldValue α) :
    validateShardedFieldStatus artifact field localStatus statuses held = .ok false := by
  unfold validateShardedFieldStatus
  split
  · rfl
  · next hpresent =>
    have hglobal := h.resolve_left hpresent
    have hvalid : fieldInvalid ∉ statuses := fun hmem => absurd (hglobal _ hmem) (by decide)
    rw [if_neg hvalid, if_pos hglobal]
    rfl

theorem validate_local {field : TensorFieldLayout} {statuses : List ShardedFieldStatus}
    (hne : statuses ≠ []) (h : ∀ status ∈ statuses, status = fieldLocal)
    (localStatus : ShardedFieldStatus) (held : FieldValue α) :
    validateShardedFieldStatus artifact field localStatus statuses held = .ok true := by
  obtain ⟨status, hmem⟩ := List.exists_mem_of_ne_nil statuses hne
  have hlocal := h status hmem
  have hother : ∀ other, other ≠ fieldLocal → ¬ ∀ status ∈ statuses, status = other :=
    fun other hne hall => hne ((hall status hmem).symm.trans hlocal)
  have hvalid : fieldInvalid ∉ statuses := fun hmem => absurd (h _ hmem) (by decide)
  unfold validateShardedFieldStatus
  rw [if_neg (hother _ (by decide)), if_neg hvalid, if_neg (hother _ (by decide)), if_pos h]
  rfl

theorem validate_error {field : TensorFieldLayout} {statuses : List ShardedFieldStatus}
    (hskips : ¬ Skips statuses) (hlocal : ¬ ∀ status ∈ statuses, status = fieldLocal)
    (localStatus : ShardedFieldStatus) (held : FieldValue α) :
    ∃ e, validateShardedFieldStatus artifact field localStatus statuses held = .error e := by
  obtain ⟨hmissing, hglobal⟩ := not_or.mp hskips
  unfold validateShardedFieldStatus
  rw [if_neg hmissing, if_neg hglobal, if_neg hlocal]
  split
  · cases held <;> exact ⟨_, rfl⟩
  · exact ⟨_, rfl⟩

-- ---------------------------------------------------------------------------
-- Gathering
-- ---------------------------------------------------------------------------

def joined (blank : Blank α) (shape : List Nat) (dim : Nat) (fields : Fin n → TensorFieldLayout)
    (tensors : Fin n → Tensor α) (i : Fin n) : Tensor α :=
  let maxLen := (List.ofFn (cutLengths shape dim n)).foldl max 0
  joinShards blank (fields i) dim (padShard blank dim maxLen (tensors i)) (cutLengths shape dim n)
    fun j => padShard blank dim maxLen (tensors j)

theorem allGatherShardedTensor_runs (hn : n ≠ 1) (hcut : CutFields path dtype shape dim fields)
    {tensors : Fin n → Tensor α} (hshape : ∀ i, (tensors i).shape = (fields i).localShape) :
    Runs (fun i => (allGatherShardedTensor blank (tensors i) (fields i) : SpRank n α _))
      fun i => .ok (joined blank shape dim fields tensors i) := by
  have hlocal : ∀ i, (tensors i).shape = shape.set dim (cutLengths shape dim n i) :=
    fun i => (hshape i).trans (hcut.localShape i)
  have hlength : (fun i => (tensors i).shape.getD dim 0) = cutLengths shape dim n := by
    funext i
    rw [hlocal, getD_set_self hcut.dim_lt]
  have hdim : ∀ i, ¬ dim ≥ (tensors i).shape.length := by
    intro i
    rw [hlocal, List.length_set]
    exact Nat.not_le.mpr hcut.dim_lt
  let maxLen (lengths : Fin n → Nat) := (List.ofFn lengths).foldl max 0
  -- The lengths, then the padded shards.
  refine .gather .length (fun i => (tensors i).shape.getD dim 0)
    (fun i lengths => .gather .shard (padShard blank dim (maxLen lengths) (tensors i))
      fun gathered =>
        let full := joinShards blank (fields i) dim (padShard blank dim (maxLen lengths) (tensors i))
          lengths gathered
        if full.shape ≠ (fields i).globalShape then
          .raise (.runtimeError <| "runtime_v2 sharded gather produced wrong shape: field_path=" ++
            strTuple (fields i).fieldPath ++ ", got=" ++ natTuple full.shape ++ ", expected=" ++
            natTuple (fields i).globalShape)
        else .done full) (fun i => ?_) ?_
  · simp only [allGatherShardedTensor, hcut.layout i, hn, if_false, hdim i]
    rfl
  refine .gather .shard _ _ (fun i => rfl) (.ended fun i => ?_)
  rw [hlength]
  have hpadded : (padShard blank dim (maxLen (cutLengths shape dim n)) (tensors i)).shape =
      shape.set dim (maxLen (cutLengths shape dim n)) := by
    rw [padShard, hlocal, List.set_set]
  have hfull := @joinShards_shape α n shape dim blank _
    (fun j => padShard blank dim (maxLen (cutLengths shape dim n)) (tensors j)) _ _ i.pos hcut.dim_lt
    (hcut.globalShape i) hpadded
  dsimp only
  rw [if_neg (not_not.mpr (hfull.trans (hcut.globalShape i).symm))]
  rfl

-- ---------------------------------------------------------------------------
-- One field
-- ---------------------------------------------------------------------------

variable {ranks : Fin n → Nat} {values : Fin n → FieldValues α} {held : Fin n → FieldValue α}

theorem length_statusesOf (held : Fin n → FieldValue α) (fields : Fin n → TensorFieldLayout) :
    (statusesOf held fields).length = n := List.length_ofFn

theorem mem_statusesOf {status : ShardedFieldStatus} : status ∈ statusesOf held fields ↔
    ∃ i, classifyShardedFieldTensor (held i) (fields i) = status := List.mem_ofFn

theorem materializeField_read (hcut : CutFields path dtype shape dim fields) (i : Fin n)
    {held : FieldValue α} (hread : (values i).get? path = some held) (groupRank : Nat) :
    (materializeField blank artifact groupRank (fields i) (values i) : SpRank n α _) =
      (gatherShardedFieldStatus held (fields i)).bind
        (fillField blank artifact groupRank (fields i) (values i) held) := by
  have hfound : (values i).readField (fields i).fieldPath = .ok held := by
    rw [FieldValues.readField, hcut.path i, hread]
    rfl
  simp only [materializeField, hcut.layout i, hfound]

theorem materializeField_unread (hcut : CutFields path dtype shape dim fields) (i : Fin n)
    (hread : (values i).get? path = none) (groupRank : Nat) :
    (materializeField blank artifact groupRank (fields i) (values i) : SpRank n α _) =
      .raise (.attributeError (strTuple path)) := by
  have hmissing : (values i).readField (fields i).fieldPath =
      .error (.attributeError (strTuple path)) := by
    rw [FieldValues.readField, hcut.path i, hread]
    rfl
  simp only [materializeField, hcut.layout i, hmissing]

theorem materializeField_waits (hn : n ≠ 1) (hcut : CutFields path dtype shape dim fields)
    (i : Fin n) {held : FieldValue α} (hread : (values i).get? path = some held) (groupRank : Nat) :
    ∃ payload next, (materializeField blank artifact groupRank (fields i) (values i) :
      SpRank n α _) = .gather .status payload next := by
  rw [materializeField_read hcut i hread]
  simp only [gatherShardedFieldStatus, hn, if_false]
  exact ⟨_, _, rfl⟩

/-- After the statuses everything is up to them. -/
theorem materializeField_runs (hn : n ≠ 1) (hcut : CutFields path dtype shape dim fields)
    (hread : ∀ i, (values i).get? path = some (held i))
    {results : Fin n → Except PyError (FieldValues α)}
    (hfill : Runs (fun i => fillField blank artifact (ranks i) (fields i) (values i) (held i)
      (statusesOf held fields)) results) :
    Runs (fun i => materializeField blank artifact (ranks i) (fields i) (values i)) results := by
  have hsame : (fun i => (materializeField blank artifact (ranks i) (fields i) (values i) :
      SpRank n α _)) = fun i => (gatherShardedFieldStatus (held i) (fields i)).bind
        (fillField blank artifact (ranks i) (fields i) (values i) (held i)) :=
    funext fun i => materializeField_read hcut i (hread i) (ranks i)
  rw [hsame]
  exact (gatherShardedFieldStatus_runs hn held fields).bind hfill

theorem materializeField_short (hn : n ≠ 1) (hcut : CutFields path dtype shape dim fields)
    (hread : ∀ i, (values i).get? path = some (held i)) (hranks : ∀ i, n ≤ ranks i) :
    Runs (fun i => materializeField blank artifact (ranks i) (fields i) (values i))
      fun _ => .error (.indexError "list index out of range") := by
  refine materializeField_runs hn hcut hread (.ended fun i => ?_)
  have hnone : (statusesOf held fields)[ranks i]? = none := by
    rw [List.getElem?_eq_none_iff, length_statusesOf]
    exact hranks i
  simp only [fillField, hnone]
  rfl

theorem fillField_within {statuses : List ShardedFieldStatus} {groupRank : Nat}
    (h : groupRank < statuses.length) : ∃ localStatus, statuses[groupRank]? = some localStatus :=
  ⟨_, List.getElem?_eq_getElem h⟩

theorem materializeField_skips (hn : n ≠ 1) (hcut : CutFields path dtype shape dim fields)
    (hread : ∀ i, (values i).get? path = some (held i)) (hranks : ∀ i, ranks i < n)
    (hskips : Skips (statusesOf held fields)) :
    Runs (fun i => materializeField blank artifact (ranks i) (fields i) (values i))
      fun i => .ok (values i) := by
  refine materializeField_runs hn hcut hread (.ended fun i => ?_)
  obtain ⟨localStatus, hsome⟩ := fillField_within
    (lt_of_lt_of_eq (hranks i) (length_statusesOf held fields).symm)
  simp only [fillField, hsome, validate_skips hskips]
  rfl

theorem materializeField_raises (hn : n ≠ 1) (hcut : CutFields path dtype shape dim fields)
    (hread : ∀ i, (values i).get? path = some (held i)) (hranks : ∀ i, ranks i < n)
    (hskips : ¬ Skips (statusesOf held fields))
    (hlocal : ¬ ∀ status ∈ statusesOf held fields, status = fieldLocal) :
    ∃ errors : Fin n → PyError,
      Runs (fun i => materializeField blank artifact (ranks i) (fields i) (values i))
        fun i => .error (errors i) := by
  have hfill : ∀ i, ∃ e, fillField blank artifact (ranks i) (fields i) (values i) (held i)
      (statusesOf held fields) = (.raise e : SpRank n α _) := by
    intro i
    obtain ⟨localStatus, hsome⟩ := fillField_within
      (lt_of_lt_of_eq (hranks i) (length_statusesOf held fields).symm)
    obtain ⟨e, herror⟩ := @validate_error α artifact (fields i) _ hskips hlocal localStatus (held i)
    exact ⟨e, by simp only [fillField, hsome, herror]⟩
  choose errors herrors using hfill
  exact ⟨errors, materializeField_runs hn hcut hread (.ended fun i => herrors i)⟩

theorem materializeField_gathers (hn : n ≠ 1) (hcut : CutFields path dtype shape dim fields)
    {tensors : Fin n → Tensor α} (hread : ∀ i, (values i).get? path = some (.tensor (tensors i)))
    (hranks : ∀ i, ranks i < n) (hshape : ∀ i, (tensors i).shape = (fields i).localShape) :
    Runs (fun i => materializeField blank artifact (ranks i) (fields i) (values i)) fun i =>
      .ok ((values i).set path (.tensor (joined blank shape dim fields tensors i))) := by
  have hlocal : ∀ status ∈ statusesOf (fun i => .tensor (tensors i)) fields,
      status = fieldLocal := by
    intro status hmem
    obtain ⟨i, rfl⟩ := mem_statusesOf.mp hmem
    simp only [classifyShardedFieldTensor, hshape i, if_true]
  refine materializeField_runs hn hcut hread ?_
  have hfill : (fun i => (fillField blank artifact (ranks i) (fields i) (values i)
      (.tensor (tensors i)) (statusesOf (fun i => .tensor (tensors i)) fields) : SpRank n α _)) =
      fun i => (allGatherShardedTensor blank (tensors i) (fields i)).bind fun full =>
        .done ((values i).set path (.tensor full)) := by
    funext i
    have hlt := lt_of_lt_of_eq (hranks i)
      (length_statusesOf (fun i => FieldValue.tensor (tensors i)) fields).symm
    obtain ⟨localStatus, hsome⟩ := fillField_within hlt
    have hne : statusesOf (fun i => FieldValue.tensor (tensors i)) fields ≠ [] :=
      List.ne_nil_of_length_pos (Nat.zero_lt_of_lt hlt)
    simp only [fillField, hsome, validate_local hne hlocal, hcut.path i]
  rw [hfill]
  exact (allGatherShardedTensor_runs hn hcut hshape).bind (.done _)

theorem materializeField_cases (hn : n ≠ 1) (hcut : CutFields path dtype shape dim fields)
    (hread : ∀ i, (values i).get? path = some (held i)) (hranks : ∀ i, ranks i < n) :
    (∃ errors : Fin n → PyError,
      Runs (fun i => materializeField blank artifact (ranks i) (fields i) (values i))
        fun i => .error (errors i)) ∨
    ∃ later : Fin n → FieldValues α,
      (Runs (fun i => materializeField blank artifact (ranks i) (fields i) (values i))
        fun i => .ok (later i)) ∧
      ∀ i other, (values i).get? other ≠ none → (later i).get? other ≠ none := by
  by_cases hskips : Skips (statusesOf held fields)
  · exact .inr ⟨values, materializeField_skips hn hcut hread hranks hskips, fun _ _ h => h⟩
  · by_cases hlocal : ∀ status ∈ statusesOf held fields, status = fieldLocal
    · have htensor : ∀ i, ∃ tensor, held i = .tensor tensor ∧
          tensor.shape = (fields i).localShape := by
        intro i
        have hstatus := hlocal _ (mem_statusesOf.mpr ⟨i, rfl⟩)
        revert hstatus
        cases held i with
        | none => rintro ⟨⟩
        | other typeName => rintro ⟨⟩
        | tensor tensor =>
          intro hstatus
          refine ⟨tensor, rfl, ?_⟩
          by_contra hne
          simp only [classifyShardedFieldTensor, hne, if_false] at hstatus
          split at hstatus <;> cases hstatus
      choose tensors htensors hshape using htensor
      refine .inr ⟨_, materializeField_gathers hn hcut (fun i => (hread i).trans ?_) hranks hshape,
        fun i other hne => ?_⟩
      · rw [htensors i]
      · rw [Dict.get?_set]
        split
        · exact Option.some_ne_none _
        · exact hne
    · exact .inl (materializeField_raises hn hcut hread hranks hskips hlocal)

end GfDit
