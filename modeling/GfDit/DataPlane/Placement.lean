import GfDit.DataPlane.ScheduleLaws

/-!
# Placements and the sources they select

A placement says how the ranks of one side hold a field: each the whole
tensor, or each one balanced shard along a dimension, several ranks possibly
the same one. When every shard is held by some rank, the sources the builder
selects for a destination rank contain each global index exactly once.
-/

namespace GfDit

variable {path : FieldPath} {shape index : List Nat} {dtype : String} {ranks : List Rank}
  {entries : List FieldEntry}

inductive Placement
  | replicated
  | sharded (dim : Int) (worldSize : Nat) (shardOf : Rank → Nat)

def Placement.field (placement : Placement) (path : FieldPath) (shape : List Nat) (dtype : String)
    (rank : Rank) : Except PyError TensorFieldLayout :=
  match placement with
  | .replicated => replicatedTensorField path shape dtype
  | .sharded dim worldSize shardOf =>
    shardedTensorField path shape dtype dim worldSize (shardOf rank)

/-- The dimension exists and every rank holds one of the shards. -/
def Placement.Valid (shape : List Nat) (ranks : List Rank) : Placement → Prop
  | .replicated => True
  | .sharded dim worldSize shardOf =>
    DimExists dim shape ∧ ∀ rank ∈ ranks, shardOf rank < worldSize

/-- Every shard is held by some rank. -/
def Placement.Complete (ranks : List Rank) : Placement → Prop
  | .replicated => True
  | .sharded _ worldSize shardOf => ∀ i < worldSize, ∃ rank ∈ ranks, shardOf rank = i

def Placement.axes (shape : List Nat) (rank : Rank) : Placement → List Box.Axis
  | .replicated => Box.ofShape shape
  | .sharded dim worldSize shardOf => (Box.ofShape shape).set (shardDimOf dim shape)
      (shardAxis (shape.getD (shardDimOf dim shape) 0) worldSize (shardOf rank))

def Placement.layout (shape : List Nat) : Placement → TensorLayout
  | .replicated => .replicated
  | .sharded dim _ _ => .sharded (shardDimOf dim shape)

/-- How a group holds a sequence-parallel field: the ranks in the order of the
group, CFG replicas holding the same shards. -/
def spPlacement (group : ExecutionGroupSpec) (shardDim : Int) : Placement :=
  if group.parallelSpec.sp ≤ 1 then .replicated
  else .sharded shardDim group.parallelSpec.sp fun rank =>
    group.ranks.idxOf rank % group.parallelSpec.sp

theorem zip_set (as bs : List Nat) (dim a b : Nat) :
    (as.set dim a).zip (bs.set dim b) = (as.zip bs).set dim (a, b) := by
  induction as generalizing bs dim with
  | nil => simp
  | cons x as ih =>
    cases bs with
    | nil => simp
    | cons y bs =>
      cases dim with
      | zero => rfl
      | succ dim => simp [ih]

theorem zip_zero (shape : List Nat) : (shape.map fun _ => 0).zip shape = Box.ofShape shape := by
  induction shape with
  | nil => rfl
  | cons n shape ih => simpa [Box.ofShape] using ih

structure FieldOf (placement : Placement) (path : FieldPath) (shape : List Nat) (dtype : String)
    (rank : Rank) (field : TensorFieldLayout) : Prop where
  fieldPath : field.fieldPath = path
  fieldDtype : field.dtype = dtype
  globalShape : field.globalShape = shape
  layout : field.layout = placement.layout shape
  axes : field.axes = placement.axes shape rank

theorem Placement.field_ok {placement : Placement} (hp : path ≠ []) (hd : dtype ≠ "")
    (hv : placement.Valid shape ranks) (hr : rank ∈ ranks) :
    ∃ field, placement.field path shape dtype rank = .ok field ∧
      FieldOf placement path shape dtype rank field := by
  cases placement with
  | replicated =>
    exact ⟨_, replicatedTensorField_ok hp hd, rfl, rfl, rfl, rfl, zip_zero shape⟩
  | sharded dim worldSize shardOf =>
    refine ⟨_, shardedTensorField_ok hp hd hv.1 (hv.2 rank hr), rfl, rfl, rfl, rfl, ?_⟩
    simp only [TensorFieldLayout.axes, zip_set, zip_zero, Placement.axes, shardAxis]

theorem FieldOf.supported {placement : Placement} (h : FieldOf placement path shape dtype rank field) :
    layoutSupported field.layout = true := by
  rw [h.layout]
  cases placement <;> rfl

theorem FieldOf.sameTensor (hs : FieldOf src path shape dtype r srcField)
    (hd : FieldOf dst path shape dtype r' dstField) : SameTensor srcField dstField :=
  ⟨hs.fieldPath.trans hd.fieldPath.symm, hs.fieldDtype.trans hd.fieldDtype.symm,
    hs.globalShape.trans hd.globalShape.symm,
    hs.supported, hd.supported⟩

theorem FitsAxes.contains (h : FitsAxes os ns fulls) (hc : Box.Contains (os.zip ns) index) :
    Box.Contains (Box.ofShape fulls) index := by
  induction h generalizing index with
  | nil => exact hc
  | cons hle _ ih =>
    cases index with
    | nil => exact absurd hc Box.not_contains_cons_nil
    | cons i index =>
      obtain ⟨ha, hb⟩ := Box.contains_cons.mp hc
      have hlt := ha.2
      refine Box.contains_cons.mpr ⟨⟨Nat.zero_le _, ?_⟩, ih hb⟩
      simp only at hlt ⊢
      omega

theorem fitsAxes_shiftDown (h : Box.Within part whole) :
    FitsAxes (Box.shiftDown (whole.map Prod.fst) (part.map Prod.fst)) (part.map Prod.snd)
      (whole.map Prod.snd) := by
  induction h with
  | nil => exact .nil
  | cons hab _ ih =>
    obtain ⟨h1, h2⟩ := hab
    exact .cons (by dsimp only; omega) ih

-- ---------------------------------------------------------------------------
-- Selecting the sources
-- ---------------------------------------------------------------------------

structure Sources (placement : Placement) (path : FieldPath) (shape : List Nat) (dtype : String)
    (ranks : List Rank) (entries : List FieldEntry) : Prop where
  mem : ∀ entry ∈ entries, entry.1 ∈ ranks ∧ FieldOf placement path shape dtype entry.1 entry.2
  all : ∀ rank ∈ ranks, ∃ entry ∈ entries, entry.1 = rank

/-- What the deduplicating loop keeps true: a shard is stored under its key,
and every shard seen has an entry. -/
structure Deduped (seen : List FieldEntry) (deduped : Dict ShardKey FieldEntry) : Prop where
  stored : ∀ key entry, deduped.get? key = some entry → shardKey entry.2 = key ∧ entry ∈ seen
  covered : ∀ entry ∈ seen, (deduped.get? (shardKey entry.2)).isSome = true

theorem Deduped.set (h : Deduped seen deduped) (entry : FieldEntry) :
    Deduped (seen ++ [entry]) (deduped.set (shardKey entry.2) entry) := by
  constructor
  · intro key other hget
    rw [Dict.get?_set] at hget
    split at hget
    · cases hget
      exact ⟨‹_›, by simp⟩
    · obtain ⟨hk, hm⟩ := h.stored key other hget
      exact ⟨hk, List.mem_append_left _ hm⟩
  · intro other hm
    rw [Dict.get?_set]
    split
    · rfl
    · rename_i hne
      rcases List.mem_append.mp hm with hm | hm
      · exact h.covered other hm
      · rw [List.mem_singleton.mp hm] at hne
        exact absurd rfl hne

theorem Deduped.keep (h : Deduped seen deduped) {entry : FieldEntry}
    (hk : deduped.get? (shardKey entry.2) = some previous) :
    Deduped (seen ++ [entry]) deduped := by
  constructor
  · intro key other hget
    obtain ⟨hk, hm⟩ := h.stored key other hget
    exact ⟨hk, List.mem_append_left _ hm⟩
  · intro other hm
    rcases List.mem_append.mp hm with hm | hm
    · exact h.covered other hm
    · simp [List.mem_singleton.mp hm, hk]

theorem Deduped.step (h : Deduped seen deduped) (dstRank leader : Rank) (entry : FieldEntry) :
    Deduped (seen ++ [entry]) (dedupStep dstRank leader deduped entry) := by
  obtain ⟨rank, field⟩ := entry
  simp only [dedupStep]
  split
  · exact h.set (rank, field)
  · rename_i hk
    split
    · exact h.keep hk
    · split
      · exact h.set (rank, field)
      · exact h.keep hk

theorem Deduped.foldl (h : Deduped seen deduped) (dstRank leader : Rank)
    (entries : List FieldEntry) :
    Deduped (seen ++ entries) (entries.foldl (dedupStep dstRank leader) deduped) := by
  induction entries generalizing seen deduped with
  | nil => simpa using h
  | cons entry entries ih => simpa using ih (h.step dstRank leader entry)

theorem Deduped.values_nodup (h : Deduped seen deduped) : deduped.values.Nodup := by
  have hkeys : deduped.values.map (fun entry => shardKey entry.2) = deduped.keys := by
    simp only [Dict.values, Dict.keys, List.map_map]
    refine List.map_congr_left fun pair hm => ?_
    exact (h.stored pair.1 pair.2 (deduped.get?_eq_some.mpr hm)).1
  exact List.Nodup.of_map _ (hkeys ▸ deduped.keys_nodup)

theorem minRankEntry_mem (first : FieldEntry) (rest : List FieldEntry) :
    minRankEntry first rest ∈ first :: rest := by
  induction rest generalizing first with
  | nil => exact List.mem_cons_self ..
  | cons entry rest ih =>
    have hstep : minRankEntry first (entry :: rest) =
        minRankEntry (if entry.1 < first.1 then entry else first) rest := rfl
    rw [hstep]
    split
    · exact List.mem_cons_of_mem _ (ih entry)
    · rcases List.mem_cons.mp (ih first) with h | h
      · rw [h]
        exact List.mem_cons_self ..
      · exact List.mem_cons_of_mem _ (List.mem_cons_of_mem _ h)

theorem select_replicated (dstRank leader : Rank)
    (hne : entries.filter (·.2.layout.isReplicated) ≠ []) :
    ∃ entry ∈ entries.filter (·.2.layout.isReplicated),
      selectSourceFieldsForDst entries dstRank leader = [entry] := by
  unfold selectSourceFieldsForDst
  split
  · rename_i first rest hf
    rw [hf]
    simp only
    split
    · rename_i entry hs
      exact ⟨entry, List.mem_of_find?_eq_some hs, rfl⟩
    · split
      · rename_i entry hs
        exact ⟨entry, List.mem_of_find?_eq_some hs, rfl⟩
      · exact ⟨_, minRankEntry_mem first rest, rfl⟩
  · exact absurd ‹_› hne

theorem select_sharded (h : entries.filter (·.2.layout.isReplicated) = []) :
    (selectSourceFieldsForDst entries dstRank leader).Perm
      (entries.foldl (dedupStep dstRank leader) ∅).values := by
  unfold selectSourceFieldsForDst
  rw [h]
  exact List.perm_insertionSort _ _

theorem deduped_entries (entries : List FieldEntry) (dstRank leader : Rank) :
    Deduped entries (entries.foldl (dedupStep dstRank leader) ∅) := by
  have h0 : Deduped [] (∅ : Dict ShardKey FieldEntry) := ⟨by simp, by simp⟩
  simpa using h0.foldl dstRank leader entries

theorem select_subset (hm : entry ∈ selectSourceFieldsForDst entries dstRank leader) :
    entry ∈ entries := by
  by_cases hne : entries.filter (·.2.layout.isReplicated) = []
  · have hv := (select_sharded hne).mem_iff.mp hm
    obtain ⟨key, hk⟩ := Dict.exists_get?_of_mem_values hv
    exact ((deduped_entries entries dstRank leader).stored key entry hk).2
  · obtain ⟨e, he, hs⟩ := select_replicated dstRank leader hne
    rw [hs] at hm
    rw [List.mem_singleton.mp hm]
    exact (List.mem_filter.mp he).1

theorem coord_lt (h : dim < shape.length) (hc : Box.Contains (Box.ofShape shape) index) :
    index.getD dim 0 < shape.getD dim 0 := by
  induction shape generalizing index dim with
  | nil => simp at h
  | cons n shape ih =>
    cases index with
    | nil => exact absurd hc Box.not_contains_cons_nil
    | cons i index =>
      obtain ⟨ha, hb⟩ := Box.contains_cons.mp hc
      cases dim with
      | zero => simpa using ha.2
      | succ dim => simpa using ih (by simpa using h) hb

/-- Every global index lies in exactly one selected source. -/
theorem select_once (dstRank leader : Rank) (hs : Sources placement path shape dtype ranks entries)
    (hv : placement.Valid shape ranks) (hc : placement.Complete ranks) (hne : ranks ≠ [])
    (hx : Box.Contains (Box.ofShape shape) index) :
    ∃ entry ∈ entries, (selectSourceFieldsForDst entries dstRank leader).filter
      (fun e => Box.Contains e.2.axes index) = [entry] := by
  obtain ⟨rank0, hrank0⟩ := List.exists_mem_of_ne_nil ranks hne
  cases placement with
  | replicated =>
    have hall : ∀ e ∈ entries, e.2.layout.isReplicated = true := fun e he => by
      simp [(hs.mem e he).2.layout, Placement.layout, TensorLayout.isReplicated]
    obtain ⟨e0, he0, -⟩ := hs.all rank0 hrank0
    have hf : entries.filter (·.2.layout.isReplicated) ≠ [] :=
      List.ne_nil_of_mem (List.mem_filter.mpr ⟨he0, hall e0 he0⟩)
    obtain ⟨e, he, hsel⟩ := select_replicated dstRank leader hf
    have hem := (List.mem_filter.mp he).1
    refine ⟨e, hem, ?_⟩
    have hax : e.2.axes = Box.ofShape shape := (hs.mem e hem).2.axes
    rw [hsel]
    simp [hax, hx]
  | sharded dim worldSize shardOf =>
    obtain ⟨hdim, hlt⟩ := hv
    have hnone : entries.filter (·.2.layout.isReplicated) = [] :=
      List.filter_eq_nil_iff.mpr fun e he => by
        simp [(hs.mem e he).2.layout, Placement.layout, TensorLayout.isReplicated]
    have hd := deduped_entries entries dstRank leader
    have hw : 0 < worldSize := Nat.lt_of_le_of_lt (Nat.zero_le _) (hlt rank0 hrank0)
    have hlt' := shardDimOf_lt hdim
    have hlen : shardDimOf dim shape < (Box.ofShape shape).length := by
      simpa [Box.ofShape] using hlt'
    -- Containing the index is having the index's coordinate on the entry's shard.
    have hcontains : ∀ e ∈ entries, Box.Contains e.2.axes index ↔
        (shardAxis (shape.getD (shardDimOf dim shape) 0) worldSize (shardOf e.1)).Contains
          (index.getD (shardDimOf dim shape) 0) := by
      intro e he
      rw [(hs.mem e he).2.axes]
      exact Box.contains_set hx hlen
    have hcoord := coord_lt hlt' hx
    obtain ⟨i, hi, hic⟩ := exists_shard hw hcoord
    obtain ⟨rank, hrank, rfl⟩ := hc i hi
    obtain ⟨e0, he0, rfl⟩ := hs.all rank hrank
    -- The entry kept for that shard.
    obtain ⟨e, hget⟩ := Option.isSome_iff_exists.mp (hd.covered e0 he0)
    obtain ⟨hkey, hem⟩ := hd.stored _ _ hget
    have hkey_axes : ∀ {a b : FieldEntry}, shardKey a.2 = shardKey b.2 → a.2.axes = b.2.axes := by
      intro a b h
      simp only [shardKey, Prod.mk.injEq] at h
      simp [TensorFieldLayout.axes, h.1, h.2.1]
    have hec : Box.Contains e.2.axes index := by
      rw [hkey_axes hkey]
      exact (hcontains e0 he0).mpr hic
    refine ⟨e, hem, (select_sharded hnone).eq_singleton_of_filter ?_⟩
    refine List.filter_eq_singleton hd.values_nodup (Dict.mem_values_of_get? hget)
      (by simpa using hec) ?_
    -- Another kept entry containing the index is the same shard, so the same key.
    intro e' hv hc'
    obtain ⟨key, hk⟩ := Dict.exists_get?_of_mem_values hv
    obtain ⟨hkey', hem'⟩ := hd.stored _ _ hk
    have hsame : shardOf e'.1 = shardOf e.1 :=
      shard_unique ((hcontains e' hem').mp (by simpa using hc')) ((hcontains e hem).mp hec)
    have haxes : e'.2.axes = e.2.axes := by
      rw [(hs.mem e' hem').2.axes, (hs.mem e hem).2.axes]
      simp [Placement.axes, hsame]
    have hshard : shardKey e'.2 = shardKey e.2 := by
      simp only [shardKey, ← TensorFieldLayout.axes_fst, ← TensorFieldLayout.axes_snd, haxes,
        (hs.mem e' hem').2.globalShape, (hs.mem e hem).2.globalShape,
        (hs.mem e' hem').2.fieldDtype, (hs.mem e hem).2.fieldDtype]
    have : some e' = some e := by
      rw [← hk, ← hkey', hshard, hkey, hget]
    exact Option.some.inj this

end GfDit
