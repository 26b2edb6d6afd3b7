import GfDit.DataPlane.Execute
import GfDit.DataPlane.Placement

/-!
# The edges of one destination field

Where the slices of an edge lie, and what its writes store. Together the
edges the builder makes for a destination field store each of the field's
elements once, with the value the global tensor has there.
-/

namespace GfDit

variable {α : Type u} {view : TensorMigrationEdge → Tensor α}

-- ---------------------------------------------------------------------------
-- What one edge stores
-- ---------------------------------------------------------------------------

def writesAt (artifactId : String) (path : FieldPath) (index : List Nat)
    (writes : List (ElementWrite α)) : List α :=
  (writes.filter fun w => w.artifactId = artifactId ∧ w.fieldPath = path ∧ w.index = index).map
    (·.value)

theorem writesAt_flatMap (l : List β) (f : β → List (ElementWrite α)) :
    writesAt artifactId path index (l.flatMap f) =
      l.flatMap fun b => writesAt artifactId path index (f b) := by
  simp only [writesAt, List.filter_flatMap, List.map_flatMap]

theorem writesAt_perm {as bs : List (ElementWrite α)} (h : as.Perm bs)
    (hb : writesAt artifactId path index bs = [v]) : writesAt artifactId path index as = [v] :=
  List.perm_singleton.mp (hb ▸ (h.filter _).map _)

theorem writesAt_other (h : edge.artifactId ≠ artifactId ∨ edge.dstSlice.fieldPath ≠ path) :
    writesAt artifactId path index (edgeWrites view edge) = [] := by
  rw [writesAt, List.map_eq_nil_iff, List.filter_eq_nil_iff]
  intro w hw
  rw [edgeWrites, copyTensorSlice] at hw
  split at hw
  · cases hw
  · obtain ⟨_, _, rfl⟩ := List.mem_map.mp hw
    rcases h with h | h <;> simp [h]

theorem EdgeOf.within (h : EdgeOf artifactId rank dstField source common edge)
    (hs : source.2.globalShape = dstField.globalShape) :
    Box.Within common source.2.axes ∧ Box.Within common dstField.axes := by
  refine Box.inter_within h.inter ?_
  rw [source.2.axes_length, dstField.axes_length, hs]

theorem EdgeOf.fits (h : EdgeOf artifactId rank dstField source common edge)
    (hs : source.2.globalShape = dstField.globalShape) :
    FitsAxes edge.srcSlice.offset edge.srcSlice.shape source.2.localShape ∧
      FitsAxes edge.dstSlice.offset edge.dstSlice.shape dstField.localShape := by
  obtain ⟨hsrc, hdst⟩ := h.within hs
  rw [← edge.shape_eq, h.srcOffset, h.dstOffset, h.srcShape]
  have h1 := fitsAxes_shiftDown hsrc
  have h2 := fitsAxes_shiftDown hdst
  rw [source.2.axes_fst, source.2.axes_snd] at h1
  rw [dstField.axes_fst, dstField.axes_snd] at h2
  exact ⟨h1, h2⟩

theorem contains_global {field : TensorFieldLayout} (h : index ∈ Box.indices field.localShape) :
    Box.Contains field.axes (Box.shiftUp field.globalOffset index) ∧
      field.globalOffset.length = index.length := by
  have hc : Box.Contains (Box.ofShape (field.axes.map Prod.snd)) index := by
    rw [field.axes_snd]
    exact Box.mem_indices.mp h
  obtain ⟨h1, h2⟩ := (Box.contains_shiftUp field.axes index).mpr hc
  rw [field.axes_fst] at h1
  rw [field.axes_length, ← field.rank_offset] at h2
  exact ⟨h1, h2⟩

/-- The elements of an edge's slice are those of the overlap, and each lies at
its place in the global tensor. -/
theorem EdgeOf.place (h : EdgeOf artifactId rank dstField source common edge)
    (hs : source.2.globalShape = dstField.globalShape) (idx : List Nat) :
    Box.shiftUp source.2.globalOffset (Box.shiftUp edge.srcSlice.offset idx) =
        Box.shiftUp (common.map Prod.fst) idx ∧
      Box.shiftUp dstField.globalOffset (Box.shiftUp edge.dstSlice.offset idx) =
        Box.shiftUp (common.map Prod.fst) idx := by
  obtain ⟨hsrc, hdst⟩ := h.within hs
  rw [h.srcOffset, h.dstOffset, ← source.2.axes_fst, ← dstField.axes_fst]
  exact ⟨Box.shiftUp_within hsrc idx, Box.shiftUp_within hdst idx⟩

theorem EdgeOf.mem_slice (h : EdgeOf artifactId rank dstField source common edge)
    {idx : List Nat} : idx ∈ Box.indices edge.srcSlice.shape ↔
      Box.Contains common (Box.shiftUp (common.map Prod.fst) idx) ∧ common.length = idx.length := by
  rw [Box.mem_indices, h.srcShape]
  exact (Box.contains_shiftUp common idx).symm

theorem EdgeOf.edgeWrites_eq (h : EdgeOf artifactId rank dstField source common edge) :
    edgeWrites view edge = (Box.indices edge.srcSlice.shape).map fun idx =>
      { artifactId, fieldPath := dstField.fieldPath
        index := Box.shiftUp edge.dstSlice.offset idx, value := (view edge).data idx } := by
  have hpos : ¬ (edge.dstSlice.shape.any (· = 0)) = true := by
    rw [← edge.shape_eq, h.srcShape]
    exact inter_any_zero h.inter
  rw [edgeWrites, copyTensorSlice, if_neg hpos, edge.shape_eq, h.artifact, h.dstPath]

/-- At an element of its field an edge stores the one value its source has
there, when the source has it. -/
theorem EdgeOf.writesAt_eq (h : EdgeOf artifactId rank dstField source common edge)
    (hs : source.2.globalShape = dstField.globalShape) {global : List Nat → α}
    (hview : ∀ idx ∈ Box.indices edge.srcSlice.shape, (view edge).data idx =
      global (Box.shiftUp source.2.globalOffset (Box.shiftUp edge.srcSlice.offset idx)))
    (hi : index ∈ Box.indices dstField.localShape) :
    writesAt artifactId dstField.fieldPath index (edgeWrites view edge) =
      if Box.Contains source.2.axes (Box.shiftUp dstField.globalOffset index) then
        [global (Box.shiftUp dstField.globalOffset index)] else [] := by
  obtain ⟨hg, hlen⟩ := contains_global hi
  have hcommon : Box.Contains common (Box.shiftUp dstField.globalOffset index) ↔
      Box.Contains source.2.axes (Box.shiftUp dstField.globalOffset index) := by
    rw [Box.contains_inter h.inter (by rw [source.2.axes_length, dstField.axes_length, hs])]
    exact ⟨fun hc => hc.1, fun hc => ⟨hc, hg⟩⟩
  -- A slice element is stored at `index` when both are the same global index.
  have hat : ∀ idx ∈ Box.indices edge.srcSlice.shape,
      Box.shiftUp edge.dstSlice.offset idx = index ↔
        Box.shiftUp (common.map Prod.fst) idx = Box.shiftUp dstField.globalOffset index := by
    intro idx hidx
    rw [← (h.place hs idx).2]
    refine ⟨fun e => by rw [e], Box.shiftUp_inj ?_ hlen⟩
    have h1 := (h.fits hs).2.length
    have h2 := (Box.mem_indices.mp hidx).length
    simp only [Box.ofShape, List.length_map, edge.shape_eq] at h2
    simp only [Box.shiftUp, List.length_zipWith, dstField.rank_offset, ← dstField.rank_local]
    omega
  have hfilter : writesAt artifactId dstField.fieldPath index (edgeWrites view edge) =
      ((Box.indices edge.srcSlice.shape).filter fun idx =>
        Box.shiftUp (common.map Prod.fst) idx = Box.shiftUp dstField.globalOffset index).map
        (view edge).data := by
    rw [h.edgeWrites_eq, writesAt, List.filter_map, List.map_map]
    congr 1
    refine List.filter_congr fun idx hidx => ?_
    simp [hat idx hidx]
  rw [hfilter]
  split
  · rename_i hc
    have hin := hcommon.mpr hc
    have hup := Box.shiftUp_shiftDown hin
    have hmem : Box.shiftDown (common.map Prod.fst) (Box.shiftUp dstField.globalOffset index) ∈
        Box.indices edge.srcSlice.shape := by
      refine h.mem_slice.mpr ⟨by rwa [hup], ?_⟩
      simp [Box.shiftDown, hin.length]
    rw [List.filter_eq_singleton (Box.indices_nodup _) hmem (by simpa using hup)]
    · rw [List.map_singleton, hview _ hmem, (h.place hs _).1, hup]
    · intro idx hidx he
      refine Box.shiftUp_inj ?_ ?_ ((of_decide_eq_true he).trans hup.symm)
      · simpa using (h.mem_slice.mp hidx).2
      · simpa using (h.mem_slice.mp hmem).2
  · rename_i hc
    rw [List.filter_eq_nil_iff.mpr, List.map_nil]
    intro idx hidx he
    refine hc (hcommon.mp ?_)
    rw [← of_decide_eq_true he]
    exact (h.mem_slice.mp hidx).1

-- ---------------------------------------------------------------------------
-- The edges of one destination field
-- ---------------------------------------------------------------------------

section Field

variable {src dst : Placement} {path : FieldPath} {shape : List Nat} {dtype : String}
  {ranks : List Rank} {entries : List FieldEntry} {artifactId : String} {dstRank leader : Rank}
  {dstField : TensorFieldLayout}

def sourceEdge (artifactId : String) (dstRank : Rank) (dstField : TensorFieldLayout)
    (source : FieldEntry) : Option TensorMigrationEdge :=
  (edgeFor artifactId dstRank dstField source).okD none

def fieldEdges (artifactId : String) (leader : Rank) (entries : List FieldEntry) (dstRank : Rank)
    (dstField : TensorFieldLayout) : List TensorMigrationEdge :=
  (selectSourceFieldsForDst entries dstRank leader).filterMap
    (sourceEdge artifactId dstRank dstField)

theorem sourceEdge_cases (dstRank : Rank) (h : SameTensor source.2 dstField) (ha : artifactId ≠ "") :
    edgeFor artifactId dstRank dstField source =
        .ok (sourceEdge artifactId dstRank dstField source) ∧
      (Box.inter source.2.axes dstField.axes = none ∧
          sourceEdge artifactId dstRank dstField source = none ∨
        ∃ common edge, sourceEdge artifactId dstRank dstField source = some edge ∧
          EdgeOf artifactId dstRank dstField source common edge) := by
  cases hi : Box.inter source.2.axes dstField.axes with
  | none =>
    have he := edgeFor_none artifactId dstRank h hi
    have hs : sourceEdge artifactId dstRank dstField source = none := by simp [sourceEdge, he, Except.okD]
    exact ⟨by rw [hs, he], .inl ⟨rfl, hs⟩⟩
  | some common =>
    obtain ⟨edge, he, hof⟩ := edgeFor_some dstRank h ha hi
    have hs : sourceEdge artifactId dstRank dstField source = some edge := by
      simp [sourceEdge, he, Except.okD]
    exact ⟨by rw [hs, he], .inr ⟨common, edge, hs, hof⟩⟩

theorem Sources.sameTensor (hs : Sources src path shape dtype ranks entries)
    (hd : FieldOf dst path shape dtype dstRank dstField)
    (hm : source ∈ selectSourceFieldsForDst entries dstRank leader) :
    SameTensor source.2 dstField := (hs.mem source (select_subset hm)).2.sameTensor hd

theorem edgeOf_of_mem (hs : Sources src path shape dtype ranks entries)
    (hd : FieldOf dst path shape dtype dstRank dstField) (ha : artifactId ≠ "")
    (hm : edge ∈ fieldEdges artifactId leader entries dstRank dstField) :
    ∃ source ∈ entries, ∃ common, EdgeOf artifactId dstRank dstField source common edge := by
  obtain ⟨source, hsel, he⟩ := List.mem_filterMap.mp hm
  obtain ⟨-, ⟨-, hn⟩ | ⟨common, edge', he', hof⟩⟩ :=
    sourceEdge_cases dstRank (hs.sameTensor hd hsel) ha
  · rw [hn] at he
    cases he
  · rw [he'] at he
    cases he
    exact ⟨source, select_subset hsel, common, hof⟩

/-- The edges of a field store each of its elements once. -/
theorem fieldEdges_writesAt (view : TensorMigrationEdge → Tensor α) (hs : Sources src path shape dtype ranks entries)
    (hv : src.Valid shape ranks) (hc : src.Complete ranks) (hne : ranks ≠ [])
    (hd : FieldOf dst path shape dtype dstRank dstField) (ha : artifactId ≠ "")
    (global : List Nat → α)
    (hview : ∀ source ∈ entries, ∀ common edge, EdgeOf artifactId dstRank dstField source common edge →
      edge ∈ fieldEdges artifactId leader entries dstRank dstField →
      ∀ idx ∈ Box.indices edge.srcSlice.shape, (view edge).data idx =
        global (Box.shiftUp source.2.globalOffset (Box.shiftUp edge.srcSlice.offset idx)))
    (hi : index ∈ Box.indices dstField.localShape) :
    writesAt artifactId dstField.fieldPath index
        ((fieldEdges artifactId leader entries dstRank dstField).flatMap (edgeWrites view)) =
      [global (Box.shiftUp dstField.globalOffset index)] := by
  obtain ⟨hg, -⟩ := contains_global hi
  have hshape : Box.Contains (Box.ofShape shape) (Box.shiftUp dstField.globalOffset index) :=
    hd.globalShape ▸ dstField.fits.contains hg
  obtain ⟨entry, -, hone⟩ :=
    select_once dstRank leader hs hv hc hne hshape
  -- Source by source, the writes are the values of the sources that have the index.
  have hsource : ∀ source ∈ selectSourceFieldsForDst entries dstRank leader,
      writesAt artifactId dstField.fieldPath index
          ((sourceEdge artifactId dstRank dstField source).toList.flatMap (edgeWrites view)) =
        if Box.Contains source.2.axes (Box.shiftUp dstField.globalOffset index) then
          [global (Box.shiftUp dstField.globalOffset index)] else [] := by
    intro source hsel
    have hsame := hs.sameTensor hd hsel
    obtain ⟨-, ⟨hn, he⟩ | ⟨common, edge, he, hof⟩⟩ :=
      sourceEdge_cases dstRank hsame ha
    · rw [he, if_neg fun hin => Box.inter_eq_none hn hin hg]
      rfl
    · have hmem : edge ∈ fieldEdges artifactId leader entries dstRank dstField :=
        List.mem_filterMap.mpr ⟨source, hsel, he⟩
      rw [he, Option.toList_some, List.flatMap_singleton]
      exact hof.writesAt_eq hsame.shape
        (hview source (select_subset hsel) common edge hof hmem) hi
  have hflat : (fieldEdges artifactId leader entries dstRank dstField).flatMap (edgeWrites view) =
      (selectSourceFieldsForDst entries dstRank leader).flatMap fun source =>
        (sourceEdge artifactId dstRank dstField source).toList.flatMap (edgeWrites view) := by
    rw [fieldEdges, List.filterMap_eq_flatMap_toList, List.flatMap_assoc]
  rw [hflat, writesAt_flatMap, List.flatMap_congr hsource]
  have := List.flatMap_filter (selectSourceFieldsForDst entries dstRank leader)
    (fun e => decide (Box.Contains e.2.axes (Box.shiftUp dstField.globalOffset index)))
    (fun _ => [global (Box.shiftUp dstField.globalOffset index)])
  simp only [decide_eq_true_eq] at this
  rw [← this, hone]
  rfl

theorem exists_index (h : 0 < tensorNumel shape) : ∃ index, index ∈ Box.indices shape := by
  have key : ∀ (shape : List Nat) (n : Nat), 0 < shape.foldl (· * ·) n →
      ∃ index, index ∈ Box.indices shape := by
    intro shape
    induction shape with
    | nil => exact fun _ _ => ⟨[], by simp [Box.indices]⟩
    | cons m shape ih =>
      intro n h
      obtain ⟨index, hi⟩ := ih (n * m) h
      have hm : 0 < m := by
        rcases Nat.eq_zero_or_pos m with rfl | hm
        · have hz : ∀ shape : List Nat, shape.foldl (· * ·) 0 = 0 := fun shape => by
            induction shape with
            | nil => rfl
            | cons k shape ih => simpa using ih
          simp [hz] at h
        · exact hm
      refine ⟨0 :: index, ?_⟩
      rw [Box.mem_indices] at hi ⊢
      exact Box.contains_cons.mpr ⟨⟨Nat.le_refl 0, by simpa using hm⟩, hi⟩
  exact key shape 1 h

theorem dstFieldEdges_ok {byPath : Dict FieldPath (List FieldEntry)}
    (hb : byPath.getD path [] = entries) (hs : Sources src path shape dtype ranks entries)
    (hv : src.Valid shape ranks) (hc : src.Complete ranks) (hne : ranks ≠ [])
    (hd : FieldOf dst path shape dtype dstRank dstField) (ha : artifactId ≠ "") :
    dstFieldEdges artifactId leader byPath dstRank dstField =
      .ok (fieldEdges artifactId leader entries dstRank dstField) := by
  have hentries : ¬ entries.isEmpty = true := by
    obtain ⟨rank, hr⟩ := List.exists_mem_of_ne_nil ranks hne
    obtain ⟨e, he, -⟩ := hs.all rank hr
    rw [List.isEmpty_iff]
    exact List.ne_nil_of_mem he
  have hmap : (selectSourceFieldsForDst entries dstRank leader).mapM
      (edgeFor artifactId dstRank dstField) =
      .ok ((selectSourceFieldsForDst entries dstRank leader).map
        (sourceEdge artifactId dstRank dstField)) :=
    Except.mapM_ok fun source hsel => (sourceEdge_cases dstRank (hs.sameTensor hd hsel) ha).1
  have hedges : ((selectSourceFieldsForDst entries dstRank leader).map
      (sourceEdge artifactId dstRank dstField)).filterMap id =
      fieldEdges artifactId leader entries dstRank dstField := by
    rw [List.filterMap_map]
    rfl
  -- A nonempty destination has an element, and some edge stores it.
  have hcover : ¬ ((fieldEdges artifactId leader entries dstRank dstField).isEmpty &&
      decide (0 < tensorNumel dstField.localShape)) = true := by
    intro h
    obtain ⟨hemp, hnum⟩ := Bool.and_eq_true_iff.mp h
    obtain ⟨index, hi⟩ := exists_index (of_decide_eq_true hnum)
    have hw := fieldEdges_writesAt (fun _ => (⟨[], "", fun _ => ()⟩ : Tensor Unit)) hs hv hc hne hd
      ha (fun _ => ()) (fun _ _ _ _ _ (_ : _ ∈ fieldEdges _ leader _ _ _) _ _ => rfl) hi
    rw [List.isEmpty_iff.mp hemp] at hw
    cases hw
  rw [dstFieldEdges, hd.fieldPath, hb, if_neg hentries]
  simp only [bind, Except.bind, hmap, hedges, if_neg hcover]
  rfl

end Field

end GfDit
