import GfDit.DataPlane.Schedule
import GfDit.Lib.Except
import GfDit.Lib.Unique

/-!
# What the schedule builder computes

One law for each function of the builder: which layouts a side's dictionary
holds, which entries a field path has, that the selected sources meet every
global index exactly once, and what an edge carries.
-/

namespace GfDit

-- ---------------------------------------------------------------------------
-- Collecting the described layouts
-- ---------------------------------------------------------------------------

theorem collectLayouts_eq (side : MigrateArtifactsRankResult → List OutputArtifactLayout)
    (artifactId : String) (results : List MigrateArtifactsRankResult) :
    collectLayouts side artifactId results = Dict.insertAll ∅ (results.flatMap fun result =>
      ((side result).filter (·.handle.artifactId = artifactId)).map (result.workerRank, ·)) := by
  have inner : ∀ (rank : Rank) (layouts : List OutputArtifactLayout) d,
      layouts.foldl (fun d layout =>
        if layout.handle.artifactId = artifactId then d.set rank layout else d) d =
      Dict.insertAll d ((layouts.filter (·.handle.artifactId = artifactId)).map (rank, ·)) := by
    intro rank layouts
    induction layouts with
    | nil => intro d; rfl
    | cons layout layouts ih =>
      intro d
      by_cases h : layout.handle.artifactId = artifactId <;> simp [h, ih, Dict.insertAll]
  have outer : ∀ d, results.foldl (fun d result => (side result).foldl (fun d layout =>
        if layout.handle.artifactId = artifactId then d.set result.workerRank layout else d) d) d =
      Dict.insertAll d (results.flatMap fun result =>
        ((side result).filter (·.handle.artifactId = artifactId)).map (result.workerRank, ·)) := by
    induction results with
    | nil => intro d; rfl
    | cons result results ih =>
      intro d
      rw [List.foldl_cons, inner, ih]
      simp [Dict.insertAll, List.foldl_append]
  exact outer ∅

theorem fieldsByPath_getD (srcLayouts : Dict Rank OutputArtifactLayout) (path : FieldPath) :
    (fieldsByPath srcLayouts).getD path [] = srcLayouts.entries.flatMap fun entry =>
      (entry.2.tensors.filter (·.fieldPath = path)).map (entry.1, ·) := by
  have inner : ∀ (rank : Rank) (tensors : List TensorFieldLayout) d,
      tensors.foldl (fun d field =>
        Dict.set d field.fieldPath (d.getD field.fieldPath [] ++ [(rank, field)])) d =
      Dict.groupAll d (tensors.map fun field => (field.fieldPath, (rank, field))) := by
    intro rank tensors
    induction tensors with
    | nil => intro d; rfl
    | cons field tensors ih => intro d; simp [ih, Dict.groupAll]
  have outer : ∀ (entries : List (Rank × OutputArtifactLayout)) d,
      entries.foldl (fun d entry => entry.2.tensors.foldl (fun d field =>
        Dict.set d field.fieldPath (d.getD field.fieldPath [] ++ [(entry.1, field)])) d) d =
      Dict.groupAll d (entries.flatMap fun entry =>
        entry.2.tensors.map fun field => (field.fieldPath, (entry.1, field))) := by
    intro entries
    induction entries with
    | nil => intro d; rfl
    | cons entry entries ih =>
      intro d
      rw [List.foldl_cons, inner, ih]
      simp [Dict.groupAll, List.foldl_append]
  rw [fieldsByPath, outer, Dict.getD_groupAll]
  simp [Dict.getD, List.filter_flatMap, List.map_flatMap, List.filter_map, Function.comp_def]

-- ---------------------------------------------------------------------------
-- Axes and intersections
-- ---------------------------------------------------------------------------

theorem TensorFieldLayout.axes_fst (field : TensorFieldLayout) :
    field.axes.map Prod.fst = field.globalOffset :=
  List.map_fst_zip (by rw [field.rank_offset, field.rank_local])

theorem TensorFieldLayout.axes_snd (field : TensorFieldLayout) :
    field.axes.map Prod.snd = field.localShape :=
  List.map_snd_zip (by rw [field.rank_offset, field.rank_local])

theorem TensorFieldLayout.axes_length (field : TensorFieldLayout) :
    field.axes.length = field.globalShape.length := by
  simp [TensorFieldLayout.axes, field.rank_offset, field.rank_local]

theorem intersectAxes_ok (h : a.length = b.length) : intersectAxes a b = .ok (Box.inter a b) := by
  induction a generalizing b with
  | nil =>
    cases b with
    | nil => rfl
    | cons _ _ => simp at h
  | cons x a ih =>
    cases b with
    | nil => simp at h
    | cons y b =>
      simp only [intersectAxes, Box.inter]
      split
      · rfl
      · rw [ih (by simpa using h)]
        rfl

theorem intersectFieldSlices_ok {srcField dstField : TensorFieldLayout}
    (h : srcField.globalShape = dstField.globalShape) :
    intersectFieldSlices srcField dstField = .ok ((Box.inter srcField.axes dstField.axes).map
      fun axes => (axes.map Prod.fst, axes.map Prod.snd)) := by
  have hl : srcField.axes.length = dstField.axes.length := by
    rw [srcField.axes_length, dstField.axes_length, h]
  rw [intersectFieldSlices, intersectAxes_ok hl]
  rfl

theorem length_inter (h : Box.inter a b = some c) (hl : a.length = b.length) :
    c.length = a.length := (Box.inter_within h hl).1.length_eq

theorem inter_any_zero (h : Box.inter a b = some c) : ¬ (c.map Prod.snd).any (· = 0) = true := by
  simp only [List.any_map, List.any_eq_true, not_exists, not_and]
  intro axis hm h0
  have := Box.inter_pos h axis hm
  simp_all

-- ---------------------------------------------------------------------------
-- Edges
-- ---------------------------------------------------------------------------

/-- Two fields of one tensor, both with a layout the builder supports. -/
structure SameTensor (a b : TensorFieldLayout) : Prop where
  path : a.fieldPath = b.fieldPath
  dtype : a.dtype = b.dtype
  shape : a.globalShape = b.globalShape
  left : layoutSupported a.layout = true
  right : layoutSupported b.layout = true

theorem validateMigrationFieldPair_ok (h : SameTensor srcField dstField) :
    validateMigrationFieldPair artifactId srcField dstField = .ok () := by
  simp [validateMigrationFieldPair, h.left, h.right, h.dtype, h.shape, pure, Except.pure]

structure EdgeOf (artifactId : String) (rank : Rank) (dstField : TensorFieldLayout)
    (source : FieldEntry) (common : List Box.Axis) (edge : TensorMigrationEdge) : Prop where
  inter : Box.inter source.2.axes dstField.axes = some common
  artifact : edge.artifactId = artifactId
  srcRank : edge.srcRank = source.1
  dstRank : edge.dstRank = rank
  srcPath : edge.srcSlice.fieldPath = source.2.fieldPath
  dstPath : edge.dstSlice.fieldPath = dstField.fieldPath
  srcOffset : edge.srcSlice.offset = Box.shiftDown source.2.globalOffset (common.map Prod.fst)
  dstOffset : edge.dstSlice.offset = Box.shiftDown dstField.globalOffset (common.map Prod.fst)
  srcShape : edge.srcSlice.shape = common.map Prod.snd
  dtype : edge.srcSlice.dtype = source.2.dtype
  localCopy : edge.localCopy = decide (source.1 = rank)

theorem edgeFor_none (artifactId : String) (dstRank : Rank) (h : SameTensor source.2 dstField)
    (hi : Box.inter source.2.axes dstField.axes = none) :
    edgeFor artifactId dstRank dstField source = .ok none := by
  simp [edgeFor, validateMigrationFieldPair_ok h, intersectFieldSlices_ok h.shape, hi, bind,
    Except.bind, pure, Except.pure]

theorem edgeFor_some (dstRank : Rank) (h : SameTensor source.2 dstField) (ha : artifactId ≠ "")
    (hi : Box.inter source.2.axes dstField.axes = some common) :
    ∃ edge, edgeFor artifactId dstRank dstField source = .ok (some edge) ∧
      EdgeOf artifactId dstRank dstField source common edge := by
  have hl : source.2.axes.length = dstField.axes.length := by
    rw [source.2.axes_length, dstField.axes_length, h.shape]
  have hlen := length_inter hi hl
  have hpos := inter_any_zero hi
  have h1 : (Box.shiftDown source.2.globalOffset (common.map Prod.fst)).length =
      (common.map Prod.snd).length := by
    simp [Box.shiftDown, hlen, source.2.rank_offset, source.2.axes_length]
  have h2 : (Box.shiftDown dstField.globalOffset (common.map Prod.fst)).length =
      (common.map Prod.snd).length := by
    simp [Box.shiftDown, hlen, dstField.rank_offset, source.2.axes_length, h.shape]
  obtain ⟨srcRank, srcField⟩ := source
  refine ⟨⟨artifactId, srcRank, dstRank,
    ⟨srcField.fieldPath, Box.shiftDown srcField.globalOffset (common.map Prod.fst),
      common.map Prod.snd, srcField.dtype, srcField.path_ne, h1, srcField.dtype_ne⟩,
    ⟨dstField.fieldPath, Box.shiftDown dstField.globalOffset (common.map Prod.fst),
      common.map Prod.snd, dstField.dtype, dstField.path_ne, h2, dstField.dtype_ne⟩,
    srcRank = dstRank, ha, h.dtype, rfl⟩, ?_, ?_⟩
  · simp only [edgeFor, validateMigrationFieldPair_ok h, intersectFieldSlices_ok h.shape, hi,
      Option.map_some, bind, Except.bind, if_neg hpos]
    have hdtype : srcField.dtype = dstField.dtype := h.dtype
    simp [TensorSliceSpec.make, TensorMigrationEdge.make, srcField.path_ne, dstField.path_ne,
      dstField.dtype_ne, h1, h2, ha, hdtype, pure, Except.pure]
  · exact ⟨hi, rfl, rfl, rfl, rfl, rfl, rfl, rfl, rfl, rfl, rfl⟩

end GfDit
