import GfDit.DataPlane.FieldEdges
import GfDit.Lib.Forall2
import Mathlib.Tactic.IntervalCases

/-!
# A reshard moves the global tensor

From the layouts all ranks described to the tensors the destination ranks
hold: the builder succeeds, every edge fits the tensors at its two ends, and
a destination rank stores each of its elements once, with the value of the
global tensor there.
-/

namespace GfDit

variable {α : Type u}

/-- One tensor field of an artifact: the tensor, and how each side holds it. -/
structure FieldSpec where
  path : FieldPath
  dtype : String
  shape : List Nat
  src : Placement
  dst : Placement
  path_ne : path ≠ []
  dtype_ne : dtype ≠ ""

structure LayoutOf (placement : FieldSpec → Placement) (rank : Rank) (spec : MigrateArtifactSpec)
    (fields : List FieldSpec) (layout : OutputArtifactLayout) : Prop where
  handle : layout.handle = spec.handle
  tensors : List.Forall₂ (fun (field : FieldSpec) tensor =>
    (placement field).field field.path field.shape field.dtype rank = .ok tensor)
    fields layout.tensors

structure SideDescribed (plan : MigrateArtifactsPlan) (fields : String → List FieldSpec)
    (placement : FieldSpec → Placement) (ranks : List Rank)
    (side : MigrateArtifactsRankResult → List OutputArtifactLayout)
    (results : List MigrateArtifactsRankResult) : Prop where
  inside : ∀ result ∈ results, result.workerRank ∈ ranks →
    List.Forall₂ (fun spec layout =>
      LayoutOf placement result.workerRank spec (fields spec.handle.artifactId) layout)
      plan.artifacts (side result)
  outside : ∀ result ∈ results, result.workerRank ∉ ranks → side result = []
  valid : ∀ spec ∈ plan.artifacts, ∀ field ∈ fields spec.handle.artifactId,
    (placement field).Valid field.shape ranks

/-- A command whose layout results are what all ranks of both groups described. -/
structure Described (fields : String → List FieldSpec) (command : MigrateArtifactsCommand) :
    Prop where
  ranks_nodup : (command.layoutResults.map (·.workerRank)).Nodup
  ranks_all : ∀ rank, rank ∈ command.srcGroup.ranks ∨ rank ∈ command.dstGroup.ranks →
    rank ∈ command.layoutResults.map (·.workerRank)
  artifacts_nodup : (command.plan.artifacts.map (·.handle.artifactId)).Nodup
  paths_nodup : ∀ spec ∈ command.plan.artifacts,
    ((fields spec.handle.artifactId).map (·.path)).Nodup
  src : SideDescribed command.plan fields (·.src) command.srcGroup.ranks (·.srcLayouts)
    command.layoutResults
  dst : SideDescribed command.plan fields (·.dst) command.dstGroup.ranks (·.dstLayouts)
    command.layoutResults
  complete : ∀ spec ∈ command.plan.artifacts, ∀ field ∈ fields spec.handle.artifactId,
    field.src.Complete command.srcGroup.ranks

/-- Every source rank holds its part of the global tensors. -/
def HoldsGlobal (command : MigrateArtifactsCommand) (global : String → FieldPath → List Nat → α)
    (values : Rank → SourceValues α) : Prop :=
  ∀ result ∈ command.layoutResults, ∀ layout ∈ result.srcLayouts, ∀ field ∈ layout.tensors,
    ∃ tensor, values result.workerRank layout.handle.artifactId field.fieldPath = some tensor ∧
      tensor.shape = field.localShape ∧ tensor.dtype = field.dtype ∧
      ∀ index ∈ Box.indices field.localShape, tensor.data index =
        global layout.handle.artifactId field.fieldPath (Box.shiftUp field.globalOffset index)

-- ---------------------------------------------------------------------------
-- The layouts of one artifact
-- ---------------------------------------------------------------------------

section Side

variable {plan : MigrateArtifactsPlan} {fields : String → List FieldSpec}
  {placement : FieldSpec → Placement} {ranks : List Rank}
  {side : MigrateArtifactsRankResult → List OutputArtifactLayout}
  {results : List MigrateArtifactsRankResult} {spec : MigrateArtifactSpec}
  {layout : OutputArtifactLayout} {tensor : TensorFieldLayout}

theorem LayoutOf.fieldOf (h : LayoutOf placement rank spec fs layout) (hr : rank ∈ ranks)
    (hv : ∀ field ∈ fs, (placement field).Valid field.shape ranks) (ht : tensor ∈ layout.tensors) :
    ∃ field ∈ fs, FieldOf (placement field) field.path field.shape field.dtype rank tensor := by
  obtain ⟨field, hf, he⟩ := forall₂_mem_right h.tensors ht
  obtain ⟨t, ht, hof⟩ := (placement field).field_ok field.path_ne field.dtype_ne (hv field hf) hr
  rw [he] at ht
  cases ht
  exact ⟨field, hf, hof⟩

theorem SideDescribed.layoutOf (h : SideDescribed plan fields placement ranks side results)
    (hm : result ∈ results) (hl : layout ∈ side result) :
    result.workerRank ∈ ranks ∧ ∃ spec ∈ plan.artifacts,
      LayoutOf placement result.workerRank spec (fields spec.handle.artifactId) layout := by
  by_cases hr : result.workerRank ∈ ranks
  · exact ⟨hr, forall₂_mem_right (h.inside result hm hr) hl⟩
  · rw [h.outside result hm hr] at hl
    cases hl

theorem SideDescribed.get?_collect (h : SideDescribed plan fields placement ranks side results)
    (hr : (results.map (·.workerRank)).Nodup)
    (ha : (plan.artifacts.map (·.handle.artifactId)).Nodup) {artifactId : String} {rank : Rank} :
    (collectLayouts side artifactId results).get? rank = some layout ↔
      ∃ result ∈ results, result.workerRank = rank ∧ layout ∈ side result ∧
        layout.handle.artifactId = artifactId := by
  have hpairs : ∀ {v}, (rank, v) ∈ (results.flatMap fun result =>
      ((side result).filter (·.handle.artifactId = artifactId)).map (result.workerRank, ·)) ↔
      ∃ result ∈ results, result.workerRank = rank ∧ v ∈ side result ∧
        v.handle.artifactId = artifactId := by
    intro v
    simp only [List.mem_flatMap, List.mem_map, List.mem_filter, decide_eq_true_eq, Prod.mk.injEq]
    constructor
    · rintro ⟨result, hm, _, ⟨hl, hi⟩, hk, rfl⟩
      exact ⟨result, hm, hk, hl, hi⟩
    · rintro ⟨result, hm, hk, hl, hi⟩
      exact ⟨result, hm, v, ⟨hl, hi⟩, hk, rfl⟩
  rw [collectLayouts_eq, Dict.get?_insertAll_empty, hpairs]
  intro v w hv hw
  obtain ⟨result, hm, hk, hl, hi⟩ := hpairs.mp hv
  obtain ⟨result', hm', hk', hl', hi'⟩ := hpairs.mp hw
  obtain rfl : result = result' := List.inj_on_of_nodup_map hr hm hm' (hk.trans hk'.symm)
  -- One rank describes each artifact once.
  have hside := h.inside result hm (h.layoutOf hm hl).1
  have hids : plan.artifacts.map (·.handle.artifactId) =
      (side result).map (·.handle.artifactId) := by
    rw [← List.forall₂_eq_eq_eq, List.forall₂_map_left_iff, List.forall₂_map_right_iff]
    exact hside.imp fun _ _ hof => by rw [hof.handle]
  exact List.inj_on_of_nodup_map (hids ▸ ha) hl hl' (hi.trans hi'.symm)

theorem SideDescribed.exists_get? (h : SideDescribed plan fields placement ranks side results)
    (hr : (results.map (·.workerRank)).Nodup)
    (ha : (plan.artifacts.map (·.handle.artifactId)).Nodup) (hs : spec ∈ plan.artifacts)
    (hm : result ∈ results) (hin : result.workerRank ∈ ranks) :
    ∃ layout, (collectLayouts side spec.handle.artifactId results).get? result.workerRank =
        some layout ∧
      LayoutOf placement result.workerRank spec (fields spec.handle.artifactId) layout := by
  obtain ⟨layout, hl, hof⟩ := forall₂_mem_left (h.inside result hm hin) hs
  exact ⟨layout, (h.get?_collect hr ha).mpr ⟨result, hm, rfl, hl, by rw [hof.handle]⟩, hof⟩

theorem SideDescribed.of_mem_entries (h : SideDescribed plan fields placement ranks side results)
    (hr : (results.map (·.workerRank)).Nodup)
    (ha : (plan.artifacts.map (·.handle.artifactId)).Nodup) (hs : spec ∈ plan.artifacts)
    (he : (rank, layout) ∈ (collectLayouts side spec.handle.artifactId results).entries) :
    rank ∈ ranks ∧ LayoutOf placement rank spec (fields spec.handle.artifactId) layout ∧
      ∃ result ∈ results, result.workerRank = rank ∧ layout ∈ side result := by
  obtain ⟨result, hm, rfl, hl, hi⟩ := (h.get?_collect hr ha).mp ((Dict.get?_eq_some _).mpr he)
  obtain ⟨hin, spec', hs', hof⟩ := h.layoutOf hm hl
  obtain rfl : spec' = spec :=
    List.inj_on_of_nodup_map ha hs' hs (by rw [← hof.handle, hi])
  exact ⟨hin, hof, result, hm, rfl, hl⟩

end Side

-- ---------------------------------------------------------------------------
-- The edges of one artifact
-- ---------------------------------------------------------------------------

section Artifact

variable {fields : String → List FieldSpec} {command : MigrateArtifactsCommand}
  {spec : MigrateArtifactSpec}

def sourceEntries (command : MigrateArtifactsCommand) (spec : MigrateArtifactSpec)
    (path : FieldPath) : List FieldEntry :=
  (fieldsByPath (collectLayouts (·.srcLayouts) spec.handle.artifactId
    command.layoutResults)).getD path []

theorem mem_sourceEntries {path : FieldPath} {entry : FieldEntry} :
    entry ∈ sourceEntries command spec path ↔
      ∃ layout, (entry.1, layout) ∈ (collectLayouts (·.srcLayouts) spec.handle.artifactId
          command.layoutResults).entries ∧ entry.2 ∈ layout.tensors ∧ entry.2.fieldPath = path := by
  rw [sourceEntries, fieldsByPath_getD]
  simp only [List.mem_flatMap, List.mem_map, List.mem_filter, decide_eq_true_eq]
  constructor
  · rintro ⟨⟨rank, layout⟩, he, tensor, ⟨ht, hp⟩, rfl⟩
    exact ⟨layout, he, ht, hp⟩
  · rintro ⟨layout, he, ht, hp⟩
    exact ⟨(entry.1, layout), he, entry.2, ⟨ht, hp⟩, rfl⟩

theorem Described.sources (hd : Described fields command) (hs : spec ∈ command.plan.artifacts)
    (hf : field ∈ fields spec.handle.artifactId) :
    Sources field.src field.path field.shape field.dtype command.srcGroup.ranks
      (sourceEntries command spec field.path) := by
  constructor
  · intro entry he
    obtain ⟨layout, hl, ht, hp⟩ := mem_sourceEntries.mp he
    obtain ⟨hin, hof, -⟩ := hd.src.of_mem_entries hd.ranks_nodup hd.artifacts_nodup hs hl
    obtain ⟨field', hf', hof'⟩ := hof.fieldOf hin (hd.src.valid spec hs) ht
    obtain rfl : field' = field :=
      List.inj_on_of_nodup_map (hd.paths_nodup spec hs) hf' hf (hof'.fieldPath.symm.trans hp)
    exact ⟨hin, hof'⟩
  · intro rank hr
    obtain ⟨result, hm, rfl⟩ := List.mem_map.mp (hd.ranks_all rank (.inl hr))
    obtain ⟨layout, hget, hof⟩ :=
      hd.src.exists_get? hd.ranks_nodup hd.artifacts_nodup hs hm hr
    obtain ⟨tensor, ht, he⟩ := forall₂_mem_left hof.tensors hf
    obtain ⟨t, ht', hfield⟩ :=
      field.src.field_ok field.path_ne field.dtype_ne (hd.src.valid spec hs field hf) hr
    rw [he] at ht'
    cases ht'
    refine ⟨(result.workerRank, tensor), mem_sourceEntries.mpr ?_, rfl⟩
    exact ⟨layout, (Dict.get?_eq_some _).mp hget, ht, hfield.fieldPath⟩

/-- The edges of an artifact: by destination rank, then by field. -/
def artifactEdgesOf (command : MigrateArtifactsCommand) (spec : MigrateArtifactSpec) :
    List TensorMigrationEdge :=
  (collectLayouts (·.dstLayouts) spec.handle.artifactId command.layoutResults).entries.flatMap
    fun entry => entry.2.tensors.flatMap fun tensor =>
      fieldEdges spec.handle.artifactId command.srcGroup.leader
        (sourceEntries command spec tensor.fieldPath) entry.1 tensor

theorem Described.collect_ne (hd : SideDescribed command.plan fields placement
      ranks side command.layoutResults) (hr : (command.layoutResults.map (·.workerRank)).Nodup)
    (ha : (command.plan.artifacts.map (·.handle.artifactId)).Nodup)
    (hs : spec ∈ command.plan.artifacts)
    (hin : rank ∈ ranks) (hall : rank ∈ command.layoutResults.map (·.workerRank)) :
    ¬ (collectLayouts side spec.handle.artifactId command.layoutResults).entries.isEmpty = true := by
  obtain ⟨result, hm, rfl⟩ := List.mem_map.mp hall
  obtain ⟨layout, hget, -⟩ := hd.exists_get? hr ha hs hm hin
  rw [List.isEmpty_iff]
  exact List.ne_nil_of_mem ((Dict.get?_eq_some _).mp hget)

theorem Described.artifactEdges_ok (hd : Described fields command)
    (hs : spec ∈ command.plan.artifacts) :
    artifactEdges command spec = .ok (artifactEdgesOf command spec) := by
  have hsrc := Described.collect_ne hd.src hd.ranks_nodup hd.artifacts_nodup hs
    command.srcGroup.leader_mem (hd.ranks_all _ (.inl command.srcGroup.leader_mem))
  have hdst := Described.collect_ne hd.dst hd.ranks_nodup hd.artifacts_nodup hs
    command.dstGroup.leader_mem (hd.ranks_all _ (.inr command.dstGroup.leader_mem))
  have hfield : ∀ entry ∈ (collectLayouts (·.dstLayouts) spec.handle.artifactId
      command.layoutResults).entries, ∀ tensor ∈ entry.2.tensors,
      dstFieldEdges spec.handle.artifactId command.srcGroup.leader (fieldsByPath
        (collectLayouts (·.srcLayouts) spec.handle.artifactId command.layoutResults))
        entry.1 tensor = .ok (fieldEdges spec.handle.artifactId command.srcGroup.leader
          (sourceEntries command spec tensor.fieldPath) entry.1 tensor) := by
    intro entry he tensor ht
    obtain ⟨hin, hof, -⟩ := hd.dst.of_mem_entries hd.ranks_nodup hd.artifacts_nodup hs he
    obtain ⟨field, hf, hfo⟩ := hof.fieldOf hin (hd.dst.valid spec hs) ht
    rw [hfo.fieldPath]
    exact dstFieldEdges_ok rfl (hd.sources hs hf) (hd.src.valid spec hs field hf)
      (hd.complete spec hs field hf) command.srcGroup.ranks_ne hfo spec.artifact_ne
  rw [artifactEdges, if_neg hsrc, if_neg hdst]
  simp only [bind, Except.bind]
  rw [Except.mapM_ok (g := fun entry => entry.2.tensors.flatMap fun tensor =>
    fieldEdges spec.handle.artifactId command.srcGroup.leader
      (sourceEntries command spec tensor.fieldPath) entry.1 tensor)]
  · simp only [pure, Except.pure, List.flatten_eq_flatMap, List.flatMap_map]
    rfl
  · rintro ⟨rank, layout⟩ he
    simp only [Except.mapM_ok (hfield _ he), pure, Except.pure, List.flatten_eq_flatMap,
      List.flatMap_map]
    rfl

/-- Where an edge of the artifact comes from: the destination field it was
made for and the source it reads. -/
theorem Described.edge_ends (hd : Described fields command) (hs : spec ∈ command.plan.artifacts)
    (he : (rank, layout) ∈ (collectLayouts (·.dstLayouts) spec.handle.artifactId
      command.layoutResults).entries) (ht : tensor ∈ layout.tensors)
    (hm : edge ∈ fieldEdges spec.handle.artifactId command.srcGroup.leader
      (sourceEntries command spec tensor.fieldPath) rank tensor) :
    ∃ source ∈ sourceEntries command spec tensor.fieldPath, ∃ common,
      EdgeOf spec.handle.artifactId rank tensor source common edge ∧
        SameTensor source.2 tensor := by
  obtain ⟨hin, hof, -⟩ := hd.dst.of_mem_entries hd.ranks_nodup hd.artifacts_nodup hs he
  obtain ⟨field, hf, hfo⟩ := hof.fieldOf hin (hd.dst.valid spec hs) ht
  rw [hfo.fieldPath] at hm ⊢
  have hsources := hd.sources hs hf
  obtain ⟨source, hsrc, common, hedge⟩ := edgeOf_of_mem hsources hfo spec.artifact_ne hm
  exact ⟨source, hsrc, common, hedge, (hsources.mem source hsrc).2.sameTensor hfo⟩

end Artifact

-- ---------------------------------------------------------------------------
-- The whole schedule
-- ---------------------------------------------------------------------------

section Schedule

variable {fields : String → List FieldSpec} {command : MigrateArtifactsCommand}
  {spec : MigrateArtifactSpec} {layout : OutputArtifactLayout} {tensor : TensorFieldLayout}

def scheduleEdges (command : MigrateArtifactsCommand) : List TensorMigrationEdge :=
  command.plan.artifacts.flatMap (artifactEdgesOf command)

theorem Described.build_ok (hd : Described fields command) (hm : command.migrateId ≠ "") :
    ∃ schedule, buildLayoutMigrationSchedule command = .ok schedule ∧
      schedule.edges = scheduleEdges command := by
  refine ⟨⟨command.migrateId, command.plan.requestId, command.srcGroup.groupId,
    command.dstGroup.groupId, command.srcGroup.ranks, command.dstGroup.ranks,
    participantRanks command.srcGroup command.dstGroup, scheduleEdges command, hm,
    command.plan.request_ne⟩, ?_, rfl⟩
  rw [buildLayoutMigrationSchedule, Except.mapM_ok fun spec hs => hd.artifactEdges_ok hs]
  simp [bind, Except.bind, ArtifactMigrationSchedule.make, hm, command.plan.request_ne, pure,
    Except.pure, scheduleEdges, List.flatten_eq_flatMap, List.flatMap_map]

theorem mem_scheduleEdges : edge ∈ scheduleEdges command ↔
    ∃ spec ∈ command.plan.artifacts, ∃ entry ∈ (collectLayouts (·.dstLayouts)
      spec.handle.artifactId command.layoutResults).entries, ∃ tensor ∈ entry.2.tensors,
      edge ∈ fieldEdges spec.handle.artifactId command.srcGroup.leader
        (sourceEntries command spec tensor.fieldPath) entry.1 tensor := by
  simp only [scheduleEdges, artifactEdgesOf, List.mem_flatMap]

def SliceInside (command : MigrateArtifactsCommand)
    (side : MigrateArtifactsRankResult → List OutputArtifactLayout) (rank : Rank)
    (artifactId : String) (slice : TensorSliceSpec) : Prop :=
  ∃ result ∈ command.layoutResults, result.workerRank = rank ∧ ∃ layout ∈ side result,
    layout.handle.artifactId = artifactId ∧ ∃ field ∈ layout.tensors,
      field.fieldPath = slice.fieldPath ∧ FitsAxes slice.offset slice.shape field.localShape

theorem Described.inside (hd : Described fields command) (he : edge ∈ scheduleEdges command) :
    SliceInside command (·.srcLayouts) edge.srcRank edge.artifactId edge.srcSlice ∧
      SliceInside command (·.dstLayouts) edge.dstRank edge.artifactId edge.dstSlice := by
  obtain ⟨spec, hs, ⟨rank, layout⟩, hen, tensor, ht, hm⟩ := mem_scheduleEdges.mp he
  obtain ⟨source, hsrc, common, hof, hsame⟩ := hd.edge_ends hs hen ht hm
  obtain ⟨hfs, hfd⟩ := hof.fits hsame.shape
  obtain ⟨srcLayout, hsl, hst, -⟩ := mem_sourceEntries.mp hsrc
  obtain ⟨-, hslo, result, hres, hrank, hmem⟩ :=
    hd.src.of_mem_entries hd.ranks_nodup hd.artifacts_nodup hs hsl
  obtain ⟨-, hdlo, result', hres', hrank', hmem'⟩ :=
    hd.dst.of_mem_entries hd.ranks_nodup hd.artifacts_nodup hs hen
  refine ⟨⟨result, hres, hrank.trans hof.srcRank.symm, srcLayout, hmem, ?_, source.2, hst,
    hof.srcPath.symm, hfs⟩, ⟨result', hres', hrank'.trans hof.dstRank.symm, layout, hmem', ?_,
    tensor, ht, hof.dstPath.symm, hfd⟩⟩
  · rw [hslo.handle, hof.artifact]
  · rw [hdlo.handle, hof.artifact]

theorem Described.localMarked (hd : Described fields command) :
    LocalMarked (scheduleEdges command) := by
  intro edge he
  obtain ⟨spec, hs, ⟨rank, layout⟩, hen, tensor, ht, hm⟩ := mem_scheduleEdges.mp he
  obtain ⟨source, -, common, hof, -⟩ := hd.edge_ends hs hen ht hm
  rw [hof.localCopy, hof.srcRank, hof.dstRank]

def sliceOf (values : Rank → SourceValues α) (default : α) (edge : TensorMigrationEdge) :
    Tensor α :=
  match values edge.srcRank edge.artifactId edge.srcSlice.fieldPath with
  | some tensor => ⟨edge.srcSlice.shape, tensor.dtype, fun index =>
      tensor.data (Box.shiftUp edge.srcSlice.offset index)⟩
  | none => ⟨[], "", fun _ => default⟩

theorem fitsAxes_shiftUp (h : FitsAxes os ns fulls) (hi : index ∈ Box.indices ns) :
    Box.shiftUp os index ∈ Box.indices fulls := by
  rw [Box.mem_indices] at hi ⊢
  induction h generalizing index with
  | nil => cases hi; exact .nil
  | cons hle _ ih =>
    cases index with
    | nil => exact absurd hi Box.not_contains_cons_nil
    | cons i index =>
      obtain ⟨ha, hb⟩ := Box.contains_cons.mp hi
      have hlt := ha.2
      refine Box.contains_cons.mpr ⟨⟨Nat.zero_le _, ?_⟩, ih hb⟩
      simp only at hlt ⊢
      omega

/-- A source that holds its part of the global tensor can be read, and its
slice has the global values. -/
theorem Described.readable (hd : Described fields command)
    {global : String → FieldPath → List Nat → α} {values : Rank → SourceValues α} (default : α)
    (hv : HoldsGlobal command global values) (hs : spec ∈ command.plan.artifacts)
    (hsrc : source ∈ sourceEntries command spec path)
    (hof : EdgeOf spec.handle.artifactId rank tensor source common edge)
    (hsame : source.2.globalShape = tensor.globalShape) :
    Readable values (sliceOf values default) edge ∧
      ∀ idx ∈ Box.indices edge.srcSlice.shape, (sliceOf values default edge).data idx =
        global spec.handle.artifactId path
          (Box.shiftUp source.2.globalOffset (Box.shiftUp edge.srcSlice.offset idx)) := by
  obtain ⟨srcLayout, hsl, hst, hpath⟩ := mem_sourceEntries.mp hsrc
  obtain ⟨-, hslo, result, hres, hrank, hmem⟩ :=
    hd.src.of_mem_entries hd.ranks_nodup hd.artifacts_nodup hs hsl
  obtain ⟨t, hval, hshape, hdtype, hdata⟩ := hv result hres srcLayout hmem source.2 hst
  obtain ⟨hfits, -⟩ := hof.fits hsame
  rw [hslo.handle, hrank, ← hof.srcRank, ← hof.artifact, ← hof.srcPath] at hval
  have hview : sliceOf values default edge = ⟨edge.srcSlice.shape, t.dtype, fun index =>
      t.data (Box.shiftUp edge.srcSlice.offset index)⟩ := by
    rw [sliceOf, hval]
  have hlen := hfits.length
  refine ⟨⟨t, hval, ?_⟩, fun idx hidx => ?_⟩
  · rw [hview, tensorSliceView, hshape]
    simp [hdtype, hof.dtype, hlen.1, hlen.2, hfits, pure, Except.pure]
  · rw [hview]
    simp only
    rw [hdata _ (fitsAxes_shiftUp hfits hidx), hslo.handle, hpath]

def hits (view : TensorMigrationEdge → Tensor α) (rank : Rank) (artifactId : String)
    (path : FieldPath) (index : List Nat) (edge : TensorMigrationEdge) : List α :=
  if edge.dstRank = rank then writesAt artifactId path index (edgeWrites view edge) else []

theorem hits_other {view : TensorMigrationEdge → Tensor α}
    (h : edge.dstRank ≠ rank ∨ edge.artifactId ≠ artifactId ∨ edge.dstSlice.fieldPath ≠ path) :
    hits view rank artifactId path index edge = [] := by
  rw [hits]
  split
  · rcases h with h | h
    · exact absurd ‹_› h
    · exact writesAt_other h
  · rfl

theorem LayoutOf.paths_nodup {placement : FieldSpec → Placement}
    (h : LayoutOf placement rank spec fs layout) (hr : rank ∈ ranks)
    (hv : ∀ field ∈ fs, (placement field).Valid field.shape ranks)
    (hn : (fs.map (·.path)).Nodup) : (layout.tensors.map (·.fieldPath)).Nodup := by
  suffices fs.map (·.path) = layout.tensors.map (·.fieldPath) from this ▸ hn
  rw [← List.forall₂_eq_eq_eq, List.forall₂_map_left_iff, List.forall₂_map_right_iff]
  refine List.Forall₂.imp ?_ (List.forall₂_and_left _ _ |>.mpr ⟨hv, h.tensors⟩)
  rintro field tensor ⟨hvalid, he⟩
  obtain ⟨t, ht, hof⟩ := (placement field).field_ok field.path_ne field.dtype_ne hvalid hr
  rw [he] at ht
  cases ht
  exact hof.fieldPath.symm

theorem Described.flatMap_field (hd : Described fields command)
    (hs : spec ∈ command.plan.artifacts)
    (he : (rank, layout) ∈ (collectLayouts (·.dstLayouts) spec.handle.artifactId
      command.layoutResults).entries) (ht : tensor ∈ layout.tensors)
    {f : TensorMigrationEdge → List α}
    (hf : ∀ edge, edge.dstRank ≠ rank ∨ edge.artifactId ≠ spec.handle.artifactId ∨
      edge.dstSlice.fieldPath ≠ tensor.fieldPath → f edge = []) :
    (scheduleEdges command).flatMap f = (fieldEdges spec.handle.artifactId
      command.srcGroup.leader (sourceEntries command spec tensor.fieldPath) rank tensor).flatMap f := by
  obtain ⟨hin, hof, -⟩ := hd.dst.of_mem_entries hd.ranks_nodup hd.artifacts_nodup hs he
  have hpaths := hof.paths_nodup hin (hd.dst.valid spec hs) (hd.paths_nodup spec hs)
  simp only [scheduleEdges, artifactEdgesOf, List.flatMap_assoc]
  -- Another artifact's edges, another rank's, then another field's.
  rw [List.flatMap_eq_of_unique hd.artifacts_nodup hs]
  · rw [List.flatMap_eq_of_unique (Dict.nodup _) he]
    · rw [List.flatMap_eq_of_unique hpaths ht]
      intro other ho hne
      refine List.flatMap_eq_nil_iff.mpr fun edge hm => hf edge (.inr (.inr ?_))
      obtain ⟨_, -, _, hedge, -⟩ := hd.edge_ends hs he ho hm
      rwa [hedge.dstPath]
    · rintro ⟨r, l⟩ ho hne
      simp only [List.flatMap_eq_nil_iff]
      intro t htl edge hm
      obtain ⟨_, -, _, hedge, -⟩ := hd.edge_ends hs ho htl hm
      exact hf edge (.inl (by rwa [hedge.dstRank]))
  · intro other ho hne
    simp only [List.flatMap_eq_nil_iff]
    rintro ⟨r, l⟩ hen t htl edge hm
    obtain ⟨_, -, _, hedge, -⟩ := hd.edge_ends ho hen htl hm
    exact hf edge (.inr (.inl (by rwa [hedge.artifact])))

/-- The schedule's edges store each element of a destination tensor once. -/
theorem Described.stored_once (hd : Described fields command)
    {global : String → FieldPath → List Nat → α} {values : Rank → SourceValues α} (default : α)
    (hv : HoldsGlobal command global values) (hs : spec ∈ command.plan.artifacts)
    (he : (rank, layout) ∈ (collectLayouts (·.dstLayouts) spec.handle.artifactId
      command.layoutResults).entries) (ht : tensor ∈ layout.tensors)
    (hi : index ∈ Box.indices tensor.localShape) :
    (scheduleEdges command).flatMap (hits (sliceOf values default) rank spec.handle.artifactId
        tensor.fieldPath index) =
      [global spec.handle.artifactId tensor.fieldPath
        (Box.shiftUp tensor.globalOffset index)] := by
  obtain ⟨hin, hof, -⟩ := hd.dst.of_mem_entries hd.ranks_nodup hd.artifacts_nodup hs he
  obtain ⟨field, hf, hfo⟩ := hof.fieldOf hin (hd.dst.valid spec hs) ht
  have hsources := hd.sources hs hf
  rw [hd.flatMap_field hs he ht fun edge h => hits_other h]
  have hhits : ∀ edge ∈ fieldEdges spec.handle.artifactId command.srcGroup.leader
      (sourceEntries command spec tensor.fieldPath) rank tensor,
      hits (sliceOf values default) rank spec.handle.artifactId tensor.fieldPath index edge =
        writesAt spec.handle.artifactId tensor.fieldPath index
          (edgeWrites (sliceOf values default) edge) := by
    intro edge hm
    obtain ⟨_, -, _, hedge, -⟩ := hd.edge_ends hs he ht hm
    rw [hits, if_pos hedge.dstRank]
  rw [List.flatMap_congr hhits, ← writesAt_flatMap]
  refine fieldEdges_writesAt _ (hfo.fieldPath.symm ▸ hsources) (hd.src.valid spec hs field hf)
    (hd.complete spec hs field hf) command.srcGroup.ranks_ne (hfo.fieldPath.symm ▸ hfo)
    spec.artifact_ne _ ?_ hi
  intro source hsrc common edge hedge _
  have hsame := (hsources.mem source (hfo.fieldPath ▸ hsrc)).2.sameTensor hfo
  exact (hd.readable default hv hs hsrc hedge hsame.shape).2

end Schedule

/-- Reshard correctness. For any placements of the fields on the two groups
the schedule is built, every slice lies inside the local tensor it is cut
from, every rank posts its part, and every destination rank's writes store
each element of each of its tensors exactly once, with the global value. -/
theorem reshard_writes_global {fields : String → List FieldSpec}
    {command : MigrateArtifactsCommand} {global : String → FieldPath → List Nat → α}
    {values : Rank → SourceValues α} (hd : Described fields command)
    (hm : command.migrateId ≠ "") (hv : HoldsGlobal command global values) :
    ∃ schedule posted, buildLayoutMigrationSchedule command = .ok schedule ∧
      (∀ edge ∈ schedule.edges,
        SliceInside command (·.srcLayouts) edge.srcRank edge.artifactId edge.srcSlice ∧
        SliceInside command (·.dstLayouts) edge.dstRank edge.artifactId edge.dstSlice) ∧
      (∀ rank, postEdges (values rank) rank (sortEdges schedule.edges) = .ok (posted rank)) ∧
      ∀ result ∈ command.layoutResults, ∃ writes,
        executeTransfer posted result.workerRank = some writes ∧
        ∀ layout ∈ result.dstLayouts, ∀ tensor ∈ layout.tensors,
          ∀ index ∈ Box.indices tensor.localShape,
            writesAt layout.handle.artifactId tensor.fieldPath index writes =
              [global layout.handle.artifactId tensor.fieldPath
                (Box.shiftUp tensor.globalOffset index)] := by
  have default : α := global "" [] []
  obtain ⟨schedule, hbuild, hedges⟩ := hd.build_ok hm
  have hperm : (sortEdges schedule.edges).Perm (scheduleEdges command) :=
    hedges ▸ List.perm_insertionSort _ _
  have hread : ∀ edge ∈ sortEdges schedule.edges, Readable values (sliceOf values default) edge := by
    intro edge he
    obtain ⟨spec, hs, ⟨rank, layout⟩, hen, tensor, ht, hmem⟩ :=
      mem_scheduleEdges.mp (hperm.mem_iff.mp he)
    obtain ⟨source, hsrc, common, hof, hsame⟩ := hd.edge_ends hs hen ht hmem
    exact (hd.readable default hv hs hsrc hof hsame.shape).1
  have hmarked : LocalMarked (sortEdges schedule.edges) := fun edge he =>
    hd.localMarked edge (hperm.mem_iff.mp he)
  refine ⟨schedule, _, hbuild, fun edge he => hd.inside (hedges ▸ he), postEdges_ok hread, ?_⟩
  intro result hres
  obtain ⟨writes, hex, hwrites⟩ := executeTransfer_writes hmarked _ (fun _ => rfl) result.workerRank
  refine ⟨writes, hex, fun layout hl tensor ht index hi => ?_⟩
  obtain ⟨hin, spec, hs, hlo⟩ := hd.dst.layoutOf hres hl
  have hget := (hd.dst.get?_collect hd.ranks_nodup hd.artifacts_nodup).mpr
    ⟨result, hres, rfl, hl, by rw [hlo.handle]⟩
  have hone := hd.stored_once default hv hs ((Dict.get?_eq_some _).mp hget) ht hi
  rw [hlo.handle]
  refine writesAt_perm (hwrites.trans ((hperm.filter _).flatMap_right _)) ?_
  rw [List.flatMap_filter, writesAt_flatMap, ← hone]
  refine List.flatMap_congr fun edge _ => ?_
  rw [hits]
  by_cases h : edge.dstRank = result.workerRank
  · rw [if_pos h, if_pos (by simpa using h)]
  · rw [if_neg h, if_neg (by simpa using h)]
    rfl

-- ---------------------------------------------------------------------------
-- Three elements, from two shards to two overlapping replicas
-- ---------------------------------------------------------------------------

section Small

def smallField : FieldSpec :=
  ⟨["x"], "float32", [3], .sharded 0 2 id, .replicated, xPath_ne, float32_ne⟩

def smallShard (start length : Nat) (h : FitsAxes [start] [length] [3]) : OutputArtifactLayout :=
  ⟨smallHandle, [⟨["x"], [length], "float32", .sharded 0, [3], [start], xPath_ne,
    float32_ne, h⟩], by decide⟩

def smallReplica : OutputArtifactLayout :=
  ⟨smallHandle, [⟨["x"], [3], "float32", .replicated, [3], [0], xPath_ne, float32_ne,
    by decide⟩], by decide⟩

def smallResult (rank : Rank) (src dst : List OutputArtifactLayout) : MigrateArtifactsRankResult :=
  ⟨"m", "r", rank, .describeLayout, src, dst, none, [], none⟩

def smallCommand : MigrateArtifactsCommand where
  migrateId := "m"
  phase := .buildSchedule
  plan := smallPlan
  srcGroup := smallGroup "src" 0 1
  dstGroup := smallGroup "dst" 1 2
  layoutResults := [smallResult 0 [smallShard 0 2 (by decide)] [],
    smallResult 1 [smallShard 2 1 (by decide)] [smallReplica], smallResult 2 [] [smallReplica]]
  schedule := none
  metadataPayloads := []

def smallGlobal (_ : String) (_ : FieldPath) (index : List Nat) : Nat := 10 + index.headD 0

def smallValues (rank : Rank) : SourceValues Nat := fun _ _ =>
  if rank = 0 then some ⟨[2], "float32", fun index => 10 + index.headD 0⟩
  else some ⟨[1], "float32", fun index => 12 + index.headD 0⟩

theorem small_described : Described (fun _ => [smallField]) smallCommand where
  ranks_nodup := by decide
  ranks_all := by
    intro rank h
    simp only [smallCommand, smallGroup, sequenceSpec, smallResult, List.map_cons, List.map_nil,
      List.mem_cons, List.not_mem_nil, or_false] at h ⊢
    tauto
  artifacts_nodup := by decide
  paths_nodup := by decide
  src := by
    refine ⟨?_, by decide, ?_⟩
    · intro result hm hr
      simp only [smallCommand, List.mem_cons, List.not_mem_nil, or_false] at hm
      rcases hm with rfl | rfl | rfl
      · exact .cons ⟨rfl, .cons rfl .nil⟩ .nil
      · exact .cons ⟨rfl, .cons rfl .nil⟩ .nil
      · exact absurd hr (by decide)
    · intro _ _ field hf
      rw [List.mem_singleton.mp hf]
      exact ⟨⟨by decide, by decide⟩, by decide⟩
  dst := by
    refine ⟨?_, by decide, ?_⟩
    · intro result hm hr
      simp only [smallCommand, List.mem_cons, List.not_mem_nil, or_false] at hm
      rcases hm with rfl | rfl | rfl
      · exact absurd hr (by decide)
      · exact .cons ⟨rfl, .cons rfl .nil⟩ .nil
      · exact .cons ⟨rfl, .cons rfl .nil⟩ .nil
    · intro _ _ field hf
      rw [List.mem_singleton.mp hf]
      trivial
  complete := by
    intro _ _ field hf
    rw [List.mem_singleton.mp hf]
    exact fun i hi => ⟨i, by interval_cases i <;> decide, rfl⟩

theorem small_holds : HoldsGlobal smallCommand smallGlobal smallValues := by
  intro result hm layout hl field hf
  simp only [smallCommand, List.mem_cons, List.not_mem_nil, or_false] at hm
  rcases hm with rfl | rfl | rfl
  · rw [List.mem_singleton.mp hl] at hf ⊢
    rw [List.mem_singleton.mp hf]
    exact ⟨_, rfl, rfl, rfl, by decide⟩
  · rw [List.mem_singleton.mp hl] at hf ⊢
    rw [List.mem_singleton.mp hf]
    exact ⟨_, rfl, rfl, rfl, by decide⟩
  · cases hl

theorem small_reshard :
    ∃ schedule posted, buildLayoutMigrationSchedule smallCommand = .ok schedule ∧
      (∀ edge ∈ schedule.edges,
        SliceInside smallCommand (·.srcLayouts) edge.srcRank edge.artifactId edge.srcSlice ∧
        SliceInside smallCommand (·.dstLayouts) edge.dstRank edge.artifactId edge.dstSlice) ∧
      (∀ rank, postEdges (smallValues rank) rank (sortEdges schedule.edges) = .ok (posted rank)) ∧
      ∀ result ∈ smallCommand.layoutResults, ∃ writes,
        executeTransfer posted result.workerRank = some writes ∧
        ∀ layout ∈ result.dstLayouts, ∀ tensor ∈ layout.tensors,
          ∀ index ∈ Box.indices tensor.localShape,
            writesAt layout.handle.artifactId tensor.fieldPath index writes =
              [smallGlobal layout.handle.artifactId tensor.fieldPath
                (Box.shiftUp tensor.globalOffset index)] :=
  reshard_writes_global small_described (by decide) small_holds

end Small

end GfDit
