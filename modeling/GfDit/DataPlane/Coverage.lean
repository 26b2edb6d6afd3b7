import GfDit.DataPlane.Reshard

/-!
# What a schedule covers

The builder refuses a destination field only when no edge is made for it at
all. A schedule it returns stores every element of a field exactly when each of
them lies in the box of some source that is read, which one edge does not tell.
-/

namespace GfDit

variable {command : MigrateArtifactsCommand} {schedule : ArtifactMigrationSchedule}
  {entries : List FieldEntry} {artifactId : String} {dstRank leader : Rank}
  {dstField : TensorFieldLayout} {source : FieldEntry} {index : List Nat}

theorem Box.contains_zip_shiftDown {part whole : List Box.Axis} (h : Box.Within part whole)
    (index : List Nat) :
    Box.Contains ((Box.shiftDown (whole.map Prod.fst) (part.map Prod.fst)).zip (part.map Prod.snd))
        index ↔
      Box.Contains part (Box.shiftUp (whole.map Prod.fst) index) ∧ whole.length = index.length := by
  induction h generalizing index with
  | nil => cases index <;> simp [Box.shiftDown, Box.shiftUp]
  | cons hab _ ih =>
    cases index with
    | nil => simp [Box.shiftDown, Box.shiftUp]
    | cons i index =>
      have ih := ih index
      simp only [Box.shiftDown, Box.shiftUp, List.map_cons, List.zipWith_cons_cons,
        List.zip_cons_cons, Box.contains_cons, List.length_cons, Nat.add_right_cancel_iff] at ih ⊢
      rw [ih, ← and_assoc]
      have hle := hab.1
      refine and_congr_left fun _ => and_congr_left fun _ => ?_
      simp only [Box.Axis.Contains]
      omega

-- ---------------------------------------------------------------------------
-- The sources that are read
-- ---------------------------------------------------------------------------

/-- The sources a destination field is read from: of replicated ones the
destination's own, else the leader's, else one of least rank, and all when none
is replicated. -/
def readSources (entries : List FieldEntry) (dstRank leader : Rank) : List FieldEntry :=
  match entries.filter (·.2.layout.isReplicated) with
  | [] => entries
  | first :: rest =>
    [((first :: rest).find? (·.1 = dstRank)).getD
      (((first :: rest).find? (·.1 = leader)).getD (minRankEntry first rest))]

theorem select_of_replicated {first : FieldEntry} {rest : List FieldEntry}
    (h : entries.filter (·.2.layout.isReplicated) = first :: rest) :
    selectSourceFieldsForDst entries dstRank leader = readSources entries dstRank leader := by
  rw [selectSourceFieldsForDst, readSources, h]
  simp only
  split
  · rename_i hown
    rw [hown, Option.getD_some]
  · rename_i hown
    rw [hown, Option.getD_none]
    split
    · rename_i hleader
      rw [hleader, Option.getD_some]
    · rename_i hleader
      rw [hleader, Option.getD_none]

/-- Leaving out a source loses nothing: another with the same box is kept. -/
theorem select_covers (entries : List FieldEntry) (dstRank leader : Rank) (index : List Nat) :
    (∃ source ∈ selectSourceFieldsForDst entries dstRank leader,
        Box.Contains source.2.axes index) ↔
      ∃ source ∈ readSources entries dstRank leader, Box.Contains source.2.axes index := by
  cases hrep : entries.filter (·.2.layout.isReplicated) with
  | cons first rest => rw [select_of_replicated hrep]
  | nil =>
    have hread : readSources entries dstRank leader = entries := by rw [readSources, hrep]
    rw [hread]
    constructor
    · rintro ⟨source, hm, hc⟩
      exact ⟨source, select_subset hm, hc⟩
    · rintro ⟨source, hm, hc⟩
      have hdedup := deduped_entries entries dstRank leader
      obtain ⟨kept, hget⟩ := Option.isSome_iff_exists.mp (hdedup.covered source hm)
      have hkey := (hdedup.stored _ _ hget).1
      have haxes : kept.2.axes = source.2.axes := by
        simp only [shardKey, Prod.mk.injEq] at hkey
        rw [TensorFieldLayout.axes, TensorFieldLayout.axes, hkey.1, hkey.2.1]
      refine ⟨kept, (select_sharded hrep).mem_iff.mpr ?_, haxes ▸ hc⟩
      exact List.mem_map.mpr ⟨(_, kept), (Dict.get?_eq_some _).mp hget, rfl⟩

-- ---------------------------------------------------------------------------
-- Edges
-- ---------------------------------------------------------------------------

theorem sameTensor_of_validate (hpath : source.2.fieldPath = dstField.fieldPath)
    (h : validateMigrationFieldPair artifactId source.2 dstField = .ok ⟨⟩) :
    SameTensor source.2 dstField := by
  have hleft : layoutSupported source.2.layout = true := by
    by_contra hn
    rw [Bool.not_eq_true] at hn
    simp [validateMigrationFieldPair, hn, bind, Except.bind, throw, throwThe,
      MonadExceptOf.throw] at h
  have hright : layoutSupported dstField.layout = true := by
    by_contra hn
    rw [Bool.not_eq_true] at hn
    simp [validateMigrationFieldPair, hleft, hn, bind, Except.bind, throw, throwThe,
      MonadExceptOf.throw] at h
  have hdtype : source.2.dtype = dstField.dtype := by
    by_contra hn
    simp [validateMigrationFieldPair, hleft, hright, hn, bind, Except.bind, throw, throwThe,
      MonadExceptOf.throw] at h
  refine ⟨hpath, hdtype, ?_, hleft, hright⟩
  by_contra hn
  simp [validateMigrationFieldPair, hleft, hright, hdtype, hn, throw, throwThe,
    MonadExceptOf.throw] at h

theorem edgeFor_cases {found : Option TensorMigrationEdge}
    (hpath : source.2.fieldPath = dstField.fieldPath)
    (h : edgeFor artifactId dstRank dstField source = .ok found) :
    SameTensor source.2 dstField ∧
      (Box.inter source.2.axes dstField.axes = none ∧ found = none ∨
        ∃ common edge, found = some edge ∧
          EdgeOf artifactId dstRank dstField source common edge) := by
  obtain ⟨⟨⟩, hvalid, -⟩ := Except.bind_eq_ok.mp h
  have hsame := sameTensor_of_validate hpath hvalid
  refine ⟨hsame, ?_⟩
  cases hi : Box.inter source.2.axes dstField.axes with
  | none =>
    rw [edgeFor_none artifactId dstRank hsame hi] at h
    cases h
    exact .inl ⟨rfl, rfl⟩
  | some common =>
    by_cases ha : artifactId = ""
    · subst ha
      obtain ⟨_, -, h⟩ := Except.bind_eq_ok.mp h
      obtain ⟨shared, hshared, h⟩ := Except.bind_eq_ok.mp h
      rw [intersectFieldSlices_ok hsame.shape, hi] at hshared
      cases hshared
      rw [Option.map_some] at h
      simp only [if_neg (inter_any_zero hi)] at h
      obtain ⟨_, -, h⟩ := Except.bind_eq_ok.mp h
      obtain ⟨_, -, h⟩ := Except.bind_eq_ok.mp h
      obtain ⟨_, hedge, -⟩ := Except.bind_eq_ok.mp h
      rw [TensorMigrationEdge.make, dif_pos rfl] at hedge
      cases hedge
    · obtain ⟨edge, hok, hedge⟩ := edgeFor_some dstRank hsame ha hi
      cases hok.symm.trans h
      exact .inr ⟨common, edge, rfl, hedge⟩

theorem EdgeOf.slice_contains {common : List Box.Axis} {edge : TensorMigrationEdge}
    (h : EdgeOf artifactId dstRank dstField source common edge)
    (hs : source.2.globalShape = dstField.globalShape) :
    Box.Contains (edge.dstSlice.offset.zip edge.dstSlice.shape) index ↔
      index ∈ Box.indices dstField.localShape ∧
        Box.Contains source.2.axes (Box.shiftUp dstField.globalOffset index) := by
  obtain ⟨-, hwithin⟩ := h.within hs
  have hslice := Box.contains_zip_shiftDown hwithin index
  rw [dstField.axes_fst] at hslice
  have hlocal := Box.contains_shiftUp dstField.axes index
  rw [dstField.axes_fst, dstField.axes_snd] at hlocal
  rw [h.dstOffset, ← edge.shape_eq, h.srcShape, hslice, Box.mem_indices, ← hlocal,
    Box.contains_inter h.inter (by rw [source.2.axes_length, dstField.axes_length, hs])]
  tauto

-- ---------------------------------------------------------------------------
-- The schedule
-- ---------------------------------------------------------------------------

def DstField (command : MigrateArtifactsCommand) (artifactId : String) (dstRank : Rank)
    (field : TensorFieldLayout) : Prop :=
  ∃ layout, (dstRank, layout) ∈ (collectLayouts (·.dstLayouts) artifactId
    command.layoutResults).entries ∧ field ∈ layout.tensors

def Stored (schedule : ArtifactMigrationSchedule) (artifactId : String) (dstRank : Rank)
    (path : FieldPath) (index : List Nat) : Prop :=
  ∃ edge ∈ schedule.edges, edge.artifactId = artifactId ∧ edge.dstRank = dstRank ∧
    edge.dstSlice.fieldPath = path ∧
    Box.Contains (edge.dstSlice.offset.zip edge.dstSlice.shape) index

def FieldsCovered (command : MigrateArtifactsCommand) (schedule : ArtifactMigrationSchedule) : Prop :=
  ∀ spec ∈ command.plan.artifacts, ∀ dstRank field,
    DstField command spec.handle.artifactId dstRank field →
    ∀ index ∈ Box.indices field.localShape,
      Stored schedule spec.handle.artifactId dstRank field.fieldPath index

/-- A source that is read has the element: one for the field, or for another
that its rank described under the same path. -/
def Sourced (command : MigrateArtifactsCommand) (spec : MigrateArtifactSpec) (dstRank : Rank)
    (path : FieldPath) (index : List Nat) : Prop :=
  ∃ field, DstField command spec.handle.artifactId dstRank field ∧ field.fieldPath = path ∧
    index ∈ Box.indices field.localShape ∧
    ∃ source ∈ readSources (sourceEntries command spec path) dstRank command.srcGroup.leader,
      Box.Contains source.2.axes (Box.shiftUp field.globalOffset index)

/-- The boxes of the sources that are read make up every destination field. -/
def SourcesCover (command : MigrateArtifactsCommand) : Prop :=
  ∀ spec ∈ command.plan.artifacts, ∀ dstRank field,
    DstField command spec.handle.artifactId dstRank field →
    ∀ index ∈ Box.indices field.localShape, Sourced command spec dstRank field.fieldPath index

theorem dstFieldEdges_mem {byPath : Dict FieldPath (List FieldEntry)}
    {edges : List TensorMigrationEdge} {edge : TensorMigrationEdge}
    (h : dstFieldEdges artifactId leader byPath dstRank dstField = .ok edges) :
    edge ∈ edges ↔ ∃ source ∈ selectSourceFieldsForDst (byPath.getD dstField.fieldPath []) dstRank
      leader, edgeFor artifactId dstRank dstField source = .ok (some edge) := by
  simp only [dstFieldEdges] at h
  split at h
  · cases h
  · obtain ⟨emitted, hemitted, h⟩ := Except.bind_eq_ok.mp h
    split at h
    · cases h
    · cases h
      rw [List.mem_filterMap]
      constructor
      · rintro ⟨found, hm, rfl⟩
        exact Except.exists_of_mem_mapM hemitted hm
      · rintro ⟨source, hm, hedge⟩
        exact ⟨some edge, Except.mem_mapM hemitted hm hedge, rfl⟩

theorem artifactEdges_mem {spec : MigrateArtifactSpec} {edges : List TensorMigrationEdge}
    {edge : TensorMigrationEdge} (h : artifactEdges command spec = .ok edges) :
    edge ∈ edges ↔ ∃ dstRank field, DstField command spec.handle.artifactId dstRank field ∧
      ∃ source ∈ selectSourceFieldsForDst (sourceEntries command spec field.fieldPath) dstRank
        command.srcGroup.leader,
        edgeFor spec.handle.artifactId dstRank field source = .ok (some edge) := by
  simp only [artifactEdges] at h
  split at h
  · cases h
  split at h
  · cases h
  obtain ⟨byRank, hbyRank, h⟩ := Except.bind_eq_ok.mp h
  cases h
  rw [List.mem_flatten]
  constructor
  · rintro ⟨_, hm, he⟩
    obtain ⟨⟨rank, layout⟩, hlayout, hl⟩ := Except.exists_of_mem_mapM hbyRank hm
    obtain ⟨byField, hbyField, hl⟩ := Except.bind_eq_ok.mp hl
    cases hl
    obtain ⟨_, hm, he⟩ := List.mem_flatten.mp he
    obtain ⟨field, hfield, hd⟩ := Except.exists_of_mem_mapM hbyField hm
    exact ⟨rank, field, ⟨layout, hlayout, hfield⟩, (dstFieldEdges_mem hd).mp he⟩
  · rintro ⟨rank, field, ⟨layout, hlayout, hfield⟩, hsource⟩
    obtain ⟨fields, hfields, hl⟩ := forall₂_mem_left (Except.forall₂_of_mapM hbyRank) hlayout
    obtain ⟨byField, hbyField, hl⟩ := Except.bind_eq_ok.mp hl
    cases hl
    obtain ⟨fieldEdges, hmem, hd⟩ := forall₂_mem_left (Except.forall₂_of_mapM hbyField) hfield
    exact ⟨_, hfields, List.mem_flatten.mpr ⟨fieldEdges, hmem, (dstFieldEdges_mem hd).mpr hsource⟩⟩

theorem build_edges_mem {edge : TensorMigrationEdge}
    (h : buildLayoutMigrationSchedule command = .ok schedule) :
    edge ∈ schedule.edges ↔ ∃ spec ∈ command.plan.artifacts, ∃ dstRank field,
      DstField command spec.handle.artifactId dstRank field ∧
      ∃ source ∈ selectSourceFieldsForDst (sourceEntries command spec field.fieldPath) dstRank
        command.srcGroup.leader,
        edgeFor spec.handle.artifactId dstRank field source = .ok (some edge) := by
  obtain ⟨byArtifact, hbyArtifact, h⟩ := Except.bind_eq_ok.mp h
  have hedges : schedule.edges = byArtifact.flatten := by
    unfold ArtifactMigrationSchedule.make at h
    split at h
    · cases h
    · split at h
      · cases h
      · cases h
        rfl
  rw [hedges, List.mem_flatten]
  constructor
  · rintro ⟨_, hm, he⟩
    obtain ⟨spec, hspec, hs⟩ := Except.exists_of_mem_mapM hbyArtifact hm
    exact ⟨spec, hspec, (artifactEdges_mem hs).mp he⟩
  · rintro ⟨spec, hspec, hedge⟩
    obtain ⟨edges, hm, hs⟩ := forall₂_mem_left (Except.forall₂_of_mapM hbyArtifact) hspec
    exact ⟨edges, hm, (artifactEdges_mem hs).mpr hedge⟩

/-- No source that is read fails the checks of a schedule that is returned. -/
theorem build_reads {spec : MigrateArtifactSpec}
    (h : buildLayoutMigrationSchedule command = .ok schedule)
    (hspec : spec ∈ command.plan.artifacts)
    (hfield : DstField command spec.handle.artifactId dstRank dstField)
    (hsource : source ∈ selectSourceFieldsForDst (sourceEntries command spec dstField.fieldPath)
      dstRank command.srcGroup.leader) :
    ∃ found, edgeFor spec.handle.artifactId dstRank dstField source = .ok found := by
  obtain ⟨layout, hlayout, htensor⟩ := hfield
  obtain ⟨byArtifact, hbyArtifact, -⟩ := Except.bind_eq_ok.mp h
  obtain ⟨edges, -, hs⟩ := forall₂_mem_left (Except.forall₂_of_mapM hbyArtifact) hspec
  simp only [artifactEdges] at hs
  split at hs
  · cases hs
  split at hs
  · cases hs
  obtain ⟨byRank, hbyRank, -⟩ := Except.bind_eq_ok.mp hs
  obtain ⟨fields, -, hl⟩ := forall₂_mem_left (Except.forall₂_of_mapM hbyRank) hlayout
  obtain ⟨byField, hbyField, -⟩ := Except.bind_eq_ok.mp hl
  obtain ⟨fieldEdges, -, hd⟩ := forall₂_mem_left (Except.forall₂_of_mapM hbyField) htensor
  simp only [dstFieldEdges] at hd
  split at hd
  · cases hd
  obtain ⟨emitted, hemitted, -⟩ := Except.bind_eq_ok.mp hd
  obtain ⟨found, -, hfound⟩ := forall₂_mem_left (Except.forall₂_of_mapM hemitted) hsource
  exact ⟨found, hfound⟩

theorem sourceEntries_congr {spec other : MigrateArtifactSpec} {path : FieldPath}
    (h : other.handle.artifactId = spec.handle.artifactId) :
    sourceEntries command other path = sourceEntries command spec path := by
  rw [sourceEntries, sourceEntries, h]

theorem path_of_selected {spec : MigrateArtifactSpec} {path : FieldPath}
    (h : source ∈ selectSourceFieldsForDst (sourceEntries command spec path) dstRank leader) :
    source.2.fieldPath = path := by
  obtain ⟨_, -, -, hpath⟩ := mem_sourceEntries.mp (select_subset h)
  exact hpath

/-- An element is stored exactly when a source that is read has it. -/
theorem stored_iff {spec : MigrateArtifactSpec} {path : FieldPath}
    (h : buildLayoutMigrationSchedule command = .ok schedule)
    (hspec : spec ∈ command.plan.artifacts) :
    Stored schedule spec.handle.artifactId dstRank path index ↔
      Sourced command spec dstRank path index := by
  constructor
  · rintro ⟨edge, he, hartifact, hrank, hpath, hc⟩
    obtain ⟨other, -, rank, field, hfield, source, hsel, hedge⟩ := (build_edges_mem h).mp he
    obtain ⟨hsame, ⟨-, hnone⟩ | ⟨common, edge', hsome, hof⟩⟩ :=
      edgeFor_cases (path_of_selected hsel) hedge
    · cases hnone
    · cases hsome
      obtain ⟨hindex, hsource⟩ := (hof.slice_contains hsame.shape).mp hc
      have hid := hof.artifact.symm.trans hartifact
      obtain rfl := hof.dstRank.symm.trans hrank
      obtain rfl := hof.dstPath.symm.trans hpath
      rw [sourceEntries_congr hid] at hsel
      exact ⟨field, hid ▸ hfield, rfl, hindex,
        (select_covers _ rank command.srcGroup.leader _).mp ⟨source, hsel, hsource⟩⟩
  · rintro ⟨field, hfield, rfl, hindex, hread⟩
    obtain ⟨source, hsel, hsource⟩ := (select_covers ..).mpr hread
    obtain ⟨found, hfound⟩ := build_reads h hspec hfield hsel
    obtain ⟨hsame, ⟨hnone, -⟩ | ⟨common, edge, rfl, hof⟩⟩ :=
      edgeFor_cases (path_of_selected hsel) hfound
    · exact absurd (contains_global hindex).1 (Box.inter_eq_none hnone hsource)
    · exact ⟨edge, (build_edges_mem h).mpr ⟨spec, hspec, dstRank, field, hfield, source, hsel, hfound⟩,
        hof.artifact, hof.dstRank, hof.dstPath, (hof.slice_contains hsame.shape).mpr ⟨hindex, hsource⟩⟩

-- ---------------------------------------------------------------------------
-- Three elements
-- ---------------------------------------------------------------------------

theorem first_two_fit : FitsAxes [0] [2] [3] := by decide

def halfCommand : MigrateArtifactsCommand :=
  { smallCommand with
    layoutResults := [smallResult 0 [smallShard 0 2 first_two_fit] [],
      smallResult 1 [] [smallReplica], smallResult 2 [] [smallReplica]] }

theorem small_dstFields (command : MigrateArtifactsCommand) (dstRank : Rank)
    (h : (collectLayouts (·.dstLayouts) smallHandle.artifactId command.layoutResults).entries =
      [(1, smallReplica), (2, smallReplica)]) (field : TensorFieldLayout) :
    DstField command smallHandle.artifactId dstRank field ↔
      (dstRank = 1 ∨ dstRank = 2) ∧ field ∈ smallReplica.tensors := by
  rw [DstField, h]
  constructor
  · rintro ⟨layout, hlayout, hfield⟩
    simp only [List.mem_cons, Prod.mk.injEq, List.not_mem_nil, or_false] at hlayout
    rcases hlayout with ⟨hrank, rfl⟩ | ⟨hrank, rfl⟩
    · exact ⟨.inl hrank, hfield⟩
    · exact ⟨.inr hrank, hfield⟩
  · rintro ⟨hrank, hfield⟩
    refine ⟨smallReplica, ?_, hfield⟩
    rcases hrank with rfl | rfl
    · exact List.mem_cons_self ..
    · exact List.mem_cons_of_mem _ (List.mem_singleton_self _)

/-- A returned schedule covers the destination exactly when the sources that are
read do. -/
theorem covered_iff (h : buildLayoutMigrationSchedule command = .ok schedule) :
    FieldsCovered command schedule ↔ SourcesCover command := by
  refine forall_congr' fun spec => forall_congr' fun hspec => ?_
  refine forall_congr' fun dstRank => forall_congr' fun field => forall_congr' fun _ => ?_
  exact forall_congr' fun index => forall_congr' fun _ => stored_iff h hspec

/-- Two shards make up the whole. -/
theorem covered_iff_small : ∃ schedule, buildLayoutMigrationSchedule smallCommand = .ok schedule ∧
    FieldsCovered smallCommand schedule := by
  have hok : ∃ schedule, buildLayoutMigrationSchedule smallCommand = .ok schedule := ⟨_, rfl⟩
  obtain ⟨schedule, hschedule⟩ := hok
  refine ⟨schedule, hschedule, (covered_iff hschedule).mpr fun spec hspec rank field hfield => ?_⟩
  obtain rfl := List.mem_singleton.mp hspec
  intro index hindex
  refine ⟨field, hfield, rfl, hindex, ?_⟩
  obtain ⟨hrank, hm⟩ := (small_dstFields _ _ (by decide +kernel) field).mp hfield
  obtain rfl := List.mem_singleton.mp hm
  have hsources : ∀ rank ∈ [1, 2], ∀ index ∈ Box.indices [3], ∃ source ∈ readSources
      (sourceEntries smallCommand smallSpec ["x"]) rank smallCommand.srcGroup.leader,
      Box.Contains source.2.axes (Box.shiftUp [0] index) := by
    decide +kernel
  exact hsources rank (by simpa using hrank) index hindex

/-- The third element of the destination is stored by no edge. -/
theorem hole_left_open : ∃ schedule, buildLayoutMigrationSchedule halfCommand = .ok schedule ∧
    ¬ FieldsCovered halfCommand schedule := by
  have hok : ∃ schedule, buildLayoutMigrationSchedule halfCommand = .ok schedule := ⟨_, rfl⟩
  obtain ⟨schedule, hschedule⟩ := hok
  refine ⟨schedule, hschedule, fun hcovered => ?_⟩
  have hfields := small_dstFields halfCommand 2 (by decide +kernel)
  have hstored := hcovered smallSpec (List.mem_singleton_self _) 2 _
    ((hfields _).mpr ⟨.inr rfl, List.mem_singleton_self _⟩) [2] (by decide)
  obtain ⟨field, hfield, -, -, source, hread, hcontains⟩ :=
    (stored_iff hschedule (List.mem_singleton_self _)).mp hstored
  obtain rfl := List.mem_singleton.mp ((hfields field).mp hfield).2
  obtain rfl := List.mem_singleton.mp hread
  revert hcontains
  decide

end GfDit
