import GfDit.Adapters.DeclaredLayouts
import GfDit.Adapters.EveryStep
import GfDit.Adapters.QwenImage
import GfDit.Adapters.Wan
import GfDit.DataPlane.Reshard

/-!
# RESHARD keeps the layout

A RESHARD gives the state it moves a new name. The codecs decide by the name
which tensors a state holds, so the new name has to be read as the old one is;
then the source and the destination ranks describe the same fields.
-/

namespace GfDit

-- ---------------------------------------------------------------------------
-- What a RESHARD calls its output
-- ---------------------------------------------------------------------------

inductive Renames : PlanArtifact → PlanArtifact → Prop
  | text : Renames .stateText .stateTextDit
  | chunk (idx : Nat) (groupId : String) : Renames (.denoisedAt idx) (.moved idx groupId)
  | last : Renames .denoised .denoisedAux

theorem Renames.not_again (h : Renames a b) (h' : Renames c d) : b.text ≠ c.text := by
  intro heq
  have hcode := PlanArtifact.code_eq heq
  cases h <;> cases h' <;> cases hcode

namespace ChunkedDitPlanArgs

variable {args : ChunkedDitPlanArgs} {f : Nat → Nat → Nat} {c : Cursor}

def Moves (args : ChunkedDitPlanArgs) (task : InferenceTask) : Prop :=
  task.isReshard = true → ∃ a b, Renames a b ∧ task.inputs = [args.stateHandle a.text] ∧
    task.outputs = [args.stateHandle b.text]

theorem denoise_moves (h : args.denoise f schedule rounds c = .ok (added, denoiseIds))
    (hfits : c.Fits args schedule) : ∀ task ∈ added, Moves args task := by
  induction rounds generalizing c added denoiseIds with
  | zero =>
    cases h
    simp
  | succ rounds ih =>
    rw [denoise] at h
    split at h
    · rename_i hlt
      obtain ⟨⟨scheduleEnd, group⟩, hstep, h⟩ := Except.bind_eq_ok.mp h
      simp only at h
      obtain ⟨range, hrange, h⟩ := Except.bind_eq_ok.mp h
      obtain ⟨⟨later, ids⟩, hrun, h⟩ := Except.bind_eq_ok.mp h
      cases h
      have hlater := ih hrun fun hlt' => by
        simp only at hlt'
        rw [if_neg (Nat.succ_ne_zero _), text_outState, if_neg (Nat.ne_of_lt hlt')]
        rfl
      intro task hm
      rcases List.mem_append.mp hm with hm | hm
      · by_cases hsame : c.prevGroupId = group
        · rw [switchGroup_same hsame] at hm
          cases hm
        · have hstate := hfits hlt
          have hidx : c.idx ≠ 0 := by
            intro hzero
            rw [if_pos hzero] at hstate
            obtain ⟨stop, hfirst⟩ := hstate
            rw [hstep] at hfirst
            exact hsame (congrArg Prod.snd (Except.ok.inj hfirst)).symm
          rw [if_neg hidx] at hstate
          obtain ⟨migrated, hmigrated, hswitch⟩ := switchGroup_other hsame hidx hstate
          rw [hswitch] at hm
          rw [List.mem_singleton.mp hm]
          exact fun _ => ⟨_, _, .chunk (c.idx - 1) (optionText group), by rw [← hstate]; rfl,
            by rw [← hmigrated]; rfl⟩
      · rcases List.mem_cons.mp hm with rfl | hm
        · intro hr
          cases hr
        · exact hlater task hm
    · cases h
      simp

theorem not_reshard_moves (h : task.isReshard = false) : Moves args task := fun hr =>
  absurd (hr.symm.trans h) (by decide)

theorem plan_moves (h : args.buildChunkedDitPlan f = .ok plan) :
    ∀ task ∈ plan.tasks.values, Moves args task := by
  unfold buildChunkedDitPlan at h
  obtain ⟨stages, hcheck, h⟩ := Except.bind_eq_ok.mp h
  obtain ⟨schedule, hschedule, h⟩ := Except.bind_eq_ok.mp h
  obtain ⟨tasks, hbuild, h⟩ := Except.bind_eq_ok.mp h
  cases h
  obtain ⟨hpos, hchunk, -⟩ := check_ok hcheck
  obtain ⟨hcontiguous, hgroups⟩ := ditSchedule_ok hpos hschedule
  have hne := hcontiguous.ne_nil hpos
  obtain ⟨first, hhead⟩ : ∃ first, schedule.head? = some first := ⟨_, List.head?_eq_some_head hne⟩
  obtain ⟨last, hlast⟩ : ∃ last, schedule.getLast? = some last :=
    ⟨_, List.getLast?_eq_some_getLast hne⟩
  obtain ⟨added, ids, hrun, hd⟩ := denoise_start hchunk hcontiguous hgroups hhead
  have hfits : (args.firstCursor first.groupId).Fits args schedule := by
    obtain ⟨rest, rfl⟩ := List.head?_eq_some_iff.mp hhead
    exact firstCursor_fits hcontiguous
  have hadded := denoise_moves hrun hfits
  obtain ⟨lastChunk, before, -, hbuild', hlists⟩ := buildTasks_eq stages hpos hhead hlast hrun hd
  rw [hbuild] at hbuild'
  intro task hm
  obtain ⟨key, hget⟩ := Dict.exists_get?_of_mem_values hm
  cases stages with
  | none =>
    cases hbuild'
    obtain ⟨hm, -⟩ := (hlists.get?_iff _ _).mp hget
    simp only [List.mem_append, List.mem_cons, List.not_mem_nil, or_false] at hm
    rcases hm with (rfl | rfl | rfl) | rfl | rfl | hm
    · exact not_reshard_moves rfl
    · exact not_reshard_moves rfl
    · exact not_reshard_moves rfl
    · exact not_reshard_moves rfl
    · exact not_reshard_moves rfl
    · exact hadded task hm
  | some groups =>
    obtain ⟨after, hinsert, hlists'⟩ := insertStageReshards_ok hd hlists last.groupId
    cases hbuild'.trans hinsert
    obtain ⟨hm, -⟩ := (hlists'.get?_iff _ _).mp hget
    simp only [List.mem_append, List.mem_cons, List.not_mem_nil, or_false] at hm
    rcases hm with (rfl | rfl | rfl) | rfl | rfl | (hm | rfl) | rfl
    · exact not_reshard_moves rfl
    · exact not_reshard_moves rfl
    · exact not_reshard_moves rfl
    · exact not_reshard_moves rfl
    · exact not_reshard_moves rfl
    · exact hadded task hm
    · exact fun _ => ⟨_, _, .text, rfl, rfl⟩
    · exact fun _ => ⟨_, _, .last, rfl, rfl⟩

/-- A RESHARD moves what a task that is not a RESHARD left. -/
theorem reshard_producer (h : args.buildChunkedDitPlan f = .ok plan)
    (hm : task ∈ plan.tasks.values) (hr : task.isReshard = true) :
    ∃ a b, Renames a b ∧ task.inputs = [args.stateHandle a.text] ∧
      task.outputs = [args.stateHandle b.text] ∧
      ∃ producer ∈ plan.tasks.values, producer.isReshard = false ∧
        task.dependencies = [producer.taskId] ∧ args.stateHandle a.text ∈ producer.outputs := by
  have hmoves := plan_moves h
  obtain ⟨a, b, hab, hin, hout⟩ := hmoves task hm hr
  unfold buildChunkedDitPlan at h
  obtain ⟨stages, hcheck, h'⟩ := Except.bind_eq_ok.mp h
  obtain ⟨schedule, hschedule, -⟩ := Except.bind_eq_ok.mp h'
  obtain ⟨plan', chain, hplan, hchain, -⟩ := exists_planChain f hcheck hschedule
  obtain rfl : plan' = plan := Except.ok.inj (hplan.symm.trans h)
  refine ⟨a, b, hab, hin, hout, ?_⟩
  have hinput : args.stateHandle a.text ∈ task.inputs := hin ▸ List.mem_singleton_self _
  rcases hchain.produced task (hchain.tasks.mem_iff.mp hm) _ hinput with hreq | hproduced
  · exact absurd (congrArg ArtifactHandle.codecId hreq) (by simp [stateHandle, reqHandle])
  · obtain ⟨producer, hp, hdep, hleft, -⟩ := hproduced
    have hp := hchain.tasks.mem_iff.mpr hp
    refine ⟨producer, hp, ?_, hdep, hleft⟩
    by_contra hreshard
    obtain ⟨c, d, hcd, -, hleft'⟩ := hmoves producer hp (by simpa using hreshard)
    rw [hleft'] at hleft
    have htext := congrArg ArtifactHandle.artifactId (List.mem_singleton.mp hleft)
    exact hcd.not_again hab htext.symm

end ChunkedDitPlanArgs

-- ---------------------------------------------------------------------------
-- What the codecs read in a name
-- ---------------------------------------------------------------------------

theorem Renames.hasLatents_eq (h : Renames a b) : hasLatents a.text = hasLatents b.text := by
  cases h with
  | text => decide
  | chunk idx groupId =>
    simp only [hasLatents, startsWith_denoised (.denoisedAt idx) rfl,
      startsWith_denoised (.moved idx groupId) rfl, or_true]
  | last => decide

theorem Renames.hasTimesteps_eq (h : Renames a b) : hasTimesteps a.text = hasTimesteps b.text := by
  cases h with
  | text => decide
  | chunk idx groupId =>
    simp only [hasTimesteps, startsWith_denoised (.denoisedAt idx) rfl,
      startsWith_denoised (.moved idx groupId) rfl, or_true]
  | last => decide

/-- What a codec describes, if it does: replicated fields of different names. -/
structure Describes (described : Except PyError OutputArtifactLayout) (handle : ArtifactHandle)
    (fields : Except PyError (List (String × Shape × String))) : Prop where
  tensors : described.map (·.tensors) = fields >>= replicatedFields
  handle : ∀ layout, described = .ok layout → layout.handle = handle
  names : ∀ named, fields = .ok named → (named.map Prod.fst).Nodup

theorem outputArtifactLayout_ok (h : handle.hasCodec = true) :
    outputArtifactLayout handle tensors = .ok ⟨handle, tensors, h⟩ := by
  rw [outputArtifactLayout, dif_pos h]
  rfl

theorem describes_of_fields {fields : Except PyError (List (String × Shape × String))}
    (h : handle.hasCodec = true) (hn : ∀ named, fields = .ok named → (named.map Prod.fst).Nodup) :
    Describes (do
      let named ← fields
      let tensors ← replicatedFields named
      outputArtifactLayout handle tensors) handle fields where
  tensors := by
    cases fields with
    | error e => rfl
    | ok named =>
      simp only [Except.ok_bind]
      cases hr : replicatedFields named with
      | error e => rfl
      | ok tensors =>
        rw [Except.ok_bind, outputArtifactLayout_ok h]
        rfl
  handle := by
    intro layout hd
    obtain ⟨named, -, hd⟩ := Except.bind_eq_ok.mp hd
    obtain ⟨tensors, -, hd⟩ := Except.bind_eq_ok.mp hd
    rw [outputArtifactLayout_ok h] at hd
    cases hd
    rfl
  names := hn

theorem Wan.declaredFields_names {pipeline : Wan.Pipeline} {metadata : Dict String PyValue}
    (h : Wan.declaredFields pipeline metadata artifactId = .ok named) :
    (named.map Prod.fst).Nodup := by
  unfold Wan.declaredFields at h
  obtain ⟨batch, -, h⟩ := Except.bind_eq_ok.mp h
  obtain ⟨textSeqLen, -, h⟩ := Except.bind_eq_ok.mp h
  obtain ⟨numSteps, -, h⟩ := Except.bind_eq_ok.mp h
  simp only at h
  split at h
  · obtain ⟨shape, -, h⟩ := Except.bind_eq_ok.mp h
    cases h
    split <;> split <;> split <;> simp
  · cases h
    split <;> split <;> simp

theorem QwenImage.declaredFields_names {Token : Type} {pipeline : QwenImage.Pipeline Token}
    {metadata : Dict String PyValue}
    (h : QwenImage.declaredFields pipeline metadata artifactId = .ok named) :
    (named.map Prod.fst).Nodup := by
  unfold QwenImage.declaredFields at h
  obtain ⟨batch, -, h⟩ := Except.bind_eq_ok.mp h
  obtain ⟨textSeqLen, -, h⟩ := Except.bind_eq_ok.mp h
  obtain ⟨latentSeqLen, -, h⟩ := Except.bind_eq_ok.mp h
  obtain ⟨numSteps, -, h⟩ := Except.bind_eq_ok.mp h
  cases h
  split <;> split <;> split <;> (try split) <;> simp

theorem Wan.describeOutput_describes (pipeline : Wan.Pipeline) {group : ExecutionGroupSpec}
    (hr : groupRank < group.ranks.length) (hc : artifact.codecId = some Wan.stateCodecId)
    (metadata : Dict String PyValue) :
    Describes (Wan.describeOutput pipeline group groupRank metadata artifact) artifact
      (Wan.declaredFields pipeline metadata artifact.artifactId) := by
  have hv : Wan.validateArtifact group groupRank artifact = .ok () := by
    rw [Wan.validateArtifact, if_neg (Nat.not_le.mpr hr), if_neg (not_not_intro hc)]
    rfl
  have hcodec : artifact.hasCodec = true := by
    rw [ArtifactHandle.hasCodec, hc]
    decide
  rw [Wan.describeOutput, hv, Except.ok_bind]
  exact describes_of_fields hcodec fun _ => Wan.declaredFields_names

theorem QwenImage.describeOutput_describes {Token : Type} (pipeline : QwenImage.Pipeline Token)
    {group : ExecutionGroupSpec} (hr : groupRank < group.ranks.length)
    (hc : artifact.codecId = some QwenImage.stateCodecId) (metadata : Dict String PyValue) :
    Describes (QwenImage.describeOutput pipeline group groupRank metadata artifact) artifact
      (QwenImage.declaredFields pipeline metadata artifact.artifactId) := by
  have hv : QwenImage.validateArtifact "state" QwenImage.stateCodecId group groupRank artifact =
      .ok () := by
    rw [QwenImage.validateArtifact, if_neg (Nat.not_le.mpr hr), if_neg (not_not_intro hc)]
    rfl
  have hcodec : artifact.hasCodec = true := by
    rw [ArtifactHandle.hasCodec, hc]
    decide
  rw [QwenImage.describeOutput, hv, Except.ok_bind]
  exact describes_of_fields hcodec fun _ => QwenImage.declaredFields_names

theorem Wan.declaredFields_congr (pipeline : Wan.Pipeline) (metadata : Dict String PyValue)
    (h : Renames a b) :
    Wan.declaredFields pipeline metadata a.text = Wan.declaredFields pipeline metadata b.text := by
  simp only [Wan.declaredFields, h.hasLatents_eq, h.hasTimesteps_eq]

theorem QwenImage.declaredFields_congr {Token : Type} (pipeline : QwenImage.Pipeline Token)
    (metadata : Dict String PyValue) (h : Renames a b) :
    QwenImage.declaredFields pipeline metadata a.text =
      QwenImage.declaredFields pipeline metadata b.text := by
  simp only [QwenImage.declaredFields, h.hasLatents_eq, h.hasTimesteps_eq]

-- ---------------------------------------------------------------------------
-- What the ranks describe
-- ---------------------------------------------------------------------------

/-- A codec's `describe_output`, by group, rank of the group and handle. -/
abbrev Describe := ExecutionGroupSpec → Nat → ArtifactHandle → Except PyError OutputArtifactLayout

/-- A source layout is described under the name the state has there, and filed
under the name it will have. -/
def describeSource (describe : Describe) (stored : ArtifactHandle → Bool)
    (command : MigrateArtifactsCommand) (rank : Rank) (spec : MigrateArtifactSpec) :
    Except PyError OutputArtifactLayout := do
  let source := spec.effectiveSourceHandle
  if stored source then
    let layout ← describe command.srcGroup (command.srcGroup.ranks.idxOf rank) source
    outputArtifactLayout spec.handle layout.tensors
  else
    throw (.keyError <| s!"source artifact not found for migration: request_id=" ++
      s!"{command.plan.requestId}, group_id={command.srcGroup.groupId}, " ++
      s!"artifact_id={source.artifactId}, rank={rank}")

def describeSources (describe : Describe) (stored : ArtifactHandle → Bool)
    (command : MigrateArtifactsCommand) (rank : Rank) : Except PyError (List OutputArtifactLayout) :=
  if rank ∈ command.srcGroup.ranks then
    command.plan.artifacts.mapM (describeSource describe stored command rank)
  else pure []

def describeTargets (describe : Describe) (command : MigrateArtifactsCommand) (rank : Rank) :
    Except PyError (List OutputArtifactLayout) :=
  if rank ∈ command.dstGroup.ranks then
    command.plan.artifacts.mapM fun spec =>
      describe command.dstGroup (command.dstGroup.ranks.idxOf rank) spec.handle
  else pure []

def describeMigrationLayouts (describe : Describe) (stored : ArtifactHandle → Bool)
    (command : MigrateArtifactsCommand) (rank : Rank) :
    Except PyError MigrateArtifactsRankResult := do
  let srcLayouts ← describeSources describe stored command rank
  let dstLayouts ← describeTargets describe command rank
  pure {
    migrateId := command.migrateId
    requestId := command.plan.requestId
    workerRank := rank
    phase := command.phase
    srcLayouts := srcLayouts
    dstLayouts := dstLayouts
    schedule := none
    metadataPayloads := []
    error := none }

/-- The command of a RESHARD, once all ranks of both groups have described it. -/
structure Answered (describe : Describe) (stored : Rank → ArtifactHandle → Bool)
    (input output : ArtifactHandle) (command : MigrateArtifactsCommand) : Prop where
  migrate : command.migrateId ≠ ""
  artifact : ∃ spec, command.plan.artifacts = [spec] ∧ spec.effectiveSourceHandle = input ∧
    spec.handle = output
  ranks : (command.layoutResults.map (·.workerRank)).Nodup
  all : ∀ rank, rank ∈ command.srcGroup.ranks ∨ rank ∈ command.dstGroup.ranks →
    rank ∈ command.layoutResults.map (·.workerRank)
  results : ∀ result ∈ command.layoutResults,
    describeMigrationLayouts describe (stored result.workerRank) command result.workerRank =
      .ok result

def wholeField (tensor : TensorFieldLayout) : FieldSpec :=
  ⟨tensor.fieldPath, tensor.dtype, tensor.globalShape, .replicated, .replicated, tensor.path_ne,
    tensor.dtype_ne⟩

theorem wholeFields (h : replicatedFields named = .ok tensors) :
    List.Forall₂ (fun (field : FieldSpec) tensor =>
      replicatedTensorField field.path field.shape field.dtype = .ok tensor)
      (tensors.map wholeField) tensors ∧
    tensors.map (·.fieldPath) = named.map fun field => [field.1] := by
  have hall := Except.forall₂_of_mapM h
  clear h
  induction hall with
  | nil => exact ⟨.nil, rfl⟩
  | @cons _ tensor _ _ hb _ ih =>
    obtain ⟨hpath, hshape, hdtype⟩ := replicatedTensorField_eq (List.cons_ne_nil _ _) hb
    refine ⟨.cons ?_ ih.1, by rw [List.map_cons, List.map_cons, hpath, ih.2]⟩
    show replicatedTensorField tensor.fieldPath tensor.globalShape tensor.dtype = _
    rw [hpath, hshape, hdtype]
    exact hb

section Answered

variable {describe : Describe} {stored : Rank → ArtifactHandle → Bool}
  {fields : Except PyError (List (String × Shape × String))} {command : MigrateArtifactsCommand}

theorem Describes.tensors_eq {described : Except PyError OutputArtifactLayout}
    (h : Describes described target fields) (hd : described = .ok layout) :
    ∃ named, fields = .ok named ∧ replicatedFields named = .ok layout.tensors := by
  have htensors := h.tensors
  rw [hd] at htensors
  exact Except.bind_eq_ok.mp htensors.symm

def Declared (output : ArtifactHandle) (fields : Except PyError (List (String × Shape × String)))
    (layout : OutputArtifactLayout) : Prop :=
  layout.handle = output ∧ ∃ named, fields = .ok named ∧ replicatedFields named = .ok layout.tensors

/-- A rank of the source declares the fields once, the others nothing. -/
theorem describeSources_declared (hspec : command.plan.artifacts = [spec])
    (hsource : spec.effectiveSourceHandle = input) (hhandle : spec.handle = output)
    (hin : ∀ group rank, rank < group.ranks.length → Describes (describe group rank input) input fields)
    {stored : ArtifactHandle → Bool}
    (h : describeSources describe stored command rank = .ok layouts) :
    (rank ∈ command.srcGroup.ranks → ∃ layout, layouts = [layout] ∧ Declared output fields layout) ∧
      (rank ∉ command.srcGroup.ranks → layouts = []) := by
  unfold describeSources at h
  rw [hspec] at h
  refine ⟨fun hr => ?_, fun hr => ?_⟩
  · rw [if_pos hr] at h
    obtain ⟨layout, htail, hdescribed, hnil⟩ := List.forall₂_cons_left_iff.mp (Except.forall₂_of_mapM h)
    obtain ⟨hnil, rfl⟩ := hnil
    cases hnil
    refine ⟨layout, rfl, ?_⟩
    simp only [describeSource, hsource] at hdescribed
    split at hdescribed
    · obtain ⟨read, hread, hfiled⟩ := Except.bind_eq_ok.mp hdescribed
      have hd := (hin _ _ (List.idxOf_lt_length_of_mem hr)).tensors_eq hread
      unfold outputArtifactLayout at hfiled
      split at hfiled
      · cases hfiled
        exact ⟨hhandle, hd⟩
      · cases hfiled
    · cases hdescribed
  · rw [if_neg hr] at h
    cases h
    rfl

theorem describeTargets_declared (hspec : command.plan.artifacts = [spec])
    (hhandle : spec.handle = output)
    (hout : ∀ group rank, rank < group.ranks.length →
      Describes (describe group rank output) output fields)
    (h : describeTargets describe command rank = .ok layouts) :
    (rank ∈ command.dstGroup.ranks → ∃ layout, layouts = [layout] ∧ Declared output fields layout) ∧
      (rank ∉ command.dstGroup.ranks → layouts = []) := by
  unfold describeTargets at h
  rw [hspec] at h
  refine ⟨fun hr => ?_, fun hr => ?_⟩
  · rw [if_pos hr] at h
    obtain ⟨layout, htail, hread, hnil⟩ := List.forall₂_cons_left_iff.mp (Except.forall₂_of_mapM h)
    obtain ⟨hnil, rfl⟩ := hnil
    cases hnil
    rw [hhandle] at hread
    have hd := hout command.dstGroup _ (List.idxOf_lt_length_of_mem hr)
    exact ⟨layout, rfl, hd.handle layout hread, hd.tensors_eq hread⟩
  · rw [if_neg hr] at h
    cases h
    rfl

theorem Answered.declared (h : Answered describe stored input output command)
    (hin : ∀ group rank, rank < group.ranks.length → Describes (describe group rank input) input fields)
    (hout : ∀ group rank, rank < group.ranks.length →
      Describes (describe group rank output) output fields)
    (hm : result ∈ command.layoutResults) :
    ((result.workerRank ∈ command.srcGroup.ranks →
        ∃ layout, result.srcLayouts = [layout] ∧ Declared output fields layout) ∧
      (result.workerRank ∉ command.srcGroup.ranks → result.srcLayouts = [])) ∧
    (result.workerRank ∈ command.dstGroup.ranks →
        ∃ layout, result.dstLayouts = [layout] ∧ Declared output fields layout) ∧
      (result.workerRank ∉ command.dstGroup.ranks → result.dstLayouts = []) := by
  obtain ⟨spec, hspec, hsource, hhandle⟩ := h.artifact
  have hrun := h.results result hm
  obtain ⟨src, hsrc, hrun⟩ := Except.bind_eq_ok.mp hrun
  obtain ⟨dst, hdst, hrun⟩ := Except.bind_eq_ok.mp hrun
  have hsrc' := describeSources_declared hspec hsource hhandle hin hsrc
  have hdst' := describeTargets_declared hspec hhandle hout hdst
  have hresult := Except.pure_eq_ok.mp hrun
  rw [← hresult]
  exact ⟨hsrc', hdst'⟩

theorem Declared.layoutOf (h : Declared output fields layout) (hspec : spec.handle = output)
    (hfields : fields = .ok named) (htensors : replicatedFields named = .ok tensors)
    {placement : FieldSpec → Placement} (hp : ∀ field, placement (wholeField field) = .replicated)
    (rank : Rank) : LayoutOf placement rank spec (tensors.map wholeField) layout := by
  obtain ⟨hhandle, named', hfields', htensors'⟩ := h
  obtain rfl : named = named' := Except.ok.inj (hfields.symm.trans hfields')
  obtain rfl : tensors = layout.tensors := Except.ok.inj (htensors.symm.trans htensors')
  refine ⟨hhandle.trans hspec.symm, ?_⟩
  refine (List.forall₂_map_left_iff.mpr ?_)
  refine (List.forall₂_map_left_iff.mp (wholeFields htensors).1).imp fun field tensor hok => ?_
  rw [hp]
  exact hok

theorem Declared.tensors_eq (h : Declared output fields layout) (hfields : fields = .ok named)
    (htensors : replicatedFields named = .ok tensors) : layout.tensors = tensors := by
  obtain ⟨-, named', hfields', htensors'⟩ := h
  obtain rfl : named = named' := Except.ok.inj (hfields.symm.trans hfields')
  exact Except.ok.inj (htensors'.symm.trans htensors)

/-- A side whose ranks answered describes the fields, each whole on every rank. -/
theorem sideDescribed {placement : FieldSpec → Placement} (hspec : command.plan.artifacts = [spec])
    (hhandle : spec.handle = output) (hfields : fields = .ok named)
    (htensors : replicatedFields named = .ok tensors)
    (hp : ∀ field, placement (wholeField field) = .replicated)
    {side : MigrateArtifactsRankResult → List OutputArtifactLayout}
    (hside : ∀ result ∈ command.layoutResults, (result.workerRank ∈ ranks →
        ∃ layout, side result = [layout] ∧ Declared output fields layout) ∧
      (result.workerRank ∉ ranks → side result = [])) :
    SideDescribed command.plan (fun _ => tensors.map wholeField) placement ranks side
      command.layoutResults where
  inside := fun result hm hr => by
    obtain ⟨layout, hlayout, hd⟩ := (hside result hm).1 hr
    rw [hspec, hlayout]
    exact .cons (hd.layoutOf hhandle hfields htensors hp _) .nil
  outside := fun result hm => (hside result hm).2
  valid := fun _ _ field hf => by
    obtain ⟨tensor, -, rfl⟩ := List.mem_map.mp hf
    rw [hp]
    trivial

/-- The schedule of a RESHARD is built, and every rank of both sides declares
the same tensors. -/
theorem Answered.build_ok (h : Answered describe stored input output command)
    (hin : ∀ group rank, rank < group.ranks.length → Describes (describe group rank input) input fields)
    (hout : ∀ group rank, rank < group.ranks.length →
      Describes (describe group rank output) output fields) :
    (∃ schedule, buildLayoutMigrationSchedule command = .ok schedule) ∧
      ∀ result ∈ command.layoutResults, ∀ layout ∈ result.srcLayouts,
        ∀ result' ∈ command.layoutResults, ∀ layout' ∈ result'.dstLayouts,
          layout'.tensors = layout.tensors := by
  obtain ⟨spec, hspec, hsource, hhandle⟩ := h.artifact
  obtain ⟨leader, hl, hrank⟩ := List.mem_map.mp (h.all _ (.inl command.srcGroup.leader_mem))
  obtain ⟨first, -, -, named, hfields, htensors⟩ :=
    (h.declared hin hout hl).1.1 (hrank ▸ command.srcGroup.leader_mem)
  have hdescribed : Described (fun _ => first.tensors.map wholeField) command := by
    refine ⟨h.ranks, h.all, by simp [hspec], fun _ _ => ?_,
      sideDescribed hspec hhandle hfields htensors (fun _ => rfl) fun result hm =>
        (h.declared hin hout hm).1,
      sideDescribed hspec hhandle hfields htensors (fun _ => rfl) fun result hm =>
        (h.declared hin hout hm).2, fun _ _ field hf => ?_⟩
    · have hnames := (hin command.srcGroup 0 (List.length_pos_of_mem
        command.srcGroup.leader_mem)).names named hfields
      have hpaths := (wholeFields htensors).2
      have hsingle := hnames.map (f := fun name => [name]) fun a b hab => (List.cons.inj hab).1
      rw [List.map_map] at hsingle ⊢
      exact hpaths ▸ hsingle
    · obtain ⟨tensor, -, rfl⟩ := List.mem_map.mp hf
      trivial
  obtain ⟨schedule, hbuild, -⟩ := hdescribed.build_ok h.migrate
  refine ⟨⟨schedule, hbuild⟩, fun result hm layout hlayout result' hm' layout' hlayout' => ?_⟩
  have hone : ∀ {present : Prop} {layouts : List OutputArtifactLayout} {found},
      (present → ∃ layout, layouts = [layout] ∧ Declared output fields layout) ∧
        (¬ present → layouts = []) → found ∈ layouts → found.tensors = first.tensors := by
    intro present layouts found hall hm
    by_cases hp : present
    · obtain ⟨layout, hlayouts, hd⟩ := hall.1 hp
      rw [hlayouts] at hm
      rw [List.mem_singleton.mp hm]
      exact hd.tensors_eq hfields htensors
    · rw [hall.2 hp] at hm
      cases hm
  rw [hone (h.declared hin hout hm').2 hlayout', hone (h.declared hin hout hm).1 hlayout]

end Answered

-- ---------------------------------------------------------------------------
-- Every RESHARD of a plan
-- ---------------------------------------------------------------------------

/-- The codec declares the same tensors for the input and for the output, on
whatever groups and ranks, and a migration between them gets its schedule. -/
def KeepsLayout (describe : Describe) (input output : ArtifactHandle) : Prop :=
  (∀ (src dst : ExecutionGroupSpec) (srcRank dstRank : Nat), srcRank < src.ranks.length →
    dstRank < dst.ranks.length → (describe src srcRank input).map (·.tensors) =
      (describe dst dstRank output).map (·.tensors)) ∧
  ∀ stored command, Answered describe stored input output command →
    (∃ schedule, buildLayoutMigrationSchedule command = .ok schedule) ∧
    ∀ result ∈ command.layoutResults, ∀ layout ∈ result.srcLayouts,
      ∀ result' ∈ command.layoutResults, ∀ layout' ∈ result'.dstLayouts,
        layout'.tensors = layout.tensors

theorem keepsLayout_of_describes {describe : Describe}
    {fields : Except PyError (List (String × Shape × String))}
    (hin : ∀ group rank, rank < group.ranks.length → Describes (describe group rank input) input fields)
    (hout : ∀ group rank, rank < group.ranks.length →
      Describes (describe group rank output) output fields) : KeepsLayout describe input output :=
  ⟨fun src dst srcRank dstRank hs hd => (hin src srcRank hs).tensors.trans
    (hout dst dstRank hd).tensors.symm, fun _ _ h => h.build_ok hin hout⟩

/-- Every RESHARD of a plan moves what a task that is not a RESHARD left, under
a name that either codec reads as the old one. -/
theorem reshard_keeps_layout (f : Nat → Nat → Nat) (args : ChunkedDitPlanArgs)
    (plan : RequestExecutionPlan) (h : args.buildChunkedDitPlan f = .ok plan)
    (task : InferenceTask) (hm : task ∈ plan.tasks.values) (hr : task.isReshard = true) :
    ∃ input output, task.inputs = [input] ∧ task.outputs = [output] ∧
      (∃ producer ∈ plan.tasks.values, producer.isReshard = false ∧
        task.dependencies = [producer.taskId] ∧ input ∈ producer.outputs) ∧
      (args.stateCodecId = Wan.stateCodecId → ∀ pipeline metadata,
        KeepsLayout (fun group rank artifact =>
          Wan.describeOutput pipeline group rank metadata artifact) input output) ∧
      (args.stateCodecId = QwenImage.stateCodecId → ∀ (Token : Type)
        (pipeline : QwenImage.Pipeline Token) metadata, KeepsLayout (fun group rank artifact =>
          QwenImage.describeOutput pipeline group rank metadata artifact) input output) := by
  obtain ⟨a, b, hab, hin, hout, hproducer⟩ := ChunkedDitPlanArgs.reshard_producer h hm hr
  refine ⟨_, _, hin, hout, hproducer, fun hc pipeline metadata => ?_,
    fun hc Token pipeline metadata => ?_⟩
  · have hcodec : ∀ text, (args.stateHandle text).codecId = some Wan.stateCodecId := fun _ =>
      congrArg some hc
    refine keepsLayout_of_describes (fun group rank hrank =>
      Wan.describeOutput_describes pipeline hrank (hcodec _) metadata) fun group rank hrank => ?_
    have hfields : Wan.declaredFields pipeline metadata (args.stateHandle a.text).artifactId =
        Wan.declaredFields pipeline metadata (args.stateHandle b.text).artifactId :=
      Wan.declaredFields_congr pipeline metadata hab
    rw [hfields]
    exact Wan.describeOutput_describes pipeline hrank (hcodec _) metadata
  · have hcodec : ∀ text, (args.stateHandle text).codecId = some QwenImage.stateCodecId := fun _ =>
      congrArg some hc
    refine keepsLayout_of_describes (fun group rank hrank =>
      QwenImage.describeOutput_describes pipeline hrank (hcodec _) metadata) fun group rank hrank => ?_
    have hfields : QwenImage.declaredFields pipeline metadata (args.stateHandle a.text).artifactId =
        QwenImage.declaredFields pipeline metadata (args.stateHandle b.text).artifactId :=
      QwenImage.declaredFields_congr pipeline metadata hab
    rw [hfields]
    exact QwenImage.describeOutput_describes pipeline hrank (hcodec _) metadata

def wanSplitArgs : ChunkedDitPlanArgs :=
  { ChunkedDitPlanArgs.splitPlanArgs with stateCodecId := Wan.stateCodecId }

def textHandle : ArtifactHandle := ⟨"r", "state_text", some Wan.stateCodecId⟩

def ditTextHandle : ArtifactHandle := ⟨"r", "state_text_dit", some Wan.stateCodecId⟩

def textCommand (layoutResults : List MigrateArtifactsRankResult) : MigrateArtifactsCommand where
  migrateId := "m"
  phase := .buildSchedule
  plan := ⟨"r", "aux", "dit", [⟨ditTextHandle, some textHandle, by decide, by decide⟩],
    smallPlan.request_ne, by decide, by decide, by decide, by decide⟩
  srcGroup := soloSpec "aux" 0 []
  dstGroup := soloSpec "dit" 1 []
  layoutResults
  schedule := none
  metadataPayloads := []

theorem textCommand_answered {describe : Describe} {first second : MigrateArtifactsRankResult}
    (h0 : describeMigrationLayouts describe (fun _ => true) (textCommand []) 0 = .ok first)
    (h1 : describeMigrationLayouts describe (fun _ => true) (textCommand []) 1 = .ok second) :
    Answered describe (fun _ _ => true) textHandle ditTextHandle (textCommand [first, second]) := by
  have hrank {rank : Rank} {result : MigrateArtifactsRankResult}
      (h : describeMigrationLayouts describe (fun _ => true) (textCommand []) rank = .ok result) :
      result.workerRank = rank := by
    obtain ⟨_, -, h⟩ := Except.bind_eq_ok.mp h
    obtain ⟨_, -, h⟩ := Except.bind_eq_ok.mp h
    obtain rfl := Except.pure_eq_ok.mp h
    rfl
  have hranks : (textCommand [first, second]).layoutResults.map (·.workerRank) = [0, 1] := by
    rw [textCommand, List.map_cons, List.map_singleton, hrank h0, hrank h1]
  refine ⟨by simp [textCommand], ⟨_, rfl, rfl, rfl⟩, by rw [hranks]; decide, fun rank hm => ?_,
    fun result hm => ?_⟩
  · rw [hranks]
    simpa [textCommand, soloSpec] using hm
  · rcases List.mem_pair.mp hm with rfl | rfl
    · rw [hrank h0]
      exact h0
    · rw [hrank h1]
      exact h1

/-- The text state is moved to the DiT group: both ranks describe it, and the
schedule is built. -/
theorem wanSplitArgs_keeps_layout : ∃ plan task input output,
    wanSplitArgs.buildChunkedDitPlan (fun seqLen _ => seqLen) = .ok plan ∧
      task ∈ plan.tasks.values ∧ task.isReshard = true ∧ task.inputs = [input] ∧
      task.outputs = [output] ∧ (∀ pipeline metadata, KeepsLayout (fun group rank artifact =>
        Wan.describeOutput pipeline group rank metadata artifact) input output) ∧
      ∃ command schedule, Answered (fun group rank artifact =>
        Wan.describeOutput smallWan group rank ∅ artifact) (fun _ _ => true) input output command ∧
          command.layoutResults.length = 2 ∧
            buildLayoutMigrationSchedule command = .ok schedule := by
  have hany : ((wanSplitArgs.buildChunkedDitPlan (fun seqLen _ => seqLen)).toOption.map fun plan =>
      plan.tasks.values.any fun task => task.isReshard &&
        decide (task.inputs = [textHandle] ∧ task.outputs = [ditTextHandle])) = some true := by
    decide +kernel
  have hdescribed : ∀ rank ∈ [0, 1], (describeMigrationLayouts (fun group rank artifact =>
      Wan.describeOutput smallWan group rank ∅ artifact) (fun _ => true)
        (textCommand []) rank).toOption.isSome = true := by
    decide +kernel
  cases hplan : wanSplitArgs.buildChunkedDitPlan (fun seqLen _ => seqLen) with
  | error e =>
    rw [hplan] at hany
    cases hany
  | ok plan =>
    rw [hplan] at hany
    obtain ⟨task, hm, hr⟩ := List.any_eq_true.mp (Option.some.inj hany)
    obtain ⟨hr, hio⟩ := Bool.and_eq_true_iff.mp hr
    obtain ⟨hin, hout⟩ := of_decide_eq_true hio
    obtain ⟨input, output, hin', hout', -, hwan, -⟩ :=
      reshard_keeps_layout (fun seqLen _ => seqLen) wanSplitArgs plan hplan task hm hr
    obtain rfl := List.singleton_inj.mp (hin.symm.trans hin')
    obtain rfl := List.singleton_inj.mp (hout.symm.trans hout')
    obtain ⟨first, h0⟩ := Option.isSome_iff_exists.mp (hdescribed 0 (by decide))
    obtain ⟨second, h1⟩ := Option.isSome_iff_exists.mp (hdescribed 1 (by decide))
    have hanswered := textCommand_answered (Except.toOption_eq_some h0)
      (Except.toOption_eq_some h1)
    obtain ⟨schedule, hschedule⟩ := ((hwan rfl smallWan ∅).2 _ _ hanswered).1
    exact ⟨plan, task, _, _, rfl, hm, hr, hin, hout, hwan rfl, _, schedule, hanswered, rfl,
      hschedule⟩

end GfDit
