import Mathlib.Data.List.Chain
import GfDit.Adapters.ChunkedPlan

/-!
# The chain of a chunked plan

The tasks of a plan with both ends and the RESHARD tasks between the stages
form one chain from text encoding to finalizing. Each input but the request is
the output of one task, the one before; and with stage groups every task takes
its input on the group where it was left.
-/

namespace GfDit

-- ---------------------------------------------------------------------------
-- Producers along a chain
-- ---------------------------------------------------------------------------

theorem nodup_between {front middle back : List α} (h : (front ++ back).Nodup) (hm : middle.Nodup)
    (hd : ∀ a ∈ front ++ back, a ∉ middle) : (front ++ (middle ++ back)).Nodup := by
  have hperm : (front ++ (middle ++ back)).Perm ((front ++ back) ++ middle) := by
    rw [List.append_assoc]
    exact .append_left _ List.perm_append_comm
  refine hperm.nodup_iff.mpr (List.nodup_append.mpr ⟨h, hm, fun a ha b hb heq => ?_⟩)
  exact hd a ha (heq ▸ hb)

theorem isChain_around {R : α → α → Prop} {lead middle tail : List α}
    (hlead : (lead ++ [first]).IsChain R) (hmiddle : (first :: middle).IsChain R)
    (hlast : middle.getLast? = some last) (htail : (last :: tail).IsChain R) :
    (lead ++ first :: (middle ++ tail)).IsChain R := by
  refine List.isChain_split.mpr ⟨hlead, ?_⟩
  rw [← List.cons_append]
  refine List.isChain_append.mpr ⟨hmiddle, htail.tail, fun a ha b hb => ?_⟩
  rw [List.getLast?_cons, hlast] at ha
  obtain rfl : last = a := by simpa using ha
  exact htail.rel_head? hb

theorem eq_of_artifactId {tasks : List InferenceTask}
    (hn : ((tasks.flatMap InferenceTask.outputs).map ArtifactHandle.artifactId).Nodup)
    (ht : task ∈ tasks) (hu : other ∈ tasks) (ha : artifact ∈ task.outputs)
    (hb : output ∈ other.outputs) (hid : output.artifactId = artifact.artifactId) :
    other = task := by
  rw [List.map_flatMap, List.nodup_flatMap] at hn
  by_contra hne
  have hsymm : Std.Symm (Function.onFun List.Disjoint fun task : InferenceTask =>
      task.outputs.map ArtifactHandle.artifactId) := ⟨fun _ _ hab => hab.symm⟩
  have hd := hn.2.forall hu ht hne
  exact hd (List.mem_map.mpr ⟨output, hb, hid⟩) (List.mem_map.mpr ⟨artifact, ha, rfl⟩)

theorem nodup_text {artifacts : List PlanArtifact}
    (h : (artifacts.map PlanArtifact.code).Nodup) : (artifacts.map PlanArtifact.text).Nodup := by
  rw [List.Nodup, List.pairwise_map] at h ⊢
  exact h.imp fun hne heq => hne (PlanArtifact.code_eq heq)

-- ---------------------------------------------------------------------------
-- Well-formed plans
-- ---------------------------------------------------------------------------

structure PlanChain (args : ChunkedDitPlanArgs) (schedule : List DitSegment)
    (plan : RequestExecutionPlan) (chain : List InferenceTask) : Prop where
  tasks : plan.tasks.values.Perm chain
  keyed : ∀ task ∈ chain, plan.tasks.get? task.taskId = some task
  ids : (chain.map InferenceTask.taskId).Nodup
  first : ∃ text rest, chain = text :: rest ∧ text.kind = .textEncode ∧ text.dependencies = [] ∧
    text.inputs = [args.reqHandle]
  last : ∃ front final, chain = front ++ [final] ∧ final.kind = .finalize ∧
    plan.terminalTaskIds = [final.taskId]
  feeds : chain.IsChain Feeds
  produced : ∀ task ∈ chain, ∀ artifact ∈ task.inputs, artifact = args.reqHandle ∨
    ∃ producer ∈ chain, task.dependencies = [producer.taskId] ∧ artifact ∈ producer.outputs ∧
      ∀ other ∈ chain, ∀ output ∈ other.outputs, output.artifactId = artifact.artifactId →
        other = producer
  covers : Covers 0 (chain.filterMap InferenceTask.stepRange) args.numSteps
  fits : ∀ task ∈ chain, ChunkFits args.chunkSize schedule task

namespace ChunkedDitPlanArgs

variable {args : ChunkedDitPlanArgs} {schedule : List DitSegment}
  {effectiveChunkSeqLen : Nat → Nat → Nat} {tasks : Dict String InferenceTask}

theorem taskId_injective {a b : PlanTask} (h : args.taskId a.text = args.taskId b.text) : a = b := by
  unfold taskId at h
  rw [String.append_right_inj, String.append_right_inj] at h
  exact PlanTask.text_injective h

theorem nodup_taskIds {names : List PlanTask} (h : names.Nodup) :
    (names.map fun name => args.taskId name.text).Nodup := by
  rw [List.Nodup, List.pairwise_map]
  exact h.imp fun hne heq => hne (taskId_injective heq)

theorem lists_addTasks (added : List InferenceTask) (h : tasks.Lists InferenceTask.taskId items)
    (hn : ((items ++ added).map InferenceTask.taskId).Nodup) :
    (addTasks tasks added).Lists InferenceTask.taskId (items ++ added) :=
  h.addAll hn

theorem rewire_ok (front back : List InferenceTask)
    (h : tasks.Lists InferenceTask.taskId (front ++ task :: back))
    (hid : task.taskId = args.taskId name) (dependency : String) (input : ArtifactHandle) :
    ∃ tasks', args.rewire name dependency input tasks = .ok tasks' ∧
      tasks'.Lists InferenceTask.taskId
        (front ++ { task with dependencies := [dependency], inputs := [input] } :: back) := by
  have hget := h.get? (a := task) (by simp)
  rw [hid] at hget
  refine ⟨tasks.set (args.taskId name) { task with dependencies := [dependency], inputs := [input] }, ?_, ?_⟩
  · rw [rewire, hget]
    rfl
  · rw [← hid]
    exact h.replace rfl

-- ---------------------------------------------------------------------------
-- Assembling the plan
-- ---------------------------------------------------------------------------

structure Ends (args : ChunkedDitPlanArgs) (lastChunk : String) (lead : List InferenceTask)
    (timestep : InferenceTask) (tail : List InferenceTask) : Prop where
  leadFeeds : (lead ++ [timestep]).IsChain Feeds
  timestepId : timestep.taskId = args.taskId "timestep_prepare:0"
  timestepOut : timestep.outputs = [args.stateHandle "state_timestep"]
  tailFeeds : ∀ chunk, chunk.taskId = lastChunk →
    chunk.outputs = [args.stateHandle PlanArtifact.denoised.text] → (chunk :: tail).IsChain Feeds
  first : ∃ text rest, lead = text :: rest ∧ text.kind = .textEncode ∧ text.dependencies = [] ∧
    text.inputs = [args.reqHandle]
  last : ∃ front final, tail = front ++ [final] ∧ final.kind = .finalize ∧
    final.taskId = args.taskId "finalize:0"
  plain : ∀ task ∈ lead ++ timestep :: tail, task.kind ≠ .ditStepChunk ∧ task.stepRange = none
  names : ∃ leadNames tailNames : List PlanTask,
    (lead ++ [timestep]).map InferenceTask.taskId =
      leadNames.map (fun name => args.taskId name.text) ∧
    tail.map InferenceTask.taskId = tailNames.map (fun name => args.taskId name.text) ∧
    (leadNames ++ tailNames).Nodup ∧ ∀ name ∈ leadNames ++ tailNames,
      ∀ idx, name ≠ .reshardDitStep idx ∧ name ≠ .ditStepChunk idx
  artifacts : ∃ leadArtifacts tailArtifacts : List PlanArtifact,
    ((lead ++ [timestep]).flatMap InferenceTask.outputs).map ArtifactHandle.artifactId =
      leadArtifacts.map PlanArtifact.text ∧
    (tail.flatMap InferenceTask.outputs).map ArtifactHandle.artifactId =
      tailArtifacts.map PlanArtifact.text ∧
    ((leadArtifacts ++ tailArtifacts).map PlanArtifact.code).Nodup ∧
    ∀ artifact ∈ leadArtifacts ++ tailArtifacts, artifact.code.1 ∉ [4, 9, 10]

/-- The cursor the loop starts from. -/
def firstCursor (args : ChunkedDitPlanArgs) (group : Option String) : Cursor :=
  ⟨args.taskId "timestep_prepare:0", args.stateHandle "state_timestep", group, 0, 0⟩

section Assemble

variable {added : List InferenceTask} {denoiseIds : List String} {lastChunk : String}
  {lead tail : List InferenceTask} {timestep : InferenceTask}

theorem Ends.feeds (he : Ends args lastChunk lead timestep tail)
    (hd : Denoised args schedule (args.firstCursor group) 0 added denoiseIds)
    (hpos : 0 < args.numSteps) (hlast : denoiseIds.getLast? = some lastChunk) :
    (lead ++ timestep :: (added ++ tail)).IsChain Feeds := by
  obtain ⟨chunk, segment, hl, hids, hout, -⟩ := hd.last hpos
  rw [hlast] at hids
  have hmid := hd.feeds timestep he.timestepId he.timestepOut
  have htail := he.tailFeeds chunk (Option.some.inj hids).symm hout
  exact isChain_around he.leadFeeds hmid hl htail

theorem Ends.ids (he : Ends args lastChunk lead timestep tail)
    (hd : Denoised args schedule (args.firstCursor group) 0 added denoiseIds) :
    ((lead ++ timestep :: (added ++ tail)).map InferenceTask.taskId).Nodup := by
  obtain ⟨leadNames, tailNames, hlead, htail, hn, hother⟩ := he.names
  obtain ⟨names, hnames, hnodup, hstep⟩ := hd.names
  have hsplit : lead ++ timestep :: (added ++ tail) = (lead ++ [timestep]) ++ (added ++ tail) := by
    simp
  rw [hsplit, List.map_append, hlead, List.map_append, hnames, htail, ← List.map_append,
    ← List.map_append]
  refine nodup_taskIds (nodup_between hn hnodup fun name hname hmem => ?_)
  rcases hstep name hmem with ⟨idx, -, heq⟩ | ⟨idx, -, heq⟩
  · exact (hother name hname idx).1 heq
  · exact (hother name hname idx).2 heq

theorem Ends.artifactIds (he : Ends args lastChunk lead timestep tail)
    (hd : Denoised args schedule (args.firstCursor group) 0 added denoiseIds) :
    (((lead ++ timestep :: (added ++ tail)).flatMap InferenceTask.outputs).map
      ArtifactHandle.artifactId).Nodup := by
  obtain ⟨leadArtifacts, tailArtifacts, hlead, htail, hn, hother⟩ := he.artifacts
  obtain ⟨artifacts, harts, hnodup, hstep⟩ := hd.artifacts
  have hadded : (added.flatMap InferenceTask.outputs).map ArtifactHandle.artifactId =
      artifacts.map PlanArtifact.text := by
    rw [harts, List.map_map]
    rfl
  have hsplit : lead ++ timestep :: (added ++ tail) = (lead ++ [timestep]) ++ (added ++ tail) := by
    simp
  rw [hsplit, List.flatMap_append, List.map_append, hlead, List.flatMap_append, List.map_append,
    hadded, htail, ← List.map_append, ← List.map_append]
  refine nodup_text ?_
  rw [List.map_append, List.map_append]
  refine nodup_between (by rwa [List.map_append] at hn) hnodup fun code hcode hmem => ?_
  rw [← List.map_append] at hcode
  obtain ⟨artifact, ha, rfl⟩ := List.mem_map.mp hcode
  obtain ⟨other, ho, heq⟩ := List.mem_map.mp hmem
  refine hother artifact ha ?_
  rw [← heq]
  rcases hstep other ho with rfl | ⟨idx, g, -, rfl⟩ | ⟨idx, -, rfl⟩ <;>
    simp [PlanArtifact.code, PlanArtifact.part]

theorem Ends.planChain (he : Ends args lastChunk lead timestep tail)
    (hd : Denoised args schedule (args.firstCursor group) 0 added denoiseIds)
    (hpos : 0 < args.numSteps) (hlast : denoiseIds.getLast? = some lastChunk)
    (hlists : tasks.Lists InferenceTask.taskId items)
    (hperm : ∀ task, task ∈ items ↔ task ∈ lead ++ timestep :: (added ++ tail))
    {plan : RequestExecutionPlan} (htasks : plan.tasks = tasks)
    (hterminal : plan.terminalTaskIds = [args.taskId "finalize:0"]) :
    PlanChain args schedule plan (lead ++ timestep :: (added ++ tail)) := by
  have hfeeds := he.feeds hd hpos hlast
  have hids := he.ids hd
  have hartifacts := he.artifactIds hd
  have hlists' : tasks.Lists InferenceTask.taskId (lead ++ timestep :: (added ++ tail)) :=
    ⟨hids, fun key task => by rw [hlists.get?_iff, hperm]⟩
  obtain ⟨text, rest, hfirst, hkind, hdeps, hinputs⟩ := he.first
  obtain ⟨front, final, htail, hfinal, hfinalId⟩ := he.last
  constructor
  · rw [htasks]
    exact hlists'.values_perm
  · rw [htasks]
    exact fun task hm => hlists'.get? hm
  · exact hids
  · exact ⟨text, rest ++ timestep :: (added ++ tail), by rw [hfirst]; rfl, hkind, hdeps, hinputs⟩
  · exact ⟨lead ++ timestep :: (added ++ front), final, by rw [htail]; simp, hfinal,
      by rw [hterminal, hfinalId]⟩
  · exact hfeeds
  · intro task hm artifact ha
    rw [hfirst, List.cons_append] at hm hfeeds hartifacts ⊢
    rcases List.mem_cons.mp hm with rfl | hm
    · rw [hinputs] at ha
      exact .inl (List.mem_singleton.mp ha)
    · obtain ⟨producer, hp, hdep, hin⟩ := hfeeds.exists_before hm
      rw [hin] at ha
      exact .inr ⟨producer, hp, hdep, ha, fun other ho output hout hid =>
        eq_of_artifactId hartifacts hp ho ha hout hid⟩
  · have hlead : lead.filterMap InferenceTask.stepRange = [] :=
      List.filterMap_eq_nil_iff.mpr fun task hm => (he.plain task (by simp [hm])).2
    have htl : tail.filterMap InferenceTask.stepRange = [] :=
      List.filterMap_eq_nil_iff.mpr fun task hm => (he.plain task (by simp [hm])).2
    have htime : timestep.stepRange = none := (he.plain timestep (by simp)).2
    rw [List.filterMap_append, hlead, List.filterMap_cons_none htime, List.filterMap_append, htl,
      List.nil_append, List.append_nil]
    exact hd.covers
  · intro task hm
    by_cases hadded : task ∈ added
    · exact hd.fits task hadded
    · obtain ⟨hk, hr⟩ := he.plain task (by simp_all)
      refine ⟨⟨fun h => absurd h hk, fun h => absurd hr h⟩, fun range h => ?_⟩
      rw [hr] at h
      cases h

end Assemble

-- ---------------------------------------------------------------------------
-- The two shapes of a plan
-- ---------------------------------------------------------------------------

def textEncode (args : ChunkedDitPlanArgs) (group : Option String) : InferenceTask :=
  args.stageTask "text_encode:0" .textEncode group [] [args.reqHandle]
    [args.stateHandle "state_text"] args.textSeqLen

def ditPrepare (args : ChunkedDitPlanArgs) (group : Option String) (dependency : String)
    (input : ArtifactHandle) : InferenceTask :=
  args.stageTask "dit_prepare:0" .ditPrepare group [dependency] [input]
    [args.stateHandle "state_latent"] args.latentSeqLen

def timestepPrepare (args : ChunkedDitPlanArgs) (group : Option String) : InferenceTask :=
  args.stageTask "timestep_prepare:0" .timestepPrepare group [args.taskId "dit_prepare:0"]
    [args.stateHandle "state_latent"] [args.stateHandle "state_timestep"] args.latentSeqLen

def vaeDecode (args : ChunkedDitPlanArgs) (group : Option String) (dependency : String)
    (input : ArtifactHandle) : InferenceTask :=
  args.stageTask "vae_decode:0" .vaeDecode group [dependency] [input] [args.decoded]
    args.latentSeqLen

def finalize (args : ChunkedDitPlanArgs) (group : Option String) : InferenceTask :=
  args.stageTask "finalize:0" .finalize group [args.taskId "vae_decode:0"] [args.decoded]
    [args.finalOutput] 1

def textToDit (args : ChunkedDitPlanArgs) (groups : StageGroups) (group : Option String) :
    InferenceTask :=
  args.reshardTask "reshard_text_to_dit:0" (args.taskId "text_encode:0")
    (args.stateHandle "state_text") (args.stateHandle "state_text_dit") (some groups.aux) group

def ditToAux (args : ChunkedDitPlanArgs) (groups : StageGroups) (group : Option String)
    (lastChunk : String) : InferenceTask :=
  args.reshardTask "reshard_dit_to_aux:0" lastChunk (args.stateHandle "state_denoised")
    (args.stateHandle "state_denoised_aux") group (some groups.aux)

theorem ends_plain (args : ChunkedDitPlanArgs) (group first vaeGroup : Option String) (lastChunk : String) :
    Ends args lastChunk
      [args.textEncode group, args.ditPrepare first (args.taskId "text_encode:0")
        (args.stateHandle "state_text")]
      (args.timestepPrepare first)
      [args.vaeDecode vaeGroup lastChunk (args.stateHandle "state_denoised"),
        args.finalize vaeGroup] where
  leadFeeds := by simp [Feeds, textEncode, ditPrepare, timestepPrepare, stageTask]
  timestepId := rfl
  timestepOut := rfl
  tailFeeds := fun chunk hid hout => by
    simp [Feeds, hid, hout, vaeDecode, finalize, stageTask]
    rfl
  first := ⟨_, _, rfl, rfl, rfl, rfl⟩
  last := ⟨[_], _, rfl, rfl, rfl⟩
  plain := by simp [textEncode, ditPrepare, timestepPrepare, vaeDecode, finalize, stageTask]
  names := ⟨[.textEncode, .ditPrepare, .timestepPrepare], [.vaeDecode, .finalize], rfl, rfl,
    by decide, by simp⟩
  artifacts := ⟨[.stateText, .stateLatent, .stateTimestep], [.decoded, .output], rfl, rfl,
    by decide, by decide⟩

theorem ends_staged (args : ChunkedDitPlanArgs) (groups : StageGroups) (first last : Option String) (lastChunk : String) :
    Ends args lastChunk
      [args.textEncode (some groups.aux), args.textToDit groups first,
        args.ditPrepare first (args.taskId "reshard_text_to_dit:0")
          (args.stateHandle "state_text_dit")]
      (args.timestepPrepare first)
      [args.ditToAux groups last lastChunk,
        args.vaeDecode (some groups.aux) (args.taskId "reshard_dit_to_aux:0")
          (args.stateHandle "state_denoised_aux"),
        args.finalize (some groups.aux)] where
  leadFeeds := by simp [Feeds, textEncode, textToDit, ditPrepare, timestepPrepare, stageTask, reshardTask]
  timestepId := rfl
  timestepOut := rfl
  tailFeeds := fun chunk hid hout => by
    simp [Feeds, hid, hout, ditToAux, vaeDecode, finalize, stageTask, reshardTask]
    rfl
  first := ⟨_, _, rfl, rfl, rfl, rfl⟩
  last := ⟨[_, _], _, rfl, rfl, rfl⟩
  plain := by
    simp [textEncode, textToDit, ditPrepare, timestepPrepare, ditToAux, vaeDecode, finalize,
      stageTask, reshardTask]
  names := ⟨[.textEncode, .reshardTextToDit, .ditPrepare, .timestepPrepare],
    [.reshardDitToAux, .vaeDecode, .finalize], rfl, rfl, by decide, by simp⟩
  artifacts := ⟨[.stateText, .stateTextDit, .stateLatent, .stateTimestep],
    [.denoisedAux, .decoded, .output], rfl, rfl, by decide, by decide⟩

-- ---------------------------------------------------------------------------
-- Building the plan
-- ---------------------------------------------------------------------------

theorem atLeastOne_ok (h : atLeastOne name value = .ok u) : 1 ≤ value := by
  unfold atLeastOne at h
  split at h
  · cases h
  · omega

theorem check_ok (h : args.check = .ok stages) :
    0 < args.numSteps ∧ 0 < args.chunkSize ∧ checkStageGroups args.stageGroupIds = .ok stages := by
  obtain ⟨_, hsteps, h⟩ := Except.bind_eq_ok.mp h
  obtain ⟨_, hchunk, h⟩ := Except.bind_eq_ok.mp h
  obtain ⟨_, -, h⟩ := Except.bind_eq_ok.mp h
  obtain ⟨_, -, h⟩ := Except.bind_eq_ok.mp h
  obtain ⟨_, -, h⟩ := Except.bind_eq_ok.mp h
  exact ⟨atLeastOne_ok hsteps, atLeastOne_ok hchunk, h⟩

theorem ditSchedule_ok (hpos : 0 < args.numSteps) (h : args.ditSchedule stages = .ok schedule) :
    Contiguous 0 schedule args.numSteps ∧ NamedGroups schedule := by
  obtain ⟨group, -, h⟩ := Except.bind_eq_ok.mp h
  exact ⟨(normalizeDitStepSchedule_ok hpos h).1, normalizeDitStepSchedule_named hpos h⟩

theorem ditSchedule_staged {segment : DitSegment} (hpos : 0 < args.numSteps)
    (h : args.ditSchedule (some groups) = .ok schedule) (hm : segment ∈ schedule) :
    ∃ group, group ≠ "" ∧ segment.groupId = some group := by
  obtain ⟨group, hgroup, h⟩ := Except.bind_eq_ok.mp h
  obtain rfl : some groups.dit = group := Except.ok.inj hgroup
  obtain ⟨-, rfl | hgroups⟩ := normalizeDitStepSchedule_ok hpos h
  · rw [List.mem_singleton.mp hm]
    exact ⟨groups.dit, groups.dit_ne, rfl⟩
  · exact hgroups segment hm

theorem firstCursor_fits (hcontiguous : Contiguous 0 (first :: schedule) args.numSteps) :
    (args.firstCursor first.groupId).Fits args (first :: schedule) := by
  intro _
  rw [if_pos (show (args.firstCursor first.groupId).idx = 0 from rfl)]
  exact ⟨first.stop, if_pos hcontiguous.2.1⟩

def auxGroup (args : ChunkedDitPlanArgs) : Option StageGroups → Option String
  | none => args.groupId
  | some groups => some groups.aux

theorem groupForKind_aux (args : ChunkedDitPlanArgs) (stages : Option StageGroups) (kind : TaskKind) (h : taskKindToStage kind = some stageAux) :
    groupForKind args.groupId stages kind = .ok (args.auxGroup stages) := by
  cases stages with
  | none => rfl
  | some groups =>
    simp only [groupForKind, h, if_pos]
    rfl

/-- VAE decoding as it is entered, before its input is known. -/
def vaeDecodeUnwired (args : ChunkedDitPlanArgs) (group : Option String) : InferenceTask :=
  args.stageTask "vae_decode:0" .vaeDecode group [] [] [args.decoded] args.latentSeqLen

theorem endTasks_eq (group first : Option String) :
    args.endTasks group group group first =
      [args.textEncode group, args.ditPrepare first (args.taskId "text_encode:0")
        (args.stateHandle "state_text"), args.timestepPrepare first,
        args.vaeDecodeUnwired group, args.finalize group] := rfl

section Entered

variable {added : List InferenceTask} {denoiseIds : List String} {lastChunk : String}
  {group first last start : Option String} {groups : StageGroups}

theorem nodup_entered (hd : Denoised args schedule (args.firstCursor start) 0 added denoiseIds)
    (group first : Option String) :
    ((args.endTasks group group group first ++ added).map InferenceTask.taskId ++
      [args.taskId "reshard_text_to_dit:0", args.taskId "reshard_dit_to_aux:0"]).Nodup := by
  have hids := (ends_staged args ⟨"aux", "dit", by decide, by decide, by decide⟩ start
    start "").ids hd
  refine (List.perm_iff_count.mpr fun id => ?_).nodup_iff.mp hids
  simp only [List.map_append, List.map_cons, List.map_nil, List.count_append, List.count_cons,
    List.count_nil, endTasks_eq, textEncode, textToDit, ditPrepare, timestepPrepare, ditToAux,
    vaeDecode, vaeDecodeUnwired, finalize, stageTask, reshardTask]
  omega

theorem entered_ok (hd : Denoised args schedule (args.firstCursor start) 0 added denoiseIds)
    (group first : Option String) (lastChunk : String) :
    ∃ tasks, args.rewire "vae_decode:0" lastChunk (args.stateHandle "state_denoised")
        (addTasks (addTasks ∅ (args.endTasks group group group first)) added) = .ok tasks ∧
      tasks.Lists InferenceTask.taskId
        ([args.textEncode group, args.ditPrepare first (args.taskId "text_encode:0")
          (args.stateHandle "state_text"), args.timestepPrepare first] ++
          args.vaeDecode group lastChunk (args.stateHandle "state_denoised") ::
          args.finalize group :: added) := by
  have hn := (List.nodup_append.mp (nodup_entered hd group first)).1
  have hends : (addTasks ∅ (args.endTasks group group group first)).Lists InferenceTask.taskId
      ([] ++ args.endTasks group group group first) :=
    lists_addTasks _ .empty (by
      rw [List.map_append] at hn
      exact (List.nodup_append.mp hn).1)
  have hall := lists_addTasks _ hends hn
  rw [List.nil_append, endTasks_eq] at hall
  exact rewire_ok [_, _, _] (args.finalize group :: added) hall rfl lastChunk _

/-- Both RESHARD tasks between the stages, with their consumers rewired. -/
theorem insertStageReshards_ok
    (hd : Denoised args schedule (args.firstCursor first) 0 added denoiseIds)
    (hlists : tasks.Lists InferenceTask.taskId
      ([args.textEncode (some groups.aux), args.ditPrepare first (args.taskId "text_encode:0")
        (args.stateHandle "state_text"), args.timestepPrepare first] ++
        args.vaeDecode (some groups.aux) lastChunk (args.stateHandle "state_denoised") ::
        args.finalize (some groups.aux) :: added)) (last : Option String) :
    ∃ tasks', args.insertStageReshards (some groups) first last lastChunk tasks = .ok tasks' ∧
      tasks'.Lists InferenceTask.taskId
        ([args.textEncode (some groups.aux), args.ditPrepare first
          (args.taskId "reshard_text_to_dit:0") (args.stateHandle "state_text_dit"),
          args.timestepPrepare first] ++
          args.vaeDecode (some groups.aux) (args.taskId "reshard_dit_to_aux:0")
            (args.stateHandle "state_denoised_aux") ::
          args.finalize (some groups.aux) :: (added ++ [args.textToDit groups first] ++
          [args.ditToAux groups last lastChunk])) := by
  have hn := nodup_entered hd (some groups.aux) first
  have hfirst := lists_addTasks [args.textToDit groups first] hlists (by
    rw [List.map_append]
    exact hn.sublist ((List.Sublist.refl _).append (by simp [textToDit, reshardTask])))
  obtain ⟨wired, hwired, hlists⟩ := rewire_ok [_] (args.timestepPrepare first ::
    args.vaeDecode (some groups.aux) lastChunk (args.stateHandle "state_denoised") ::
    args.finalize (some groups.aux) :: (added ++ [args.textToDit groups first])) hfirst rfl
    (args.taskId "reshard_text_to_dit:0") (args.stateHandle "state_text_dit")
  have hboth := lists_addTasks [args.ditToAux groups last lastChunk] hlists (by
    simp only [endTasks_eq, List.map_append, List.map_cons, List.map_nil, List.append_assoc,
      List.cons_append, List.nil_append] at hn ⊢
    exact hn)
  obtain ⟨tasks', htasks', hlists⟩ := rewire_ok [_, _, _] _ hboth rfl
    (args.taskId "reshard_dit_to_aux:0") (args.stateHandle "state_denoised_aux")
  refine ⟨tasks', ?_, hlists⟩
  exact Except.bind_eq_ok.mpr ⟨wired, hwired, htasks'⟩

end Entered

theorem denoise_start (hchunk : 0 < args.chunkSize)
    (hcontiguous : Contiguous 0 schedule args.numSteps) (hgroups : NamedGroups schedule)
    (hhead : schedule.head? = some first) :
    ∃ added denoiseIds, args.denoise effectiveChunkSeqLen schedule args.numSteps
        (args.firstCursor first.groupId) = .ok (added, denoiseIds) ∧
      Denoised args schedule (args.firstCursor first.groupId) 0 added denoiseIds := by
  obtain ⟨rest, rfl⟩ := List.head?_eq_some_iff.mp hhead
  exact denoise_ok hchunk hcontiguous hgroups (Nat.sub_le _ _) (Nat.zero_le _)
    ⟨first, List.mem_cons_self .., rfl⟩ (firstCursor_fits hcontiguous)

theorem buildTasks_eq (stages : Option StageGroups) (hpos : 0 < args.numSteps)
    (hhead : schedule.head? = some first) (hlast : schedule.getLast? = some last)
    (hrun : args.denoise effectiveChunkSeqLen schedule args.numSteps
      (args.firstCursor first.groupId) = .ok (added, denoiseIds))
    (hd : Denoised args schedule (args.firstCursor first.groupId) 0 added denoiseIds) :
    ∃ lastChunk tasks, denoiseIds.getLast? = some lastChunk ∧
      args.buildTasks effectiveChunkSeqLen stages schedule =
        args.insertStageReshards stages first.groupId last.groupId lastChunk tasks ∧
      tasks.Lists InferenceTask.taskId
        ([args.textEncode (args.auxGroup stages), args.ditPrepare first.groupId
          (args.taskId "text_encode:0") (args.stateHandle "state_text"),
          args.timestepPrepare first.groupId] ++
          args.vaeDecode (args.auxGroup stages) lastChunk (args.stateHandle "state_denoised") ::
          args.finalize (args.auxGroup stages) :: added) := by
  obtain ⟨chunk, _, -, hids, -⟩ := hd.last hpos
  obtain ⟨tasks, htasks, hlists⟩ :=
    entered_ok hd (args.auxGroup stages) first.groupId chunk.taskId
  refine ⟨chunk.taskId, tasks, hids, ?_, hlists⟩
  have hrun' : args.denoise effectiveChunkSeqLen schedule args.numSteps
      ⟨args.taskId "timestep_prepare:0", args.stateHandle "state_timestep", first.groupId, 0, 0⟩ =
        .ok (added, denoiseIds) := hrun
  have htext := groupForKind_aux args stages TaskKind.textEncode rfl
  have hvae := groupForKind_aux args stages TaskKind.vaeDecode rfl
  have hfinal := groupForKind_aux args stages TaskKind.finalize rfl
  simp only [buildTasks, hhead, hlast, endGroup, htext, hvae, hfinal, hrun', hids, htasks,
    pure_bind, Except.ok_bind]

section Built

variable {stages : Option StageGroups}

/-- Without stage groups the ends follow the loop directly. -/
theorem planChain_plain (hpos : 0 < args.numSteps) (hchunk : 0 < args.chunkSize)
    (hcontiguous : Contiguous 0 schedule args.numSteps) (hgroups : NamedGroups schedule)
    (hhead : schedule.head? = some first) (hlast : schedule.getLast? = some last) :
    ∃ tasks chain, args.buildTasks effectiveChunkSeqLen none schedule = .ok tasks ∧
      ∀ plan : RequestExecutionPlan, plan.tasks = tasks →
        plan.terminalTaskIds = [args.taskId "finalize:0"] → PlanChain args schedule plan chain := by
  obtain ⟨added, denoiseIds, hrun, hd⟩ := denoise_start hchunk hcontiguous hgroups hhead
  obtain ⟨lastChunk, tasks, hids, hbuild, hlists⟩ := buildTasks_eq none hpos hhead hlast hrun hd
  have hends := ends_plain args args.groupId first.groupId args.groupId lastChunk
  refine ⟨tasks, _, hbuild, fun plan htasks hterminal =>
    hends.planChain hd hpos hids hlists (fun task => ?_) htasks hterminal⟩
  simp only [auxGroup, List.mem_append, List.mem_cons, List.not_mem_nil]
  tauto

/-- With stage groups there are RESHARD tasks between the ends and the loop,
and no task takes its input from another group. -/
theorem planChain_staged (hpos : 0 < args.numSteps) (hchunk : 0 < args.chunkSize)
    (hcontiguous : Contiguous 0 schedule args.numSteps) (hgroups : NamedGroups schedule)
    (hnamed : ∀ segment ∈ schedule, segment.groupId ≠ some "")
    (hhead : schedule.head? = some first) (hlast : schedule.getLast? = some last) :
    ∃ tasks chain, args.buildTasks effectiveChunkSeqLen (some groups) schedule = .ok tasks ∧
      chain.IsChain Meets ∧ ∀ plan : RequestExecutionPlan, plan.tasks = tasks →
        plan.terminalTaskIds = [args.taskId "finalize:0"] → PlanChain args schedule plan chain := by
  obtain ⟨added, denoiseIds, hrun, hd⟩ := denoise_start hchunk hcontiguous hgroups hhead
  obtain ⟨lastChunk, tasks, hids, hbuild, hlists⟩ :=
    buildTasks_eq (some groups) hpos hhead hlast hrun hd
  obtain ⟨tasks', hinsert, hlists'⟩ := insertStageReshards_ok hd hlists last.groupId
  have hends := ends_staged args groups first.groupId last.groupId lastChunk
  refine ⟨tasks', _, hbuild.trans hinsert, ?_, fun plan htasks hterminal =>
    hends.planChain hd hpos hids hlists' (fun task => ?_) htasks hterminal⟩
  · obtain ⟨chunk, segment, hl, -, -, hordinary, hsegment, hgroup⟩ := hd.last hpos
    obtain rfl : segment = last := Option.some.inj (hsegment.symm.trans hlast)
    have haux : some groups.aux ≠ some "" := fun h => groups.aux_ne (Option.some.inj h)
    have hfirst := hnamed first (List.mem_of_mem_head? hhead)
    have hsegment := hnamed segment (List.mem_of_mem_getLast? hlast)
    refine isChain_around ?_ (hd.meets _ rfl fun h => (by cases h)) hl ?_
    · refine .cons_cons ⟨reshardTask_entersOn haux .., fun h => (by cases h)⟩ ?_
      refine .cons_cons ⟨(reshardTask_leavesOn hfirst ..).symm, fun _ => rfl⟩ ?_
      exact .cons_cons ⟨rfl, fun _ => rfl⟩ (.singleton _)
    · have hleaves : chunk.leavesOn = segment.groupId := by
        rw [InferenceTask.leavesOn, hordinary, ← hgroup]
        rfl
      refine .cons_cons ⟨?_, fun h => absurd (h.symm.trans hordinary) (by decide)⟩ ?_
      · rw [hleaves]
        exact reshardTask_entersOn hsegment ..
      · refine .cons_cons ⟨(reshardTask_leavesOn haux ..).symm, fun _ => rfl⟩ ?_
        exact .cons_cons ⟨rfl, fun _ => rfl⟩ (.singleton _)
  · simp only [List.mem_append, List.mem_cons, List.not_mem_nil]
    tauto

theorem buildChunkedDitPlan_ok (hcheck : args.check = .ok stages)
    (hschedule : args.ditSchedule stages = .ok schedule)
    (hbuild : args.buildTasks effectiveChunkSeqLen stages schedule = .ok tasks) :
    ∃ plan, args.buildChunkedDitPlan effectiveChunkSeqLen = .ok plan ∧ plan.tasks = tasks ∧
      plan.terminalTaskIds = [args.taskId "finalize:0"] := by
  refine ⟨⟨args.requestId, tasks, [args.taskId "finalize:0"],
    [⟨args.reqHandle, args.requestValue⟩], args.planMetadata⟩, ?_, rfl, rfl⟩
  rw [buildChunkedDitPlan, hcheck, Except.ok_bind, hschedule, Except.ok_bind, hbuild]
  rfl

theorem checkStageGroups_none (h : checkStageGroups ids = .ok none) : ids = none := by
  cases ids with
  | none => rfl
  | some ids =>
    simp only [checkStageGroups] at h
    repeat' split at h
    all_goals cases h

theorem exists_planChain (effectiveChunkSeqLen : Nat → Nat → Nat)
    (hcheck : args.check = .ok stages) (hschedule : args.ditSchedule stages = .ok schedule) :
    ∃ plan chain, args.buildChunkedDitPlan effectiveChunkSeqLen = .ok plan ∧
      PlanChain args schedule plan chain ∧
      (args.stageGroupIds ≠ none → chain.IsChain Meets) := by
  obtain ⟨hpos, hchunk, hstages⟩ := check_ok hcheck
  obtain ⟨hcontiguous, hgroups⟩ := ditSchedule_ok hpos hschedule
  have hne := hcontiguous.ne_nil hpos
  have hhead := List.head?_eq_some_head hne
  have hlast := List.getLast?_eq_some_getLast hne
  cases stages with
  | none =>
    obtain ⟨tasks, chain, hbuild, hchain⟩ :=
      planChain_plain hpos hchunk hcontiguous hgroups hhead hlast
    obtain ⟨plan, hplan, htasks, hterminal⟩ := buildChunkedDitPlan_ok hcheck hschedule hbuild
    exact ⟨plan, chain, hplan, hchain plan htasks hterminal,
      fun hsome => absurd (checkStageGroups_none hstages) hsome⟩
  | some groups =>
    have hnamed : ∀ segment ∈ schedule, segment.groupId ≠ some "" := by
      intro segment hm heq
      obtain ⟨group, hne, hgroup⟩ := ditSchedule_staged hpos hschedule hm
      exact hne (Option.some.inj (hgroup.symm.trans heq))
    obtain ⟨tasks, chain, hbuild, hmeets, hchain⟩ :=
      planChain_staged hpos hchunk hcontiguous hgroups hnamed hhead hlast
    obtain ⟨plan, hplan, htasks, hterminal⟩ := buildChunkedDitPlan_ok hcheck hschedule hbuild
    exact ⟨plan, chain, hplan, hchain plan htasks hterminal, fun _ => hmeets⟩

/-- The plan is one chain of tasks from text encoding to finalizing. The chunks
cut the steps as the schedule says, every input is the output of the task
before, and with stage groups it is on the group of the task that takes it. A
schedule that begins or ends on the aux group has a boundary RESHARD from that
group to itself. -/
theorem buildChunkedDitPlan_chain (effectiveChunkSeqLen : Nat → Nat → Nat)
    (hcheck : args.check = .ok stages) (hschedule : args.ditSchedule stages = .ok schedule) :
    ∃ plan chain, args.buildChunkedDitPlan effectiveChunkSeqLen = .ok plan ∧
      PlanChain args schedule plan chain ∧
      (args.stageGroupIds ≠ none → chain.IsChain Meets) :=
  exists_planChain effectiveChunkSeqLen hcheck hschedule

end Built

def splitPlanArgs : ChunkedDitPlanArgs where
  requestId := "r"
  requestValue := ⟨∅, none⟩
  requestType := "image"
  numSteps := 5
  chunkSize := 2
  priority := 0
  groupId := none
  textSeqLen := 1
  latentSeqLen := 1
  stateCodecId := "state"
  decodedCodecId := none
  metadata := ∅
  stageGroupIds := some ((Dict.set ∅ stageAux "aux").set stageDit "dit")
  ditStepSchedule := [⟨0, some 3, some "dit"⟩, ⟨3, none, some "wide"⟩]
  ditStepDoTrueCfg := none

theorem splitPlanArgs_chain : ∃ plan chain,
    splitPlanArgs.buildChunkedDitPlan (fun seqLen _ => seqLen) = .ok plan ∧
      PlanChain splitPlanArgs [⟨0, 3, some "dit"⟩, ⟨3, 5, some "wide"⟩] plan chain ∧
      (splitPlanArgs.stageGroupIds ≠ none → chain.IsChain Meets) :=
  have hcheck : splitPlanArgs.check =
      .ok (some ⟨"aux", "dit", by decide, by decide, by decide⟩) := rfl
  buildChunkedDitPlan_chain _ hcheck rfl

end ChunkedDitPlanArgs

end GfDit
