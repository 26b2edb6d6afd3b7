import GfDit.Lib.Chains
import GfDit.Lib.Table
import GfDit.Adapters.Names

/-!
# Chunked plans are well formed

A schedule that is accepted covers the steps with consecutive segments. The
loop cuts them into chunks, each inside one segment and on its group, and the
tasks it adds continue the chain it started from; with the ends rewired the
whole plan is one chain, in which every state is consumed where it was left.
-/

namespace GfDit

-- ---------------------------------------------------------------------------
-- Schedules
-- ---------------------------------------------------------------------------

/-- Non-empty segments, one after the other, from `first` to `last`. -/
def Contiguous : Nat → List DitSegment → Nat → Prop
  | first, [], last => first = last
  | first, segment :: schedule, last =>
    segment.start = first ∧ first < segment.stop ∧ Contiguous segment.stop schedule last

theorem Contiguous.le (h : Contiguous first schedule last) : first ≤ last := by
  induction schedule generalizing first with
  | nil => exact Nat.le_of_eq h
  | cons segment schedule ih => exact h.2.1.le.trans (ih h.2.2)

theorem Contiguous.stop_le {segment : DitSegment} (h : Contiguous first schedule last)
    (hm : segment ∈ schedule) : segment.stop ≤ last := by
  induction schedule generalizing first with
  | nil => cases hm
  | cons head schedule ih =>
    rcases List.mem_cons.mp hm with rfl | hm
    · exact h.2.2.le
    · exact ih h.2.2 hm

theorem Contiguous.ne_nil (h : Contiguous first schedule last) (hlt : first < last) :
    schedule ≠ [] := by
  rintro rfl
  exact absurd h (Nat.ne_of_lt hlt)

theorem Contiguous.getLast? {segment : DitSegment} (h : Contiguous first schedule last)
    (hm : segment ∈ schedule) (hs : segment.stop = last) : schedule.getLast? = some segment := by
  induction schedule generalizing first with
  | nil => cases hm
  | cons head schedule ih =>
    obtain ⟨-, -, hrest⟩ := h
    rcases List.mem_cons.mp hm with rfl | hm
    · cases schedule with
      | nil => rfl
      | cons next schedule =>
        have hlt := hrest.2.1
        have hle := hrest.2.2.le
        omega
    · rw [List.getLast?_cons, ih hrest hm]
      rfl

theorem groupForStep_ok (h : Contiguous first schedule last) (hf : first ≤ step)
    (hl : step < last) : ∃ segment ∈ schedule, segment.start ≤ step ∧ step < segment.stop ∧
      groupForStep step schedule = .ok (segment.stop, segment.groupId) := by
  induction schedule generalizing first with
  | nil => exact absurd hl (by rw [← show first = last from h]; omega)
  | cons head schedule ih =>
    obtain ⟨hstart, -, hrest⟩ := h
    by_cases hlt : step < head.stop
    · exact ⟨head, List.mem_cons_self .., hstart ▸ hf, hlt, by simp [groupForStep, hlt]; rfl⟩
    · obtain ⟨segment, hm, hs, he, hg⟩ := ih hrest (Nat.le_of_not_lt hlt)
      exact ⟨segment, List.mem_cons_of_mem _ hm, hs, he, by simpa [groupForStep, hlt] using hg⟩

theorem checkCovered_ok (h : checkCovered numSteps expectedStart = .ok u) :
    expectedStart = numSteps := by
  unfold checkCovered at h
  split at h
  · cases h
  · rename_i heq
    simpa using heq

theorem normalizeFrom_ok (h : normalizeFrom numSteps index expectedStart items = .ok schedule) :
    Contiguous expectedStart schedule numSteps ∧
      ∀ segment ∈ schedule, ∃ groupId, groupId ≠ "" ∧ segment.groupId = some groupId := by
  induction items generalizing index expectedStart schedule with
  | nil =>
    obtain ⟨u, hcovered, h⟩ := Except.bind_eq_ok.mp h
    obtain rfl := Except.pure_eq_ok.mp h
    exact ⟨checkCovered_ok hcovered, by simp⟩
  | cons item items ih =>
    simp only [normalizeFrom] at h
    split at h
    · cases h
    · rename_i hgroup
      split at h
      · cases h
      · rename_i hstart
        split at h
        · cases h
        · rename_i hstop
          have hlt : expectedStart < (item.stopWithin numSteps).toNat := by omega
          split at h
          · obtain ⟨u, hcovered, h⟩ := Except.bind_eq_ok.mp h
            obtain rfl := Except.pure_eq_ok.mp h
            exact ⟨⟨rfl, hlt, checkCovered_ok hcovered⟩,
              List.forall_mem_singleton.mpr ⟨_, hgroup, rfl⟩⟩
          · obtain ⟨rest, hrest, h⟩ := Except.bind_eq_ok.mp h
            obtain rfl := Except.pure_eq_ok.mp h
            obtain ⟨hcontiguous, hgroups⟩ := ih hrest
            exact ⟨⟨rfl, hlt, hcontiguous⟩, List.forall_mem_cons.mpr ⟨⟨_, hgroup, rfl⟩, hgroups⟩⟩

theorem normalizeDitStepSchedule_ok (hpos : 0 < numSteps)
    (h : normalizeDitStepSchedule numSteps groupId items = .ok schedule) :
    Contiguous 0 schedule numSteps ∧ (schedule = [⟨0, numSteps, groupId⟩] ∨
      ∀ segment ∈ schedule, ∃ groupId, groupId ≠ "" ∧ segment.groupId = some groupId) := by
  unfold normalizeDitStepSchedule at h
  split at h
  · obtain rfl := Except.pure_eq_ok.mp h
    exact ⟨⟨rfl, hpos, rfl⟩, .inl rfl⟩
  · obtain ⟨hcontiguous, hgroups⟩ := normalizeFrom_ok h
    exact ⟨hcontiguous, .inr hgroups⟩

/-- A group the denoising moves from or to has a name. -/
def NamedGroups (schedule : List DitSegment) : Prop :=
  ∀ a ∈ schedule, ∀ b ∈ schedule, a.groupId ≠ b.groupId → a.groupId ≠ some ""

theorem normalizeDitStepSchedule_named (hpos : 0 < numSteps)
    (h : normalizeDitStepSchedule numSteps groupId items = .ok schedule) :
    NamedGroups schedule := by
  obtain ⟨-, rfl | hgroups⟩ := normalizeDitStepSchedule_ok hpos h
  · intro a ha b hb hne
    rw [List.mem_singleton.mp ha, List.mem_singleton.mp hb] at hne
    exact absurd rfl hne
  · intro a ha b _ _ heq
    obtain ⟨groupId, hne, hg⟩ := hgroups a ha
    rw [hg] at heq
    exact hne (Option.some.inj heq)

-- ---------------------------------------------------------------------------
-- Chains
-- ---------------------------------------------------------------------------

/-- The group a task takes its input on. -/
def InferenceTask.entersOn (task : InferenceTask) : Option String :=
  if task.isReshard then task.payloadText reshardPayloadSrcGroupId else task.groupId

def InferenceTask.leavesOn (task : InferenceTask) : Option String :=
  if task.isReshard then task.payloadText reshardPayloadDstGroupId else task.groupId

def Feeds (a b : InferenceTask) : Prop := b.dependencies = [a.taskId] ∧ b.inputs = a.outputs

/-- A task takes its input where the one before left it, and a RESHARD does
not follow another. -/
def Meets (a b : InferenceTask) : Prop :=
  b.entersOn = a.leavesOn ∧ (a.isReshard = true → b.isReshard = false)

def Covers : Nat → List StepRange → Nat → Prop
  | first, [], last => first = last
  | first, range :: ranges, last => range.start = first ∧ Covers range.stop ranges last

/-- A chunk is short enough, and inside one segment and on its group. -/
def ChunkFits (chunkSize : Nat) (schedule : List DitSegment) (task : InferenceTask) : Prop :=
  (task.kind = .ditStepChunk ↔ task.stepRange ≠ none) ∧
    ∀ range, task.stepRange = some range → range.length ≤ chunkSize ∧
      ∃ segment ∈ schedule, segment.start ≤ range.start ∧ range.stop ≤ segment.stop ∧
        task.groupId = segment.groupId

namespace ChunkedDitPlanArgs

variable {args : ChunkedDitPlanArgs} {schedule : List DitSegment} {c : Cursor}
  {effectiveChunkSeqLen : Nat → Nat → Nat}

theorem payloadText_groupValue {task : InferenceTask}
    (h : task.payload.get? key = some (groupValue group)) (hne : group ≠ some "") :
    task.payloadText key = group := by
  unfold InferenceTask.payloadText
  rw [h]
  cases group with
  | none => rfl
  | some group =>
    have : group ≠ "" := fun heq => hne (congrArg some heq)
    simp [groupValue, this]

theorem reshardTask_entersOn (h : src ≠ some "") (name dependency : String)
    (input output : ArtifactHandle) (dst : Option String) :
    (args.reshardTask name dependency input output src dst).entersOn = src := by
  have hget : (args.reshardTask name dependency input output src dst).payload.get?
      reshardPayloadSrcGroupId = some (groupValue src) := by
    simp [reshardTask, Dict.get?_set, reshardPayloadSrcGroupId, reshardPayloadDstGroupId]
  exact payloadText_groupValue hget h

theorem reshardTask_leavesOn (h : dst ≠ some "") (name dependency : String)
    (input output : ArtifactHandle) (src : Option String) :
    (args.reshardTask name dependency input output src dst).leavesOn = dst := by
  have hget : (args.reshardTask name dependency input output src dst).payload.get?
      reshardPayloadDstGroupId = some (groupValue dst) := by
    simp [reshardTask, Dict.get?_set, reshardPayloadDstGroupId]
  exact payloadText_groupValue hget h

-- ---------------------------------------------------------------------------
-- The loop
-- ---------------------------------------------------------------------------

def Cursor.Fits (args : ChunkedDitPlanArgs) (schedule : List DitSegment) (c : Cursor) : Prop :=
  c.start < args.numSteps → if c.idx = 0
    then ∃ stop, groupForStep c.start schedule = .ok (stop, c.prevGroupId)
    else c.prevState = args.stateHandle (PlanArtifact.denoisedAt (c.idx - 1)).text

/-- What the loop adds from a cursor on, with no RESHARD before the index
`low`. -/
structure Denoised (args : ChunkedDitPlanArgs) (schedule : List DitSegment) (c : Cursor) (low : Nat)
    (added : List InferenceTask) (denoiseIds : List String) : Prop where
  feeds : ∀ prev, prev.taskId = c.prevTaskId → prev.outputs = [c.prevState] →
    (prev :: added).IsChain Feeds
  meets : ∀ prev, prev.leavesOn = c.prevGroupId → (prev.isReshard = true → c.idx < low) →
    (prev :: added).IsChain Meets
  covers : Covers c.start (added.filterMap InferenceTask.stepRange) args.numSteps
  fits : ∀ task ∈ added, ChunkFits args.chunkSize schedule task
  last : c.start < args.numSteps → ∃ chunk segment, added.getLast? = some chunk ∧
    denoiseIds.getLast? = some chunk.taskId ∧
    chunk.outputs = [args.stateHandle PlanArtifact.denoised.text] ∧ chunk.isReshard = false ∧
    schedule.getLast? = some segment ∧ chunk.groupId = segment.groupId
  names : ∃ names : List PlanTask, added.map InferenceTask.taskId =
    names.map (fun name => args.taskId name.text) ∧ names.Nodup ∧ ∀ name ∈ names,
      (∃ idx, low ≤ idx ∧ name = .reshardDitStep idx) ∨ ∃ idx, c.idx ≤ idx ∧ name = .ditStepChunk idx
  artifacts : ∃ artifacts : List PlanArtifact, added.flatMap InferenceTask.outputs =
    artifacts.map (fun artifact => args.stateHandle artifact.text) ∧
    (artifacts.map PlanArtifact.code).Nodup ∧ ∀ artifact ∈ artifacts, artifact = .denoised ∨
      (∃ idx group, low ≤ idx + 1 ∧ artifact = .moved idx group) ∨
      ∃ idx, c.idx ≤ idx ∧ artifact = .denoisedAt idx

theorem Denoised.done (h : c.start = args.numSteps) : Denoised args schedule c low [] [] where
  feeds := fun _ _ _ => .singleton _
  meets := fun _ _ _ => .singleton _
  covers := h
  fits := by simp
  last := fun hlt => absurd h (Nat.ne_of_lt hlt)
  names := ⟨[], rfl, .nil, by simp⟩
  artifacts := ⟨[], rfl, .nil, by simp⟩

theorem text_outState (idx stop : Nat) : args.outState idx stop = args.stateHandle
    (if stop = args.numSteps then PlanArtifact.denoised else .denoisedAt idx).text := by
  unfold outState
  split <;> rfl

theorem Denoised.chunk (effectiveChunkSeqLen : Nat → Nat → Nat) (range : StepRange)
    {segment : DitSegment} (h : Denoised args schedule ⟨args.taskId s!"dit_step_chunk:{c.idx}",
      args.outState c.idx range.stop, group, c.idx + 1, range.stop⟩ (c.idx + 1) added denoiseIds)
    (hfinal : range.stop = args.numSteps → added = [] ∧ denoiseIds = [])
    (hstart : range.start = c.start) (hlen : range.length ≤ args.chunkSize)
    (hm : segment ∈ schedule) (hin : segment.start ≤ range.start)
    (hout : range.stop ≤ segment.stop) (hstop : range.stop ≤ args.numSteps)
    (hgroup : group = segment.groupId) (hprev : c.prevGroupId = group)
    (hcontiguous : Contiguous 0 schedule args.numSteps) :
    Denoised args schedule c (c.idx + 1)
      (args.chunkTask effectiveChunkSeqLen c group range :: added)
      (args.taskId s!"dit_step_chunk:{c.idx}" :: denoiseIds) := by
  have hordinary : (args.chunkTask effectiveChunkSeqLen c group range).isReshard = false := rfl
  constructor
  · intro prev hid ho
    refine List.isChain_cons_cons.mpr ⟨⟨?_, ?_⟩, h.feeds _ rfl rfl⟩
    · rw [hid]
      rfl
    · rw [ho]
      rfl
  · intro prev hleaves _
    refine List.isChain_cons_cons.mpr ⟨⟨?_, fun _ => rfl⟩, h.meets _ rfl fun hr => ?_⟩
    · rw [hleaves, hprev]
      rfl
    · rw [hordinary] at hr
      cases hr
  · exact ⟨hstart, h.covers⟩
  · refine List.forall_mem_cons.mpr ⟨⟨⟨fun _ => by simp [chunkTask], fun _ => rfl⟩, ?_⟩, h.fits⟩
    rintro _ ⟨⟩
    exact ⟨hlen, segment, hm, hin, hout, hgroup⟩
  · intro _
    by_cases hend : range.stop = args.numSteps
    · obtain ⟨rfl, rfl⟩ := hfinal hend
      have hlast : segment.stop = args.numSteps :=
        Nat.le_antisymm (hcontiguous.stop_le hm) (hend ▸ hout)
      refine ⟨_, segment, rfl, rfl, ?_, rfl, hcontiguous.getLast? hm hlast, hgroup⟩
      show [args.outState c.idx range.stop] = _
      rw [text_outState, if_pos hend]
    · obtain ⟨last, seg, hl, hids, ho, hr, hs, hg⟩ := h.last (Nat.lt_of_le_of_ne hstop hend)
      refine ⟨last, seg, ?_, ?_, ho, hr, hs, hg⟩
      · rw [List.getLast?_cons, hl]
        rfl
      · rw [List.getLast?_cons, hids]
        rfl
  · obtain ⟨names, hnames, hn, hbound⟩ := h.names
    refine ⟨.ditStepChunk c.idx :: names, ?_, List.nodup_cons.mpr ⟨fun hmem => ?_, hn⟩, ?_⟩
    · rw [List.map_cons, List.map_cons, hnames]
      rfl
    · rcases hbound _ hmem with ⟨idx, -, heq⟩ | ⟨idx, hle, heq⟩
      · cases heq
      · cases heq
        exact absurd hle (Nat.not_succ_le_self _)
    · refine List.forall_mem_cons.mpr ⟨.inr ⟨c.idx, le_rfl, rfl⟩, fun name hmem => ?_⟩
      rcases hbound name hmem with hr | ⟨idx, hle, heq⟩
      · exact .inl hr
      · exact .inr ⟨idx, (Nat.le_succ _).trans hle, heq⟩
  · obtain ⟨artifacts, harts, hn, hbound⟩ := h.artifacts
    refine ⟨(if range.stop = args.numSteps then .denoised else .denoisedAt c.idx) :: artifacts,
      ?_, ?_, ?_⟩
    · rw [List.flatMap_cons, harts, List.map_cons, ← text_outState]
      rfl
    · split
      · rename_i hend
        obtain ⟨rfl, -⟩ := hfinal hend
        obtain rfl : artifacts = [] := List.map_eq_nil_iff.mp harts.symm
        exact List.nodup_singleton _
      · refine List.nodup_cons.mpr ⟨fun hmem => ?_, hn⟩
        obtain ⟨artifact, ha, hcode⟩ := List.mem_map.mp hmem
        rcases hbound artifact ha with rfl | ⟨idx, g, -, rfl⟩ | ⟨idx, hle, rfl⟩
        · cases hcode
        · cases hcode
        · simp only [PlanArtifact.code, Prod.mk.injEq, true_and] at hcode
          simp only at hle
          omega
    · refine List.forall_mem_cons.mpr ⟨?_, fun artifact ha => ?_⟩
      · split
        · exact .inl rfl
        · exact .inr (.inr ⟨c.idx, le_rfl, rfl⟩)
      · rcases hbound artifact ha with hd | hmoved | ⟨idx, hle, heq⟩
        · exact .inl hd
        · exact .inr (.inl hmoved)
        · exact .inr (.inr ⟨idx, (Nat.le_succ _).trans hle, heq⟩)

theorem Denoised.reshard {migrated : ArtifactHandle}
    (h : Denoised args schedule { c with
      prevTaskId := args.taskId s!"reshard_dit_step:{c.idx}", prevState := migrated,
      prevGroupId := group } (c.idx + 1) added denoiseIds)
    (hmigrated : migrated = args.stateHandle (PlanArtifact.moved (c.idx - 1) text).text)
    (hidx : 0 < c.idx) (hstart : c.start < args.numSteps) (hsrc : c.prevGroupId ≠ some "")
    (hdst : group ≠ some "") :
    Denoised args schedule c c.idx
      (args.reshardTask s!"reshard_dit_step:{c.idx}" c.prevTaskId c.prevState migrated
        c.prevGroupId group :: added) denoiseIds := by
  constructor
  · intro prev hid ho
    refine List.isChain_cons_cons.mpr ⟨⟨?_, ?_⟩, h.feeds _ rfl rfl⟩
    · rw [hid]
      rfl
    · rw [ho]
      rfl
  · intro prev hleaves hfirst
    refine List.isChain_cons_cons.mpr ⟨⟨?_, fun hr => ?_⟩, h.meets _ ?_ fun _ => Nat.lt_succ_self _⟩
    · rw [hleaves]
      exact reshardTask_entersOn hsrc ..
    · exact absurd (hfirst hr) (Nat.lt_irrefl _)
    · exact reshardTask_leavesOn hdst ..
  · exact h.covers
  · refine List.forall_mem_cons.mpr ⟨⟨⟨fun hk => (by cases hk), fun hs => absurd rfl hs⟩, ?_⟩, h.fits⟩
    rintro _ ⟨⟩
  · intro _
    obtain ⟨last, segment, hl, hrest⟩ := h.last hstart
    refine ⟨last, segment, ?_, hrest⟩
    rw [List.getLast?_cons, hl]
    rfl
  · obtain ⟨names, hnames, hn, hbound⟩ := h.names
    refine ⟨.reshardDitStep c.idx :: names, ?_, List.nodup_cons.mpr ⟨fun hmem => ?_, hn⟩, ?_⟩
    · rw [List.map_cons, List.map_cons, hnames]
      rfl
    · rcases hbound _ hmem with ⟨idx, hle, heq⟩ | ⟨idx, -, heq⟩
      · cases heq
        exact absurd hle (Nat.not_succ_le_self _)
      · cases heq
    · refine List.forall_mem_cons.mpr ⟨.inl ⟨c.idx, le_rfl, rfl⟩, fun name hmem => ?_⟩
      rcases hbound name hmem with ⟨idx, hle, heq⟩ | hchunk
      · exact .inl ⟨idx, (Nat.le_succ _).trans hle, heq⟩
      · exact .inr hchunk
  · obtain ⟨artifacts, harts, hn, hbound⟩ := h.artifacts
    refine ⟨.moved (c.idx - 1) text :: artifacts, ?_, List.nodup_cons.mpr ⟨fun hmem => ?_, hn⟩, ?_⟩
    · rw [List.flatMap_cons, harts, List.map_cons, ← hmigrated]
      rfl
    · obtain ⟨artifact, ha, hcode⟩ := List.mem_map.mp hmem
      rcases hbound artifact ha with rfl | ⟨idx, g, hle, rfl⟩ | ⟨idx, hle, rfl⟩
      · cases hcode
      · simp only [PlanArtifact.code, Prod.mk.injEq, true_and] at hcode
        omega
      · cases hcode
    · refine List.forall_mem_cons.mpr ⟨.inr (.inl ⟨c.idx - 1, text, by omega, rfl⟩), ?_⟩
      intro artifact ha
      rcases hbound artifact ha with hd | ⟨idx, g, hle, heq⟩ | hat
      · exact .inl hd
      · exact .inr (.inl ⟨idx, g, by omega, heq⟩)
      · exact .inr (.inr hat)

theorem Denoised.lower (h : Denoised args schedule c low added denoiseIds) (hle : low' ≤ low) :
    Denoised args schedule c low' added denoiseIds := by
  obtain ⟨names, hnames, hn, hbound⟩ := h.names
  obtain ⟨artifacts, harts, hnodup, hcodes⟩ := h.artifacts
  refine { h with meets := fun prev hp hr => h.meets prev hp fun he => (hr he).trans_le hle, names := ?_, artifacts := ?_ }
  · refine ⟨names, hnames, hn, fun name hmem => ?_⟩
    rcases hbound name hmem with ⟨idx, hi, heq⟩ | hchunk
    · exact .inl ⟨idx, hle.trans hi, heq⟩
    · exact .inr hchunk
  · refine ⟨artifacts, harts, hnodup, fun artifact ha => ?_⟩
    rcases hcodes artifact ha with hd | ⟨idx, g, hi, heq⟩ | hat
    · exact .inl hd
    · exact .inr (.inl ⟨idx, g, hle.trans hi, heq⟩)
    · exact .inr (.inr hat)

theorem makeStepRange_ok (h : start < stop) : makeStepRange start stop = .ok ⟨start, stop, h⟩ := by
  simp [makeStepRange, h]
  rfl

theorem denoise_done (rounds : Nat) (h : c.start = args.numSteps) :
    args.denoise effectiveChunkSeqLen schedule rounds c = .ok ([], []) := by
  cases rounds with
  | zero => rfl
  | succ rounds =>
    simp [denoise, h]
    rfl

theorem switchGroup_same (h : c.prevGroupId = group) : args.switchGroup c group = ([], c) := by
  simp [switchGroup, h]

theorem switchGroup_other (h : c.prevGroupId ≠ group) (hidx : c.idx ≠ 0)
    (hstate : c.prevState = args.stateHandle (PlanArtifact.denoisedAt (c.idx - 1)).text) :
    ∃ migrated, migrated = args.stateHandle
        (PlanArtifact.moved (c.idx - 1) (optionText group)).text ∧
      args.switchGroup c group =
        ([args.reshardTask s!"reshard_dit_step:{c.idx}" c.prevTaskId c.prevState migrated
          c.prevGroupId group],
        { c with
          prevTaskId := args.taskId s!"reshard_dit_step:{c.idx}", prevState := migrated,
          prevGroupId := group }) := by
  refine ⟨_, rfl, ?_⟩
  have htext : PlanArtifact.text (.moved (c.idx - 1) (optionText group)) =
      s!"{c.prevState.artifactId}_to_{optionText group}_{c.idx}" := by
    have hid : c.prevState.artifactId = s!"state_denoised_{c.idx - 1}" := by
      rw [hstate]
      rfl
    have hself : ∀ text : String, toString text = text := fun _ => rfl
    show s!"state_denoised_{c.idx - 1}_to_{optionText group}_{c.idx - 1 + 1}" = _
    rw [hid, Nat.sub_add_cancel (Nat.pos_of_ne_zero hidx)]
    simp only [hself]
  rw [switchGroup, if_pos h, htext]
  rfl

theorem denoise_round (hlt : c.start < args.numSteps)
    (hstep : groupForStep c.start schedule = .ok (segmentStop, group))
    (hstop : stop = min (min (c.start + args.chunkSize) segmentStop) args.numSteps)
    (hswitch : args.switchGroup c group = (reshards, c')) (hidx : c'.idx = c.idx)
    (hstart : c'.start = c.start) (hrange : c.start < stop)
    (hrun : args.denoise effectiveChunkSeqLen schedule rounds
      ⟨args.taskId s!"dit_step_chunk:{c.idx}", args.outState c.idx stop, group, c.idx + 1, stop⟩ =
        .ok (added, denoiseIds)) :
    args.denoise effectiveChunkSeqLen schedule (rounds + 1) c =
      .ok (reshards ++ args.chunkTask effectiveChunkSeqLen c' group ⟨c.start, stop, hrange⟩ :: added,
        args.taskId s!"dit_step_chunk:{c.idx}" :: denoiseIds) := by
  rw [denoise, if_pos hlt]
  refine Except.bind_eq_ok.mpr ⟨_, hstep, ?_⟩
  simp only [hswitch, ← hstop]
  rw [hstart]
  refine Except.bind_eq_ok.mpr ⟨_, makeStepRange_ok hrange, ?_⟩
  simp only [chunkTask, hidx]
  refine Except.bind_eq_ok.mpr ⟨_, hrun, ?_⟩
  rfl

/-- The loop runs through all steps and its tasks continue the chain. -/
theorem denoise_ok (hchunk : 0 < args.chunkSize)
    (hcontiguous : Contiguous 0 schedule args.numSteps)
    (hgroups : NamedGroups schedule) {rounds : Nat}
    (hrounds : args.numSteps - c.start ≤ rounds) (hstart : c.start ≤ args.numSteps)
    (hprev : ∃ segment ∈ schedule, segment.groupId = c.prevGroupId) (hfits : c.Fits args schedule) :
    ∃ added denoiseIds, args.denoise effectiveChunkSeqLen schedule rounds c = .ok (added, denoiseIds) ∧
      Denoised args schedule c c.idx added denoiseIds := by
  induction rounds generalizing c with
  | zero =>
    have hend : c.start = args.numSteps := by omega
    exact ⟨[], [], rfl, .done hend⟩
  | succ rounds ih =>
    rcases Nat.eq_or_lt_of_le hstart with hend | hlt
    · exact ⟨[], [], denoise_done _ hend, .done hend⟩
    · obtain ⟨segment, hm, hin, hbefore, hstep⟩ := groupForStep_ok hcontiguous (Nat.zero_le _) hlt
      obtain ⟨stop, hstop⟩ : ∃ stop, stop =
        min (min (c.start + args.chunkSize) segment.stop) args.numSteps := ⟨_, rfl⟩
      have hrange : c.start < stop := by omega
      -- where the loop goes on after this round
      obtain ⟨next, hnext⟩ : ∃ next : Cursor, next = ⟨args.taskId s!"dit_step_chunk:{c.idx}",
        args.outState c.idx stop, segment.groupId, c.idx + 1, stop⟩ := ⟨_, rfl⟩
      have hnextFits : next.Fits args schedule := by
        intro hs
        rw [hnext] at hs ⊢
        rw [if_neg (Nat.succ_ne_zero _), text_outState, if_neg (Nat.ne_of_lt hs)]
        rfl
      obtain ⟨added, ids, hrun, hadded⟩ := ih (c := next) (by rw [hnext]; simp only; omega)
        (by rw [hnext]; simp only; omega) (by rw [hnext]; exact ⟨segment, hm, rfl⟩) hnextFits
      have hfinal : stop = args.numSteps → added = [] ∧ ids = [] := by
        intro hend
        rw [denoise_done rounds (by rw [hnext]; exact hend)] at hrun
        cases hrun
        exact ⟨rfl, rfl⟩
      have hlen : (⟨c.start, stop, hrange⟩ : StepRange).length ≤ args.chunkSize := by
        simp only [StepRange.length]
        omega
      rw [hnext] at hadded hrun
      by_cases hsame : c.prevGroupId = segment.groupId
      · refine ⟨_ :: added, _ :: ids, ?_, (hadded.chunk effectiveChunkSeqLen
          ⟨c.start, stop, hrange⟩ hfinal rfl hlen hm hin (by simp only; omega)
          (by simp only; omega) rfl hsame hcontiguous).lower (Nat.le_succ _)⟩
        exact denoise_round hlt hstep hstop (switchGroup_same hsame) rfl rfl hrange hrun
      · have hidx : c.idx ≠ 0 := by
          intro hzero
          have hfirst := hfits hlt
          rw [if_pos hzero] at hfirst
          obtain ⟨first, hfirst⟩ := hfirst
          rw [hstep] at hfirst
          exact hsame (congrArg Prod.snd (Except.ok.inj hfirst)).symm
        have hstate := hfits hlt
        rw [if_neg hidx] at hstate
        obtain ⟨migrated, hmigrated, hswitch⟩ := switchGroup_other hsame hidx hstate
        have hchunk := hadded.chunk effectiveChunkSeqLen ⟨c.start, stop, hrange⟩ (c := { c with
          prevTaskId := args.taskId s!"reshard_dit_step:{c.idx}", prevState := migrated,
          prevGroupId := segment.groupId }) hfinal rfl hlen hm hin (by simp only; omega)
          (by simp only; omega) rfl rfl hcontiguous
        obtain ⟨before, hb, hbefore⟩ := hprev
        rw [← hbefore] at hsame
        exact ⟨_, _, denoise_round hlt hstep hstop hswitch rfl rfl hrange hrun,
          hchunk.reshard hmigrated (Nat.pos_of_ne_zero hidx) hlt
            (hbefore ▸ hgroups before hb segment hm hsame)
            (hgroups segment hm before hb (Ne.symm hsame))⟩

end ChunkedDitPlanArgs

end GfDit
