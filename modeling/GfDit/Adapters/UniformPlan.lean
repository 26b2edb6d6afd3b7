import GfDit.Adapters.PlanChain

/-!
# Plans without a schedule

The compilers give no step schedule and no stage groups: all chunks are on the
request's group, one after the other, and cut the steps into a grid.
-/

namespace GfDit

def Grid (size last : Nat) : Nat → List StepRange → Prop
  | start, [] => start = last
  | start, range :: ranges =>
    range.start = start ∧ range.stop = min (start + size) last ∧ Grid size last range.stop ranges

structure DependencyOrder (plan : RequestExecutionPlan) (chain : List InferenceTask) : Prop where
  tasks : plan.tasks.values.Perm chain
  feeds : chain.IsChain Feeds

namespace ChunkedDitPlanArgs

variable {args : ChunkedDitPlanArgs} {f : Nat → Nat → Nat} {c : Cursor}

structure PlainChunk (args : ChunkedDitPlanArgs) (task : InferenceTask) : Prop where
  kind : task.kind = .ditStepChunk
  group : task.groupId = args.groupId
  range : ∃ range, task.stepRange = some range
  output : task.outputs = [args.stateHandle PlanArtifact.denoised.text] ∨
    ∃ idx, task.outputs = [args.stateHandle (PlanArtifact.denoisedAt idx).text]

theorem chunkTask_plain (range : StepRange) :
    PlainChunk args (args.chunkTask f c args.groupId range) where
  kind := rfl
  group := rfl
  range := ⟨range, rfl⟩
  output := by
    show [args.outState c.idx range.stop] = _ ∨ ∃ idx, [args.outState c.idx range.stop] = _
    rw [text_outState]
    split
    · exact .inl rfl
    · exact .inr ⟨c.idx, rfl⟩

/-- With one segment the loop cuts the steps into a grid. -/
theorem denoise_grid (hsize : 0 < args.chunkSize) (hprev : c.prevGroupId = args.groupId)
    (hle : c.start ≤ args.numSteps) (hrounds : args.numSteps - c.start ≤ rounds) :
    ∃ added denoiseIds, args.denoise f [⟨0, args.numSteps, args.groupId⟩] rounds c =
        .ok (added, denoiseIds) ∧
      Grid args.chunkSize args.numSteps c.start (added.filterMap InferenceTask.stepRange) ∧
      ∀ task ∈ added, PlainChunk args task := by
  induction rounds generalizing c with
  | zero =>
    have hend : c.start = args.numSteps := by omega
    exact ⟨[], [], rfl, hend, by simp⟩
  | succ rounds ih =>
    rcases Nat.eq_or_lt_of_le hle with hend | hlt
    · exact ⟨[], [], denoise_done _ hend, hend, by simp⟩
    · obtain ⟨stop, hstop⟩ : ∃ stop,
        stop = min (min (c.start + args.chunkSize) args.numSteps) args.numSteps := ⟨_, rfl⟩
      have hrange : c.start < stop := by omega
      obtain ⟨added, ids, hrun, hgrid, hplain⟩ := ih
        (c := ⟨args.taskId s!"dit_step_chunk:{c.idx}", args.outState c.idx stop, args.groupId,
          c.idx + 1, stop⟩) rfl (by simp only; omega) (by simp only; omega)
      have hstep : groupForStep c.start [⟨0, args.numSteps, args.groupId⟩] =
          .ok (args.numSteps, args.groupId) := by
        simp [groupForStep, hlt]
        rfl
      refine ⟨_, _, denoise_round hlt hstep hstop (switchGroup_same hprev) rfl rfl hrange hrun, ?_, ?_⟩
      · refine ⟨rfl, ?_, hgrid⟩
        simp only
        omega
      · exact List.forall_mem_cons.mpr ⟨chunkTask_plain _, hplain⟩

/-- The tasks from text encoding to finalizing, all on the request's group. -/
def uniformChain (args : ChunkedDitPlanArgs) (chunks : List InferenceTask) (lastChunk : String) :
    List InferenceTask :=
  [args.textEncode args.groupId, args.ditPrepare args.groupId (args.taskId "text_encode:0")
      (args.stateHandle "state_text")] ++
    args.timestepPrepare args.groupId :: (chunks ++
      [args.vaeDecode args.groupId lastChunk (args.stateHandle "state_denoised"),
        args.finalize args.groupId])

structure UniformPlan (args : ChunkedDitPlanArgs) (plan : RequestExecutionPlan)
    (chunks : List InferenceTask) (lastChunk : String) : Prop where
  chain : PlanChain args [⟨0, args.numSteps, args.groupId⟩] plan (args.uniformChain chunks lastChunk)
  metadata : plan.metadata = args.planMetadata
  positive : 0 < args.numSteps ∧ 0 < args.chunkSize
  grid : Grid args.chunkSize args.numSteps 0 (chunks.filterMap InferenceTask.stepRange)
  plain : ∀ task ∈ chunks, PlainChunk args task

theorem buildChunkedDitPlan_uniform (hs : args.ditStepSchedule = []) (hg : args.stageGroupIds = none)
    (h : args.buildChunkedDitPlan f = .ok plan) :
    ∃ chunks lastChunk, UniformPlan args plan chunks lastChunk := by
  unfold buildChunkedDitPlan at h
  obtain ⟨stages, hcheck, h⟩ := Except.bind_eq_ok.mp h
  obtain ⟨schedule, hschedule, h⟩ := Except.bind_eq_ok.mp h
  obtain ⟨tasks, hbuild, h⟩ := Except.bind_eq_ok.mp h
  cases h
  obtain ⟨hpos, hchunk, hstages⟩ := check_ok hcheck
  rw [hg] at hstages
  cases hstages
  have hsched : schedule = [⟨0, args.numSteps, args.groupId⟩] := by
    simp only [ditSchedule, groupForKind, pure_bind, normalizeDitStepSchedule, if_pos hs] at hschedule
    exact (Except.ok.inj hschedule).symm
  subst hsched
  obtain ⟨hcontiguous, hgroups⟩ := ditSchedule_ok hpos hschedule
  have hgrid := denoise_grid (c := args.firstCursor args.groupId) (f := f)
    hchunk rfl (Nat.zero_le _) (Nat.sub_le _ _)
  obtain ⟨added, ids, hrun, hgrid, hplain⟩ := hgrid
  obtain ⟨added', ids', hrun', hd⟩ := denoise_start hchunk hcontiguous hgroups rfl
  cases hrun.symm.trans hrun'
  obtain ⟨lastChunk, tasks', hids, hbuild', hlists⟩ := buildTasks_eq none hpos rfl rfl hrun hd
  cases hbuild.symm.trans hbuild'
  refine ⟨added, lastChunk, ?_, rfl, ⟨hpos, hchunk⟩, hgrid, hplain⟩
  refine (ends_plain args args.groupId args.groupId args.groupId lastChunk).planChain hd hpos hids
    hlists (fun task => ?_) rfl rfl
  simp only [auxGroup, List.mem_append, List.mem_cons, List.not_mem_nil]
  tauto

theorem UniformPlan.dependencyOrder_eq (h : UniformPlan args plan chunks lastChunk)
    (ho : DependencyOrder plan order) : args.uniformChain chunks lastChunk = order := by
  have hids := h.chain.ids
  refine h.chain.feeds.eq_of_perm ho.feeds (h.chain.tasks.symm.trans ho.tasks)
    (List.Nodup.of_map _ hids) (fun x hx y hy z hxz hyz => ?_) fun x _ hr => ?_
  · have hid : [x.taskId] = [y.taskId] := hxz.1.symm.trans hyz.1
    exact List.inj_on_of_nodup_map hids hx hy (List.cons.inj hid).1
  · cases hr.1

end ChunkedDitPlanArgs

def chunksOf (chain : List InferenceTask) : List InferenceTask :=
  chain.filter fun task => task.kind = .ditStepChunk

namespace ChunkedDitPlanArgs

theorem UniformPlan.chunksOf_eq (h : UniformPlan args plan chunks lastChunk) :
    chunksOf (args.uniformChain chunks lastChunk) = chunks := by
  have hall : chunks.filter (fun task => task.kind = .ditStepChunk) = chunks :=
    List.filter_eq_self.mpr fun task hm => decide_eq_true (h.plain task hm).kind
  simp [chunksOf, uniformChain, List.filter_append, hall, textEncode, ditPrepare, timestepPrepare,
    vaeDecode, finalize, stageTask]

end ChunkedDitPlanArgs

end GfDit
