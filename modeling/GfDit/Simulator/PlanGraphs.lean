import GfDit.Simulator.SimPlan

/-!
# Built plans are well-formed requests

Whatever the schedule and the stage groups, the tasks of a plan that is built
are filed under their ids, belong to the plan's request and form a DAG. A
simulated request with positive sizes always has a plan.
-/

namespace GfDit

namespace ChunkedDitPlanArgs

open Driver (WellFormed)

variable {args : ChunkedDitPlanArgs} {tasks tasks' : Dict String InferenceTask}
  {f : Nat → Nat → Nat}

def Filed (args : ChunkedDitPlanArgs) (tasks : Dict String InferenceTask) : Prop :=
  ∀ taskId task, tasks.get? taskId = some task →
    task.taskId = taskId ∧ task.requestId = args.requestId

theorem Filed.empty : Filed args ∅ := by
  rintro taskId task ⟨⟩

theorem Filed.set (h : Filed args tasks) {task : InferenceTask}
    (hrequest : task.requestId = args.requestId) : Filed args (tasks.set task.taskId task) := by
  intro taskId other hget
  rw [Dict.get?_set] at hget
  split at hget
  · next hid =>
    cases hget
    exact ⟨hid, hrequest⟩
  · exact h taskId other hget

theorem Filed.addTasks {added : List InferenceTask} (h : Filed args tasks)
    (hadded : ∀ task ∈ added, task.requestId = args.requestId) :
    Filed args (addTasks tasks added) := by
  induction added generalizing tasks with
  | nil => exact h
  | cons task added ih =>
    obtain ⟨htask, hadded⟩ := List.forall_mem_cons.mp hadded
    exact ih (h.set htask) hadded

theorem Filed.rewire {name dependency : String} {input : ArtifactHandle} (h : Filed args tasks)
    (hok : args.rewire name dependency input tasks = .ok tasks') : Filed args tasks' := by
  unfold ChunkedDitPlanArgs.rewire at hok
  split at hok
  · cases hok
  · next task hget =>
    obtain rfl := Except.pure_eq_ok.mp hok
    obtain ⟨hid, hrequest⟩ := h _ _ hget
    rw [← hid]
    exact @Filed.set args tasks h { task with dependencies := [dependency], inputs := [input] }
      hrequest

theorem switchGroup_own {c c' : Cursor} {group : Option String} {added : List InferenceTask}
    (h : args.switchGroup c group = (added, c')) :
    ∀ task ∈ added, task.requestId = args.requestId := by
  unfold switchGroup at h
  split at h
  · cases h
    exact fun task hmem => List.mem_singleton.mp hmem ▸ rfl
  · cases h
    exact fun task hmem => absurd hmem List.not_mem_nil

theorem denoise_own {schedule : List DitSegment} {rounds : Nat} {c : Cursor}
    {added : List InferenceTask} {denoiseIds : List String}
    (h : args.denoise f schedule rounds c = .ok (added, denoiseIds)) :
    ∀ task ∈ added, task.requestId = args.requestId := by
  induction rounds generalizing c added denoiseIds with
  | zero =>
    cases h
    exact fun task hmem => absurd hmem List.not_mem_nil
  | succ rounds ih =>
    unfold denoise at h
    split at h
    · obtain ⟨⟨scheduleEnd, group⟩, -, h⟩ := Except.bind_eq_ok.mp h
      obtain ⟨range, -, h⟩ := Except.bind_eq_ok.mp h
      obtain ⟨⟨later, ids⟩, hlater, h⟩ := Except.bind_eq_ok.mp h
      cases h
      intro task hmem
      rcases List.mem_append.mp hmem with hmem | hmem
      · exact switchGroup_own rfl task hmem
      · rcases List.mem_cons.mp hmem with rfl | hmem
        · rfl
        · exact ih hlater task hmem
    · cases h
      exact fun task hmem => absurd hmem List.not_mem_nil

theorem insertStageReshards_filed {stages : Option StageGroups} {first last : Option String}
    {lastChunk : String} (h : Filed args tasks)
    (hok : args.insertStageReshards stages first last lastChunk tasks = .ok tasks') :
    Filed args tasks' := by
  cases stages with
  | none =>
    obtain rfl := Except.pure_eq_ok.mp hok
    exact h
  | some groups =>
    obtain ⟨wired, hwired, hok⟩ := Except.bind_eq_ok.mp hok
    have hfirst := (h.addTasks fun task hmem => List.mem_singleton.mp hmem ▸ rfl).rewire hwired
    exact (hfirst.addTasks fun task hmem => List.mem_singleton.mp hmem ▸ rfl).rewire hok

theorem buildTasks_filed {stages : Option StageGroups} {schedule : List DitSegment}
    (h : args.buildTasks f stages schedule = .ok tasks) : Filed args tasks := by
  unfold buildTasks at h
  obtain ⟨first, -, h⟩ := Except.bind_eq_ok.mp h
  obtain ⟨last, -, h⟩ := Except.bind_eq_ok.mp h
  obtain ⟨text, -, h⟩ := Except.bind_eq_ok.mp h
  obtain ⟨vae, -, h⟩ := Except.bind_eq_ok.mp h
  obtain ⟨final, -, h⟩ := Except.bind_eq_ok.mp h
  obtain ⟨⟨added, denoiseIds⟩, hdenoise, h⟩ := Except.bind_eq_ok.mp h
  dsimp only at h
  split at h
  · cases h
  · obtain ⟨wired, hwired, h⟩ := Except.bind_eq_ok.mp h
    have hends : ∀ task ∈ args.endTasks text vae final first, task.requestId = args.requestId := by
      simp [endTasks, stageTask]
    have hall := (Filed.empty.addTasks hends).addTasks (denoise_own hdenoise)
    exact insertStageReshards_filed (hall.rewire hwired) h

-- ---------------------------------------------------------------------------
-- Chains are DAGs
-- ---------------------------------------------------------------------------

theorem isDag_of_planChain {schedule : List DitSegment} {plan : RequestExecutionPlan}
    {chain : List InferenceTask} (h : PlanChain args schedule plan chain)
    (hfiled : Filed args plan.tasks) : plan.IsDag := by
  have hperm : (chain.map InferenceTask.taskId).Perm plan.tasks.keys := by
    have hvalues : plan.tasks.values.map InferenceTask.taskId = plan.tasks.keys := by
      rw [Dict.values, Dict.keys, List.map_map]
      refine List.map_congr_left fun entry hentry => ?_
      exact (hfiled _ _ ((Dict.get?_eq_some _).mpr hentry)).1
    exact hvalues ▸ (h.tasks.map InferenceTask.taskId).symm
  refine Rolling.isDag_of_legal hperm fun before taskId after heq d hd => ?_
  -- The task's dependency is the task before it in the chain.
  obtain ⟨front, rest, hchain, hbefore, hrest⟩ := List.map_eq_append_iff.mp heq
  obtain ⟨task, back, rfl, rfl, -⟩ := List.map_eq_cons_iff.mp hrest
  have hmem : task ∈ chain := hchain ▸ List.mem_append_right _ (List.mem_cons_self ..)
  rw [RequestExecutionPlan.dependenciesOf, h.keyed task hmem] at hd
  have hd : d ∈ task.dependencies := hd
  rw [← hbefore]
  rcases List.eq_nil_or_concat front with rfl | ⟨init, prev, rfl⟩
  · obtain ⟨text, tail, hfirst, -, hnone, -⟩ := h.first
    rw [List.nil_append] at hchain
    rw [← (List.cons.inj (hchain.symm.trans hfirst)).1] at hnone
    rw [hnone] at hd
    cases hd
  · have hfeeds := h.feeds
    rw [hchain, List.concat_eq_append, List.append_assoc, List.singleton_append] at hfeeds
    have hlink := (List.isChain_cons_cons.mp (List.isChain_append.mp hfeeds).2.1).1.1
    rw [hlink] at hd
    rw [List.mem_singleton.mp hd, List.concat_eq_append, List.map_append]
    exact List.mem_append_right _ (List.mem_singleton_self _)

theorem buildChunkedDitPlan_wellFormed {plan : RequestExecutionPlan}
    (h : args.buildChunkedDitPlan f = .ok plan) : WellFormed plan := by
  unfold buildChunkedDitPlan at h
  obtain ⟨stages, hcheck, h⟩ := Except.bind_eq_ok.mp h
  obtain ⟨schedule, hschedule, h⟩ := Except.bind_eq_ok.mp h
  obtain ⟨tasks, hbuild, h⟩ := Except.bind_eq_ok.mp h
  cases h
  have hfiled := buildTasks_filed hbuild
  obtain ⟨hpos, hchunk, hstages⟩ := check_ok hcheck
  obtain ⟨hcontiguous, hgroups⟩ := ditSchedule_ok hpos hschedule
  have hne := hcontiguous.ne_nil hpos
  have hhead := List.head?_eq_some_head hne
  have hlast := List.getLast?_eq_some_getLast hne
  refine ⟨hfiled, ?_⟩
  cases stages with
  | none =>
    obtain ⟨tasks', chain, hbuild', hchain⟩ :=
      planChain_plain hpos hchunk hcontiguous hgroups hhead hlast
    cases hbuild.symm.trans hbuild'
    exact isDag_of_planChain (hchain _ rfl rfl) hfiled
  | some groups =>
    have hnamed : ∀ segment ∈ schedule, segment.groupId ≠ some "" := by
      intro segment hm heq
      obtain ⟨group, hne, hgroup⟩ := ditSchedule_staged hpos hschedule hm
      exact hne (Option.some.inj (hgroup.symm.trans heq))
    obtain ⟨tasks', chain, hbuild', -, hchain⟩ :=
      planChain_staged hpos hchunk hcontiguous hgroups hnamed hhead hlast
    cases hbuild.symm.trans hbuild'
    exact isDag_of_planChain (hchain _ rfl rfl) hfiled

end ChunkedDitPlanArgs

-- ---------------------------------------------------------------------------
-- Simulated requests
-- ---------------------------------------------------------------------------

open Driver (WellFormed)

theorem Driver.WellFormed.mapTasks {plan : RequestExecutionPlan} (h : WellFormed plan)
    (f : InferenceTask → InferenceTask) (hid : ∀ task, (f task).taskId = task.taskId)
    (hrequest : ∀ task, (f task).requestId = task.requestId)
    (hdeps : ∀ task, (f task).dependencies = task.dependencies) :
    WellFormed { plan with tasks := plan.tasks.mapValues f } := by
  have hsame : RequestExecutionPlan.dependenciesOf { plan with tasks := plan.tasks.mapValues f } =
      plan.dependenciesOf := by
    funext taskId
    simp only [RequestExecutionPlan.dependenciesOf, Dict.get?_mapValues]
    cases plan.tasks.get? taskId with
    | none => rfl
    | some task => exact hdeps task
  refine ⟨fun taskId task hget => ?_, ⟨fun taskId d hd => ?_, ?_⟩⟩
  · rw [Dict.get?_mapValues] at hget
    obtain ⟨before, hbefore, rfl⟩ := Option.map_eq_some_iff.mp hget
    obtain ⟨htask, hown⟩ := h.filed taskId before hbefore
    exact ⟨(hid before).trans htask, (hrequest before).trans hown⟩
  · rw [Dict.keys_mapValues]
    exact h.dag.known taskId d (hsame ▸ hd)
  · rw [hsame]
    exact h.dag.acyclic

theorem SimPlan.wellFormed {request : SimRequest} {plan : RequestExecutionPlan}
    (h : SimPlan request plan) : WellFormed plan := by
  obtain ⟨f, hplan⟩ := h
  obtain ⟨plan₁, hsim, hplan⟩ := Except.bind_eq_ok.mp hplan
  obtain ⟨plan₀, hbuild, hsim⟩ := Except.bind_eq_ok.mp hsim
  obtain rfl := Except.pure_eq_ok.mp hsim
  obtain rfl := Except.pure_eq_ok.mp hplan
  have hbuilt := ChunkedDitPlanArgs.buildChunkedDitPlan_wellFormed hbuild
  have hsized := hbuilt.mapTasks (withSimPayload request) (fun _ => rfl) (fun _ => rfl) fun _ => rfl
  exact hsized.mapTasks withoutGroup (fun _ => rfl) (fun _ => rfl) fun _ => rfl

theorem SimRequest.latentSeqLen_pos (request : SimRequest) : 1 ≤ request.latentSeqLen := by
  unfold SimRequest.latentSeqLen
  split
  · exact le_max_left ..
  · exact le_max_left ..

theorem SimRequest.check_planArgs {request : SimRequest} (hsteps : 0 < request.numSteps)
    (hchunk : 0 < request.denoiseChunkSize) (htext : 0 < request.textSeqLen) :
    request.planArgs.check = .ok none := by
  have hlatent := request.latentSeqLen_pos
  have hcfg : checkTrueCfg request.numSteps
      (request.doTrueCfg.map (List.replicate request.numSteps)) = .ok () := by
    cases request.doTrueCfg <;> simp [checkTrueCfg] <;> rfl
  have hsizes : ∀ {name : String} {value : Nat}, 1 ≤ value → atLeastOne name value = .ok () := by
    intro name value hle
    simp only [atLeastOne, Nat.not_lt.mpr hle, if_false]
    rfl
  simp only [ChunkedDitPlanArgs.check, planArgs, hsizes hsteps, hsizes hchunk, hsizes htext,
    hsizes hlatent, hcfg, Except.ok_bind]
  rfl

theorem exists_simPlan (request : SimRequest) (hsteps : 0 < request.numSteps)
    (hchunk : 0 < request.denoiseChunkSize) (htext : 0 < request.textSeqLen) :
    ∃ plan, SimPlan request plan ∧ plan.requestId = request.requestId := by
  have hcheck := SimRequest.check_planArgs hsteps hchunk htext
  have hschedule : request.planArgs.ditSchedule none =
      .ok [⟨0, request.numSteps, request.groupId⟩] := rfl
  obtain ⟨hcontiguous, hgroups⟩ := ChunkedDitPlanArgs.ditSchedule_ok hsteps hschedule
  have hchain : ∃ tasks chain, request.planArgs.buildTasks (fun _ _ => 1) none
      [⟨0, request.numSteps, request.groupId⟩] = .ok tasks ∧ _ :=
    ChunkedDitPlanArgs.planChain_plain hsteps hchunk hcontiguous hgroups rfl rfl
  obtain ⟨tasks, -, hbuild, -⟩ := hchain
  obtain ⟨plan, hplan, -⟩ := ChunkedDitPlanArgs.buildChunkedDitPlan_ok hcheck hschedule hbuild
  have hsim : SimPlan request { plan with
      tasks := (plan.tasks.mapValues (withSimPayload request)).mapValues withoutGroup } := by
    refine ⟨fun _ _ => 1, ?_⟩
    rw [buildPolicyPlan, buildSimPlan, hplan]
    rfl
  exact ⟨_, hsim, hsim.chain.2.1⟩

end GfDit
