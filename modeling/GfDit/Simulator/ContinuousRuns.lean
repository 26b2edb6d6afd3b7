import GfDit.Simulator.ContinuousTakes
import GfDit.Simulator.PlanGraphs

/-!
# The continuous policy along a run

Driven with plans of `build_sim_plan` on a topology where groups are always to
be had, the policy never fails and never stalls, has one task of a request in
flight at most and gives no rank to two running tasks; when nothing is left to
happen, every request is finished.
-/

namespace GfDit

namespace Continuous

open Driver (Call Dispatch Action Enabled note callOf)
open RequestQueues (Books)

variable {settings : Settings} {w : Driver.World State}

structure Tracks (settings : Settings) (w : Driver.World State) : Prop where
  books : Books w.policy.queues w.ready w.running
  started : Driver.Started w
  simPlans : ∀ plan ∈ w.known, ∃ request, SimPlan request plan
  metas : ∀ plan ∈ w.known, plan.requestId ∉ w.closed → ∃ order,
    w.policy.requestMeta.get? plan.requestId = some (metaFromPlan plan order)
  indexed : ∀ task ∈ w.tasks, w.policy.queues.taskIndex.get? task.taskId = some task
  inflightTask : ∀ requestId task, w.policy.inflightTask.get? requestId = some task →
    ∃ dispatch ∈ w.running, dispatch.task = task ∧ task.requestId = requestId
  completed : ∀ requestId steps, w.policy.completedSteps.get? requestId = some steps →
    ∃ task ∈ w.tasks, task.requestId = requestId ∧ task.taskId ∈ w.ended ∧
      ∃ range, task.stepRange = some range ∧ range.stop = steps
  workers : w.policy.topology.workers = settings.topology.workers
  equipped : Equipped w.policy.topology
  placed : ∀ dispatch ∈ w.running, ∃ group,
    w.policy.topology.find dispatch.groupId = some group ∧ group.ranks.Nodup ∧
      w.policy.queues.accounts.dispatchedRanksByTask.get? dispatch.task.taskId = some group.ranks
  lastDistinct : LastDistinct w.policy
  exclusive : ∀ rank, Counter.count w.policy.queues.accounts.outstandingPerRank rank ≤ 1
  alone : (w.running.map (·.task.requestId)).Nodup

theorem Tracks.start (h : Equipped settings.topology) :
    Tracks settings (.start (.init settings)) := by
  refine ⟨.start, .start _, ?_, ?_, ?_, ?_, ?_, rfl, h, ?_, ?_, fun _ => Nat.zero_le 1, .nil⟩
  · rintro plan ⟨⟩
  · rintro plan ⟨⟩
  · rintro task ⟨⟩
  · rintro requestId task ⟨⟩
  · rintro requestId steps ⟨⟩
  · rintro dispatch ⟨⟩
  · rintro requestId groupId ⟨⟩

-- ---------------------------------------------------------------------------
-- Plans
-- ---------------------------------------------------------------------------

theorem Tracks.plan_of_mem (hsound : Driver.Sound w) (h : Tracks settings w)
    {task : InferenceTask} (hmem : task ∈ w.ready ++ w.runningTasks) :
    ∃ plan ∈ w.known, ∃ request, SimPlan request plan ∧ task ∈ plan.tasks.values ∧
      plan.requestId = task.requestId ∧ plan.requestId ∉ w.closed := by
  obtain ⟨plan, hplan, hkey, hrequest, hopen, -⟩ := hsound.open_of_mem hmem
  obtain ⟨request, hsim⟩ := h.simPlans plan hplan
  refine ⟨plan, hplan, request, hsim, ?_, hrequest, hopen⟩
  obtain ⟨other, hget⟩ := Option.isSome_iff_exists.mp ((Dict.mem_keys _ _).mp hkey)
  have hother : other ∈ w.tasks := List.mem_flatMap.mpr ⟨plan, hplan, Dict.mem_values_of_get? hget⟩
  have hid := ((hsound.wellFormed plan hplan).filed _ _ hget).1
  obtain rfl := hsound.eq_of_taskId hother (hsound.planned task hmem) hid
  exact Dict.mem_values_of_get? hget

theorem plan_unique (hsound : Driver.Sound w) {plan : RequestExecutionPlan} (hplan : plan ∈ w.known)
    {task : InferenceTask} (htask : task ∈ w.tasks) (hid : task.requestId = plan.requestId) :
    task ∈ plan.tasks.values := by
  obtain ⟨other, hother, hvalue⟩ := List.mem_flatMap.mp htask
  have hfiled := ((hsound.wellFormed other hother).filed _ _
    ((hsound.wellFormed other hother).get? hvalue)).2
  obtain rfl := List.inj_on_of_nodup_map hsound.requestIds hother hplan (hfiled.symm.trans hid)
  exact hvalue

theorem Tracks.not_launched (hsound : Driver.Sound w) (h : Tracks settings w)
    {task : InferenceTask} (hready : task ∈ w.ready) : task.taskId ∉ w.launched := by
  intro hlaunched
  obtain ⟨hended, hrunning⟩ := hsound.not_both hready
  exact (List.mem_append.mp (h.started _ hlaunched)).elim hrunning hended

/-- While a DiT task is ready, the steps done are not all of them. -/
theorem Tracks.completed_lt (hsound : Driver.Sound w) (h : Tracks settings w)
    {plan : RequestExecutionPlan} {request : SimRequest} (hplan : plan ∈ w.known)
    (hsim : SimPlan request plan) {task : InferenceTask} (hready : task ∈ w.ready)
    (hvalue : task ∈ plan.tasks.values) (hdit : task.kind ∈ ditTaskKinds) :
    w.policy.completedSteps.getD plan.requestId 0 < request.numSteps ∧
      ∀ range, task.stepRange = some range → range.start < request.numSteps := by
  obtain ⟨hpos, -, -, -, before, last, after, hchain⟩ := hsim.chain
  have hmem : ∀ other, other ∈ plan.tasks.values ↔ other ∈ before ++ last :: after :=
    fun other => hchain.tasks.mem_iff
  have hknown : ∀ other ∈ before ++ last :: after, other ∈ w.tasks := fun other hother =>
    List.mem_flatMap.mpr ⟨plan, hplan, (hmem other).mpr hother⟩
  have hnotAfter : task ∉ after := fun hafter =>
    Edf.not_dit_of_single (hchain.decoding task hafter).1 hdit
  constructor
  · cases hget : w.policy.completedSteps.get? plan.requestId with
    | none =>
      rw [Dict.getD_of_none hget]
      exact hpos
    | some steps =>
      rw [Dict.getD_of_get? hget]
      obtain ⟨other, hother, hid, hended, range, hrange, rfl⟩ := h.completed _ _ hget
      have hin := (hmem other).mp (plan_unique hsound hplan hother hid)
      rcases List.mem_append.mp hin with hbefore | hin
      · exact hchain.early other hbefore range hrange
      · rcases List.mem_cons.mp hin with rfl | hafter
        · -- The last chunk has not ended, as everything before it was launched.
          exfalso
          have hstaged : other.taskId ∈ w.stageIds :=
            List.mem_append_right _ (List.mem_append_right _ hended)
          have hlaunched := hsound.launched_of_chain h.started hknown hchain.linked hstaged
          rcases List.mem_append.mp ((hmem task).mp hvalue) with htask | htask
          · exact h.not_launched hsound hready (hlaunched task htask)
          · rcases List.mem_cons.mp htask with rfl | htask
            · exact (hsound.not_both hready).1 hended
            · exact hnotAfter htask
        · rw [(hchain.decoding other hafter).2] at hrange
          cases hrange
  · intro range hrange
    have hnonempty := range.nonempty
    rcases List.mem_append.mp ((hmem task).mp hvalue) with htask | htask
    · have := hchain.early task htask range hrange
      omega
    · rcases List.mem_cons.mp htask with rfl | htask
      · have := hchain.final range hrange
        omega
      · exact absurd htask hnotAfter

theorem metaFromPlan_numSteps {request : SimRequest} {plan : RequestExecutionPlan}
    (h : SimPlan request plan) (order : Nat) :
    (metaFromPlan plan order).numSteps = request.numSteps := by
  obtain ⟨-, -, hvalue, -⟩ := h.chain
  have hattr : requestAttr plan "num_steps" = some (.int request.numSteps) := by
    rw [requestAttr, hvalue, Option.bind_some]
    refine Dict.get?_insertAll_of_mem (by simp) fun v hv => ?_
    simpa using hv
  simp only [metaFromPlan, intAttr, hattr]
  split
  · next hzero => exact hzero.symm
  · rfl

-- ---------------------------------------------------------------------------
-- At rest
-- ---------------------------------------------------------------------------

theorem Tracks.head_of_mem (hsound : Driver.Sound w) (h : Tracks settings w) {requestId : String}
    {task : InferenceTask} (hmem : (requestId, task) ∈ readyHeads w.policy) :
    task ∈ w.ready ∧ task.requestId = requestId ∧ task.groupId = none ∧
      task.kind ∈ standardTaskKinds := by
  obtain ⟨-, hhead⟩ := mem_readyHeads.mp hmem
  obtain ⟨hready, hid⟩ := h.books.mem_ready_of_queue (List.mem_of_mem_head? hhead)
  obtain ⟨plan, -, request, hsim, hvalue, -⟩ :=
    h.plan_of_mem hsound (List.mem_append_left _ hready)
  obtain ⟨-, -, -, hplain, before, last, after, hchain⟩ := hsim.chain
  exact ⟨hready, hid, hplain task hvalue, hchain.standard task (hchain.tasks.mem_iff.mp hvalue)⟩

/-- With nothing in flight the requests with a DiT task ready are the active ones. -/
theorem Tracks.active_of_head (hsound : Driver.Sound w) (h : Tracks settings w)
    (hidle : w.running = []) {requestId : String} {task : InferenceTask}
    (hmem : (requestId, task) ∈ readyHeads w.policy) (hdit : task.kind ∈ ditTaskKinds) :
    requestId ∈ activeDitRequestIds w.policy := by
  obtain ⟨hinflight, hhead⟩ := mem_readyHeads.mp hmem
  obtain ⟨hready, hid, -, -⟩ := h.head_of_mem hsound hmem
  obtain ⟨plan, hplan, request, hsim, hvalue, hrequest, hopen⟩ :=
    h.plan_of_mem hsound (List.mem_append_left _ hready)
  obtain ⟨order, hmeta⟩ := h.metas plan hplan hopen
  have hplanId : plan.requestId = requestId := hrequest.trans hid
  have hsteps := metaFromPlan_numSteps hsim order
  obtain ⟨hcompleted, hstart⟩ := h.completed_lt hsound hplan hsim hready hvalue hdit
  rw [hplanId] at hmeta hcompleted
  have hnone : w.policy.inflightTask.get? requestId = none := by
    refine Option.eq_none_iff_forall_ne_some.mpr fun other hget => ?_
    obtain ⟨dispatch, hrunning, -⟩ := h.inflightTask requestId other hget
    rw [hidle] at hrunning
    cases hrunning
  have hremaining : 0 < remainingSteps w.policy requestId := by
    simp only [remainingSteps, hmeta, hnone, hhead, Option.bind_none, Option.bind_some, hsteps]
    split
    · next range hrange =>
      have hboth := max_lt (Int.ofNat_lt.mpr hcompleted) (Int.ofNat_lt.mpr (hstart range hrange))
      exact lt_max_of_lt_right (sub_pos.mpr hboth)
    · exact lt_max_of_lt_right (sub_pos.mpr (Int.ofNat_lt.mpr hcompleted))
  refine List.mem_map.mpr ⟨(requestId, metaFromPlan plan order), List.mem_filter.mpr
    ⟨(Dict.get?_eq_some _).mp hmeta, ?_⟩, rfl⟩
  have hpos : ¬ (((metaFromPlan plan order).numSteps ≤ 0) ∨ remainingSteps w.policy requestId ≤ 0) := by
    rw [hsteps]
    have := hsim.chain.1
    omega
  have hinflight' : ¬ 0 < w.policy.queues.inflight requestId := by omega
  simp only [isActive, hpos, if_false, hinflight', hhead, Option.any_some]
  exact decide_eq_true hdit

theorem head_of_active (hidle : ∀ requestId, w.policy.queues.inflight requestId = 0)
    {requestId : String} (hmem : requestId ∈ activeDitRequestIds w.policy) :
    ∃ task, (requestId, task) ∈ readyHeads w.policy ∧ task.kind ∈ ditTaskKinds := by
  obtain ⟨⟨key, info⟩, hentry, rfl⟩ := List.mem_map.mp hmem
  have hactive := List.of_mem_filter hentry
  simp only [isActive] at hactive
  split at hactive
  · cases hactive
  · rw [if_neg (by simp [hidle])] at hactive
    cases hhead : (w.policy.queues.queue key).head? with
    | none => simp [hhead] at hactive
    | some task =>
      rw [hhead, Option.any_some] at hactive
      exact ⟨task, mem_readyHeads.mpr ⟨hidle key, hhead⟩, of_decide_eq_true hactive⟩

theorem Tracks.atRest (hsound : Driver.Sound w) (h : Tracks settings w) (hidle : w.running = [])
    (hready : w.ready ≠ []) (hworkers : settings.topology.workers ≠ []) : AtRest w.policy := by
  have hbooks := h.books
  rw [hidle] at hbooks
  obtain ⟨hinflight, hfree⟩ := hbooks.idle
  refine ⟨List.filter_eq_self.mpr fun rank _ => hfree [rank], h.workers ▸ hworkers, ?_,
    fun entry hmem => (h.head_of_mem hsound hmem).2.2.2, fun requestId => ⟨head_of_active hinflight, ?_⟩⟩
  · -- The queue of a ready task has a head.
    obtain ⟨task, hmem⟩ := List.exists_mem_of_ne_nil _ hready
    have hqueue := h.books.mem_ready_iff.mp hmem
    cases hhead : (w.policy.queues.queue task.requestId).head? with
    | none => simp [List.head?_eq_none_iff.mp hhead] at hqueue
    | some head => exact List.ne_nil_of_mem (mem_readyHeads.mpr ⟨hinflight _, hhead⟩)
  · rintro ⟨task, hmem, hdit⟩
    exact h.active_of_head hsound hidle hmem hdit

-- ---------------------------------------------------------------------------
-- Taking tasks
-- ---------------------------------------------------------------------------

theorem mem_freeRankSet {state : State} {rank : Rank} (h : rank ∈ freeRankSet state) :
    Counter.count state.queues.accounts.outstandingPerRank rank = 0 := by
  have hfree := List.of_mem_filter h
  simp only [RankAccounts.canDispatchRanks, List.all_cons, List.all_nil, Bool.and_true,
    Bool.and_eq_true, Bool.not_eq_true', decide_eq_false_iff_not, Nat.not_lt,
    Nat.le_zero] at hfree
  exact hfree.1

section Handing

variable {placed : List Assignment} {next : State} {left : List Rank}

theorem heads_of_items (hitems : (placed.map itemOf).Subperm (readyHeads w.policy)) :
    ∀ p ∈ placed, w.policy.queues.inflight p.requestId = 0 ∧
      (w.policy.queues.queue p.requestId).head? = some p.task := fun _ hmem =>
  mem_readyHeads.mp (hitems.subset (List.mem_map_of_mem (f := itemOf) hmem))

theorem distinct_of_items (hitems : (placed.map itemOf).Subperm (readyHeads w.policy)) :
    (placed.map (·.requestId)).Nodup := by
  obtain ⟨items, hperm, hsub⟩ := hitems
  have hids := (hperm.map Prod.fst).nodup_iff.mp ((readyHeads_nodup w.policy).sublist (hsub.map _))
  simpa [itemOf, Function.comp_def] using hids

theorem Tracks.ready_of_items (h : Tracks settings w)
    (hitems : (placed.map itemOf).Subperm (readyHeads w.policy)) :
    ∀ p ∈ placed, p.task ∈ w.ready ∧ p.task.requestId = p.requestId := fun p hmem =>
  h.books.mem_ready_of_queue (List.mem_of_mem_head? (heads_of_items hitems p hmem).2)

/-- What is given out changes the queues and the tasks in flight only. -/
theorem Handed.next_eq {state : State} {free : List Rank}
    (h : Handed state free placed next left) :
    next.queues = placed.foldl RequestQueues.dispatch state.queues ∧
      next.inflightTask = state.inflightTask.insertAll (placed.map itemOf) ∧
      next.requestMeta = state.requestMeta ∧ next.completedSteps = state.completedSteps := by
  rw [h.state_eq, givenOut, foldl_dispatch, Dict.insertAll, List.foldl_map]
  exact ⟨rfl, rfl, rfl, rfl⟩

theorem Handed.placed_nodup {state : State}
    (h : Handed state (freeRankSet state) placed next left) :
    (placed.flatMap (·.ranks)).Nodup :=
  (List.nodup_append.mp (h.drawn.nodup_iff.mpr (freeRankSet_drawable state).nodup)).1

theorem Handed.ranks_eq
    (hhanded : Handed w.policy (freeRankSet w.policy) placed next left)
    (hitems : (placed.map itemOf).Subperm (readyHeads w.policy)) :
    next.queues.accounts.dispatchedRanksByTask =
      w.policy.queues.accounts.dispatchedRanksByTask.insertAll
        (placed.map fun p => (p.task.taskId, p.ranks)) := by
  rw [hhanded.next_eq.1]
  exact (RequestQueues.dispatched_eq (distinct_of_items hitems) fun p hmem =>
    (heads_of_items hitems p hmem).2).1

/-- The ranks noted for running tasks stay. -/
theorem Tracks.ranks_kept (hsound : Driver.Sound w) (h : Tracks settings w)
    (hhanded : Handed w.policy (freeRankSet w.policy) placed next left)
    (hitems : (placed.map itemOf).Subperm (readyHeads w.policy)) :
    ∀ dispatch ∈ w.running,
      next.queues.accounts.dispatchedRanksByTask.get? dispatch.task.taskId =
        w.policy.queues.accounts.dispatchedRanksByTask.get? dispatch.task.taskId := by
  intro dispatch hmem
  rw [hhanded.ranks_eq hitems]
  refine Dict.get?_insertAll_of_not_mem fun ranks hin => ?_
  obtain ⟨p, hp, heq⟩ := List.mem_map.mp hin
  refine hsound.fresh_of_ready (h.ready_of_items hitems p hp).1
    (List.mem_map.mpr ⟨dispatch, hmem, ?_⟩)
  exact (Prod.mk.inj heq).1.symm

/-- The new tasks get theirs. -/
theorem Tracks.ranks_noted (hsound : Driver.Sound w) (h : Tracks settings w)
    (hhanded : Handed w.policy (freeRankSet w.policy) placed next left)
    (hitems : (placed.map itemOf).Subperm (readyHeads w.policy)) :
    ∀ p ∈ placed,
      next.queues.accounts.dispatchedRanksByTask.get? p.task.taskId = some p.ranks := by
  have hready := h.ready_of_items hitems
  intro p hp
  rw [hhanded.ranks_eq hitems]
  refine Dict.get?_insertAll_of_mem (List.mem_map_of_mem hp) fun ranks hin => ?_
  obtain ⟨q, hq, heq⟩ := List.mem_map.mp hin
  obtain ⟨hid, rfl⟩ := Prod.mk.inj heq
  have htask := hsound.eq_of_taskId (hsound.planned _ (List.mem_append_left _ (hready q hq).1))
    (hsound.planned _ (List.mem_append_left _ (hready p hp).1)) hid
  have hsame : q = p := by
    refine List.inj_on_of_nodup_map (distinct_of_items hitems) hq hp ?_
    rw [← (hready p hp).2, ← (hready q hq).2, htask]
  rw [hsame]

theorem Tracks.inflightTask_handed (h : Tracks settings w)
    (hhanded : Handed w.policy (freeRankSet w.policy) placed next left)
    (hitems : (placed.map itemOf).Subperm (readyHeads w.policy)) {requestId : String}
    {task : InferenceTask} (hget : next.inflightTask.get? requestId = some task) :
    ∃ dispatch ∈ w.running ++ placed.map Assignment.toDispatch,
      dispatch.task = task ∧ task.requestId = requestId := by
  have hdistinct := distinct_of_items hitems
  rw [hhanded.next_eq.2.1] at hget
  by_cases hin : ∃ p ∈ placed, p.requestId = requestId
  · obtain ⟨p, hp, rfl⟩ := hin
    have hown := Dict.get?_insertAll_of_mem (d := w.policy.inflightTask)
      (List.mem_map_of_mem (f := itemOf) hp) fun other hother => by
        obtain ⟨q, hq, heq⟩ := List.mem_map.mp hother
        obtain ⟨hid, rfl⟩ := Prod.mk.inj heq
        rw [List.inj_on_of_nodup_map hdistinct hq hp hid]
    cases hget.symm.trans hown
    exact ⟨p.toDispatch, List.mem_append_right _ (List.mem_map_of_mem hp), rfl,
      (h.ready_of_items hitems p hp).2⟩
  · rw [Dict.get?_insertAll_of_not_mem fun other hother => hin (by
      obtain ⟨q, hq, heq⟩ := List.mem_map.mp hother
      exact ⟨q, hq, (Prod.mk.inj heq).1⟩)] at hget
    obtain ⟨dispatch, hmem, hfacts⟩ := h.inflightTask requestId task hget
    exact ⟨dispatch, List.mem_append_left _ hmem, hfacts⟩

/-- A rank that is given out was free, and is given out once. -/
theorem Tracks.exclusive_handed (hsound : Driver.Sound w) (h : Tracks settings w)
    (hhanded : Handed w.policy (freeRankSet w.policy) placed next left)
    (hitems : (placed.map itemOf).Subperm (readyHeads w.policy)) (rank : Rank) :
    Counter.count next.queues.accounts.outstandingPerRank rank ≤ 1 := by
  have hclaimed := (h.books.dispatched hsound (distinct_of_items hitems)
    (fun p hmem => (heads_of_items hitems p hmem).2) next).2.claimed rank
  rw [← hhanded.next_eq.1] at hclaimed
  have hbefore : (w.running.map fun dispatch =>
      (next.queues.accounts.dispatchedRanksByTask.getD dispatch.task.taskId []).count rank).sum =
        Counter.count w.policy.queues.accounts.outstandingPerRank rank := by
    rw [h.books.claimed]
    refine congrArg List.sum (List.map_congr_left fun dispatch hmem => ?_)
    rw [Dict.getD, Dict.getD, h.ranks_kept hsound hhanded hitems dispatch hmem]
  have hadded : ((placed.map Assignment.toDispatch).map fun dispatch =>
      (next.queues.accounts.dispatchedRanksByTask.getD dispatch.task.taskId []).count rank).sum =
        (placed.flatMap (·.ranks)).count rank := by
    rw [List.count_flatMap, List.map_map]
    refine congrArg List.sum (List.map_congr_left fun p hp => ?_)
    simp only [Function.comp_apply, Assignment.toDispatch,
      Dict.getD_of_get? (h.ranks_noted hsound hhanded hitems p hp)]
  refine hclaimed.trans_le ?_
  rw [show (w.settle (placed.map Assignment.toDispatch) next).running =
    w.running ++ placed.map Assignment.toDispatch from rfl, List.map_append, List.sum_append,
    hbefore, hadded]
  by_cases hin : rank ∈ placed.flatMap (·.ranks)
  · have hfree := mem_freeRankSet (hhanded.drawn.mem_iff.mp (List.mem_append_left _ hin))
    rw [hfree, Nat.zero_add]
    exact List.nodup_iff_count_le_one.mp hhanded.placed_nodup rank
  · rw [List.count_eq_zero_of_not_mem hin, Nat.add_zero]
    exact h.exclusive rank

/-- A request with a task running gets no other. -/
theorem Tracks.alone_handed (h : Tracks settings w)
    (hitems : (placed.map itemOf).Subperm (readyHeads w.policy)) :
    ((w.running ++ placed.map Assignment.toDispatch).map (·.task.requestId)).Nodup := by
  have hready := h.ready_of_items hitems
  rw [List.map_append]
  refine h.alone.append ?_ fun requestId hold hfresh => ?_
  · rw [List.map_map, show (placed.map ((·.task.requestId) ∘ Assignment.toDispatch)) =
      placed.map (·.requestId) from List.map_congr_left fun p hp => (hready p hp).2]
    exact distinct_of_items hitems
  · obtain ⟨dispatch, hmem, rfl⟩ := List.mem_map.mp hold
    obtain ⟨other, hother, heq⟩ := List.mem_map.mp hfresh
    obtain ⟨p, hp, rfl⟩ := List.mem_map.mp hother
    have hzero := (heads_of_items hitems p hp).1
    rw [h.books.inflight, List.countP_eq_zero] at hzero
    exact hzero dispatch hmem (decide_eq_true (heq.symm.trans (hready p hp).2))

/-- What a call gives out keeps track. -/
theorem Tracks.handed (hsound : Driver.Sound w) (h : Tracks settings w)
    (hhanded : Handed w.policy (freeRankSet w.policy) placed next left)
    (hitems : (placed.map itemOf).Subperm (readyHeads w.policy)) :
    Driver.Sound (w.settle (placed.map Assignment.toDispatch) next) ∧
      Tracks settings (w.settle (placed.map Assignment.toDispatch) next) := by
  have hheads := fun p hmem => (heads_of_items hitems p hmem).2
  obtain ⟨hsettled, hbooks⟩ := h.books.dispatched hsound (distinct_of_items hitems) hheads next
  obtain ⟨hqueues, -, hmeta, hsteps⟩ := hhanded.next_eq
  refine ⟨hsettled, ?_, h.started.settle _ next, h.simPlans, ?_, ?_, ?_, ?_, ?_, hhanded.equipped,
    ?_, hhanded.lastDistinct h.lastDistinct, ?_, h.alone_handed hitems⟩
  · exact hqueues ▸ hbooks
  · exact hmeta.symm ▸ h.metas
  · have hentries : next.queues.taskIndex = w.policy.queues.taskIndex := by
      rw [hqueues, (RequestQueues.dispatched_eq (distinct_of_items hitems) hheads).2]
    exact hentries.symm ▸ h.indexed
  · exact fun requestId task => h.inflightTask_handed hhanded hitems
  · exact hsteps.symm ▸ h.completed
  · exact hhanded.grown.workers.trans h.workers
  · intro dispatch hmem
    rcases List.mem_append.mp hmem with hmem | hmem
    · obtain ⟨group, hfind, hnodup, hget⟩ := h.placed dispatch hmem
      exact ⟨group, hhanded.grown.find hfind, hnodup,
        (h.ranks_kept hsound hhanded hitems dispatch hmem).trans hget⟩
    · obtain ⟨p, hp, rfl⟩ := List.mem_map.mp hmem
      obtain ⟨group, hfind, hexact⟩ := hhanded.grouped p hp
      refine ⟨group, hfind, ?_, hexact ▸ h.ranks_noted hsound hhanded hitems p hp⟩
      rw [hexact]
      exact (List.nodup_flatMap.mp hhanded.placed_nodup).1 p hp
  · exact h.exclusive_handed hsound hhanded hitems

end Handing

-- ---------------------------------------------------------------------------
-- Calls
-- ---------------------------------------------------------------------------

theorem indexed_insertAll {known tasks : List InferenceTask} {entries : Dict String InferenceTask}
    (h : ∀ task ∈ known, entries.get? task.taskId = some task)
    (hsame : ∀ a ∈ known ++ tasks, ∀ b ∈ known ++ tasks, a.taskId = b.taskId → a = b) :
    ∀ task ∈ known ++ tasks,
      (entries.insertAll (tasks.map fun task => (task.taskId, task))).get? task.taskId =
        some task := by
  intro task hmem
  by_cases hin : task ∈ tasks
  · refine Dict.get?_insertAll_of_mem (List.mem_map_of_mem hin) fun other hother => ?_
    obtain ⟨filed, hfiled, heq⟩ := List.mem_map.mp hother
    obtain ⟨hid, rfl⟩ := Prod.mk.inj heq
    exact hsame filed (List.mem_append_right _ hfiled) task hmem hid
  · rw [Dict.get?_insertAll_of_not_mem fun other hother => hin ?_]
    · exact h task ((List.mem_append.mp hmem).resolve_right hin)
    · obtain ⟨filed, hfiled, heq⟩ := List.mem_map.mp hother
      rw [← hsame filed (List.mem_append_right _ hfiled) task hmem (Prod.mk.inj heq).1]
      exact hfiled

theorem Tracks.enqueue (hsound : Driver.Sound w) (h : Tracks settings w)
    {tasks : List InferenceTask} (htasks : ∀ task ∈ tasks, task ∈ w.tasks) :
    Tracks settings { w with
      ready := w.ready ++ tasks
      policy := { w.policy with
        queues := tasks.foldl RequestQueues.enqueue w.policy.queues } } := by
  have hindex := RequestQueues.taskIndex_enqueue tasks w.policy.queues
  have hbooks := h.books.enqueueAll tasks
  obtain ⟨entries, queues, heq, -⟩ := RequestQueues.enqueueAll_eq tasks w.policy.queues
  have hindexed : ∀ task ∈ w.tasks,
      (tasks.foldl RequestQueues.enqueue w.policy.queues).taskIndex.get? task.taskId =
        some task := by
    rw [hindex]
    have hknown : ∀ task ∈ w.tasks ++ tasks, task ∈ w.tasks := fun task hmem =>
      (List.mem_append.mp hmem).elim id (htasks task)
    exact fun task hmem => indexed_insertAll h.indexed (fun a ha b hb =>
      hsound.eq_of_taskId (hknown a ha) (hknown b hb)) task (List.mem_append_left _ hmem)
  rw [heq] at hbooks hindexed ⊢
  exact ⟨hbooks, h.started, h.simPlans, h.metas, hindexed, h.inflightTask, h.completed, h.workers,
    h.equipped, h.placed, h.lastDistinct, h.exclusive, h.alone⟩

theorem Tracks.note_submit (hsound : Driver.Sound w) (h : Tracks settings w)
    {plan : RequestExecutionPlan} (henabled : Enabled w (.submit plan))
    (hsim : ∃ request, SimPlan request plan) :
    Tracks settings { note w (.submit plan) with policy := noteSubmitted plan w.policy } := by
  have hnoted := hsound.note henabled
  have htasks : (note w (.submit plan)).tasks = w.tasks ++ plan.tasks.values := by
    simp [note, Driver.World.tasks]
  have hearlier : ∀ task ∈ w.tasks, task ∈ (note w (.submit plan)).tasks := fun task hmem =>
    htasks ▸ List.mem_append_left _ hmem
  have hbooks := h.books.submit plan.tasks.values
  have hindexed : ∀ task ∈ w.tasks ++ plan.tasks.values,
      (w.policy.queues.submit plan.tasks.values).taskIndex.get? task.taskId = some task := by
    have hsame : ∀ a ∈ w.tasks ++ plan.tasks.values, ∀ b ∈ w.tasks ++ plan.tasks.values,
        a.taskId = b.taskId → a = b := fun a ha b hb =>
      hnoted.eq_of_taskId (htasks ▸ ha) (htasks ▸ hb)
    have hall := indexed_insertAll h.indexed hsame
    rw [← RequestQueues.taskIndex_index] at hall
    rw [RequestQueues.submit, RequestQueues.taskIndex_enqueue]
    have hknown : ∀ task ∈ w.tasks ++ plan.tasks.values ++
        plan.tasks.values.filter (fun task => decide (task.dependencies = [])),
        task ∈ w.tasks ++ plan.tasks.values := fun task hmem =>
      (List.mem_append.mp hmem).elim id fun hroot =>
        List.mem_append_right _ (List.mem_of_mem_filter hroot)
    exact fun task hmem => indexed_insertAll hall (fun a ha b hb =>
      hsame a (hknown a ha) b (hknown b hb)) task (List.mem_append_left _ hmem)
  obtain ⟨entries, queues, heq⟩ :=
    RequestQueues.submit_eq plan.tasks.values w.policy.queues
  unfold noteSubmitted
  rw [heq] at hbooks hindexed ⊢
  refine ⟨hbooks, h.started, fun other hother => ?_, fun other hother hopen => ?_, ?_,
    h.inflightTask, fun requestId steps hget => ?_, h.workers, h.equipped, h.placed,
    h.lastDistinct, h.exclusive, h.alone⟩
  · rcases List.mem_append.mp hother with hother | hother
    · exact h.simPlans other hother
    · rw [List.mem_singleton.mp hother]
      exact hsim
  · simp only [Dict.get?_set]
    split
    · next hid =>
      rcases List.mem_append.mp hother with hother | hother
      · exact absurd (hid ▸ List.mem_map_of_mem hother) henabled.2.1
      · rw [List.mem_singleton.mp hother]
        exact ⟨_, rfl⟩
    · next hne =>
      rcases List.mem_append.mp hother with hother | hother
      · exact h.metas other hother hopen
      · exact absurd (congrArg _ (List.mem_singleton.mp hother).symm) hne
  · intro task hmem
    refine hindexed task ?_
    rw [← htasks]
    exact hmem
  · obtain ⟨task, hmem, hfacts⟩ := h.completed requestId steps hget
    exact ⟨task, hearlier task hmem, hfacts⟩

theorem Tracks.withClock (h : Tracks settings w) (nowMs : WithTop ℚ) (finished : List String) :
    Tracks settings { w with policy := { w.policy with nowMs, finished } } :=
  ⟨h.books, h.started, h.simPlans, h.metas, h.indexed, h.inflightTask, h.completed, h.workers,
    h.equipped, h.placed, h.lastDistinct, h.exclusive, h.alone⟩

theorem Tracks.release (hsound : Driver.Sound w) (h : Tracks settings w) {dispatch : Dispatch}
    {event : WorkerEvent} (henabled : Enabled w (.finish dispatch event)) :
    Tracks settings { note w (.finish dispatch event) with
      policy := releaseDispatchedTask event w.policy } := by
  have hstarted := h.started.note henabled
  obtain ⟨hmem, -, -, htask, hrequest, hgroup⟩ := henabled
  have hknown : dispatch.task ∈ w.tasks :=
    hsound.planned _ (List.mem_append_right _ (List.mem_map_of_mem hmem))
  have hrunning : ∀ other ∈ w.running.erase dispatch, other ∈ w.running :=
    fun other hother => List.mem_of_mem_erase hother
  have hother : ∀ other ∈ w.running.erase dispatch, dispatch.task.taskId ≠ other.task.taskId := by
    have hnodup := ((List.perm_cons_erase hmem).map (·.task.taskId)).nodup_iff.mp
      hsound.runningIds_nodup
    exact fun other hother heq =>
      (List.nodup_cons.mp hnodup).1 (List.mem_map.mpr ⟨other, hother, heq.symm⟩)
  have hrelease : w.policy.queues.accounts.releaseDispatchedTask event.taskId =
      w.policy.queues.accounts.releaseOrdinary dispatch.task.taskId dispatch.groupId := by
    rw [htask, RankAccounts.releaseDispatchedTask, h.books.entered dispatch hmem]
  refine ⟨h.books.release hsound.runningIds_nodup hmem htask hrequest, hstarted, h.simPlans,
    h.metas, h.indexed, fun requestId task hget => ?_, fun requestId steps hget => ?_, h.workers,
    h.equipped, fun other hin => ?_, fun requestId groupId hget => ?_, fun rank => ?_, ?_⟩
  · simp only [releaseDispatchedTask, Dict.get?_erase] at hget
    split at hget
    · cases hget
    · next hne =>
      obtain ⟨other, hother, rfl, hid⟩ := h.inflightTask requestId task hget
      refine ⟨other, (List.mem_erase_of_ne fun heq => hne ?_).mpr hother, rfl, hid⟩
      rw [hrequest, ← heq, hid]
  · have hold : ∀ requestId steps, w.policy.completedSteps.get? requestId = some steps →
        ∃ task ∈ w.tasks, task.requestId = requestId ∧
          task.taskId ∈ dispatch.task.taskId :: w.ended ∧
          ∃ range, task.stepRange = some range ∧ range.stop = steps := by
      intro requestId steps hget
      obtain ⟨task, hin, hid, hended, hrange⟩ := h.completed requestId steps hget
      exact ⟨task, hin, hid, List.mem_cons_of_mem _ hended, hrange⟩
    simp only [releaseDispatchedTask, htask, h.indexed _ hknown] at hget
    split at hget
    · next range hrange =>
      obtain ⟨ended, hfilter, hrange⟩ := Option.bind_eq_some_iff.mp hrange
      obtain rfl := Option.some.inj (Option.filter_eq_some_iff.mp hfilter).1
      rw [Dict.get?_set] at hget
      split at hget
      · next hid =>
        subst hid
        -- The steps are those of this chunk or the ones noted before.
        rcases le_total (w.policy.completedSteps.getD event.requestId 0) range.stop with hle | hle
        · rw [max_eq_right hle] at hget
          exact ⟨dispatch.task, hknown, hrequest.symm, List.mem_cons_self .., range, hrange,
            Option.some.inj hget⟩
        · rw [max_eq_left hle] at hget
          cases hbefore : w.policy.completedSteps.get? event.requestId with
          | none =>
            have := range.nonempty
            rw [Dict.getD_of_none hbefore] at hle
            omega
          | some before =>
            rw [Dict.getD_of_get? hbefore] at hget
            exact Option.some.inj hget ▸ hold _ _ hbefore
      · exact hold requestId steps hget
    · exact hold requestId steps hget
  · obtain ⟨group, hfind, hnodup, hget⟩ := h.placed other (hrunning other hin)
    refine ⟨group, hfind, hnodup, ?_⟩
    rw [← hget]
    refine (congrArg (fun a : RankAccounts => a.dispatchedRanksByTask.get? other.task.taskId)
      hrelease).trans ?_
    exact Dict.get?_erase_ne _ (hother other hin)
  · simp only [releaseDispatchedTask, RequestQueues.release] at hget
    split at hget
    · exact h.lastDistinct requestId groupId hget
    · rw [Dict.get?_set] at hget
      split at hget
      · obtain ⟨group, hfind, hnodup, -⟩ := h.placed dispatch hmem
        exact ⟨group, Option.some.inj hget ▸ hgroup ▸ hfind, hnodup⟩
      · exact h.lastDistinct requestId groupId hget
  · have hdrop := Counter.count_dropAll w.policy.queues.accounts.outstandingPerRank
      (w.policy.queues.accounts.dispatchedRanksByTask.getD dispatch.task.taskId []) rank
    have hafter := congrArg (fun a : RankAccounts => Counter.count a.outstandingPerRank rank)
      hrelease
    exact (hafter.trans hdrop).trans_le ((Nat.sub_le ..).trans (h.exclusive rank))
  · exact h.alone.sublist (List.erase_sublist.map _)

theorem Tracks.note_close (hsound : Driver.Sound w) (h : Tracks settings w)
    {plan : RequestExecutionPlan} {event : WorkerEvent}
    (henabled : Enabled w (.close plan event)) :
    Tracks settings { note w (.close plan event) with
      policy := dropRequest plan.requestId w.policy } := by
  have hnone := fun task => @Driver.Sound.none_of_close _ w hsound plan event henabled task
  refine ⟨h.books.drop fun task => hnone task, h.started, h.simPlans,
    fun other hother hopen => ?_, h.indexed, fun requestId task hget => ?_,
    fun requestId steps hget => ?_, h.workers, h.equipped, h.placed,
    fun requestId groupId hget => ?_, h.exclusive, h.alone⟩
  · have hne : plan.requestId ≠ other.requestId := fun heq => hopen (heq ▸ List.mem_cons_self ..)
    obtain ⟨order, hmeta⟩ := h.metas other hother fun hclosed =>
      hopen (List.mem_cons_of_mem _ hclosed)
    exact ⟨order, (Dict.get?_erase_ne _ hne).trans hmeta⟩
  · simp only [dropRequest, Dict.get?_erase] at hget
    split at hget
    · cases hget
    · exact h.inflightTask requestId task hget
  · simp only [dropRequest, Dict.get?_erase] at hget
    split at hget
    · cases hget
    · exact h.completed requestId steps hget
  · simp only [dropRequest, RequestQueues.drop, Dict.get?_erase] at hget
    split at hget
    · cases hget
    · exact h.lastDistinct requestId groupId hget

def SimCalls (_ : Driver.World State) (call : Call) : Prop :=
  ∀ plan, call = .submitted plan → ∃ request, SimPlan request plan

theorem Tracks.note (hsound : Driver.Sound w) (h : Tracks settings w) {action : Action}
    (henabled : Enabled w action) {call : Call} (hcall : callOf w action = some call)
    (hsim : SimCalls (note w action) call) :
    Tracks settings { note w action with policy := noteCall call w.policy } := by
  cases action with
  | submit plan =>
    obtain rfl := Option.some.inj hcall
    exact h.note_submit hsound henabled (hsim plan rfl)
  | launch dispatch =>
    have hstarted := h.started.note henabled
    simp only [callOf] at hcall
    split at hcall
    · cases hcall
    · obtain rfl := Option.some.inj hcall
      have hunlocked : ∀ task ∈ w.unlocked dispatch.task.taskId, task ∈ w.tasks :=
        fun task hmem => List.mem_of_mem_filter hmem
      exact { h.enqueue hsound hunlocked with started := hstarted }
  | report event =>
    obtain rfl := Option.some.inj hcall
    simp only [noteCall, noteEvent, henabled.1, henabled.2, Bool.false_eq_true, if_false]
    exact h.withClock _ _
  | poll =>
    obtain rfl := Option.some.inj hcall
    exact h
  | finish dispatch event =>
    obtain rfl := Option.some.inj hcall
    have hkind := henabled.2.2.1
    simp only [noteCall, noteEvent, hkind, WorkerEventKind.endsTask, WorkerEventKind.endsRequest]
    exact (h.withClock _ _).release (hsound.withPolicy _) henabled
  | close plan event =>
    obtain rfl := Option.some.inj hcall
    have hkind := henabled.2.2.2.1
    have hid := henabled.2.2.2.2
    simp only [noteCall, noteEvent, hkind, hid, WorkerEventKind.endsTask,
      WorkerEventKind.endsRequest]
    exact (h.withClock _ _).note_close (hsound.withPolicy _) henabled

theorem Tracks.quiet (h : Tracks settings w) {action : Action} (henabled : Enabled w action)
    (hcall : callOf w action = none) : Tracks settings (Driver.note w action) := by
  cases action with
  | launch dispatch =>
    have hstarted := h.started.note henabled
    simp only [callOf] at hcall
    split at hcall
    · next hnone =>
      refine { h with started := hstarted, books := ?_ }
      simp only [Driver.note, hnone, List.append_nil]
      exact h.books
    · cases hcall
  | _ => cases hcall

-- ---------------------------------------------------------------------------
-- Runs
-- ---------------------------------------------------------------------------

/-- Something runs or nothing is ready. -/
def Going (w : Driver.World State) : Prop := w.running ≠ [] ∨ w.ready = []

/-- A call succeeds, keeps track and leaves no stall. -/
theorem call_ok (hsound : Driver.Sound w) (h : Tracks settings w)
    (hworkers : settings.topology.workers ≠ []) {action : Action} (henabled : Enabled w action)
    {call : Call} (hcall : callOf w action = some call) (hsim : SimCalls (note w action) call) :
    ∃ out next, handle settings call w.policy = .ok (out, next) ∧
      Driver.Sound ((note w action).settle out next) ∧
      Tracks settings ((note w action).settle out next) ∧
      Going ((note w action).settle out next) := by
  have htracks := h.note hsound henabled hcall hsim
  have hnoted : Driver.Sound { note w action with policy := noteCall call w.policy } :=
    (hsound.note henabled).withPolicy _
  obtain ⟨placed, next, left, hok, hhanded, hitems, hsome⟩ := take_ok htracks.equipped
    htracks.lastDistinct (fun entry hmem => (htracks.head_of_mem hnoted hmem).2.2.1)
    htracks.workers
  obtain ⟨hsettled, hsettled'⟩ := htracks.handed hnoted hhanded hitems
  refine ⟨_, _, hok, hsettled, hsettled', ?_⟩
  by_cases hrunning : (note w action).running = []
  · by_cases hready : (note w action).ready = []
    · exact .inr (by simp [Driver.World.settle, hready])
    · have hplaced := hsome (htracks.atRest hnoted hrunning hready hworkers)
      exact .inl fun hnone => hplaced (List.map_eq_nil_iff.mp (List.append_eq_nil_iff.mp hnone).2)
  · exact .inl fun hnone => hrunning (List.append_eq_nil_iff.mp hnone).1

theorem run_tracks (hequipped : Equipped settings.topology)
    (hworkers : settings.topology.workers ≠ [])
    (hrun : Driver.Run (handle settings) SimCalls (.init settings) w) :
    Driver.Sound w ∧ Tracks settings w ∧ Going w := by
  induction hrun with
  | start => exact ⟨.start _, .start hequipped, .inr rfl⟩
  | @quiet w action _ henabled hcall ih =>
    refine ⟨ih.1.note henabled, ih.2.1.quiet henabled hcall, ?_⟩
    cases action with
    | launch dispatch => exact .inl (List.ne_nil_of_mem henabled.1)
    | _ => cases hcall
  | call _ henabled hcall hsim hok ih =>
    obtain ⟨out, next, hok', hsound, htracks, hgoing⟩ :=
      call_ok ih.1 ih.2.1 hworkers henabled hcall hsim
    cases hok.symm.trans hok'
    exact ⟨hsound, htracks, hgoing⟩

theorem Tracks.ranks_disjoint (h : Tracks settings w) {a b : Dispatch} (ha : a ∈ w.running)
    (hb : b ∈ w.running) (hne : a ≠ b) {ga gb : ExecutionGroupSpec}
    (hga : w.policy.topology.find a.groupId = some ga)
    (hgb : w.policy.topology.find b.groupId = some gb) : ∀ rank ∈ ga.ranks, rank ∉ gb.ranks := by
  intro rank hina hinb
  obtain ⟨group, hfind, -, hranks⟩ := h.placed a ha
  cases hfind.symm.trans hga
  obtain ⟨group', hfind', -, hranks'⟩ := h.placed b hb
  cases hfind'.symm.trans hgb
  have hclaimed := h.books.claimed rank
  have hb' : b ∈ w.running.erase a := (List.mem_erase_of_ne hne.symm).mpr hb
  have hperm := (List.perm_cons_erase ha).trans ((List.perm_cons_erase hb').cons a)
  rw [(hperm.map _).sum_eq, List.map_cons, List.map_cons, List.sum_cons, List.sum_cons,
    Dict.getD_of_get? hranks, Dict.getD_of_get? hranks'] at hclaimed
  have hexclusive := h.exclusive rank
  have hcounta := List.count_pos_iff.mpr hina
  have hcountb := List.count_pos_iff.mpr hinb
  omega

/-- Driven with simulated requests, whatever the order of launches, ends and
polls, the policy never fails and nothing stalls, and when nothing is left to
happen every request is finished; a request has one task in flight at most,
and two running tasks have no rank in common. The topology has a one-rank
group for every worker, and no group has a name made on demand unless its
ranks are served. -/
theorem continuous_runs (settings : Settings) (hequipped : Equipped settings.topology)
    (hworkers : settings.topology.workers ≠ [])
    (hrun : Driver.Run (handle settings) SimCalls (.init settings) w) :
    (w.running ≠ [] ∨ w.ready = []) ∧
    (Driver.Stuck w → ∀ plan ∈ w.known, plan.requestId ∈ w.closed) ∧
    (w.running.map (·.task.requestId)).Nodup ∧
    (∀ a ∈ w.running, ∃ ga, w.policy.topology.find a.groupId = some ga ∧ ga.ranks.Nodup ∧
      ∀ b ∈ w.running, a ≠ b → ∀ gb, w.policy.topology.find b.groupId = some gb →
        ∀ rank ∈ ga.ranks, rank ∉ gb.ranks) ∧
    ∀ action, Enabled w action → ∀ call, callOf w action = some call →
      SimCalls (note w action) call →
        ∃ out next, handle settings call w.policy = .ok (out, next) := by
  obtain ⟨hsound, htracks, hgoing⟩ := run_tracks hequipped hworkers hrun
  refine ⟨hgoing, fun hstuck => hsound.finished hstuck hgoing, htracks.alone, fun a ha => ?_,
    fun action henabled call hcall hsim => ?_⟩
  · obtain ⟨ga, hga, hnodup, -⟩ := htracks.placed a ha
    exact ⟨ga, hga, hnodup, fun b hb hne gb hgb => htracks.ranks_disjoint ha hb hne hga hgb⟩
  · obtain ⟨out, next, hok, -⟩ := call_ok hsound htracks hworkers henabled hcall hsim
    exact ⟨out, next, hok⟩

-- ---------------------------------------------------------------------------
-- Two workers
-- ---------------------------------------------------------------------------

theorem take_of_idle {state : State} {estimator : TaskRuntimeEstimator}
    (hest : settings.taskRuntimeEstimator = some estimator) (hready : readyHeads state = []) :
    takeDispatchableTasks settings state = .ok ([], state) := by
  simp [takeDispatchableTasks, hest, plannedTake, hready, takePinned, sortReady, takeAux, takeDit,
    pure, Except.pure]

theorem take_of_aux {state state' : State} {estimator : TaskRuntimeEstimator}
    {requestId groupId : String} {task : InferenceTask} {rank : Rank}
    (hest : settings.taskRuntimeEstimator = some estimator)
    (hready : readyHeads state = [(requestId, task)]) (hgroup : task.groupId = none)
    (hkind : task.kind ∈ singleRankTaskKinds) (hdit : task.kind ∉ ditTaskKinds)
    (hrank : (freeRankSet state).min? = some rank)
    (hensure : ensureGroup state [rank] standardTaskKinds = .ok (groupId, state')) :
    takeDispatchableTasks settings state =
      .ok ([⟨task, groupId⟩], dispatch state' ⟨task, requestId, groupId, [rank]⟩) := by
  simp [takeDispatchableTasks, hest, plannedTake, hready, takePinned, hgroup, hkind, hdit,
    sortReady, takeAux, takeDit, hrank, hensure, Assignment.toDispatch]

def pairTopology : RuntimeTopology :=
  ⟨[0, 1], [soloSpec "g0" 0 standardTaskKinds, soloSpec "g1" 1 standardTaskKinds], by decide,
    by decide, by decide⟩

def pairSettings : Settings where
  topology := pairTopology
  taskRuntimeEstimator := some fun spec _ _ => .ok (12 / spec.sp : ℚ)
  givenSpSizes := some [1, 2]
  allowedSpSizes := [2, 1]
  elasticScaleUp := true
  sizes_ok := by decide

theorem pairTopology_equipped : Equipped pairTopology := by
  refine ⟨fun rank hrank => ?_, OnDemand.Named.of_ids (by decide)⟩
  refine ⟨soloSpec s!"g{rank}" rank standardTaskKinds, ?_, rfl, rfl, rfl, rfl, fun _ h => h⟩
  rcases List.mem_pair.mp hrank with rfl | rfl <;> decide

def pairRequest (requestId : String) : SimRequest where
  requestId
  arrivalMs := 0
  height := 64
  width := 64
  numFrames := 1
  numSteps := 4
  denoiseChunkSize := 2
  textSeqLen := 8
  priority := 0
  groupId := none
  deadlineMs := none
  profiledOptimalLatencyMs := none
  requestClass := none
  doTrueCfg := none
  latentSeqLenOverride := none
  voxelsOverride := none

def pairPlan (requestId : String) : RequestExecutionPlan :=
  (buildPolicyPlan (fun _ _ => 1) (pairRequest requestId)).toOption.getD
    ⟨requestId, ∅, [], [], ∅⟩

def pairTask (requestId stage : String) : InferenceTask :=
  (pairPlan requestId).tasks.getD (requestId ++ stage)
    ⟨stage, requestId, .finalize, none, .ready, 0, [], [], [], none, ∅⟩

theorem simPlan_first : SimPlan (pairRequest "S") (pairPlan "S") := ⟨fun _ _ => 1, rfl⟩

theorem simPlan_second : SimPlan (pairRequest "T") (pairPlan "T") := ⟨fun _ _ => 1, rfl⟩

def firstTask : InferenceTask := pairTask "S" ":text_encode:0"

def secondTask : InferenceTask := pairTask "T" ":text_encode:0"

def prepareTask : InferenceTask := pairTask "S" ":dit_prepare:0"

def firstState : State :=
  dispatch (noteSubmitted (pairPlan "S") (.init pairSettings)) ⟨firstTask, "S", "g0", [0]⟩

def secondState : State :=
  dispatch (noteSubmitted (pairPlan "T") firstState) ⟨secondTask, "T", "g1", [1]⟩

def pairRunning : List Dispatch := [⟨firstTask, "g0"⟩, ⟨secondTask, "g1"⟩]

/-- Each of the two requests has a task on a worker of its own. -/
theorem pair_submitted : Driver.Run (handle pairSettings) SimCalls (.init pairSettings)
    ⟨secondState, [pairPlan "S", pairPlan "T"], [], [], pairRunning, [], []⟩ := by
  have hfirst : Driver.Run (handle pairSettings) SimCalls (.init pairSettings)
      ⟨firstState, [pairPlan "S"], [], [], [⟨firstTask, "g0"⟩], [], []⟩ := by
    have henabled : Enabled (.start (State.init pairSettings)) (.submit (pairPlan "S")) :=
      ⟨simPlan_first.wellFormed, List.not_mem_nil, fun _ _ => List.not_mem_nil⟩
    have htake : handle pairSettings (.submitted (pairPlan "S")) (.init pairSettings) =
        .ok ([⟨firstTask, "g0"⟩], firstState) :=
      take_of_aux rfl (by decide +kernel) rfl (by decide) (by decide) rfl rfl
    exact .call .start henabled rfl (by rintro _ ⟨⟩; exact ⟨_, simPlan_first⟩) htake
  have henabled : Enabled (⟨firstState, [pairPlan "S"], [], [], [⟨firstTask, "g0"⟩], [], []⟩ :
      Driver.World State) (.submit (pairPlan "T")) :=
    ⟨simPlan_second.wellFormed, by decide +kernel, by decide +kernel⟩
  have htake : handle pairSettings (.submitted (pairPlan "T")) firstState =
      .ok ([⟨secondTask, "g1"⟩], secondState) :=
    take_of_aux rfl (by decide +kernel) rfl (by decide) (by decide) rfl rfl
  exact .call hfirst henabled rfl (by rintro _ ⟨⟩; exact ⟨_, simPlan_second⟩) htake

def launchedWorld : Driver.World State :=
  ⟨noteCall (.runnable [prepareTask]) secondState, [pairPlan "S", pairPlan "T"], [],
    [prepareTask], pairRunning, ["S:text_encode:0"], []⟩

theorem pair_launched :
    Driver.Run (handle pairSettings) SimCalls (.init pairSettings) launchedWorld := by
  have henabled : Enabled (⟨secondState, [pairPlan "S", pairPlan "T"], [], [], pairRunning, [], []⟩ :
      Driver.World State) (.launch ⟨firstTask, "g0"⟩) :=
    ⟨List.mem_cons_self .., List.not_mem_nil⟩
  have htake : handle pairSettings (.runnable [prepareTask]) secondState =
      .ok ([], launchedWorld.policy) :=
    take_of_idle rfl (by decide +kernel)
  exact .call pair_submitted henabled rfl (by rintro _ ⟨⟩) htake

def firstDone : WorkerEvent := ⟨"S:text_encode:0", "S", "g0", .taskExecEnd, 1000000, "", []⟩

/-- While both requests have a task running, the end of the first one's is
answered. -/
theorem continuous_runs_pair : ∃ w : Driver.World State,
    w.running = pairRunning ∧ w.ready = [prepareTask] ∧
    (w.running.map (·.task.requestId)).Nodup ∧
    ∃ out next, handle pairSettings (.event firstDone) w.policy = .ok (out, next) := by
  obtain ⟨-, -, halone, -, hanswered⟩ :=
    continuous_runs pairSettings pairTopology_equipped (by decide) pair_launched
  have henabled : Enabled launchedWorld (.finish ⟨firstTask, "g0"⟩ firstDone) :=
    ⟨List.mem_cons_self .., List.mem_singleton_self _, rfl, rfl, rfl, rfl⟩
  exact ⟨launchedWorld, rfl, rfl, halone, hanswered _ henabled _ rfl (by rintro _ ⟨⟩)⟩

end Continuous

end GfDit
