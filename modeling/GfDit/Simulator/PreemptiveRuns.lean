import GfDit.Simulator.PreemptiveTakes

/-!
# The policy's state along a run

In a driven run the queues hold the ready tasks, the counters stand for the
running ones, and everything the policy looks up is there.
-/

namespace GfDit

namespace StepPreemptive

open Driver (Call Dispatch Action Enabled note callOf)

variable {settings : Settings} {state : State} {w : Driver.World State}

/-- The counters and entries of the policy stand for the running tasks. -/
structure InFlight (settings : Settings) (state : State) (running : List Dispatch) : Prop where
  inflight : ∀ requestId, Counter.count state.requestInflight requestId =
    running.countP fun dispatch => dispatch.task.requestId = requestId
  entered : ∀ dispatch ∈ running,
    state.accounts.dispatchedKind.get? dispatch.task.taskId = some dispatch.groupId
  claimed : ∀ rank, Counter.count state.accounts.outstandingPerRank rank =
    (running.map fun dispatch =>
      (state.accounts.dispatchedRanksByTask.getD dispatch.task.taskId []).count rank).sum
  unheld : ∀ rank, Counter.count state.accounts.reshardHoldsByRank rank = 0
  groups : ∀ dispatch ∈ running, (settings.topology.find dispatch.groupId).isSome

structure Tracks (settings : Settings) (w : Driver.World State) : Prop where
  filed : Filed w.policy
  queued : ∀ task, w.ready.count task =
    (w.policy.readyByRequest.getD task.requestId []).count task
  metas : ∀ plan ∈ w.known, plan.requestId ∉ w.closed →
    (w.policy.requestMeta.get? plan.requestId).isSome
  lastGroup : ∀ requestId groupId, w.policy.requestLastGroup.get? requestId = some groupId →
    (settings.topology.find groupId).isSome
  inFlight : InFlight settings w.policy w.running

theorem Tracks.start : Tracks settings (Driver.World.start .init) where
  filed := by
    intro requestId task hmem
    cases hmem
  queued := fun task => rfl
  metas := by
    rintro plan hmem
    cases hmem
  lastGroup := by
    rintro requestId groupId hget
    cases hget
  inFlight := ⟨fun _ => rfl, by rintro _ ⟨⟩, fun _ => rfl, fun _ => rfl, by rintro _ ⟨⟩⟩

theorem Tracks.mem_ready_iff (h : Tracks settings w) {task : InferenceTask} :
    task ∈ w.ready ↔ task ∈ w.policy.readyByRequest.getD task.requestId [] := by
  rw [← List.count_pos_iff, h.queued, List.count_pos_iff]

-- ---------------------------------------------------------------------------
-- Enqueueing
-- ---------------------------------------------------------------------------

theorem enqueueAll_eq (tasks : List InferenceTask) (state : State) : ∃ index queues,
    tasks.foldl enqueueReady state =
        { state with taskIndex := index, readyByRequest := queues } ∧
      ∀ requestId, queues.getD requestId [] = state.readyByRequest.getD requestId [] ++
        tasks.filter fun task => task.requestId = requestId := by
  induction tasks generalizing state with
  | nil => exact ⟨_, _, rfl, by simp⟩
  | cons task rest ih =>
    obtain ⟨index, queues, heq, hqueues⟩ := ih (enqueueReady state task)
    refine ⟨index, queues, heq, fun requestId => ?_⟩
    rw [hqueues, enqueueReady, Dict.getD_set, List.filter_cons]
    by_cases hid : task.requestId = requestId
    · subst hid
      simp
    · simp [hid]

theorem InFlight.congr {state' : State} {running : List Dispatch}
    (h : InFlight settings state running) (hinflight : state'.requestInflight = state.requestInflight)
    (haccounts : state'.accounts = state.accounts) : InFlight settings state' running := by
  refine ⟨fun requestId => ?_, ?_, fun rank => ?_, ?_, h.groups⟩
  · rw [hinflight, h.inflight]
  · rw [haccounts]
    exact h.entered
  · rw [haccounts, h.claimed]
  · rw [haccounts]
    exact h.unheld

theorem Tracks.enqueue (h : Tracks settings w) (tasks : List InferenceTask) :
    Tracks settings { w with
      ready := w.ready ++ tasks
      policy := tasks.foldl enqueueReady w.policy } := by
  obtain ⟨index, queues, heq, hqueues⟩ := enqueueAll_eq tasks w.policy
  rw [heq]
  refine ⟨fun requestId task hmem => ?_, fun task => ?_, h.metas, h.lastGroup,
    h.inFlight.congr rfl rfl⟩
  · simp only [hqueues] at hmem
    rcases List.mem_append.mp hmem with hmem | hmem
    · exact h.filed _ task hmem
    · simpa using (List.mem_filter.mp hmem).2
  · simp only [hqueues, List.count_append, h.queued]
    rw [List.count_filter (by simp)]

-- ---------------------------------------------------------------------------
-- Dispatching
-- ---------------------------------------------------------------------------

def takeOne (state : State) (candidate : ActionCandidate) : State :=
  let state := popReady state candidate.requestId
    (state.readyByRequest.getD candidate.requestId []).tail
  dispatchCandidate
    { state with pausedSinceMs := state.pausedSinceMs.erase candidate.requestId } candidate

def toDispatch (candidate : ActionCandidate) : Dispatch := ⟨candidate.task, candidate.groupId⟩

theorem getD_takeOne (state : State) (candidate : ActionCandidate) (requestId : String) :
    (takeOne state candidate).readyByRequest.getD requestId [] =
      if candidate.requestId = requestId then
        (state.readyByRequest.getD candidate.requestId []).tail
      else state.readyByRequest.getD requestId [] := by
  by_cases hid : candidate.requestId = requestId
  · subst hid
    simp only [takeOne, dispatchCandidate, popReady, if_true]
    split
    · next hnil => simp [Dict.getD_erase, hnil]
    · simp [Dict.getD_set]
  · rw [if_neg hid]
    exact getD_popReady_ne _ hid

theorem dispatchSelected_foldl {selected : List ActionCandidate}
    (hdistinct : (selected.map (·.requestId)).Nodup)
    (hheads : ∀ candidate ∈ selected,
      (state.readyByRequest.getD candidate.requestId []).head? = some candidate.task) :
    dispatchSelected state selected = (selected.map toDispatch, selected.foldl takeOne state) := by
  induction selected generalizing state with
  | nil => rfl
  | cons candidate selected ih =>
    obtain ⟨hfresh, hdistinct⟩ := List.nodup_cons.mp hdistinct
    obtain ⟨rest, hqueue⟩ := List.head?_eq_some_iff.mp (hheads candidate (List.mem_cons_self ..))
    have hlater := @ih (takeOne state candidate) hdistinct fun other hother => by
      rw [getD_takeOne, if_neg fun heq => hfresh (List.mem_map.mpr ⟨other, hother, heq.symm⟩)]
      exact hheads other (List.mem_cons_of_mem _ hother)
    have hone : takeOne state candidate = dispatchCandidate
        { popReady state candidate.requestId rest with
          pausedSinceMs := (popReady state candidate.requestId rest).pausedSinceMs.erase
            candidate.requestId } candidate := by
      simp only [takeOne, hqueue, List.tail_cons]
    rw [hone] at hlater
    simp only [dispatchSelected, hqueue, ne_eq, not_true_eq_false, if_false, hlater,
      List.map_cons, List.foldl_cons, hone]
    rfl

theorem InFlight.takeOne {running : List Dispatch} (h : InFlight settings state running)
    {candidate : ActionCandidate}
    (hfresh : candidate.task.taskId ∉ running.map (·.task.taskId))
    (hgroup : (settings.topology.find candidate.groupId).isSome) :
    InFlight settings (takeOne state candidate) (running ++ [toDispatch candidate]) := by
  have hother : ∀ dispatch ∈ running, candidate.task.taskId ≠ dispatch.task.taskId :=
    fun dispatch hmem heq => hfresh (List.mem_map.mpr ⟨dispatch, hmem, heq.symm⟩)
  refine ⟨fun requestId => ?_, fun dispatch hmem => ?_, fun rank => ?_, h.unheld,
    fun dispatch hmem => ?_⟩
  · have hraise := Counter.count_raise state.requestInflight candidate.task.requestId requestId
    rw [List.countP_append, ← h.inflight]
    simp only [List.countP_singleton, toDispatch, decide_eq_true_eq]
    exact hraise
  · rcases List.mem_append.mp hmem with hmem | hmem
    · exact (Dict.get?_set_ne _ (hother dispatch hmem) _).trans (h.entered dispatch hmem)
    · rw [List.mem_singleton.mp hmem]
      exact Dict.get?_set_self ..
  · have hsame : (running.map fun dispatch => ((StepPreemptive.takeOne state
          candidate).accounts.dispatchedRanksByTask.getD dispatch.task.taskId []).count rank) =
        running.map fun dispatch =>
          (state.accounts.dispatchedRanksByTask.getD dispatch.task.taskId []).count rank := by
      refine List.map_congr_left fun dispatch hmem => ?_
      refine congrArg (List.count rank) ((Dict.getD_set ..).trans ?_)
      exact if_neg (hother dispatch hmem)
    have hown : (StepPreemptive.takeOne state
        candidate).accounts.dispatchedRanksByTask.getD candidate.task.taskId [] =
          candidate.claimedRanks := (Dict.getD_set ..).trans (if_pos rfl)
    rw [List.map_append, List.sum_append, hsame, ← h.claimed]
    simp only [List.map_singleton, List.sum_singleton, toDispatch, hown]
    exact Counter.count_raiseAll ..
  · rcases List.mem_append.mp hmem with hmem | hmem
    · exact h.groups dispatch hmem
    · rw [List.mem_singleton.mp hmem]
      exact hgroup

theorem Tracks.takeOne (hsound : Driver.Sound w) (h : Tracks settings w)
    {candidate : ActionCandidate}
    (hhead : (w.policy.readyByRequest.getD candidate.requestId []).head? = some candidate.task)
    (hgroup : (settings.topology.find candidate.groupId).isSome) :
    Driver.Sound (w.settle [toDispatch candidate] (takeOne w.policy candidate)) ∧
      Tracks settings (w.settle [toDispatch candidate] (takeOne w.policy candidate)) := by
  have hid : candidate.task.requestId = candidate.requestId :=
    h.filed _ _ (List.mem_of_mem_head? hhead)
  have hready : candidate.task ∈ w.ready := by
    rw [h.mem_ready_iff, hid]
    exact List.mem_of_mem_head? hhead
  have hfresh := hsound.fresh_of_ready hready
  obtain ⟨rest, hqueue⟩ := List.head?_eq_some_iff.mp hhead
  refine ⟨hsound.settle _ (List.singleton_subperm_iff.mpr hready),
    fun requestId task hmem => ?_, fun task => ?_, h.metas, h.lastGroup,
    h.inFlight.takeOne hfresh hgroup⟩
  · refine h.filed requestId task ?_
    simp only [Driver.World.settle, getD_takeOne] at hmem
    split at hmem
    · next heq => exact heq ▸ List.mem_of_mem_tail hmem
    · exact hmem
  · simp only [Driver.World.settle, List.map_singleton, List.diff_cons, List.diff_nil,
      List.count_erase, getD_takeOne, toDispatch, h.queued]
    by_cases heq : candidate.requestId = task.requestId
    · rw [if_pos heq, ← heq, hqueue, List.tail_cons, List.count_cons]
      simp
    · have hne : ¬ candidate.task = task := fun htask => heq (htask ▸ hid.symm)
      rw [if_neg heq]
      simp [hne]

theorem Tracks.dispatched (hsound : Driver.Sound w) (h : Tracks settings w)
    {selected : List ActionCandidate} (hdistinct : (selected.map (·.requestId)).Nodup)
    (hheads : ∀ candidate ∈ selected,
      (w.policy.readyByRequest.getD candidate.requestId []).head? = some candidate.task ∧
        (settings.topology.find candidate.groupId).isSome) :
    Driver.Sound (w.settle (selected.map toDispatch) (selected.foldl StepPreemptive.takeOne w.policy)) ∧
      Tracks settings
        (w.settle (selected.map toDispatch) (selected.foldl StepPreemptive.takeOne w.policy)) := by
  induction selected generalizing w with
  | nil =>
    have hsame : w.settle [] w.policy = w := by simp [Driver.World.settle]
    exact hsame.symm ▸ ⟨hsound, h⟩
  | cons candidate selected ih =>
    obtain ⟨hfresh, hdistinct⟩ := List.nodup_cons.mp hdistinct
    obtain ⟨hhead, hgroup⟩ := hheads candidate (List.mem_cons_self ..)
    obtain ⟨hsound, htracks⟩ := Tracks.takeOne hsound h hhead hgroup
    have hlater := ih hsound htracks hdistinct fun other hother => by
      refine ⟨?_, (hheads other (List.mem_cons_of_mem _ hother)).2⟩
      simp only [Driver.World.settle]
      rw [getD_takeOne, if_neg fun heq => hfresh (List.mem_map.mpr ⟨other, hother, heq.symm⟩)]
      exact (hheads other (List.mem_cons_of_mem _ hother)).1
    rw [Driver.settle_settle] at hlater
    exact hlater

-- ---------------------------------------------------------------------------
-- Events
-- ---------------------------------------------------------------------------

theorem Tracks.congr {w' : Driver.World State} (h : Tracks settings w)
    (hready : w'.ready = w.ready) (hrunning : w'.running = w.running) (hknown : w'.known = w.known)
    (hclosed : w'.closed = w.closed) (hpolicy : ∃ now, w'.policy = { w.policy with nowMs := now }) :
    Tracks settings w' := by
  obtain ⟨now, hpolicy⟩ := hpolicy
  constructor
  · rw [hpolicy]
    exact h.filed
  · rw [hready, hpolicy]
    exact h.queued
  · rw [hknown, hclosed, hpolicy]
    exact h.metas
  · rw [hpolicy]
    exact h.lastGroup
  · rw [hpolicy, hrunning]
    exact h.inFlight.congr rfl rfl

theorem releaseDispatchedTask_eq (event : WorkerEvent) (state : State) : ∃ last steps,
    releaseDispatchedTask event state = { state with
      accounts := state.accounts.releaseDispatchedTask event.taskId
      requestInflight := Counter.drop state.requestInflight event.requestId
      requestLastGroup := last
      completedSteps := steps } ∧
    (last = state.requestLastGroup ∨
      last = state.requestLastGroup.set event.requestId event.groupId) := by
  unfold releaseDispatchedTask
  simp only
  split
  · exact ⟨_, _, rfl, .inl rfl⟩
  · split
    · split
      · exact ⟨_, _, rfl, .inr rfl⟩
      · exact ⟨_, _, rfl, .inr rfl⟩
    · exact ⟨_, _, rfl, .inr rfl⟩

theorem InFlight.release {running : List Dispatch} (h : InFlight settings state running)
    (hids : (running.map (·.task.taskId)).Nodup) {dispatch : Dispatch} (hmem : dispatch ∈ running)
    {event : WorkerEvent} (htask : event.taskId = dispatch.task.taskId)
    (hrequest : event.requestId = dispatch.task.requestId) :
    InFlight settings (releaseDispatchedTask event state) (running.erase dispatch) := by
  obtain ⟨last, steps, heq, -⟩ := releaseDispatchedTask_eq event state
  have hperm := List.perm_cons_erase hmem
  have hother : ∀ other ∈ running.erase dispatch, dispatch.task.taskId ≠ other.task.taskId := by
    have hnodup := (hperm.map (·.task.taskId)).nodup_iff.mp hids
    exact fun other hother heq =>
      (List.nodup_cons.mp hnodup).1 (List.mem_map.mpr ⟨other, hother, heq.symm⟩)
  have hrelease : state.accounts.releaseDispatchedTask event.taskId =
      state.accounts.releaseOrdinary dispatch.task.taskId dispatch.groupId := by
    rw [htask, RankAccounts.releaseDispatchedTask, h.entered dispatch hmem]
  rw [heq, hrelease, hrequest]
  refine ⟨fun requestId => ?_, fun other hin => ?_, fun rank => ?_, h.unheld,
    fun other hin => h.groups other (List.mem_of_mem_erase hin)⟩
  · have hdrop := Counter.count_drop state.requestInflight dispatch.task.requestId requestId
    have hcount := hperm.countP_eq fun other => decide (other.task.requestId = requestId)
    rw [List.countP_cons] at hcount
    simp only [decide_eq_true_eq] at hcount
    refine hdrop.trans ?_
    rw [h.inflight, hcount, Nat.add_sub_cancel]
  · exact (Dict.get?_erase_ne _ (hother other hin)).trans
      (h.entered other (List.mem_of_mem_erase hin))
  · have hsame : ((running.erase dispatch).map fun other =>
          ((state.accounts.releaseOrdinary dispatch.task.taskId
            dispatch.groupId).dispatchedRanksByTask.getD other.task.taskId []).count rank) =
        (running.erase dispatch).map fun other =>
          (state.accounts.dispatchedRanksByTask.getD other.task.taskId []).count rank := by
      refine List.map_congr_left fun other hin => congrArg (List.count rank) ?_
      exact (Dict.getD_erase ..).trans (if_neg (hother other hin))
    have hsum := (hperm.map fun other =>
      (state.accounts.dispatchedRanksByTask.getD other.task.taskId []).count rank).sum_eq
    rw [List.map_cons, List.sum_cons, ← h.claimed] at hsum
    simp only [hsame]
    refine (Counter.count_dropAll ..).trans ?_
    rw [hsum, Nat.add_sub_cancel_left]

theorem Tracks.note_finish (hsound : Driver.Sound w) (h : Tracks settings w) {dispatch : Dispatch}
    {event : WorkerEvent} (henabled : Enabled w (.finish dispatch event)) :
    Tracks settings { note w (.finish dispatch event) with
      policy := noteEvent event w.policy } := by
  obtain ⟨hmem, -, hkind, htask, hrequest, hgroup⟩ := henabled
  have hnote : noteEvent event w.policy = releaseDispatchedTask event
      { w.policy with nowMs := max w.policy.nowMs (event.timestampNs / 1000000) } := by
    simp [noteEvent, hkind, WorkerEventKind.endsTask, WorkerEventKind.endsRequest]
  have hinFlight : InFlight settings
      { w.policy with nowMs := max w.policy.nowMs (event.timestampNs / 1000000) } w.running :=
    h.inFlight.congr rfl rfl
  have hreleased := hinFlight.release hsound.runningIds_nodup hmem htask hrequest
  obtain ⟨last, steps, heq, hlast⟩ := releaseDispatchedTask_eq event
    { w.policy with nowMs := max w.policy.nowMs (event.timestampNs / 1000000) }
  rw [hnote]
  rw [heq] at hreleased ⊢
  refine ⟨h.filed, h.queued, h.metas, fun requestId groupId hget => ?_, hreleased⟩
  rcases hlast with rfl | rfl
  · exact h.lastGroup requestId groupId hget
  · simp only [Dict.get?_set] at hget
    split at hget
    · obtain rfl := Option.some.inj hget
      rw [hgroup]
      exact h.inFlight.groups dispatch hmem
    · exact h.lastGroup requestId groupId hget

theorem updateVirtualQueue_eq (requestId : String) (state : State) : ∃ queues,
    updateVirtualQueue requestId state = { state with virtualQueues := queues } := by
  unfold updateVirtualQueue
  split
  · exact ⟨_, rfl⟩
  · split <;> exact ⟨_, rfl⟩

theorem Tracks.note_close (hsound : Driver.Sound w) (h : Tracks settings w)
    {plan : RequestExecutionPlan} {event : WorkerEvent}
    (henabled : Enabled w (.close plan event)) :
    Tracks settings { note w (.close plan event) with policy := noteEvent event w.policy } := by
  have hnone := fun task => @Driver.Sound.none_of_close _ w hsound plan event henabled task
  obtain ⟨hknown, -, -, hkind, hrequest⟩ := henabled
  obtain ⟨queues, hqueues⟩ := updateVirtualQueue_eq event.requestId
    { w.policy with nowMs := max w.policy.nowMs (event.timestampNs / 1000000) }
  have hnote : noteEvent event w.policy = dropRequest event.requestId
      { w.policy with
        nowMs := max w.policy.nowMs (event.timestampNs / 1000000), virtualQueues := queues } := by
    simp [noteEvent, hkind, WorkerEventKind.endsTask, WorkerEventKind.endsRequest, hqueues]
  rw [hnote, hrequest]
  refine ⟨fun requestId task hmem => ?_, fun task => ?_, fun other hother hopen => ?_,
    fun requestId groupId hget => ?_, ⟨fun requestId => ?_, h.inFlight.entered,
      h.inFlight.claimed, h.inFlight.unheld, h.inFlight.groups⟩⟩
  · simp only [dropRequest, Dict.getD_erase] at hmem
    split at hmem
    · cases hmem
    · exact h.filed requestId task hmem
  · simp only [dropRequest, Dict.getD_erase, note]
    split
    · next heq =>
      rw [List.count_nil, List.count_eq_zero]
      exact fun hmem => hnone task (List.mem_append_left _ hmem) heq.symm
    · exact h.queued task
  · simp only [dropRequest, note] at hopen ⊢
    rw [Dict.get?_erase_ne _ fun heq : plan.requestId = other.requestId =>
      hopen (heq ▸ List.mem_cons_self ..)]
    exact h.metas other hother fun hclosed => hopen (List.mem_cons_of_mem _ hclosed)
  · simp only [dropRequest, Dict.get?_erase] at hget
    split at hget
    · cases hget
    · exact h.lastGroup requestId groupId hget
  · simp only [dropRequest, Counter.count, Dict.getD_erase, note]
    split
    · next heq =>
      refine (List.countP_eq_zero.mpr fun dispatch hmem hid => ?_).symm
      refine hnone dispatch.task (List.mem_append_right _ (List.mem_map_of_mem hmem)) ?_
      rw [heq]
      simpa using hid
    · exact h.inFlight.inflight requestId

theorem Tracks.note_submit (h : Tracks settings w) (plan : RequestExecutionPlan) :
    Tracks settings { note w (.submit plan) with
      policy := plan.rootTasks.foldl enqueueReady (submitted plan w.policy) } := by
  have hknown : Tracks settings { w with
      known := w.known ++ [plan], policy := submitted plan w.policy } := by
    refine ⟨h.filed, h.queued, fun other hother hopen => ?_, h.lastGroup,
      h.inFlight.congr rfl rfl⟩
    simp only [submitted, Dict.get?_set]
    split
    · rfl
    · rcases List.mem_append.mp hother with hother | hother
      · exact h.metas other hother hopen
      · next hne => exact absurd (congrArg _ (List.mem_singleton.mp hother).symm) hne
  exact hknown.enqueue plan.rootTasks

theorem Tracks.note (hsound : Driver.Sound w) (h : Tracks settings w) {action : Action}
    (henabled : Enabled w action) {call : Call} (hcall : callOf w action = some call) :
    Tracks settings { note w action with policy := noteCall call w.policy } := by
  cases action with
  | submit plan =>
    obtain rfl := Option.some.inj hcall
    exact h.note_submit plan
  | launch dispatch =>
    simp only [callOf] at hcall
    split at hcall
    · cases hcall
    · obtain rfl := Option.some.inj hcall
      exact (h.enqueue (w.unlocked dispatch.task.taskId)).congr rfl rfl rfl rfl ⟨_, rfl⟩
  | report event =>
    obtain rfl := Option.some.inj hcall
    refine h.congr rfl rfl rfl rfl ⟨max w.policy.nowMs (event.timestampNs / 1000000), ?_⟩
    simp [noteCall, noteEvent, henabled.1, henabled.2]
  | poll =>
    obtain rfl := Option.some.inj hcall
    exact h
  | finish dispatch event =>
    obtain rfl := Option.some.inj hcall
    exact h.note_finish hsound henabled
  | close plan event =>
    obtain rfl := Option.some.inj hcall
    exact h.note_close hsound henabled

theorem Tracks.quiet (h : Tracks settings w) {action : Action} (hcall : callOf w action = none) :
    Tracks settings (Driver.note w action) := by
  cases action with
  | launch dispatch =>
    simp only [callOf] at hcall
    split at hcall
    · next hnone =>
      refine h.congr ?_ rfl rfl rfl ⟨_, rfl⟩
      simp [Driver.note, hnone]
    · cases hcall
  | _ => cases hcall

end StepPreemptive

end GfDit
