import GfDit.Simulator.PreemptiveRuns

/-!
# When the preemptive policy stalls

A call that leaves ready tasks alone while nothing runs is never followed by
another task: a stall. It happens exactly when every ready request is held
back (`MayStart`), and it can happen: after a short request that was late, a
long one may be paused with nothing left to end its pause.
-/

namespace GfDit

namespace StepPreemptive

open Driver (Call Dispatch Action Enabled note callOf)

variable {settings : Settings} {w : Driver.World State}

/-- With nothing in flight and a task ready, some request is not held back. -/
def MayStart (settings : Settings) (w : Driver.World State) (call : Call) : Prop :=
  w.running = [] → w.ready ≠ [] →
    ∃ requestId, Startable settings (noteCall call w.policy) requestId

/-- Something runs or nothing is ready. -/
def Going (w : Driver.World State) : Prop := w.running ≠ [] ∨ w.ready = []

theorem Tracks.lookups (hsound : Driver.Sound w) (h : Tracks settings w) :
    Lookups settings w.policy := by
  refine ⟨fun requestId hne => ?_, h.lastGroup⟩
  obtain ⟨task, hmem⟩ := List.exists_mem_of_ne_nil _ hne
  have hid := h.filed requestId task hmem
  have hready : task ∈ w.ready := h.mem_ready_iff.mpr (hid.symm ▸ hmem)
  obtain ⟨plan, hplan, -, hrequest, hopen, -⟩ := hsound.open_of_mem (List.mem_append_left _ hready)
  rw [← hid, ← hrequest]
  exact h.metas plan hplan hopen

theorem Tracks.atRest (h : Tracks settings w) (hrunning : w.running = []) : AtRest w.policy := by
  refine ⟨fun requestId => ?_, fun rank => ⟨?_, h.inFlight.unheld rank⟩⟩
  · rw [h.inFlight.inflight, hrunning]
    rfl
  · rw [h.inFlight.claimed, hrunning]
    rfl

/-- A call succeeds, keeps the books, and leaves no stall exactly when some
request may start. -/
theorem call_ok (hsound : Driver.Sound w) (h : Tracks settings w) {action : Action}
    (henabled : Enabled w action) {call : Call} (hcall : callOf w action = some call) :
    ∃ out next, handle settings call w.policy = .ok (out, next) ∧
      Driver.Sound ((note w action).settle out next) ∧
      Tracks settings ((note w action).settle out next) ∧
      (Going ((note w action).settle out next) ↔ MayStart settings (note w action) call) := by
  have htracks := h.note hsound henabled hcall
  have hnoted : Driver.Sound { note w action with policy := noteCall call w.policy } :=
    (hsound.note henabled).withPolicy _
  have hpolicy : (note w action).policy = w.policy := by
    cases action <;> rfl
  obtain ⟨later, selected, hok, hdistinct, hheads, hstart⟩ :=
    takeDispatchableTasks_ok (htracks.lookups hnoted)
  have hpaused : Tracks settings { note w action with
      policy := { noteCall call w.policy with pausedSinceMs := later } } :=
    ⟨htracks.filed, htracks.queued, htracks.metas, htracks.lastGroup,
      htracks.inFlight.congr rfl rfl⟩
  have hnoted' : Driver.Sound { note w action with
      policy := { noteCall call w.policy with pausedSinceMs := later } } :=
    (hsound.note henabled).withPolicy _
  obtain ⟨hsettled, hsettled'⟩ := hpaused.dispatched hnoted' hdistinct hheads
  have hfold := @dispatchSelected_foldl { noteCall call w.policy with pausedSinceMs := later }
    selected hdistinct fun candidate hmem => (hheads candidate hmem).1
  refine ⟨_, _, hok.trans (congrArg _ hfold), hsettled, hsettled', ?_⟩
  have hnil : selected.map toDispatch = [] ↔ selected = [] := List.map_eq_nil_iff
  unfold Going MayStart
  rw [hpolicy]
  simp only [Driver.World.settle, ne_eq, List.append_eq_nil_iff, hnil]
  constructor
  · intro hgoing hrunning hready
    refine (hstart (htracks.atRest hrunning)).mp fun hnone => ?_
    rcases hgoing with hgoing | hgoing
    · exact hgoing ⟨hrunning, hnone⟩
    · rw [hnone] at hgoing
      exact hready (by simpa using hgoing)
  · intro hmay
    by_cases hrunning : (note w action).running = []
    · by_cases hready : (note w action).ready = []
      · exact .inr (by simp [hready])
      · have hsome := (hstart (htracks.atRest hrunning)).mpr (hmay hrunning hready)
        exact .inl fun hnone => hsome hnone.2
    · exact .inl fun hnone => hrunning hnone.1

theorem run_books {Good : Driver.World State → Call → Prop}
    (hrun : Driver.Run (handle settings) Good .init w) :
    Driver.Sound w ∧ Tracks settings w := by
  induction hrun with
  | start => exact ⟨.start _, .start⟩
  | quiet _ henabled hcall ih =>
    exact ⟨ih.1.note henabled, ih.2.quiet hcall⟩
  | call _ henabled hcall _ hok ih =>
    obtain ⟨out, next, hok', hsound, htracks, -⟩ := call_ok ih.1 ih.2 henabled hcall
    cases hok.symm.trans hok'
    exact ⟨hsound, htracks⟩

theorem run_going (hrun : Driver.Run (handle settings) (MayStart settings) .init w) : Going w := by
  induction hrun with
  | start => exact .inr rfl
  | @quiet w action _ henabled hcall ih =>
    cases action with
    | launch dispatch => exact .inl (List.ne_nil_of_mem henabled.1)
    | _ => cases hcall
  | call hrun henabled hcall hmay hok ih =>
    obtain ⟨hsound, htracks⟩ := run_books hrun
    obtain ⟨out, next, hok', -, -, hiff⟩ := call_ok hsound htracks henabled hcall
    cases hok.symm.trans hok'
    exact hiff.mpr hmay

-- ---------------------------------------------------------------------------
-- A short request, then a long one
-- ---------------------------------------------------------------------------

theorem solveRankDp_nil : solveRankDp [] = [] := by decide +kernel

theorem take_idle {state : State} (hready : state.readyByRequest.entries = []) :
    takeDispatchableTasks settings state = .ok ([], state) := by
  have hids : readyRequestIds state = .ok [] := by
    simp [readyRequestIds, hready, pure, Except.pure, bind, Except.bind]
  rw [takeDispatchableTasks, hids, Except.ok_bind]
  simp only [collect, pure, Except.pure, bind, Except.bind, solveRankDp_nil, dispatchSelected]

theorem startable_solo : Startable soloSettings soloState "S_1" := by
  refine ⟨metaFromPlan soloPlan, soloTask, rfl, rfl, rfl, "g", ?_, soloGroup, rfl, ?_, ?_⟩ <;>
    decide +kernel

def soloDone : WorkerEvent := ⟨"t", "S_1", "g", .taskExecEnd, 1000000, "", []⟩

def longTask : InferenceTask :=
  ⟨"l", "L_0", .ditStepChunk, none, .ready, 0, [], [], [], none, ∅⟩

def longPlan : RequestExecutionPlan :=
  ⟨"L_0", (∅ : Dict String InferenceTask).set "l" longTask, [], [], ∅⟩

def launchedState : State := (dispatchSelected soloState [soloCandidate]).2
def endedState : State := noteCall (.event soloDone) launchedState
def closedState : State := noteCall (.event (Driver.requestEnd "S_1")) endedState
def longState : State := noteCall (.submitted longPlan) closedState

theorem long_paused : takeDispatchableTasks soloSettings longState =
   .ok ([], { longState with pausedSinceMs := (∅ : Dict String ℚ).set "L_0" 1 }) := by
  have hready : longState.readyByRequest.entries.filter (fun entry => entry.2 ≠ []) =
      [("L_0", [longTask])] := by decide +kernel
  obtain ⟨key, hkey⟩ : ∃ key, requestSortKey longState "L_0" = .ok key := ⟨_, rfl⟩
  have hmeta : metaOf longState "L_0" = .ok (metaFromPlan longPlan) := rfl
  have hqueue : longState.readyByRequest.getD "L_0" [] = [longTask] := rfl
  have hpauses : pauses soloSettings longState (metaFromPlan longPlan) "L_0" longTask = true := by
    decide +kernel
  have hsince : longState.pausedSinceMs.set "L_0"
      (longState.pausedSinceMs.getD "L_0" longState.nowMs) =
    (∅ : Dict String ℚ).set "L_0" 1 := by decide +kernel
  have hpause : shouldPause soloSettings longState "L_0" longTask =
      .ok (true, { longState with pausedSinceMs := (∅ : Dict String ℚ).set "L_0" 1 }) := by
    simp only [shouldPause, hmeta, Except.ok_bind, hpauses, if_true, hsince]
    rfl
  have hcount : ¬ 0 < Counter.count longState.requestInflight "L_0" := by decide +kernel
  simp only [takeDispatchableTasks, readyRequestIds, hready, List.map_cons, List.map_nil,
    List.mapM_cons, hkey]
  simp [collect, hqueue, hpause, hcount, pure, Except.pure, bind, Except.bind]
  rfl

theorem solo_started {Good : Driver.World State → Call → Prop}
    (hgood : Good (note (.start .init) (.submit soloPlan)) (.submitted soloPlan)) :
    Driver.Run (handle soloSettings) Good .init
      ⟨launchedState, [soloPlan], [], [], [⟨soloTask, "g"⟩], [], []⟩ := by
  have henabled : Enabled (.start State.init) (.submit soloPlan) :=
    ⟨.single soloTask rfl rfl rfl, List.not_mem_nil, fun _ _ => List.not_mem_nil⟩
  have htake : handle soloSettings (.submitted soloPlan) .init =
    .ok ([⟨soloTask, "g"⟩], launchedState) := solo_take
  exact .call .start henabled rfl hgood htake

/-- In a run in which some request may start at every call nothing ever
stalls, and when nothing is left to happen every request is finished. A call
at which no request may start is one that stalls. -/
theorem no_stall (settings : Settings) {w : Driver.World State}
    (hrun : Driver.Run (handle settings) (MayStart settings) .init w) :
    Going w ∧ (Driver.Stuck w → ∀ plan ∈ w.known, plan.requestId ∈ w.closed) ∧
      ∀ action, Enabled w action → ∀ call, callOf w action = some call →
        ∃ out next, handle settings call w.policy = .ok (out, next) ∧
          (Going ((note w action).settle out next) ↔ MayStart settings (note w action) call) := by
  have hgoing := run_going hrun
  obtain ⟨hsound, htracks⟩ := run_books hrun
  refine ⟨hgoing, fun hstuck => hsound.finished hstuck hgoing, fun action henabled call hcall => ?_⟩
  obtain ⟨out, next, hok, -, -, hiff⟩ := call_ok hsound htracks henabled hcall
  exact ⟨out, next, hok, hiff⟩

/-- A short request starts. -/
theorem no_stall_solo : ∃ w : Driver.World State, w.running = [⟨soloTask, "g"⟩] ∧ Going w :=
  ⟨_, rfl, (no_stall soloSettings (solo_started fun _ _ => ⟨"S_1", startable_solo⟩)).1⟩

/-- After a short request that was late, a long one is paused and nothing is
left to happen. -/
theorem pause_stalls :
    (∀ kind : TaskKind, ∃ group ∈ soloSettings.topology.groups, kind ∈ group.supportedTaskKinds) ∧
    ∃ w, Driver.Run (handle soloSettings) (fun _ _ => True) .init w ∧ ¬ Going w ∧
      Driver.Stuck w ∧ ∃ plan ∈ w.known, plan.requestId ∉ w.closed := by
  have hlaunched : Driver.Run (handle soloSettings) (fun _ _ => True) .init
      ⟨launchedState, [soloPlan], [], [], [⟨soloTask, "g"⟩], ["t"], []⟩ := by
    have henabled : Enabled (⟨launchedState, [soloPlan], [], [], [⟨soloTask, "g"⟩], [], []⟩ :
      Driver.World State) (.launch ⟨soloTask, "g"⟩) :=
      ⟨List.mem_singleton_self _, List.not_mem_nil⟩
    exact .quiet (solo_started trivial) henabled rfl
  have hended : Driver.Run (handle soloSettings) (fun _ _ => True) .init
      ⟨endedState, [soloPlan], [], [], [], ["t"], ["t"]⟩ := by
    have henabled : Enabled (⟨launchedState, [soloPlan], [], [], [⟨soloTask, "g"⟩], ["t"], []⟩ :
      Driver.World State) (.finish ⟨soloTask, "g"⟩ soloDone) :=
      ⟨List.mem_singleton_self _, List.mem_singleton_self _, rfl, rfl, rfl, rfl⟩
    exact .call hlaunched henabled rfl trivial (take_idle rfl)
  have hclosed : Driver.Run (handle soloSettings) (fun _ _ => True) .init
      ⟨closedState, [soloPlan], ["S_1"], [], [], ["t"], ["t"]⟩ := by
    have henabled : Enabled (⟨endedState, [soloPlan], [], [], [], ["t"], ["t"]⟩ :
      Driver.World State) (.close soloPlan (Driver.requestEnd "S_1")) :=
      ⟨List.mem_singleton_self _, List.not_mem_nil, by decide, rfl, rfl⟩
    exact .call hended henabled rfl trivial (take_idle rfl)
  have hpaused : Driver.Run (handle soloSettings) (fun _ _ => True) .init
      ⟨{ longState with pausedSinceMs := (∅ : Dict String ℚ).set "L_0" 1 }, [soloPlan, longPlan],
        ["S_1"], [longTask], [], ["t"], ["t"]⟩ := by
    have henabled : Enabled (⟨closedState, [soloPlan], ["S_1"], [], [], ["t"], ["t"]⟩ :
      Driver.World State) (.submit longPlan) :=
      ⟨.single longTask rfl rfl rfl, by decide, by decide⟩
    exact .call hclosed henabled rfl trivial long_paused
  refine ⟨fun kind => ⟨soloGroup, List.mem_singleton_self _, by cases kind <;> decide⟩, _, hpaused,
    by simp [Going], ⟨?_, ?_, ?_⟩, longPlan, by simp, by decide⟩
  · rintro dispatch ⟨hmem, -⟩
    cases hmem
  · rintro dispatch event ⟨hmem, -⟩
    cases hmem
  · rintro plan event ⟨hmem, hopen, hended, -⟩
    simp only [List.mem_cons, List.not_mem_nil, or_false] at hmem
    rcases hmem with rfl | rfl
    · exact hopen (List.mem_singleton_self _)
    · exact absurd (hended "l" (by decide)) (by decide)

end StepPreemptive

end GfDit
