import GfDit.Lib.Acyclic
import GfDit.Lib.Dict
import GfDit.Simulator.LinearTasks
import GfDit.Tasks
import Mathlib.Data.List.Count
import Mathlib.Data.List.Perm.Subperm

/-!
# Driving a policy

What the simulator does between its calls of a policy: requests arrive, a task
whose launch ends unlocks the tasks that depend on it, tasks end in any order,
and a request is finished when all of its tasks have ended. The driver's own
books say which tasks are ready and which run; `Sound` ties them to the plans,
whatever the policy decides, as long as it gives out ready tasks only.
-/

namespace GfDit

namespace Driver

-- ---------------------------------------------------------------------------
-- Calls and worlds
-- ---------------------------------------------------------------------------

structure Dispatch where
  task : InferenceTask
  groupId : String
  deriving DecidableEq

inductive Call
  | submitted (plan : RequestExecutionPlan)
  | runnable (tasks : List InferenceTask)
  | event (event : WorkerEvent)

abbrev Policy (σ : Type) := Call → σ → Except PyError (List Dispatch × σ)

structure World (σ : Type) where
  policy : σ
  known : List RequestExecutionPlan
  -- requests that are finished
  closed : List String
  ready : List InferenceTask
  running : List Dispatch
  launched : List String
  ended : List String

variable {σ : Type}

def World.start (policy : σ) : World σ := ⟨policy, [], [], [], [], [], []⟩

namespace World

def tasks (w : World σ) : List InferenceTask := w.known.flatMap (·.tasks.values)

def runningTasks (w : World σ) : List InferenceTask := w.running.map (·.task)

/-- The tasks that wait for the end of this launch only. -/
def unlocked (w : World σ) (taskId : String) : List InferenceTask :=
  w.tasks.filter fun task =>
    taskId ∈ task.dependencies ∧ ∀ d ∈ task.dependencies, d ∈ taskId :: w.launched

/-- What a call returned takes effect. -/
def settle (w : World σ) (out : List Dispatch) (policy : σ) : World σ :=
  { w with
    policy
    ready := w.ready.diff (out.map (·.task))
    running := w.running ++ out }

end World

/-- The tasks of a request are filed under their ids and form a DAG. -/
structure WellFormed (plan : RequestExecutionPlan) : Prop where
  filed : ∀ taskId task, plan.tasks.get? taskId = some task →
    task.taskId = taskId ∧ task.requestId = plan.requestId
  dag : plan.IsDag

inductive Action
  | submit (plan : RequestExecutionPlan)
  | launch (dispatch : Dispatch)
  | report (event : WorkerEvent)
  | poll
  | finish (dispatch : Dispatch) (event : WorkerEvent)
  | close (plan : RequestExecutionPlan) (event : WorkerEvent)

def Enabled (w : World σ) : Action → Prop
  | .submit plan => WellFormed plan ∧ plan.requestId ∉ w.known.map (·.requestId) ∧
    ∀ taskId ∈ plan.tasks.keys, taskId ∉ w.tasks.map (·.taskId)
  | .launch dispatch => dispatch ∈ w.running ∧ dispatch.task.taskId ∉ w.launched
  | .report event => event.kind.endsTask = false ∧ event.kind.endsRequest = false
  | .poll => True
  | .finish dispatch event => dispatch ∈ w.running ∧ dispatch.task.taskId ∈ w.launched ∧
    event.kind = .taskExecEnd ∧ event.taskId = dispatch.task.taskId ∧
    event.requestId = dispatch.task.requestId ∧ event.groupId = dispatch.groupId
  | .close plan event => plan ∈ w.known ∧ plan.requestId ∉ w.closed ∧
    (∀ taskId ∈ plan.tasks.keys, taskId ∈ w.ended) ∧
    event.kind = .requestFinished ∧ event.requestId = plan.requestId

def note (w : World σ) : Action → World σ
  | .submit plan => { w with known := w.known ++ [plan], ready := w.ready ++ plan.rootTasks }
  | .launch dispatch => { w with
    launched := dispatch.task.taskId :: w.launched
    ready := w.ready ++ w.unlocked dispatch.task.taskId }
  | .report _ | .poll => w
  | .finish dispatch _ => { w with
    running := w.running.erase dispatch
    ended := dispatch.task.taskId :: w.ended }
  | .close plan _ => { w with closed := plan.requestId :: w.closed }

/-- How the policy is called; a launch that unlocks nothing does not call it. -/
def callOf (w : World σ) : Action → Option Call
  | .submit plan => some (.submitted plan)
  | .launch dispatch =>
    if w.unlocked dispatch.task.taskId = [] then none
    else some (.runnable (w.unlocked dispatch.task.taskId))
  | .report event => some (.event event)
  | .poll => some (.runnable [])
  | .finish _ event => some (.event event)
  | .close _ event => some (.event event)

/-- The worlds that actions lead to while every call is one of the `Good`. -/
inductive Run (policy : Policy σ) (Good : World σ → Call → Prop) (init : σ) : World σ → Prop
  | start : Run policy Good init (.start init)
  | quiet {w : World σ} {action : Action} : Run policy Good init w → Enabled w action →
    callOf w action = none → Run policy Good init (note w action)
  | call {w : World σ} {action : Action} {call : Call} {out : List Dispatch} {next : σ} :
    Run policy Good init w → Enabled w action → callOf w action = some call →
    Good (note w action) call → policy call w.policy = .ok (out, next) →
    Run policy Good init ((note w action).settle out next)

-- ---------------------------------------------------------------------------
-- The books
-- ---------------------------------------------------------------------------

/-- The tasks that are ready, running or ended. -/
def World.stageIds (w : World σ) : List String :=
  w.ready.map (·.taskId) ++ (w.runningTasks.map (·.taskId) ++ w.ended)

structure Sound (w : World σ) : Prop where
  wellFormed : ∀ plan ∈ w.known, WellFormed plan
  requestIds : (w.known.map (·.requestId)).Nodup
  taskIds : (w.tasks.map (·.taskId)).Nodup
  stages : w.stageIds.Nodup
  staged : ∀ task ∈ w.tasks,
    (task.taskId ∈ w.stageIds ↔ ∀ d ∈ task.dependencies, d ∈ w.launched)
  planned : ∀ task ∈ w.ready ++ w.runningTasks, task ∈ w.tasks
  ended_launched : ∀ taskId ∈ w.ended, taskId ∈ w.launched
  launched_known : ∀ taskId ∈ w.launched, taskId ∈ w.tasks.map (·.taskId)
  closed_known : ∀ requestId ∈ w.closed, requestId ∈ w.known.map (·.requestId)
  closed_ended : ∀ plan ∈ w.known, plan.requestId ∈ w.closed →
    ∀ taskId ∈ plan.tasks.keys, taskId ∈ w.ended

theorem Sound.start (policy : σ) : Sound (World.start policy) := by
  constructor <;> simp [World.start, World.tasks, World.stageIds, World.runningTasks]

theorem WellFormed.taskId_eq {plan : RequestExecutionPlan} (h : WellFormed plan) :
    plan.tasks.values.map (·.taskId) = plan.tasks.keys := by
  rw [Dict.values, Dict.keys, List.map_map]
  refine List.map_congr_left fun entry hentry => ?_
  exact (h.filed _ _ (plan.tasks.get?_eq_some.mpr hentry)).1

theorem WellFormed.get? {plan : RequestExecutionPlan} (h : WellFormed plan) {task : InferenceTask}
    (hmem : task ∈ plan.tasks.values) : plan.tasks.get? task.taskId = some task := by
  obtain ⟨taskId, hget⟩ := Dict.exists_get?_of_mem_values hmem
  rw [(h.filed _ _ hget).1, hget]

theorem WellFormed.dependenciesOf {plan : RequestExecutionPlan} (h : WellFormed plan)
    {task : InferenceTask} (hmem : task ∈ plan.tasks.values) :
    plan.dependenciesOf task.taskId = task.dependencies := by
  rw [RequestExecutionPlan.dependenciesOf, h.get? hmem]
  rfl

theorem WellFormed.single {plan : RequestExecutionPlan} (task : InferenceTask)
    (htasks : plan.tasks = (∅ : Dict String InferenceTask).set task.taskId task)
    (hrequest : task.requestId = plan.requestId) (hroot : task.dependencies = []) :
    WellFormed plan := by
  have hnone : ∀ taskId, plan.dependenciesOf taskId = [] := fun taskId => by
    rw [RequestExecutionPlan.dependenciesOf, htasks, Dict.get?_set]
    split <;> simp [hroot]
  refine ⟨fun taskId other hget => ?_, fun taskId d hd => ?_, fun taskId hcycle => ?_⟩
  · rw [htasks, Dict.get?_set] at hget
    split at hget
    · rename_i hid
      cases hget
      exact ⟨hid, hrequest⟩
    · simp at hget
  · simp [hnone] at hd
  · obtain ⟨d, -, hd⟩ := Relation.TransGen.tail'_iff.mp hcycle
    simp [Acyclic.Needs, hnone] at hd

variable {w : World σ}

theorem Sound.eq_of_taskId (h : Sound w) {a b : InferenceTask} (ha : a ∈ w.tasks)
    (hb : b ∈ w.tasks) (hid : a.taskId = b.taskId) : a = b :=
  List.inj_on_of_nodup_map h.taskIds ha hb hid

theorem Sound.open_of_mem (h : Sound w) {task : InferenceTask}
    (hmem : task ∈ w.ready ++ w.runningTasks) :
    ∃ plan ∈ w.known, task.taskId ∈ plan.tasks.keys ∧ plan.requestId = task.requestId ∧
      plan.requestId ∉ w.closed ∧ task.taskId ∉ w.ended := by
  obtain ⟨plan, hplan, hvalue⟩ := List.mem_flatMap.mp (h.planned task hmem)
  have hget := (h.wellFormed plan hplan).get? hvalue
  have hkey : task.taskId ∈ plan.tasks.keys := (Dict.mem_keys _ _).mpr (by simp [hget])
  have hended : task.taskId ∉ w.ended := by
    have hstages := h.stages
    rw [World.stageIds, ← List.append_assoc, ← List.map_append] at hstages
    exact fun hended => (List.nodup_append.mp hstages).2.2 _ (List.mem_map_of_mem hmem) _ hended rfl
  exact ⟨plan, hplan, hkey, ((h.wellFormed plan hplan).filed _ _ hget).2.symm,
    fun hclosed => hended (h.closed_ended plan hplan hclosed _ hkey), hended⟩

theorem Sound.withPolicy (h : Sound w) (policy : σ) : Sound { w with policy } :=
  ⟨h.1, h.2, h.3, h.4, h.5, h.6, h.7, h.8, h.9, h.10⟩

theorem settle_settle (w : World σ) (first rest : List Dispatch) (p p' : σ) :
    (w.settle first p).settle rest p' = w.settle (first ++ rest) p' := by
  simp [World.settle, List.diff_append, List.append_assoc]

theorem Sound.runningIds_nodup (h : Sound w) : (w.running.map (·.task.taskId)).Nodup := by
  have hstages := (List.nodup_append.mp (List.nodup_append.mp h.stages).2.1).1
  simpa [World.runningTasks, Function.comp_def] using hstages

theorem Sound.fresh_of_ready (h : Sound w) {task : InferenceTask} (hready : task ∈ w.ready) :
    task.taskId ∉ w.running.map (·.task.taskId) := by
  intro hmem
  obtain ⟨dispatch, hrunning, heq⟩ := List.mem_map.mp hmem
  have hstages := (List.nodup_append.mp h.stages).2.2
  refine hstages _ (List.mem_map_of_mem hready) _ (List.mem_append_left _ ?_) rfl
  exact List.mem_map.mpr ⟨dispatch.task, List.mem_map_of_mem hrunning, heq⟩

theorem Sound.not_both (h : Sound w) {task : InferenceTask} (hready : task ∈ w.ready) :
    task.taskId ∉ w.ended ∧ task.taskId ∉ w.runningTasks.map (·.taskId) := by
  have hstages := (List.nodup_append.mp h.stages).2.2 _ (List.mem_map_of_mem hready)
  exact ⟨fun hmem => hstages _ (List.mem_append_right _ hmem) rfl,
    fun hmem => hstages _ (List.mem_append_left _ hmem) rfl⟩

theorem Sound.none_of_close (h : Sound w) {plan : RequestExecutionPlan} {event : WorkerEvent}
    (henabled : Enabled w (.close plan event)) {task : InferenceTask}
    (hmem : task ∈ w.ready ++ w.runningTasks) : task.requestId ≠ plan.requestId := by
  intro hid
  obtain ⟨other, hother, hkey, hrequest, -, hended⟩ := h.open_of_mem hmem
  obtain rfl := List.inj_on_of_nodup_map h.requestIds hother henabled.1 (hrequest.trans hid)
  exact hended (henabled.2.2.1 _ hkey)

/-- Ready tasks that are given out move on; nothing else changes. -/
theorem Sound.settle (h : Sound w) {out : List Dispatch} (policy : σ)
    (hout : (out.map (·.task)).Subperm w.ready) : Sound (w.settle out policy) := by
  have hsplit := List.subperm_append_diff_self_of_count_le (List.subperm_ext_iff.mp hout)
  have hmoved : (w.ready.diff (out.map (·.task)) ++ (w.runningTasks ++ out.map (·.task))).Perm
      (w.ready ++ w.runningTasks) := by
    refine (List.perm_append_comm_assoc ..).trans ?_
    refine (List.Perm.append_left _ (List.perm_append_comm.trans hsplit)).trans ?_
    exact List.perm_append_comm
  have hrunning : (w.settle out policy).runningTasks = w.runningTasks ++ out.map (·.task) := by
    simp [World.runningTasks, World.settle]
  have hstages : (w.settle out policy).stageIds.Perm w.stageIds := by
    have := (hmoved.map (·.taskId)).append_right w.ended
    simp only [List.map_append, List.append_assoc] at this
    rw [World.stageIds, World.stageIds, hrunning, List.map_append, List.append_assoc]
    exact this
  refine ⟨h.wellFormed, h.requestIds, h.taskIds, hstages.nodup_iff.mpr h.stages,
    fun task hmem => ?_, fun task hmem => ?_, h.ended_launched, h.launched_known, h.closed_known,
    h.closed_ended⟩
  · rw [hstages.mem_iff]
    exact h.staged task hmem
  · rw [hrunning] at hmem
    exact h.planned task (hmoved.mem_iff.mp hmem)

theorem Sound.note_finish (h : Sound w) {dispatch : Dispatch} {event : WorkerEvent}
    (henabled : Enabled w (.finish dispatch event)) : Sound (note w (.finish dispatch event)) := by
  obtain ⟨hrunning, hlaunched, -⟩ := henabled
  have hperm := List.perm_cons_erase hrunning
  have hstages : (note w (.finish dispatch event)).stageIds.Perm w.stageIds := by
    have hids := (hperm.map (·.task.taskId)).append_right w.ended
    refine List.Perm.append_left _ (List.Perm.trans ?_ (List.Perm.trans hids.symm ?_))
    · simp only [note, World.runningTasks, List.map_map, List.map_cons, List.cons_append]
      exact List.perm_middle
    · rw [World.runningTasks, List.map_map]
      exact .refl _
  refine ⟨h.wellFormed, h.requestIds, h.taskIds, hstages.nodup_iff.mpr h.stages,
    fun task hmem => ?_, fun task hmem => ?_, fun taskId hmem => ?_, h.launched_known,
    h.closed_known, fun plan hplan hclosed taskId hkey => ?_⟩
  · rw [hstages.mem_iff]
    exact h.staged task hmem
  · refine h.planned task ?_
    rcases List.mem_append.mp hmem with hmem | hmem
    · exact List.mem_append_left _ hmem
    · obtain ⟨other, hother, rfl⟩ := List.mem_map.mp hmem
      exact List.mem_append_right _ (List.mem_map_of_mem (List.mem_of_mem_erase hother))
  · rcases List.mem_cons.mp hmem with rfl | hmem
    · exact hlaunched
    · exact h.ended_launched taskId hmem
  · exact List.mem_cons_of_mem _ (h.closed_ended plan hplan hclosed taskId hkey)

theorem Sound.note_close (h : Sound w) {plan : RequestExecutionPlan} {event : WorkerEvent}
    (henabled : Enabled w (.close plan event)) : Sound (note w (.close plan event)) := by
  obtain ⟨hknown, -, hended, -⟩ := henabled
  refine ⟨h.wellFormed, h.requestIds, h.taskIds, h.stages, h.staged, h.planned, h.ended_launched,
    h.launched_known, fun requestId hmem => ?_, fun other hother hclosed => ?_⟩
  · rcases List.mem_cons.mp hmem with rfl | hmem
    · exact List.mem_map_of_mem hknown
    · exact h.closed_known requestId hmem
  · rcases List.mem_cons.mp hclosed with hid | hclosed
    · obtain rfl := List.inj_on_of_nodup_map h.requestIds hother hknown hid
      exact hended
    · exact h.closed_ended other hother hclosed

theorem Sound.note_launch (h : Sound w) {dispatch : Dispatch}
    (henabled : Enabled w (.launch dispatch)) : Sound (note w (.launch dispatch)) := by
  obtain ⟨hrunning, hfresh⟩ := henabled
  let taskId := dispatch.task.taskId
  have hunlocked : ∀ task, task ∈ w.unlocked taskId ↔ task ∈ w.tasks ∧
      taskId ∈ task.dependencies ∧ ∀ d ∈ task.dependencies, d ∈ taskId :: w.launched := fun task => by
    simp [World.unlocked]
  -- What waited for this launch has not got to any stage.
  have hnew : ∀ task ∈ w.unlocked taskId, task.taskId ∉ w.stageIds := fun task hmem hstage => by
    obtain ⟨htask, hdep, -⟩ := (hunlocked task).mp hmem
    exact hfresh ((h.staged task htask).mp hstage taskId hdep)
  have hnodup : ((w.unlocked taskId).map (·.taskId)).Nodup :=
    h.taskIds.sublist (List.filter_sublist.map _)
  have hstages : (note w (.launch dispatch)).stageIds.Perm
      ((w.unlocked taskId).map (·.taskId) ++ w.stageIds) := by
    simp only [note, World.stageIds, World.runningTasks, List.map_append, List.append_assoc]
    exact List.perm_append_comm_assoc ..
  refine ⟨h.wellFormed, h.requestIds, h.taskIds, ?_, fun task hmem => ?_, fun task hmem => ?_,
    fun id hmem => List.mem_cons_of_mem _ (h.ended_launched id hmem), fun id hmem => ?_,
    h.closed_known, h.closed_ended⟩
  · refine hstages.nodup_iff.mpr (List.Nodup.append hnodup h.stages fun id hid hstage => ?_)
    obtain ⟨task, hmem, rfl⟩ := List.mem_map.mp hid
    exact hnew task hmem hstage
  · rw [hstages.mem_iff, List.mem_append]
    constructor
    · rintro (hid | hstage)
      · obtain ⟨other, hother, hid⟩ := List.mem_map.mp hid
        obtain ⟨hknown, -, hall⟩ := (hunlocked other).mp hother
        rw [← h.eq_of_taskId hknown hmem hid]
        exact hall
      · exact fun d hd => List.mem_cons_of_mem _ ((h.staged task hmem).mp hstage d hd)
    · intro hall
      by_cases hdep : taskId ∈ task.dependencies
      · exact .inl (List.mem_map_of_mem ((hunlocked task).mpr ⟨hmem, hdep, hall⟩))
      · refine .inr ((h.staged task hmem).mpr fun d hd => ?_)
        exact (List.mem_cons.mp (hall d hd)).resolve_left fun heq => hdep (show dispatch.task.taskId ∈ _ from heq ▸ hd)
  · rcases List.mem_append.mp hmem with hmem | hmem
    · rcases List.mem_append.mp hmem with hmem | hmem
      · exact h.planned task (List.mem_append_left _ hmem)
      · exact ((hunlocked task).mp hmem).1
    · exact h.planned task (List.mem_append_right _ hmem)
  · rcases List.mem_cons.mp hmem with rfl | hmem
    · exact List.mem_map_of_mem (h.planned dispatch.task
        (List.mem_append_right _ (List.mem_map_of_mem hrunning)))
    · exact h.launched_known id hmem

theorem Sound.note_submit (h : Sound w) {plan : RequestExecutionPlan}
    (henabled : Enabled w (.submit plan)) : Sound (note w (.submit plan)) := by
  obtain ⟨hplan, hrequest, hfresh⟩ := henabled
  have htasks : (note w (.submit plan)).tasks = w.tasks ++ plan.tasks.values := by
    simp [note, World.tasks]
  have hids : plan.tasks.values.map (·.taskId) = plan.tasks.keys := hplan.taskId_eq
  have hkey : ∀ task ∈ plan.tasks.values, task.taskId ∈ plan.tasks.keys := fun task hmem =>
    hids ▸ List.mem_map_of_mem hmem
  have hroot : ∀ task, task ∈ plan.rootTasks ↔ task ∈ plan.tasks.values ∧ task.dependencies = [] :=
    fun task => by simp [RequestExecutionPlan.rootTasks]
  have hrootIds : (plan.rootTasks.map (·.taskId)).Nodup :=
    (hids ▸ plan.tasks.keys_nodup).sublist (List.filter_sublist.map _)
  -- No task of the plan has got to any stage before.
  have hnew : ∀ taskId ∈ plan.tasks.keys, taskId ∉ w.stageIds := by
    intro taskId hmem hstage
    refine hfresh taskId hmem ?_
    rcases List.mem_append.mp hstage with hstage | hstage
    · obtain ⟨task, htask, rfl⟩ := List.mem_map.mp hstage
      exact List.mem_map_of_mem (h.planned task (List.mem_append_left _ htask))
    · rcases List.mem_append.mp hstage with hstage | hstage
      · obtain ⟨task, htask, rfl⟩ := List.mem_map.mp hstage
        exact List.mem_map_of_mem (h.planned task (List.mem_append_right _ htask))
      · exact h.launched_known taskId (h.ended_launched taskId hstage)
  have hstages : (note w (.submit plan)).stageIds.Perm
      (plan.rootTasks.map (·.taskId) ++ w.stageIds) := by
    simp only [note, World.stageIds, World.runningTasks, List.map_append, List.append_assoc]
    exact List.perm_append_comm_assoc ..
  refine ⟨fun other hmem => ?_, ?_, ?_, ?_, fun task hmem => ?_, fun task hmem => ?_,
    h.ended_launched, fun taskId hmem => ?_, fun requestId hmem => ?_, fun other hmem hclosed => ?_⟩
  · rcases List.mem_append.mp hmem with hmem | hmem
    · exact h.wellFormed other hmem
    · rw [List.mem_singleton.mp hmem]
      exact hplan
  · simp only [note, List.map_append, List.map_singleton]
    refine List.Nodup.append h.requestIds (List.nodup_singleton _) fun requestId hmem hnew => ?_
    rw [List.mem_singleton.mp hnew] at hmem
    exact hrequest hmem
  · rw [htasks, List.map_append, hids]
    exact List.Nodup.append h.taskIds plan.tasks.keys_nodup fun taskId hmem hkey =>
      hfresh taskId hkey hmem
  · refine hstages.nodup_iff.mpr (List.Nodup.append hrootIds h.stages fun taskId hmem hstage => ?_)
    obtain ⟨task, htask, rfl⟩ := List.mem_map.mp hmem
    exact hnew task.taskId (hkey task ((hroot task).mp htask).1) hstage
  · rw [hstages.mem_iff, List.mem_append]
    rw [htasks] at hmem
    rcases List.mem_append.mp hmem with hmem | hmem
    · -- An earlier task is not one of the new roots.
      refine ⟨?_, fun hall => .inr ((h.staged task hmem).mpr hall)⟩
      rintro (hid | hstage)
      · obtain ⟨other, hother, hid⟩ := List.mem_map.mp hid
        refine absurd (List.mem_map_of_mem hmem) (hid ▸ hfresh other.taskId ?_)
        exact hkey other ((hroot other).mp hother).1
      · exact (h.staged task hmem).mp hstage
    · constructor
      · rintro (hid | hstage)
        · obtain ⟨other, hother, hid⟩ := List.mem_map.mp hid
          obtain ⟨hvalue, hnone⟩ := (hroot other).mp hother
          have heq := List.inj_on_of_nodup_map (hids ▸ plan.tasks.keys_nodup) hvalue hmem hid
          rw [← heq, hnone]
          simp
        · exact absurd hstage (hnew _ (hkey task hmem))
      · intro hall
        refine .inl (List.mem_map_of_mem ((hroot task).mpr ⟨hmem, ?_⟩))
        refine List.eq_nil_iff_forall_not_mem.mpr fun d hd => ?_
        have hdep : d ∈ plan.tasks.keys :=
          hplan.dag.known task.taskId d (hplan.dependenciesOf hmem ▸ hd)
        exact hfresh d hdep (h.launched_known d (hall d hd))
  · rw [htasks]
    rcases List.mem_append.mp hmem with hmem | hmem
    · rcases List.mem_append.mp hmem with hmem | hmem
      · exact List.mem_append_left _ (h.planned task (List.mem_append_left _ hmem))
      · exact List.mem_append_right _ ((hroot task).mp hmem).1
    · exact List.mem_append_left _ (h.planned task (List.mem_append_right _ hmem))
  · rw [htasks, List.map_append]
    exact List.mem_append_left _ (h.launched_known taskId hmem)
  · simp only [note, List.map_append]
    exact List.mem_append_left _ (h.closed_known requestId hmem)
  · rcases List.mem_append.mp hmem with hmem | hmem
    · exact h.closed_ended other hmem hclosed
    · rw [List.mem_singleton.mp hmem] at hclosed
      exact absurd (h.closed_known _ hclosed) hrequest

/-- What the driver notes keeps its books. -/
theorem Sound.note (h : Sound w) {action : Action} (henabled : Enabled w action) :
    Sound (note w action) := by
  cases action with
  | submit plan => exact h.note_submit henabled
  | launch dispatch => exact h.note_launch henabled
  | report event => exact h
  | poll => exact h
  | finish dispatch event => exact h.note_finish henabled
  | close plan event => exact h.note_close henabled

-- ---------------------------------------------------------------------------
-- Launched tasks
-- ---------------------------------------------------------------------------

def Started (w : World σ) : Prop :=
  ∀ taskId ∈ w.launched, taskId ∈ w.runningTasks.map (·.taskId) ++ w.ended

theorem Started.start (policy : σ) : Started (World.start policy) :=
  fun _ hmem => absurd hmem List.not_mem_nil

theorem Started.settle (h : Started w) (out : List Dispatch) (policy : σ) :
    Started (w.settle out policy) := by
  intro taskId hmem
  have hbefore := h taskId hmem
  simp only [World.runningTasks, World.settle, List.map_append, List.mem_append] at hbefore ⊢
  exact hbefore.imp_left .inl

theorem Started.note (h : Started w) {action : Action} (henabled : Enabled w action) :
    Started (note w action) := by
  cases action with
  | launch dispatch =>
    refine List.forall_mem_cons.mpr ⟨List.mem_append_left _ ?_, h⟩
    exact List.mem_map_of_mem (List.mem_map_of_mem henabled.1)
  | finish dispatch event =>
    intro taskId hmem
    rcases List.mem_append.mp (h taskId hmem) with hrunning | hended
    · by_cases hid : taskId = dispatch.task.taskId
      · exact List.mem_append_right _ (hid ▸ List.mem_cons_self ..)
      · refine List.mem_append_left _ ?_
        obtain ⟨task, htask, rfl⟩ := List.mem_map.mp hrunning
        obtain ⟨other, hother, rfl⟩ := List.mem_map.mp htask
        have hne : other ≠ dispatch := fun heq => hid (heq ▸ rfl)
        exact List.mem_map_of_mem (List.mem_map_of_mem ((List.mem_erase_of_ne hne).mpr hother))
    · exact List.mem_append_right _ (List.mem_cons_of_mem _ hended)
  | submit | report | poll | close => exact h

/-- Of a chain in which each task depends on the one before only, everything
before a task that has got to some stage was launched. -/
theorem Sound.launched_of_chain (h : Sound w) (hstarted : Started w) {before after : List InferenceTask}
    {task : InferenceTask} (hknown : ∀ other ∈ before ++ task :: after, other ∈ w.tasks)
    (hchain : (before ++ task :: after).IsChain fun a b => b.dependencies = [a.taskId])
    (hstaged : task.taskId ∈ w.stageIds) : ∀ other ∈ before, other.taskId ∈ w.launched := by
  induction before using List.reverseRecOn generalizing task after with
  | nil => exact fun _ hmem => absurd hmem List.not_mem_nil
  | append_singleton before last ih =>
    rw [List.append_assoc, List.singleton_append] at hknown hchain
    have hlink : task.dependencies = [last.taskId] :=
      (List.isChain_cons_cons.mp (List.isChain_append.mp hchain).2.1).1
    have hlaunched : last.taskId ∈ w.launched :=
      (h.staged task (hknown task (by simp))).mp hstaged _ (hlink ▸ List.mem_singleton_self _)
    have hlast : last.taskId ∈ w.stageIds :=
      List.mem_append_right _ (hstarted last.taskId hlaunched)
    intro other hmem
    rcases List.mem_append.mp hmem with hmem | hmem
    · exact ih hknown hchain hlast other hmem
    · rw [List.mem_singleton.mp hmem]
      exact hlaunched

-- ---------------------------------------------------------------------------
-- The end of a run
-- ---------------------------------------------------------------------------

def Stuck (w : World σ) : Prop :=
  (∀ dispatch, ¬ Enabled w (.launch dispatch)) ∧
    (∀ dispatch event, ¬ Enabled w (.finish dispatch event)) ∧
    ∀ plan event, ¬ Enabled w (.close plan event)

def taskEnd (dispatch : Dispatch) : WorkerEvent :=
  ⟨dispatch.task.taskId, dispatch.task.requestId, dispatch.groupId, .taskExecEnd, 0, "", []⟩

def requestEnd (requestId : String) : WorkerEvent :=
  ⟨"", requestId, "", .requestFinished, 0, "", []⟩

/-- A run that cannot go on without arrivals, with no ready task left alone,
has finished every request. -/
theorem Sound.finished (h : Sound w) (hstuck : Stuck w)
    (hstall : w.running ≠ [] ∨ w.ready = []) :
    ∀ plan ∈ w.known, plan.requestId ∈ w.closed := by
  obtain ⟨hlaunch, hfinish, hclose⟩ := hstuck
  have hrunning : w.running = [] := by
    refine List.eq_nil_iff_forall_not_mem.mpr fun dispatch hmem => ?_
    by_cases hlaunched : dispatch.task.taskId ∈ w.launched
    · exact hfinish dispatch (taskEnd dispatch) ⟨hmem, hlaunched, rfl, rfl, rfl, rfl⟩
    · exact hlaunch dispatch ⟨hmem, hlaunched⟩
  have hready : w.ready = [] := hstall.resolve_left fun hne => hne hrunning
  have hstages : w.stageIds = w.ended := by
    simp [World.stageIds, World.runningTasks, hrunning, hready]
  intro plan hplan
  have hform := h.wellFormed plan hplan
  by_contra hopen
  -- If all its tasks had ended, the request would be finished.
  have hleft : (plan.tasks.keys.filter fun taskId => taskId ∉ w.ended) ≠ [] := by
    intro hnone
    refine hclose plan (requestEnd plan.requestId) ⟨hplan, hopen, fun taskId hkey => ?_, rfl, rfl⟩
    simpa using List.filter_eq_nil_iff.mp hnone taskId hkey
  obtain ⟨taskId, hmem, hfirst⟩ := Acyclic.exists_ready hform.dag.acyclic hleft
  obtain ⟨hkey, hleft⟩ := List.mem_filter.mp hmem
  obtain ⟨task, hget⟩ := Option.isSome_iff_exists.mp ((Dict.mem_keys _ _).mp hkey)
  have hvalue := Dict.mem_values_of_get? hget
  have hid := (hform.filed _ _ hget).1
  subst hid
  have htask : task ∈ w.tasks := List.mem_flatMap.mpr ⟨plan, hplan, hvalue⟩
  have hended : task.taskId ∈ w.ended := by
    rw [← hstages]
    refine (h.staged task htask).mpr fun d hd => h.ended_launched d ?_
    rw [← hform.dependenciesOf hvalue] at hd
    by_contra hnot
    exact hfirst d (List.mem_filter.mpr ⟨hform.dag.known _ d hd, by simpa using hnot⟩) hd
  simp [hended] at hleft

end Driver

end GfDit
