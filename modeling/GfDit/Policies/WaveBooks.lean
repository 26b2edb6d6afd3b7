import GfDit.Policies.FcfsBooks
import GfDit.Policies.WaveStress

/-!
# The books of the wave-stress policy

The parent's books, and the tasks that wait in the wave's own queues: each has
a group, so its dispatch goes through the same accounts.
-/

namespace GfDit

open Prog

namespace WaveStress

variable {known : String → InferenceTask} {w : World WaveStress}

def accounts (p : WaveStress) : RankAccounts := p.base.accounts

structure Sound (known : String → InferenceTask) (w : World WaveStress) : Prop where
  base : DynamicStepFcfs.Sound known ⟨w.topology, w.tasks, w.clockNs, w.policy.base⟩
  waiting : ∀ requestId queue, w.policy.waveReadyByReq.get? requestId = some queue →
    ∀ task ∈ queue, known task.taskId = task ∧ task.kind ≠ .reshard ∧
      ∃ groupId, w.tasks.groupId task = some groupId
  held : ∀ plan ∈ w.policy.heldPlans, ∀ task ∈ plan.rootTasks, known task.taskId = task

theorem Sound.settle (h : Sound known w) (hs : Settled known w.tasks heap) :
    Sound known { w with tasks := heap } where
  base := h.base.settle hs
  waiting := fun requestId queue hget task hm => by
    obtain ⟨hk, ho, groupId, hg⟩ := h.waiting requestId queue hget task hm
    exact ⟨hk, ho, groupId, hs task groupId hk hg⟩
  held := h.held

theorem Sound.steer (h : Sound known w) {p : WaveStress} (hb : p.base = w.policy.base)
    (hw : p.waveReadyByReq = w.policy.waveReadyByReq)
    (hh : ∀ plan ∈ p.heldPlans, plan ∈ w.policy.heldPlans) :
    Ticks known (Sound known) accounts w [] { w with policy := p } := by
  refine ⟨⟨⟨hb ▸ h.base, hw ▸ h.waiting, fun plan hm => h.held plan (hh plan hm)⟩, .refl,
    fun _ hm => hm⟩, ?_⟩
  simp only [accounts, hb]
  exact .refl _

/-- A method of the parent class keeps the wave's queues. -/
theorem super_ticks {x : PolicyM DynamicStepFcfs α} {out : α → List InferenceTask}
    (h : Sound known w)
    (hx : wp x (fun a => Ticks known (DynamicStepFcfs.Sound known) DynamicStepFcfs.accounts
        ⟨w.topology, w.tasks, w.clockNs, w.policy.base⟩ (out a))
      (fun _ => Keeps known (DynamicStepFcfs.Sound known)
        ⟨w.topology, w.tasks, w.clockNs, w.policy.base⟩)
      ⟨w.topology, w.tasks, w.clockNs, w.policy.base⟩) :
    wp (super x) (fun a => Ticks known (Sound known) accounts w (out a))
      (fun _ => Keeps known (Sound known) w) w := by
  have hback : ∀ v, Keeps known (DynamicStepFcfs.Sound known)
      ⟨w.topology, w.tasks, w.clockNs, w.policy.base⟩ v →
      Keeps known (Sound known) w ⟨v.topology, v.tasks, v.clockNs, { w.policy with base := v.policy }⟩ :=
    fun v hv => ⟨{ (h.settle hv.settled) with base := hv.sound }, hv.settled, hv.grows⟩
  rw [super, wp_zoom]
  exact wp_mono hx (fun _ v hv => ⟨hback v hv.toKeeps, hv.issued⟩) fun _ v hv => hback v hv

-- ---------------------------------------------------------------------------
-- Runnable tasks
-- ---------------------------------------------------------------------------

theorem selectGroupForTask_ticks (h : Sound known w) :
    wp (selectGroupForTask task) (fun _ w' => Ticks known (Sound known) accounts w [] w' ∧
      w'.tasks = w.tasks) (fun _ => Keeps known (Sound known) w) w := by
  simp only [selectGroupForTask, wp_bind, wp_get]
  split
  · simp only [wp_bind]
    refine wp_check (fun groupId _ => ?_) fun _ _ => .refl h
    split
    · exact ⟨.refl h, by trivial⟩
    · exact ⟨.refl h, by trivial⟩
  · rename_i role _
    simp only [wp_ite, wp_bind, wp_get, wp_pure, wp_map]
    split
    · exact ⟨.refl h, by trivial⟩
    · cases role with
      | pingpong =>
        simp only [roleGroup, wp_bind, wp_get]
        split
        · exact .refl h
        · exact ⟨h.steer rfl rfl fun _ hm => hm, rfl⟩
      | _ => exact ⟨.refl h, by trivial⟩

theorem assignGroup_ticks (h : Sound known w) (hk : known task.taskId = task) :
    wp (assignGroup task) (fun _ => Ticks known (Sound known) accounts w [])
      (fun _ => Keeps known (Sound known) w) w := by
  simp only [assignGroup, wp_bind, wp_get, wp_ite, wp_modify, wp_pure]
  split
  · rename_i hn
    refine wp_mono (selectGroupForTask_ticks h) (fun groupId w₁ ht => ?_) fun _ _ he => he
    have hs := Settled.setGroupId hk (ht.2 ▸ hn) groupId
    exact ht.1.trans ⟨⟨ht.1.sound.settle hs, hs, fun _ hm => hm⟩, .refl _⟩
  · exact .refl h

@[simp] theorem enqueue_accounts (p : WaveStress) (task : InferenceTask)
    (groupId : Option String) : (p.enqueue task groupId).accounts = p.accounts := by
  simp only [WaveStress.enqueue]
  split
  · rfl
  · simp [accounts]

theorem Sound.enqueue (h : Sound known w) (hk : known task.taskId = task)
    (hg : task.kind ≠ .reshard → ∃ g, w.tasks.groupId task = some g) :
    Sound known { w with policy := w.policy.enqueue task (w.tasks.groupId task) } := by
  simp only [WaveStress.enqueue]
  split
  · rename_i hwave
    refine { h with waiting := fun requestId queue hget t hm => ?_ }
    rw [Dict.get?_set] at hget
    split at hget
    · cases hget
      rcases List.mem_append.mp hm with hm | hm
      · unfold Dict.getD at hm
        cases hold : w.policy.waveReadyByReq.get? task.requestId with
        | none => simp [hold] at hm
        | some before => exact h.waiting _ before hold t (by simpa [hold] using hm)
      · rw [List.mem_singleton.mp hm]
        exact ⟨hk, hwave.1, hg hwave.1⟩
    · exact h.waiting requestId queue hget t hm
  · exact { h with base := h.base.enqueue hk hg }

theorem enqueueRunnable_ticks (h : Sound known w) (hk : known task.taskId = task) :
    wp (enqueueRunnable task) (fun _ => Ticks known (Sound known) accounts w [])
      (fun _ => Keeps known (Sound known) w) w := by
  simp only [enqueueRunnable, wp_bind, wp_get, wp_modify]
  refine wp_mono (assignGroup_ticks h hk) (fun _ w₁ ht => ?_) fun _ _ he => he
  refine wp_check (fun _ hv => ?_) fun _ _ => ht.toKeeps
  have hq := ht.sound.enqueue hk (DynamicStepFcfs.groupId_of_validateTask hv)
  have hs : Settled known w₁.tasks (w₁.tasks.setStatus task .ready) := .setStatus hk .ready
  exact ht.trans ⟨⟨hq.settle hs, hs, fun _ hm => hm⟩, by simpa using .refl _⟩

theorem enqueueAll_ticks {tasks : List InferenceTask} (h : Sound known w)
    (hk : ∀ task ∈ tasks, known task.taskId = task) :
    wp (tasks.forM enqueueRunnable) (fun _ => Ticks known (Sound known) accounts w [])
      (fun _ => Keeps known (Sound known) w) w := by
  refine wp_forM (fun task hm w₁ ht => ?_) (.refl h)
  exact wp_mono (enqueueRunnable_ticks ht.sound (hk task hm)) (fun _ _ ht' => ht.trans ht')
    fun _ _ he => ht.toKeeps.trans he

theorem enqueuePlans_ticks {plans : List RequestExecutionPlan} (h : Sound known w)
    (hk : ∀ plan ∈ plans, ∀ task ∈ plan.rootTasks, known task.taskId = task) :
    wp (plans.forM enqueueRoots) (fun _ => Ticks known (Sound known) accounts w [])
      (fun _ => Keeps known (Sound known) w) w := by
  refine wp_forM (fun plan hm w₁ ht => ?_) (.refl h)
  exact wp_mono (enqueueAll_ticks ht.sound (hk plan hm)) (fun _ _ ht' => ht.trans ht')
    fun _ _ he => ht.toKeeps.trans he

-- ---------------------------------------------------------------------------
-- Waves
-- ---------------------------------------------------------------------------

theorem startRoles_same (pairs : List (RequestExecutionPlan × WaveRole)) (p : WaveStress) :
    let p' := pairs.foldl (fun p pair => p.startRole pair.1 pair.2) p
    p'.base = p.base ∧ p'.waveReadyByReq = p.waveReadyByReq ∧ p'.heldPlans = p.heldPlans := by
  induction pairs generalizing p with
  | nil => exact ⟨rfl, rfl, rfl⟩
  | cons pair pairs ih => exact ih (p.startRole pair.1 pair.2)

theorem activateNextWave_ticks (h : Sound known w) :
    wp activateNextWave (fun _ => Ticks known (Sound known) accounts w [])
      (fun _ => Keeps known (Sound known) w) w := by
  simp only [activateNextWave, modifyPolicy, wp_bind, wp_get, wp_ite, wp_modify, wp_throw]
  split
  · exact .refl h
  · obtain ⟨hb, hw, hh⟩ := startRoles_same
      ((w.policy.heldPlans.take w.policy.waveSize).zip (waveRoles.take w.policy.waveSize))
      { w.policy with heldPlans := w.policy.heldPlans.drop w.policy.waveSize }
    have ht := h.steer (p := w.policy.startWave) hb hw fun plan hm => by
      have hm : plan ∈ List.drop .. := hh ▸ hm
      exact List.mem_of_mem_drop hm
    refine wp_mono (enqueuePlans_ticks ht.sound fun plan hm => ?_) (fun _ _ ht' => ht.trans ht')
      fun _ _ he => ht.toKeeps.trans he
    exact h.held plan (List.mem_of_mem_take hm)

theorem flushHeldPlansAsWarmup_ticks (h : Sound known w) :
    wp flushHeldPlansAsWarmup (fun _ => Ticks known (Sound known) accounts w [])
      (fun _ => Keeps known (Sound known) w) w := by
  simp only [flushHeldPlansAsWarmup, modifyPolicy, wp_bind, wp_get, wp_modify]
  have ht := h.steer (p := { w.policy with heldPlans := [] }) rfl rfl (by simp)
  exact wp_mono (enqueuePlans_ticks ht.sound h.held) (fun _ _ ht' => ht.trans ht')
    fun _ _ he => ht.toKeeps.trans he

-- ---------------------------------------------------------------------------
-- Dispatch
-- ---------------------------------------------------------------------------

theorem Sound.popReady (h : Sound known w)
    (hq : w.policy.waveReadyByReq.getD requestId [] = task :: rest) :
    Sound known { w with policy := w.policy.popReady requestId rest } := by
  have hwait : ∀ t ∈ task :: rest, known t.taskId = t ∧ t.kind ≠ .reshard ∧
      ∃ groupId, w.tasks.groupId t = some groupId := by
    intro t hm
    unfold Dict.getD at hq
    cases hold : w.policy.waveReadyByReq.get? requestId with
    | none => simp [hold] at hq
    | some queue => exact h.waiting requestId queue hold t (by simpa [hold, ← hq] using hm)
  unfold WaveStress.popReady
  split
  · refine { h with waiting := fun other queue hget => ?_ }
    rw [Dict.get?_erase] at hget
    split at hget
    · cases hget
    · exact h.waiting other queue hget
  · refine { h with waiting := fun other queue hget => ?_ }
    rw [Dict.get?_set] at hget
    split at hget
    · cases hget
      exact fun t hm => hwait t (List.mem_cons_of_mem _ hm)
    · exact h.waiting other queue hget

@[simp] theorem popReady_base (p : WaveStress) (requestId : String) (rest : List InferenceTask) :
    (p.popReady requestId rest).base = p.base := by
  unfold WaveStress.popReady
  split <;> rfl

theorem takeHead_ticks (h : Sound known w) :
    wp (takeHead requestId) (fun out => Ticks known (Sound known) accounts w out.toList)
      (fun _ => Keeps known (Sound known) w) w := by
  simp only [takeHead, modifyPolicy, wp_bind, wp_get]
  split
  · exact .refl h
  · rename_i task rest hq
    simp only [wp_bind, wp_get, wp_ite, wp_modify, wp_pure]
    have hwait : known task.taskId = task ∧ task.kind ≠ .reshard ∧
        ∃ groupId, w.tasks.groupId task = some groupId := by
      unfold Dict.getD at hq
      cases hold : w.policy.waveReadyByReq.get? requestId with
      | none => simp [hold] at hq
      | some queue => exact h.waiting requestId queue hold task (by simp_all)
    obtain ⟨hk, ho, groupId, hg⟩ := hwait
    simp only [hg, Option.getD_some]
    refine World.wp_getGroup (fun group hf => ?_) fun _ => .refl h
    obtain rfl := (RuntimeTopology.find_eq_some.mp hf).2
    split
    · rename_i hfree
      have hs : Settled known w.tasks (w.tasks.setStatus task .dispatched) := .setStatus hk .dispatched
      have h' := (h.popReady hq).settle hs
      have hbooked := h'.base.booked.dispatch hk ho (hs _ _ hk hg) hf (by simpa using hfree)
      refine ⟨⟨{ h' with base := { h'.base with booked := hbooked } }, hs, fun _ hm => hm⟩, ?_⟩
      simpa [accounts, World.setStatus] using .dispatched ..
    · exact .refl h

theorem takeLaps_ticks (h : Sound known w) :
    wp (takeLaps n turns attempts) (Ticks known (Sound known) accounts w)
      (fun _ => Keeps known (Sound known) w) w := by
  induction turns generalizing w attempts with
  | zero => exact .refl h
  | succ turns ih =>
    simp only [takeLaps, modifyPolicy, wp_bind, wp_get, wp_ite, wp_pure]
    split
    · split
      · exact .refl h
      · simp only [wp_bind, wp_modify]
        refine wp_mono (takeHead_ticks h) (fun dispatched w₁ ht => ?_) fun _ _ he => he
        have ht' := ht.trans (ht.sound.steer
          (p := { w₁.policy with rrCursor := (w₁.policy.rrCursor + 1) % n }) rfl rfl fun _ hm => hm)
        rw [List.append_nil] at ht'
        cases dispatched with
        | none =>
          exact wp_mono (ih ht'.sound) (fun _ _ hr => ht'.trans hr) fun _ _ he => ht'.toKeeps.trans he
        | some task =>
          simp only [wp_map]
          exact wp_mono (ih ht'.sound) (fun _ _ hr => ht'.trans hr) fun _ _ he => ht'.toKeeps.trans he
    · exact .refl h

theorem takeDispatchableTasks_ticks (h : Sound known w) :
    wp takeDispatchableTasks (Ticks known (Sound known) accounts w)
      (fun _ => Keeps known (Sound known) w) w := by
  simp only [takeDispatchableTasks, takeWaveDispatchable, wp_bind, wp_get, wp_pure]
  refine wp_mono (super_ticks h (DynamicStepFcfs.takeDispatchableTasks_ticks h.base))
    (fun out w₁ ht => ?_) fun _ _ he => he
  exact wp_mono (takeLaps_ticks ht.sound) (fun _ _ hr => ht.trans hr) fun _ _ he => ht.toKeeps.trans he

-- ---------------------------------------------------------------------------
-- Handlers
-- ---------------------------------------------------------------------------

theorem onTasksRunnable_ticks (h : Sound known w) (hk : ∀ task ∈ tasks, known task.taskId = task) :
    wp (onTasksRunnable tasks) (Ticks known (Sound known) accounts w)
      (fun _ => Keeps known (Sound known) w) w := by
  simp only [onTasksRunnable, wp_bind]
  refine wp_mono (enqueueAll_ticks h hk) (fun _ w₁ ht => ?_) fun _ _ he => he
  exact wp_mono (takeDispatchableTasks_ticks ht.sound) (fun _ _ hr => ht.trans hr)
    fun _ _ he => ht.toKeeps.trans he

theorem onRequestSubmitted_ticks (h : Sound known w)
    (hk : ∀ task ∈ plan.rootTasks, known task.taskId = task) :
    wp (onRequestSubmitted plan) (Ticks known (Sound known) accounts w)
      (fun _ => Keeps known (Sound known) w) w := by
  simp only [onRequestSubmitted, modifyPolicy, wp_bind, wp_get, wp_ite, wp_modify, wp_pure]
  have ht := h.steer (p := { w.policy with numSeenReqs := w.policy.numSeenReqs + 1 }) rfl rfl
    fun _ hm => hm
  split
  · exact wp_mono (onTasksRunnable_ticks ht.sound hk) (fun _ _ hr => ht.trans hr)
      fun _ _ he => ht.toKeeps.trans he
  · have hheld : Sound known { w with policy := { w.policy with
        numSeenReqs := w.policy.numSeenReqs + 1
        heldPlans := w.policy.heldPlans ++ [plan] } } := by
      refine ⟨h.base, h.waiting, fun other hm => ?_⟩
      rcases List.mem_append.mp hm with hm | hm
      · exact h.held other hm
      · rw [List.mem_singleton.mp hm]
        exact hk
    have ht' : Ticks known (Sound known) accounts w [] _ := ⟨⟨hheld, .refl, fun _ hm => hm⟩, .refl _⟩
    split
    · refine wp_mono (activateNextWave_ticks hheld) (fun _ w₁ ha => ?_)
        fun _ _ he => ht'.toKeeps.trans he
      have ht₁ := ht'.trans ha
      exact wp_mono (takeDispatchableTasks_ticks ha.sound) (fun _ _ hr => ht₁.trans hr)
        fun _ _ he => ht₁.toKeeps.trans he
    · exact ht'

theorem leaveWave_same (p : WaveStress) (requestId : String) :
    (p.leaveWave requestId).base = p.base ∧
      (p.leaveWave requestId).waveReadyByReq = p.waveReadyByReq ∧
      (p.leaveWave requestId).heldPlans = p.heldPlans := by
  simp only [leaveWave]
  split <;> exact ⟨rfl, rfl, rfl⟩

theorem dropRequest_ticks (h : Sound known w) :
    wp (dropRequest requestId) (fun _ => Ticks known (Sound known) accounts w [])
      (fun _ => Keeps known (Sound known) w) w := by
  have hdrop : Sound known { w with policy := { w.policy with
      base := w.policy.base.dropRequest requestId
      waveReadyByReq := w.policy.waveReadyByReq.erase requestId } } := by
    refine ⟨h.base.dropRequest requestId, fun other queue hget => ?_, h.held⟩
    rw [Dict.get?_erase] at hget
    split at hget
    · cases hget
    · exact h.waiting other queue hget
  obtain ⟨hb, hw, hh⟩ := leaveWave_same { w.policy with
      base := w.policy.base.dropRequest requestId
      waveReadyByReq := w.policy.waveReadyByReq.erase requestId } requestId
  have hleft := hdrop.steer hb hw fun plan hm => hh ▸ hm
  have ht : Ticks known (Sound known) accounts w [] _ :=
    ⟨⟨hleft.sound, .refl, fun _ hm => hm⟩, hleft.issued⟩
  simp only [dropRequest, modifyPolicy, wp_bind, wp_get, wp_ite, wp_modify, wp_pure]
  split
  · split
    · exact wp_mono (activateNextWave_ticks ht.sound) (fun _ _ hr => ht.trans hr)
        fun _ _ he => ht.toKeeps.trans he
    · split
      · exact wp_mono (flushHeldPlansAsWarmup_ticks ht.sound) (fun _ _ hr => ht.trans hr)
          fun _ _ he => ht.toKeeps.trans he
      · exact ht
  · exact ht

theorem Sound.releaseTask (h : Sound known w) (taskId : String) :
    Sound known { w with policy := { w.policy with base := { w.policy.base with
      accounts := w.policy.base.accounts.releaseTask taskId } } } :=
  { h with base := h.base.releaseTask taskId }

theorem onWorkerEvent_answers (h : Sound known w) (event : WorkerEvent) :
    wp (onWorkerEvent event) (Answers known (Sound known) accounts event w)
      (fun _ => Keeps known (Sound known) w) w := by
  have hreleased := h.releaseTask event.taskId
  have hlog := w.policy.base.accounts.releaseTask_log event.taskId
  have hdrop {w₁ : World WaveStress} (hk : Keeps known (Sound known) w w₁)
      (he : Issued (event.entered w.policy.accounts.log) [] w₁.policy.accounts.log) :
      wp (dropRequest event.requestId) (fun _ => wp takeDispatchableTasks
        (Answers known (Sound known) accounts event w) fun _ => Keeps known (Sound known) w)
        (fun _ => Keeps known (Sound known) w) w₁ :=
    wp_mono (dropRequest_ticks hk.sound) (fun _ _ ht => wp_answers takeDispatchableTasks_ticks
      (hk.trans ht.toKeeps) (he.trans ht.issued)) fun _ _ ht => hk.trans ht
  simp only [onWorkerEvent, super, DynamicStepFcfs.releaseTask, wp_bind, wp_ite, wp_zoom, wp_modify]
  split
  · rename_i he
    have hlog := WorkerEvent.entered_ended he hlog
    split
    · exact hdrop ⟨hreleased, .refl, fun _ hm => hm⟩ hlog
    · exact wp_answers takeDispatchableTasks_ticks ⟨hreleased, .refl, fun _ hm => hm⟩ hlog
  · rename_i he
    have hsame := WorkerEvent.entered_other he w.policy.accounts.log
    split
    · exact hdrop (.refl h) hsame
    · exact wp_answers takeDispatchableTasks_ticks (.refl h) hsame

end WaveStress

end GfDit
