import GfDit.Adapters.EveryStep
import GfDit.Policies.Exclusion

/-!
# Chunks and the segments of a step schedule

The compilers cut the steps into chunks without the policy's step schedule,
and the policy looks a chunk up by its first step. A chunk lies in the segment
it is looked up under when no segment ends inside it.
-/

namespace GfDit

open Prog

/-- A denoising chunk that the plan leaves to the policy. -/
def Unpinned (task : InferenceTask) : Prop := task.kind = .ditStepChunk ∧ task.groupId = none

/-- Where there is a schedule, a chunk's first step is looked up under an item
of the group. -/
def LookedUp (schedule : List StepScheduleItem) (task : InferenceTask) (groupId : String) : Prop :=
  schedule ≠ [] → ∃ range item, task.stepRange = some range ∧
    schedule.find? (fun item => item.covers range.start) = some item ∧ item.groupId = some groupId

/-- Where there is a schedule, a segment of the group holds all steps of a
chunk. -/
def InSegment (schedule : List StepScheduleItem) (task : InferenceTask) (groupId : String) : Prop :=
  schedule ≠ [] → ∃ range item, task.stepRange = some range ∧ item ∈ schedule ∧ item.groupId = some groupId ∧
    ∀ step, range.start ≤ step → step < range.stop → item.covers step = true

def dispatches (log : List AccountEntry) : List (InferenceTask × String) :=
  log.filterMap fun
    | .dispatched task groupId _ _ _ => some (task, groupId)
    | _ => none

theorem mem_dispatches : (task, groupId) ∈ dispatches log ↔ ∃ ranks outstanding held,
    AccountEntry.dispatched task groupId ranks outstanding held ∈ log := by
  unfold dispatches
  rw [List.mem_filterMap]
  constructor
  · rintro ⟨entry, hm, heq⟩
    cases entry with
    | dispatched t g ranks outstanding held =>
      cases heq
      exact ⟨ranks, outstanding, held, hm⟩
    | _ => cases heq
  · rintro ⟨ranks, outstanding, held, hm⟩
    exact ⟨_, hm, rfl⟩

namespace DynamicStepFcfs

variable {known : String → InferenceTask} {schedule : List StepScheduleItem}
  {w : World DynamicStepFcfs}

/-- A chunk's group is the one it was looked up under. -/
structure Segmented (known : String → InferenceTask) (schedule : List StepScheduleItem)
    (w : World DynamicStepFcfs) : Prop where
  schedule_eq : w.policy.ditStepSchedule = schedule
  placed : ∀ task groupId, known task.taskId = task → Unpinned task →
    w.tasks.groupId task = some groupId → LookedUp schedule task groupId
  queued : ∀ groupId queue, w.policy.groupReady.get? groupId = some queue → ∀ task ∈ queue,
    known task.taskId = task ∧ w.tasks.groupId task = some groupId
  reshards : ∀ task ∈ w.policy.reshardReady, known task.taskId = task ∧ task.kind = .reshard
  logged : ∀ task target ranks outstanding held,
    AccountEntry.dispatched task target ranks outstanding held ∈ w.policy.accounts.log →
    known task.taskId = task ∧ (Unpinned task → LookedUp schedule task target)

namespace Segmented

theorem setStatus (h : Segmented known schedule w) (hk : known task.taskId = task)
    (status : TaskStatus) : Segmented known schedule (w.setStatus task status) := by
  have hsame : ∀ other, known other.taskId = other →
      (w.setStatus task status).tasks.groupId other = w.tasks.groupId other := fun other ho =>
    TaskHeap.groupId_setStatus _ _ fun hid => by rw [← hk, hid, ho]
  exact {
    schedule_eq := h.schedule_eq
    placed := fun other groupId ho hu hg => h.placed other groupId ho hu (hsame other ho ▸ hg)
    queued := fun groupId queue hget other hm =>
      have hwait := h.queued groupId queue hget other hm
      ⟨hwait.1, (hsame other hwait.1).trans hwait.2⟩
    reshards := h.reshards
    logged := h.logged }

theorem waiting (h : Segmented known schedule w)
    (hm : task ∈ w.policy.groupReady.getD groupId []) :
    known task.taskId = task ∧ w.tasks.groupId task = some groupId := by
  unfold Dict.getD at hm
  cases hget : w.policy.groupReady.get? groupId with
  | none => simp [hget] at hm
  | some queue => exact h.queued groupId queue hget task (by simpa [hget] using hm)

end Segmented

theorem Segmented.enter (h : Segmented known schedule w) {entry : AccountEntry}
    (he : ∀ task target ranks outstanding held,
      entry ≠ .dispatched task target ranks outstanding held) {accounts : RankAccounts}
    (hlog : accounts.log = entry :: w.policy.accounts.log) :
    Segmented known schedule { w with policy := { w.policy with accounts := accounts } } :=
  { h with
    logged := fun task target ranks outstanding held hm => by
      have hm : _ ∈ accounts.log := hm
      rw [hlog] at hm
      rcases List.mem_cons.mp hm with heq | hm
      · exact absurd heq.symm (he task target ranks outstanding held)
      · exact h.logged _ _ _ _ _ hm }

theorem takeQueue_segmented (h : Segmented known schedule w)
    (hq : w.policy.groupReady.getD groupId [] = queue) :
    wp (takeQueue groupId ranks queue) (fun _ => Segmented known schedule)
      (fun _ => Segmented known schedule) w := by
  induction queue generalizing w with
  | nil => exact h
  | cons task rest ih =>
    simp only [takeQueue, wp_bind, wp_get, wp_ite, wp_modify, wp_pure]
    split
    · have hm : task ∈ w.policy.groupReady.getD groupId [] := by simp [hq]
      obtain ⟨hk, hg⟩ := h.waiting hm
      have h' := h.setStatus hk .dispatched
      refine ih ?_ (by simp [Dict.getD])
      refine { h' with queued := fun other queue hget t hm => ?_, logged := ?_ }
      · rw [Dict.get?_set] at hget
        split at hget
        · rename_i heq
          cases hget
          subst heq
          exact h'.waiting (by
            show t ∈ w.policy.groupReady.getD groupId []
            rw [hq]
            exact List.mem_cons_of_mem _ hm)
        · exact h'.queued other queue hget t hm
      · intro t target ranks outstanding held hm
        rcases List.mem_cons.mp hm with heq | hm
        · cases heq
          exact ⟨hk, fun hu => h.placed task groupId hk hu hg⟩
        · exact h.logged _ _ _ _ _ hm
    · exact h

theorem popEmpty_segmented (h : Segmented known schedule w) (groupId : String) :
    Segmented known schedule { w with policy := w.policy.popEmpty groupId } := by
  unfold DynamicStepFcfs.popEmpty
  split
  · refine { h with queued := fun other queue hget => ?_ }
    rw [Dict.get?_erase] at hget
    split at hget
    · cases hget
    · exact h.queued other queue hget
  · exact h

theorem takeGroups_segmented (h : Segmented known schedule w) (groups : List ExecutionGroupSpec) :
    wp (takeGroups groups) (fun _ => Segmented known schedule)
      (fun _ => Segmented known schedule) w := by
  induction groups generalizing w with
  | nil => exact h
  | cons group groups ih =>
    simp only [takeGroups, wp_bind, wp_get, wp_ite, wp_modify, wp_pure]
    split
    · exact ih h
    · refine wp_mono (takeQueue_segmented h rfl) (fun out w₁ h₁ => ?_) fun _ _ he => he
      exact wp_mono (ih (popEmpty_segmented h₁ group.groupId)) (fun _ _ h₂ => h₂) fun _ _ he => he

theorem takeReshards_segmented (h : Segmented known schedule w)
    (hq : w.policy.reshardReady = queue) :
    wp (takeReshards queue) (fun _ => Segmented known schedule)
      (fun _ => Segmented known schedule) w := by
  induction queue generalizing w with
  | nil => exact h
  | cons task rest ih =>
    simp only [takeReshards, reshardRanks, wp_bind, wp_get, wp_ite, wp_modify, wp_pure]
    split
    · refine wp_check (fun src _ => ?_) fun _ _ => h
      refine wp_check (fun dst _ => ?_) fun _ _ => h
      refine World.wp_getGroup (fun srcGroup _ => ?_) fun _ => h
      refine World.wp_getGroup (fun dstGroup _ => ?_) fun _ => h
      split
      · obtain ⟨hk, hr⟩ := h.reshards task (by simp [hq])
        have h' := h.setStatus hk .dispatched
        refine wp_mono (ih (w := { w.setStatus task .dispatched with policy := { w.policy with
          reshardReady := rest
          accounts := w.policy.accounts.dispatchReshard task src dst
            (sortedUnion srcGroup.ranks dstGroup.ranks) } }) ?_ rfl) (fun _ _ h₂ => h₂)
          fun _ _ he => he
        refine { h' with reshards := fun t hm => h.reshards t (by simp [hq, hm]), logged := ?_ }
        intro t target ranks outstanding held hm
        rcases List.mem_cons.mp hm with heq | hm
        · cases heq
          refine ⟨hk, ?_⟩
          rintro ⟨hgroup, -⟩
          rw [hr] at hgroup
          cases hgroup
        · exact h.logged _ _ _ _ _ hm
      · exact h
    · exact h

theorem takeDispatchableTasks_segmented (h : Segmented known schedule w) :
    wp takeDispatchableTasks (fun _ => Segmented known schedule)
      (fun _ => Segmented known schedule) w := by
  simp only [takeDispatchableTasks, wp_bind, wp_get, wp_pure]
  refine wp_mono (takeReshards_segmented h rfl) (fun _ w₁ h₁ => ?_) fun _ _ he => he
  exact wp_mono (takeGroups_segmented h₁ _) (fun _ _ h₂ => h₂) fun _ _ he => he

/-- A chunk that gets its group from the policy is looked up by its first
step. -/
theorem lookedUp_of_select (hs : w.policy.ditStepSchedule = schedule)
    (hu : Unpinned task) (h : w.policy.selectGroupForTask task = .ok (some groupId)) :
    LookedUp schedule task groupId := by
  intro hne
  subst hs
  unfold selectGroupForTask at h
  rw [if_pos ⟨hu.1, hne⟩] at h
  split at h
  · cases h
  · rename_i range hrange
    split at h
    · cases h
    · rename_i item hitem
      split at h
      · rename_i found hfound
        cases h
        exact ⟨range, item, hrange, hitem, hfound⟩
      · cases h

theorem assignGroup_segmented (h : Segmented known schedule w)
    (hk : known task.taskId = task) :
    wp (assignGroup task) (fun _ => Segmented known schedule)
      (fun _ => Segmented known schedule) w := by
  simp only [assignGroup, wp_bind, wp_get, wp_ite, wp_modify, wp_pure]
  split
  · rename_i hn
    refine wp_check (fun groupId hselect => ?_) fun _ _ => h
    have hother : ∀ other, known other.taskId = other → other ≠ task →
        (w.setGroupId task groupId).tasks.groupId other = w.tasks.groupId other := by
      intro other ho hot
      exact TaskHeap.groupId_setGroupId_ne _ _ fun hid => hot (by rw [← ho, ← hid, hk])
    refine { h with placed := fun other g ho hu hg => ?_, queued := fun g queue hget t hm => ?_ }
    · by_cases heq : other = task
      · subst heq
        have hsame : (w.setGroupId other groupId).tasks.groupId other = groupId :=
          TaskHeap.groupId_setGroupId _ _
        rw [hsame] at hg
        exact lookedUp_of_select h.schedule_eq hu (hg ▸ hselect)
      · exact h.placed other g ho hu (hother other ho heq ▸ hg)
    · obtain ⟨hkt, hgt⟩ := h.queued g queue hget t hm
      refine ⟨hkt, ?_⟩
      rw [hother t hkt fun heq => by rw [heq, hn] at hgt; cases hgt]
      exact hgt
  · exact h

theorem enqueue_segmented (h : Segmented known schedule w) (hk : known task.taskId = task) :
    Segmented known schedule
      { w with policy := w.policy.enqueue task (w.tasks.groupId task) } := by
  unfold DynamicStepFcfs.enqueue
  split
  · rename_i hkind
    refine { h with reshards := fun t hm => ?_ }
    rcases List.mem_append.mp hm with hm | hm
    · exact h.reshards t hm
    · rw [List.mem_singleton.mp hm]
      exact ⟨hk, hkind⟩
  · rename_i g hg _
    refine { h with queued := fun other queue hget t hm => ?_ }
    rw [Dict.get?_set] at hget
    split at hget
    · rename_i heq
      subst heq
      cases hget
      rcases List.mem_append.mp hm with hm | hm
      · exact h.waiting hm
      · rw [List.mem_singleton.mp hm]
        exact ⟨hk, by assumption⟩
    · exact h.queued other queue hget t hm
  · exact h

theorem enqueueRunnable_segmented (h : Segmented known schedule w)
    (hk : known task.taskId = task) :
    wp (enqueueRunnable task) (fun _ => Segmented known schedule)
      (fun _ => Segmented known schedule) w := by
  simp only [enqueueRunnable, wp_bind, wp_get, wp_modify]
  refine wp_mono (assignGroup_segmented h hk) (fun _ w₁ h₁ => ?_) fun _ _ he => he
  refine wp_check (fun _ _ => ?_) fun _ _ => h₁
  exact (enqueue_segmented h₁ hk).setStatus hk .ready

theorem onTasksRunnable_segmented (h : Segmented known schedule w)
    (hk : ∀ task ∈ tasks, known task.taskId = task) :
    wp (onTasksRunnable tasks) (fun _ => Segmented known schedule)
      (fun _ => Segmented known schedule) w := by
  simp only [onTasksRunnable, wp_bind]
  refine wp_mono (wp_forM (I := Segmented known schedule) (fun task hm w₁ h₁ => ?_) h)
    (fun _ w₁ h₁ => takeDispatchableTasks_segmented h₁) fun _ _ he => he
  exact enqueueRunnable_segmented h₁ (hk task hm)

theorem onWorkerEvent_segmented (h : Segmented known schedule w) (event : WorkerEvent) :
    wp (onWorkerEvent event) (fun _ => Segmented known schedule)
      (fun _ => Segmented known schedule) w := by
  have hreleased : Segmented known schedule { w with policy := { w.policy with
      accounts := w.policy.accounts.releaseTask event.taskId } } :=
    h.enter (by simp) (w.policy.accounts.releaseTask_log event.taskId)
  have hdropped : ∀ {w : World DynamicStepFcfs}, Segmented known schedule w →
      Segmented known schedule { w with policy := w.policy.dropRequest event.requestId } := by
    intro w h
    refine { h with queued := fun groupId queue hget task hm => ?_, reshards := fun task hm => ?_ }
    · obtain ⟨before, hb, hs⟩ := foldl_dropFromQueues_subset hget
      exact h.queued groupId before hb task (hs hm)
    · exact h.reshards task (List.mem_of_mem_filter hm)
  simp only [onWorkerEvent, DynamicStepFcfs.releaseTask, wp_bind, wp_ite, wp_modify]
  split
  · split
    · exact takeDispatchableTasks_segmented (hdropped hreleased)
    · exact takeDispatchableTasks_segmented hreleased
  · split
    · exact takeDispatchableTasks_segmented (hdropped h)
    · exact takeDispatchableTasks_segmented h

theorem call_segmented {catalog : Catalog} (h : Segmented catalog.task schedule w)
    {call : PolicyCall} (hf : call.Fits catalog w.policy.accounts.log) :
    Segmented catalog.task schedule (after (call.run DynamicStepFcfs.policy) w) := by
  refine after_of_wp ?_
  cases call with
  | submitted plan =>
    exact (wp_map ..).mpr (onTasksRunnable_segmented h fun task hm =>
      hf task (List.mem_of_mem_filter hm))
  | runnable tasks => exact (wp_map ..).mpr (onTasksRunnable_segmented h hf)
  | event e => exact (wp_map ..).mpr (onWorkerEvent_segmented h e)
  | acquire ranks => exact h.enter (by simp) rfl
  | release ranks => exact h.enter (by simp) rfl
  | status task status => exact h.setStatus hf status
  | clock clockNs => exact { h with }

theorem start_segmented (catalog : Catalog) (schedule : List StepScheduleItem)
    (ht : w.tasks = ∅) (hp : w.policy = .init ids schedule) :
    Segmented catalog.task schedule w where
  schedule_eq := by rw [hp]; rfl
  placed := fun task groupId _ hu hg => by
    rw [ht] at hg
    have hnone : task.groupId = some groupId := hg
    rw [hu.2] at hnone
    cases hnone
  queued := by simp [hp, DynamicStepFcfs.init]
  reshards := by simp [hp, DynamicStepFcfs.init]
  logged := by simp [hp, DynamicStepFcfs.init, RankAccounts.init]

/-- The schedule never changes, and every chunk is where it was looked up. -/
theorem reach_segmented {catalog : Catalog} {topology : RuntimeTopology}
    {w : World RankPolicy.dynamicStepFcfs.State}
    (h : RankPolicy.dynamicStepFcfs.Reach catalog topology w) :
    ∃ schedule, Segmented catalog.task schedule w := by
  induction h with
  | start hstart =>
    obtain ⟨ht, -, ids, schedule, hp⟩ := hstart
    exact ⟨schedule, start_segmented catalog schedule ht hp⟩
  | call call _ hf ih =>
    obtain ⟨schedule, h⟩ := ih
    exact ⟨schedule, call_segmented h hf⟩

end DynamicStepFcfs

-- ---------------------------------------------------------------------------
-- The grid of a plan and the segments
-- ---------------------------------------------------------------------------

/-- No segment ends inside a chunk: what is scheduled for the first step of a
chunk is scheduled for all of it. -/
def Aligned (schedule : List StepScheduleItem) (size last : Nat) : Prop :=
  ∀ k, k * size < last → ∀ item groupId,
    schedule.find? (fun item => item.covers (k * size)) = some item → item.groupId = some groupId →
    ∃ item' ∈ schedule, item'.groupId = some groupId ∧
      ∀ step, k * size ≤ step → step < min ((k + 1) * size) last → item'.covers step = true

theorem Grid.of_mem {ranges : List StepRange} {i : Nat} (h : Grid size last (i * size) ranges)
    (hm : range ∈ ranges) :
    ∃ k, range.start = k * size ∧ range.stop = min ((k + 1) * size) last := by
  induction ranges generalizing i with
  | nil => cases hm
  | cons head ranges ih =>
    obtain ⟨hstart, hstop, hrest⟩ := h
    have hnext : i * size + size = (i + 1) * size := (Nat.succ_mul i size).symm
    rw [hnext] at hstop
    rcases List.mem_cons.mp hm with rfl | hm
    · exact ⟨i, hstart, hstop⟩
    · rcases Nat.lt_or_ge ((i + 1) * size) last with hmore | hend
      · rw [hstop, Nat.min_eq_left hmore.le] at hrest
        exact ih hrest hm
      · rw [hstop, Nat.min_eq_right hend] at hrest
        -- nothing follows a range that reaches the end
        cases ranges with
        | nil => cases hm
        | cons next ranges =>
          obtain ⟨hstart', hstop', -⟩ := hrest
          have := next.nonempty
          omega

inductive CompiledPlan (plan : RequestExecutionPlan) : Nat → Nat → Prop
  | wan (f : Nat → Nat → Nat) (compiler : Wan.TaskCompiler) (request : RuntimeRequest) :
    Wan.compileRequest f compiler request = .ok plan →
    CompiledPlan plan request.denoiseChunkSize
      (Wan.numStepsOf request.diffusionRequest.samplingParams).toNat
  | qwenImage (f : Nat → Nat → Nat) (request : RuntimeRequest) :
    QwenImage.compileRequest f request = .ok plan →
    CompiledPlan plan request.denoiseChunkSize
      (QwenImage.numStepsOf request.diffusionRequest.samplingParams).toNat

theorem ChunkedDitPlanArgs.UniformPlan.chunk_mem {args : ChunkedDitPlanArgs}
    (h : args.UniformPlan plan chunks lastChunk) (hm : task ∈ plan.tasks.values)
    (hk : task.kind = .ditStepChunk) : task ∈ chunks := by
  have hchain := h.chain.tasks.mem_iff.mp hm
  rw [← h.chunksOf_eq]
  exact List.mem_filter.mpr ⟨hchain, decide_eq_true hk⟩

theorem CompiledPlan.chunk_range (h : CompiledPlan plan size last) (hm : task ∈ plan.tasks.values)
    (hk : task.kind = .ditStepChunk) : ∃ range k, task.stepRange = some range ∧
      range.start = k * size ∧ range.stop = min ((k + 1) * size) last := by
  have hgrid : ∀ {args : ChunkedDitPlanArgs} {chunks lastChunk},
      args.UniformPlan plan chunks lastChunk → args.chunkSize = size → args.numSteps = last →
      ∃ range k, task.stepRange = some range ∧
        range.start = k * size ∧ range.stop = min ((k + 1) * size) last := by
    intro args chunks lastChunk hu hsize hlast
    have hchunk := hu.chunk_mem hm hk
    obtain ⟨range, hrange⟩ := (hu.plain task hchunk).range
    have hu' := hu.grid
    rw [hsize, hlast, ← Nat.zero_mul size] at hu'
    obtain ⟨k, hstart, hstop⟩ := hu'.of_mem (List.mem_filterMap.mpr ⟨task, hchunk, hrange⟩)
    exact ⟨range, k, hrange, hstart, hstop⟩
  cases h with
  | wan f compiler request hplan =>
    obtain ⟨prompt, -, -, -, chunks, lastChunk, hu⟩ := Wan.compileRequest_ok hplan
    exact hgrid hu rfl rfl
  | qwenImage f request hplan =>
    obtain ⟨prompt, -, -, -, chunks, lastChunk, hu⟩ := QwenImage.compileRequest_ok hplan
    exact hgrid hu rfl rfl

/-- What is looked up by its first step lies in the segment, on an aligned
grid. -/
theorem Aligned.inSegment (h : Aligned schedule size last) (hl : LookedUp schedule task groupId)
    (hrange : task.stepRange = some range) (hstart : range.start = k * size)
    (hstop : range.stop = min ((k + 1) * size) last) : InSegment schedule task groupId := by
  intro hne
  obtain ⟨range', item, hrange', hfind, hgroup⟩ := hl hne
  cases hrange.symm.trans hrange'
  have hlast : k * size < last := by
    have := range.nonempty
    omega
  rw [hstart] at hfind
  obtain ⟨item', hm, hgroup', hcovers⟩ := h k hlast item groupId hfind hgroup
  refine ⟨range, item', hrange, hm, hgroup', fun step hle hlt => hcovers step ?_ ?_⟩
  · omega
  · omega

/-- Where the chunks of the requests that are not pinned are aligned with the
policy's schedule, every one that it has dispatched lies in a segment of its
group. -/
theorem chunks_in_segments (catalog : Catalog) (topology : RuntimeTopology)
    (w : World DynamicStepFcfs)
    (hcompiled : ∀ taskId, Unpinned (catalog.task taskId) → ∃ plan size last,
      CompiledPlan plan size last ∧ catalog.task taskId ∈ plan.tasks.values ∧
        Aligned w.policy.ditStepSchedule size last)
    (h : RankPolicy.dynamicStepFcfs.Reach catalog topology w) :
    ∀ task groupId, (task, groupId) ∈ dispatches w.policy.accounts.log → Unpinned task →
      InSegment w.policy.ditStepSchedule task groupId := by
  intro task groupId hm hu
  obtain ⟨schedule, hs⟩ := DynamicStepFcfs.reach_segmented h
  obtain ⟨ranks, outstanding, held, hm⟩ := mem_dispatches.mp hm
  obtain ⟨hk, hl⟩ := hs.logged _ _ _ _ _ hm
  rw [hs.schedule_eq] at hcompiled ⊢
  obtain ⟨plan, size, last, hplan, hmem, haligned⟩ := hcompiled task.taskId (by rwa [hk])
  rw [hk] at hmem
  obtain ⟨range, k, hrange, hstart, hstop⟩ := hplan.chunk_range hmem hu.1
  exact haligned.inSegment (hl hu) hrange hstart hstop

-- ---------------------------------------------------------------------------
-- Four steps in chunks of two
-- ---------------------------------------------------------------------------

def secondChunk : InferenceTask :=
  (Wan.planArgs smallWanCompiler (stepsRequest none) (.text "a cat")).chunkTask
    (fun seqLen _ => seqLen)
    ⟨"r:dit_step_chunk:0", ⟨"r", "state_denoised_0", some Wan.stateCodecId⟩, none, 1, 2⟩ none
    ⟨2, 4, by decide⟩

theorem secondChunk_compiled :
    ∃ plan, CompiledPlan plan 2 4 ∧ secondChunk ∈ plan.tasks.values := by
  have hdecide : ((Wan.compileRequest (fun seqLen _ => seqLen) smallWanCompiler
      (stepsRequest none)).toOption.map fun plan => decide (secondChunk ∈ plan.tasks.values)) =
      some true := by decide +kernel
  cases hplan : Wan.compileRequest (fun seqLen _ => seqLen) smallWanCompiler (stepsRequest none) with
  | error e =>
    rw [hplan] at hdecide
    cases hdecide
  | ok plan =>
    rw [hplan] at hdecide
    exact ⟨plan, .wan _ _ _ hplan, of_decide_eq_true (Option.some.inj hdecide)⟩

def chunkCatalog : Catalog := ⟨fun _ => secondChunk, fun _ h => nomatch h⟩

def chunkGroup (groupId : String) (rank : Rank) : ExecutionGroupSpec :=
  soloSpec groupId rank [.ditStepChunk]

def chunkTopology : RuntimeTopology :=
  ⟨[0, 1], [chunkGroup "a" 0, chunkGroup "b" 1], two_workers, by decide, by decide⟩

def switchAt (step : Int) : List StepScheduleItem :=
  [⟨0, some step, some "a"⟩, ⟨step, none, some "b"⟩]

def chunkDispatched (step : Int) : World DynamicStepFcfs :=
  after ((PolicyCall.runnable [secondChunk]).run DynamicStepFcfs.policy)
    ⟨chunkTopology, ∅, 0, .init none (switchAt step)⟩

theorem chunkDispatched_reach (step : Int) :
    RankPolicy.dynamicStepFcfs.Reach chunkCatalog chunkTopology (chunkDispatched step) := by
  refine .call (.runnable [secondChunk]) (.start ⟨rfl, rfl, none, switchAt step, rfl⟩) ?_
  intro task hm
  rw [List.mem_singleton.mp hm]
  rfl

/-- A switch between the two chunks. -/
theorem chunks_in_segments_switch : (secondChunk, "b") ∈
      dispatches (chunkDispatched 2).policy.accounts.log ∧
    ∀ task groupId, (task, groupId) ∈ dispatches (chunkDispatched 2).policy.accounts.log →
      Unpinned task → InSegment (chunkDispatched 2).policy.ditStepSchedule task groupId := by
  have haligned : Aligned (switchAt 2) 2 4 := by
    intro k hk item groupId hfind hgroup
    have hcases : k = 0 ∨ k = 1 := by omega
    rcases hcases with rfl | rfl
    · cases hfind
      refine ⟨_, List.mem_cons_self .., hgroup, fun step _ hlt => ?_⟩
      simp [StepScheduleItem.covers]
      omega
    · cases hfind
      refine ⟨_, List.mem_cons_of_mem _ (List.mem_cons_self ..), hgroup, fun step hle _ => ?_⟩
      simp [StepScheduleItem.covers]
      omega
  have hpolicy : (chunkDispatched 2).policy.ditStepSchedule = switchAt 2 := rfl
  refine ⟨by decide +kernel, chunks_in_segments chunkCatalog chunkTopology _ (fun taskId _ => ?_)
    (chunkDispatched_reach 2)⟩
  obtain ⟨plan, hplan, hmem⟩ := secondChunk_compiled
  exact ⟨plan, 2, 4, hplan, hmem, hpolicy ▸ haligned⟩

/-- A switch after three steps: the second chunk has one step on either side. -/
theorem chunk_across_switch :
    ¬ ∀ (catalog : Catalog) (topology : RuntimeTopology) (w : World DynamicStepFcfs),
      (∀ taskId, (catalog.task taskId).kind = .ditStepChunk → ∃ plan size last,
        CompiledPlan plan size last ∧ catalog.task taskId ∈ plan.tasks.values) →
      RankPolicy.dynamicStepFcfs.Reach catalog topology w →
      ∀ task groupId, (task, groupId) ∈ dispatches w.policy.accounts.log → Unpinned task →
        InSegment w.policy.ditStepSchedule task groupId := by
  intro h
  have hcompiled : ∀ taskId, (chunkCatalog.task taskId).kind = .ditStepChunk → ∃ plan size last,
      CompiledPlan plan size last ∧ chunkCatalog.task taskId ∈ plan.tasks.values := fun _ _ => by
    obtain ⟨plan, hplan, hmem⟩ := secondChunk_compiled
    exact ⟨plan, 2, 4, hplan, hmem⟩
  have hseg := h chunkCatalog chunkTopology (chunkDispatched 3) hcompiled (chunkDispatched_reach 3)
    secondChunk "a" (by decide +kernel) ⟨rfl, rfl⟩
  obtain ⟨range, item, hrange, hitem, hgroup, hcovers⟩ := hseg (by decide +kernel)
  have hitem : item ∈ switchAt 3 := hitem
  cases hrange
  have hlast := hcovers 3 (by decide) (by decide)
  simp only [switchAt, List.mem_cons, List.not_mem_nil, or_false] at hitem
  rcases hitem with rfl | rfl
  · exact absurd hlast (by decide)
  · exact absurd (Option.some.inj hgroup) (by decide)

end GfDit
