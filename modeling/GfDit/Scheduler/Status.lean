import GfDit.Scheduler.Finish

/-!
# The status of a request

The status is read off two maps, of failed requests and of completed outputs;
five entry points write them, and a clean-up forgets the rest of a request
while its events may still come. A request enters one of the two maps at most
once, and what it finds there stays until it is released.
-/

namespace GfDit

open History Agenda

-- ---------------------------------------------------------------------------
-- Finished tasks
-- ---------------------------------------------------------------------------

def finishedTasks (heap : TaskHeap) : List String :=
  (heap.entries.filter fun entry => entry.2.status = .finished).map Prod.fst

theorem mem_finishedTasks {heap : TaskHeap} :
    taskId ∈ finishedTasks heap ↔
      ∃ fields, heap.get? taskId = some fields ∧ fields.status = .finished := by
  unfold finishedTasks
  rw [List.mem_map]
  constructor
  · rintro ⟨⟨id, fields⟩, hm, rfl⟩
    obtain ⟨hm, hs⟩ := List.mem_filter.mp hm
    exact ⟨fields, heap.get?_eq_some.mpr hm, by simpa using hs⟩
  · rintro ⟨fields, hget, hs⟩
    exact ⟨(taskId, fields), List.mem_filter.mpr ⟨heap.get?_eq_some.mp hget, by simpa using hs⟩, rfl⟩

theorem mem_finishedTasks_setStatus {heap : TaskHeap} {task : InferenceTask}
    (h : taskId ∈ finishedTasks (heap.setStatus task status)) :
    taskId = task.taskId ∧ status = .finished ∨ taskId ∈ finishedTasks heap := by
  obtain ⟨fields, hget, hs⟩ := mem_finishedTasks.mp h
  unfold TaskHeap.setStatus at hget
  rw [Dict.get?_set] at hget
  split at hget
  · rename_i heq
    cases hget
    exact .inl ⟨heq.symm, hs⟩
  · exact .inr (mem_finishedTasks.mpr ⟨fields, hget, hs⟩)

/-- A task that was made unfinished and reads finished was marked so. -/
theorem mem_finishedTasks_of_status {heap : TaskHeap} {task : InferenceTask}
    (h : heap.status task = .finished) (hn : task.status ≠ .finished) :
    task.taskId ∈ finishedTasks heap := by
  unfold TaskHeap.status TaskHeap.fields at h
  cases hget : heap.get? task.taskId with
  | none => exact absurd (by simpa [hget] using h) hn
  | some fields => exact mem_finishedTasks.mpr ⟨fields, hget, by simpa [hget] using h⟩

def SchedulerEntry.marks : SchedulerEntry → List String
  | .asked _ _ before after => (finishedTasks after).filter (· ∉ finishedTasks before)
  | _ => []

/-- The policy marks no task finished. -/
def MarksNone (entries : List SchedulerEntry) : Prop := ∀ entry ∈ entries, entry.marks = []

instance (entries : List SchedulerEntry) : Decidable (MarksNone entries) :=
  inferInstanceAs (Decidable (∀ entry ∈ entries, entry.marks = []))

theorem MarksNone.asked (h : MarksNone (.asked question out before after :: earlier)) :
    ∀ taskId ∈ finishedTasks after, taskId ∈ finishedTasks before := by
  have hm := h _ (List.mem_cons_self ..)
  simpa [SchedulerEntry.marks, List.filter_eq_nil_iff] using hm

/-- No task is finished when its plan is made. -/
def Unfinished (load : Workload) : Prop :=
  ∀ requestId, ∀ task ∈ (load.plan requestId).tasks.values, task.status ≠ .finished

namespace Scheduler

variable {σ : Type} {rt : Runtime σ} {load : Workload}

-- ---------------------------------------------------------------------------
-- Stable statuses
-- ---------------------------------------------------------------------------

/-- The status that the two maps give. -/
def statusOf (s : Scheduler σ) (requestId : String) : RequestStatus :=
  match s.failedRequests.get? requestId, s.completedOutputs.get? requestId with
  | some message, _ => .failed message
  | none, some output => .finished output
  | none, none => .pending

structure Kept (requestId : String) (s s' : Scheduler σ) : Prop where
  failed : ∀ message, s.failedRequests.get? requestId = some message →
    s'.failedRequests.get? requestId = some message
  completed : ∀ output, s.completedOutputs.get? requestId = some output →
    s'.completedOutputs.get? requestId = some output

namespace Kept

variable {s s' : Scheduler σ}

theorem of_eq (hf : s'.failedRequests = s.failedRequests)
    (hc : s'.completedOutputs = s.completedOutputs) : Kept requestId s s' where
  failed := fun _ h => by rwa [hf]
  completed := fun _ h => by rwa [hc]

theorem trans {s'' : Scheduler σ} (h : Kept requestId s s') (h' : Kept requestId s' s'') :
    Kept requestId s s'' where
  failed := fun message hm => h'.failed message (h.failed message hm)
  completed := fun output ho => h'.completed output (h.completed output ho)

theorem failRequest (requestId other message : String) (s : Scheduler σ) :
    Kept requestId s (s.failRequest other message) := by
  unfold Scheduler.failRequest
  split
  · exact .of_eq rfl rfl
  · rename_i hn
    refine ⟨fun m hm => ?_, fun _ h => h⟩
    rw [Dict.get?_set_ne _ fun heq => hn ?_]
    · exact hm
    · rw [heq]
      simp [Dict.contains, hm]

theorem completeOutput {other : String} (value : HostValue)
    (hn : s.completedOutputs.get? other = none) :
    Kept requestId s (s.completeOutput other value) where
  failed := fun _ h => by simpa [Scheduler.completeOutput] using h
  completed := fun output ho => by
    simp only [Scheduler.completeOutput, cleanup_completedOutputs]
    rw [Dict.get?_set_ne _ fun heq => ?_]
    · exact ho
    · rw [← heq, hn] at ho
      cases ho

theorem releaseRequest {other : String} (hne : other ≠ requestId) :
    Kept requestId s (s.releaseRequest other) where
  failed := fun _ h => by simpa [Scheduler.releaseRequest, Dict.get?_erase_ne _ hne] using h
  completed := fun _ h => by simpa [Scheduler.releaseRequest, Dict.get?_erase_ne _ hne] using h

theorem occasion (ho : Occasion d s question d' s') : Kept requestId s s' := by
  cases ho with
  | failed =>
    refine .trans ?_ (.failRequest ..)
    exact .of_eq rfl rfl
  | _ => exact .of_eq rfl rfl

/-- Every move but the release of the request. -/
theorem move (hn : .release requestId ∉ d) (hm : Move rt load d s d' s') :
    Kept requestId s s' := by
  cases hm with
  | asked ho => exact .trans (.occasion ho) (.of_eq rfl rfl)
  | failedRequest => exact .failRequest ..
  | cleaned => exact .of_eq (by simp) (by simp)
  | completed _ _ _ hc => exact .completeOutput _ hc
  | fetched _ _ hc =>
    refine .trans ?_ (.completeOutput _ ?_)
    · exact .of_eq rfl rfl
    · exact hc
  | notFetched =>
    refine .trans (.trans ?_ (.failRequest ..)) (.of_eq (cleanup_failedRequests ..)
      (cleanup_completedOutputs ..))
    exact .of_eq rfl rfl
  | released => exact .releaseRequest fun heq => hn (heq ▸ List.mem_cons_self ..)
  | _ => exact .of_eq rfl rfl

theorem stop (hs : Stop rt d s s') : Kept requestId s s' := by
  cases hs with
  | asked ho => exact .trans (.occasion ho) (.of_eq rfl rfl)
  | _ => exact .of_eq rfl rfl

theorem invariant (rt : Runtime σ) (load : Workload) (requestId : String) (start : Scheduler σ) :
    Invariant (machine rt load) fun d s => .release requestId ∉ d ∧ Kept requestId start s where
  move := by
    rintro d s d' s' ⟨hn, hk⟩ hm
    refine ⟨fun hd => ?_, hk.trans (.move hn hm)⟩
    rcases Move.mem_outside hm hd rfl with hd | ⟨_, ⟨⟩, -⟩
    exact hn hd
  stop := by
    rintro d s s' ⟨-, hk⟩ hs
    exact ⟨List.not_mem_nil, hk.trans (.stop hs)⟩

theorem step (rt : Runtime σ) {step : Step} (hb : Base load s) (hf : step.Fits s)
    (hr : step ≠ .release requestId) :
    Kept requestId s (Prog.after (step.run rt load) s) := by
  have hstart : .release requestId ∉ step.duties := by
    cases step with
    | release other =>
      simp only [Step.duties, List.mem_singleton, Duty.release.injEq]
      exact fun heq => hr (by rw [heq])
    | _ => simp [Step.duties]
  have h := (Kept.invariant rt load requestId s).wp (does_step hb hf) ⟨hstart, .of_eq rfl rfl⟩
  exact (Prog.after_of_wp (I := fun s' => .release requestId ∉ ([] : List Duty) ∧
    Kept requestId s s') h).2

end Kept

-- ---------------------------------------------------------------------------
-- What a status rests on
-- ---------------------------------------------------------------------------

def AllEnded (load : Workload) (requestId : String) (entries : List SchedulerEntry) : Prop :=
  ∀ taskId ∈ (load.plan requestId).terminalTaskIds, ExecEnded taskId entries

def NoneFailed (load : Workload) (requestId : String) (s : Scheduler σ) : Prop :=
  ∀ task, load.Has task → task.requestId = requestId → task.taskId ∉ s.failedTasks

/-- What the completion of a request says of it. -/
structure Completed (load : Workload) (requestId : String) (s : Scheduler σ) : Prop where
  accepted : .accepted (load.plan requestId) ∈ s.log
  cleaned : requestId ∈ s.cleanedRequests
  notFailed : s.failedRequests.get? requestId = none
  ended : AllEnded load requestId s.log
  noneFailed : NoneFailed load requestId s

structure Statuses (load : Workload) (s : Scheduler σ) : Prop where
  marked : ∀ taskId ∈ finishedTasks s.world.tasks, ExecEnded taskId s.log
  fetching : ∀ requestId, (s.pendingOutputFetches.get? requestId).isSome = true →
    AllEnded load requestId s.log
  completed : ∀ requestId output, s.completedOutputs.get? requestId = some output →
    Completed load requestId s
  failed : ∀ requestId message, s.failedRequests.get? requestId = some message →
    .accepted (load.plan requestId) ∈ s.log
  failedTasks : ∀ task, load.Has task → task.taskId ∈ s.failedTasks →
    (s.failedRequests.get? task.requestId).isSome = true ∨ task.requestId ∈ s.cleanedRequests

namespace Statuses

variable {s s' : Scheduler σ}

theorem init (hw : w.tasks = ∅) : Statuses load (.init w : Scheduler σ) where
  marked := by simp [Scheduler.init, hw, finishedTasks]
  fetching := fun _ h => by cases h
  completed := fun _ _ h => by cases h
  failed := fun _ _ h => by cases h
  failedTasks := fun _ _ h => by cases h

theorem frame (h : Statuses load s) (hlog : s.log <:+ s'.log)
    (hmarked : ∀ taskId ∈ finishedTasks s'.world.tasks, ExecEnded taskId s'.log)
    (hfetch : ∀ requestId, (s'.pendingOutputFetches.get? requestId).isSome = true →
      (s.pendingOutputFetches.get? requestId).isSome = true)
    (hdone : s'.completedOutputs = s.completedOutputs)
    (hfailed : s'.failedRequests = s.failedRequests) (htasks : s'.failedTasks = s.failedTasks)
    (hcleaned : ∀ requestId ∈ s.cleanedRequests, requestId ∈ s'.cleanedRequests) :
    Statuses load s' where
  marked := hmarked
  fetching requestId hf taskId ht := (h.fetching requestId (hfetch requestId hf) taskId ht).mono hlog
  completed requestId output ho := by
    rw [hdone] at ho
    obtain ⟨hacc, hc, hn, hall, hnone⟩ := h.completed requestId output ho
    refine ⟨hlog.subset hacc, hcleaned _ hc, by rwa [hfailed],
      fun taskId ht => (hall taskId ht).mono hlog, ?_⟩
    unfold NoneFailed
    rwa [htasks]
  failed requestId message hm := by
    rw [hfailed] at hm
    exact hlog.subset (h.failed requestId message hm)
  failedTasks task hh ht := by
    rw [htasks] at ht
    rw [hfailed]
    exact (h.failedTasks task hh ht).imp id (hcleaned _)

theorem of_eq (h : Statuses load s) (hlog : s.log <:+ s'.log)
    (hworld : s'.world.tasks = s.world.tasks)
    (hfetch : s'.pendingOutputFetches = s.pendingOutputFetches)
    (hdone : s'.completedOutputs = s.completedOutputs)
    (hfailed : s'.failedRequests = s.failedRequests) (htasks : s'.failedTasks = s.failedTasks)
    (hcleaned : s'.cleanedRequests = s.cleanedRequests) : Statuses load s' := by
  refine h.frame hlog (fun taskId ht => ?_) (fun requestId hf => by rwa [← hfetch]) hdone hfailed
    htasks fun requestId hc => by rwa [hcleaned]
  rw [hworld] at ht
  exact (h.marked taskId ht).mono hlog

theorem setStatus (h : Statuses load s) (task : InferenceTask) (hs : status ≠ .finished) :
    Statuses load (s.setStatus task status) := by
  refine h.frame List.suffix_rfl (fun taskId ht => ?_) (fun _ hf => hf) rfl rfl rfl fun _ hc => hc
  rcases mem_finishedTasks_setStatus ht with ⟨-, hfin⟩ | ht
  · exact absurd hfin hs
  · exact h.marked taskId ht

theorem cleanup (h : Statuses load s) (requestId : String) :
    Statuses load (s.cleanupRequestWorkerState requestId) := by
  refine h.frame (Quiet.cleanup ..).suffix (fun taskId ht => ?_)
    (fun _ hf => cleanup_fetches _ _ hf) (by simp) (by simp) (by simp)
    fun other hc => (mem_cleanup_cleaned ..).mpr (.inr hc)
  rw [cleanup_world] at ht
  exact (h.marked taskId ht).mono (Quiet.cleanup ..).suffix

theorem fail (h : Statuses load s) (hlog : s.log <:+ s'.log)
    (hacc : .accepted (load.plan requestId) ∈ s.log) (hc : requestId ∉ s.cleanedRequests)
    (hmarked : ∀ taskId ∈ finishedTasks s'.world.tasks, taskId ∈ finishedTasks s.world.tasks)
    (hfetch : ∀ requestId, (s'.pendingOutputFetches.get? requestId).isSome = true →
      (s.pendingOutputFetches.get? requestId).isSome = true)
    (hdone : s'.completedOutputs = s.completedOutputs)
    (hself : (s'.failedRequests.get? requestId).isSome = true)
    (hother : ∀ other, requestId ≠ other →
      s'.failedRequests.get? other = s.failedRequests.get? other)
    (htasks : ∀ task, load.Has task → task.taskId ∈ s'.failedTasks →
      task.taskId ∈ s.failedTasks ∨ task.requestId = requestId)
    (hcleaned : s'.cleanedRequests = s.cleanedRequests) : Statuses load s' where
  marked taskId ht := (h.marked taskId (hmarked taskId ht)).mono hlog
  fetching other hf taskId ht := (h.fetching other (hfetch other hf) taskId ht).mono hlog
  completed other output ho := by
    rw [hdone] at ho
    obtain ⟨hacco, hclean, hn, hall, hnone⟩ := h.completed other output ho
    have hne : requestId ≠ other := fun heq => hc (heq ▸ hclean)
    refine ⟨hlog.subset hacco, by rwa [hcleaned], by rwa [hother other hne],
      fun taskId ht => (hall taskId ht).mono hlog, fun task hh hr ht => ?_⟩
    rcases htasks task hh ht with ht | ht
    · exact hnone task hh hr ht
    · exact hne (ht.symm.trans hr)
  failed other message hm := by
    by_cases heq : requestId = other
    · exact hlog.subset (heq ▸ hacc)
    · rw [hother other heq] at hm
      exact hlog.subset (h.failed other message hm)
  failedTasks task hh ht := by
    by_cases heq : requestId = task.requestId
    · exact .inl (heq ▸ hself)
    · rw [hother _ heq, hcleaned]
      rcases htasks task hh ht with ht | ht
      · exact h.failedTasks task hh ht
      · exact absurd ht.symm heq

theorem failRequest (h : Statuses load s) (hacc : .accepted (load.plan requestId) ∈ s.log)
    (hc : requestId ∉ s.cleanedRequests) (message : String) :
    Statuses load (s.failRequest requestId message) :=
  h.fail (Quiet.failRequest ..).suffix hacc hc (by simp) (by simp) (by simp)
    (failRequest_get?_self ..) (fun _ hne => failRequest_get?_ne _ _ _ hne)
    (fun _ _ ht => .inl (by simpa using ht)) (by simp)

theorem markFailed (h : Statuses load s) (hb : Base load s)
    (ht : s.taskIndex.get? taskId = some task) (message : String) :
    Statuses load (s.markFailed task message) := by
  obtain ⟨hi, -, hc⟩ := (hb.index _ _).mp ht
  obtain ⟨hhas, hacc⟩ := hb.indexed task hi
  refine h.fail (Quiet.markFailed ..).suffix hacc hc (fun taskId hm => ?_) ?_ ?_
    (failRequest_get?_self ..) (fun _ hne => failRequest_get?_ne _ _ _ hne)
    (fun other ho hm => ?_) ?_
  · simp only [Scheduler.markFailed, failRequest_world] at hm
    rcases mem_finishedTasks_setStatus hm with ⟨-, hfin⟩ | hm
    · cases hfin
    · exact hm
  · simp [Scheduler.markFailed, Scheduler.setStatus]
  · simp [Scheduler.markFailed, Scheduler.setStatus]
  · simp only [Scheduler.markFailed, failRequest_failedTasks] at hm
    rcases List.mem_cons.mp hm with heq | hm
    · exact .inr (congrArg InferenceTask.requestId (ho.eq hhas heq))
    · exact .inl hm
  · simp [Scheduler.markFailed, Scheduler.setStatus]

theorem eraseFetch (h : Statuses load s) (requestId : String) : Statuses load
    { s with pendingOutputFetches := s.pendingOutputFetches.erase requestId } := by
  refine h.frame List.suffix_rfl h.marked (fun other hf => ?_) rfl rfl rfl fun _ hc => hc
  simp only [Dict.get?_erase] at hf
  split at hf
  · cases hf
  · exact hf

theorem completeOutput (h : Statuses load s) (hc : requestId ∉ s.cleanedRequests)
    (hacc : .accepted (load.plan requestId) ∈ s.log)
    (hn : s.failedRequests.get? requestId = none) (hall : AllEnded load requestId s.log)
    (value : HostValue) : Statuses load (s.completeOutput requestId value) := by
  have hlog : s.log <:+ (s.completeOutput requestId value).log := (Quiet.completeOutput ..).suffix
  have hclean : ∀ other, other = requestId ∨ other ∈ s.cleanedRequests →
      other ∈ (s.completeOutput requestId value).cleanedRequests :=
    fun other ho => (mem_cleanup_cleaned ..).mpr ho
  have hnone : NoneFailed load requestId s := by
    rintro task hh rfl ht
    rcases h.failedTasks task hh ht with hs | hcl
    · rw [hn] at hs
      cases hs
    · exact hc hcl
  constructor
  · intro taskId ht
    refine (h.marked taskId ?_).mono hlog
    simpa [Scheduler.completeOutput] using ht
  · intro other hf taskId ht
    have hold : (s.pendingOutputFetches.get? other).isSome = true :=
      cleanup_fetches _ { s with completedOutputs := s.completedOutputs.set requestId value } hf
    exact (h.fetching other hold taskId ht).mono hlog
  · intro other output ho
    simp only [Scheduler.completeOutput, cleanup_completedOutputs, Dict.get?_set] at ho
    have hsame : NoneFailed load other s → NoneFailed load other (s.completeOutput requestId value) :=
      fun hnf => by simpa [NoneFailed, Scheduler.completeOutput] using hnf
    have hfail : (s.completeOutput requestId value).failedRequests = s.failedRequests := by
      simp [Scheduler.completeOutput]
    split at ho
    · rename_i heq
      subst heq
      exact ⟨hlog.subset hacc, hclean _ (.inl rfl), by rwa [hfail],
        fun taskId ht => (hall taskId ht).mono hlog, hsame hnone⟩
    · obtain ⟨hacco, hcl, hno, hend, hnf⟩ := h.completed other output ho
      exact ⟨hlog.subset hacco, hclean _ (.inr hcl), by rwa [hfail], fun taskId ht => (hend taskId ht).mono hlog,
        hsame hnf⟩
  · intro other message hm
    refine hlog.subset (h.failed other message ?_)
    simpa [Scheduler.completeOutput] using hm
  · intro task hh ht
    have hft := h.failedTasks task hh (by simpa [Scheduler.completeOutput] using ht)
    refine hft.imp (fun hs => ?_) fun hcl => hclean _ (.inr hcl)
    simpa [Scheduler.completeOutput] using hs

theorem releaseRequest (h : Statuses load s) (requestId : String) :
    Statuses load (s.releaseRequest requestId) := by
  have hb := h.cleanup requestId
  have hcl : requestId ∈ (s.cleanupRequestWorkerState requestId).cleanedRequests :=
    (mem_cleanup_cleaned ..).mpr (.inl rfl)
  constructor
  · exact hb.marked
  · exact hb.fetching
  · intro other output ho
    simp only [Scheduler.releaseRequest, Dict.get?_erase] at ho ⊢
    split at ho
    · cases ho
    · rename_i hne
      obtain ⟨hacc, hc, hn, hend, hnf⟩ := hb.completed other output ho
      exact ⟨hacc, hc, by simpa [Dict.get?_erase_ne _ hne] using hn, hend, hnf⟩
  · intro other message hm
    simp only [Scheduler.releaseRequest, Dict.get?_erase] at hm
    split at hm
    · cases hm
    · exact hb.failed other message hm
  · intro task hh ht
    simp only [Scheduler.releaseRequest, Dict.get?_erase]
    split
    · rename_i heq
      exact .inr (heq ▸ hcl)
    · exact hb.failedTasks task hh ht

-- ---------------------------------------------------------------------------
-- Every move
-- ---------------------------------------------------------------------------

theorem allEnded (hu : Unfinished load) (hb : Base load s) (h : Statuses load s)
    (hp : s.plans.get? requestId = some plan)
    (hall : s.allFinished plan.terminalTaskIds = .ok true) : AllEnded load requestId s.log := by
  obtain ⟨hacc, hname, -⟩ := (hb.plans _ _).mp hp
  have heq := hb.accepted plan hacc
  rw [hname] at heq
  subst heq
  intro taskId ht
  have hfin : ∀ ids : List String, s.allFinished ids = .ok true → ∀ id ∈ ids,
      s.terminalFinished id = .ok true := by
    intro ids
    induction ids with
    | nil => simp
    | cons id ids ih =>
      intro hids
      obtain ⟨a, ha, hrest⟩ := Except.bind_eq_ok.mp hids
      obtain ⟨b, hb, hab⟩ := Except.bind_eq_ok.mp hrest
      obtain ⟨rfl, rfl⟩ : a = true ∧ b = true := by simpa using Except.pure_eq_ok.mp hab
      exact List.forall_mem_cons.mpr ⟨ha, ih hb⟩
  have hone := hfin _ hall taskId ht
  unfold terminalFinished at hone
  cases hi : s.taskIndex.get? taskId with
  | none =>
    rw [hi] at hone
    cases hone
  | some task =>
    rw [hi] at hone
    obtain ⟨hin, rfl, -⟩ := (hb.index _ _).mp hi
    have hstatus : s.world.tasks.status task = .finished := by simpa using Except.pure_eq_ok.mp hone
    exact h.marked _ (mem_finishedTasks_of_status hstatus
      (hu task.requestId task (hb.indexed task hin).1))

theorem asked (hb : Base load s) (h : Statuses load s) (ho : Occasion d s question d' s')
    (hnone : MarksNone (s'.asked question out w).log) :
    Statuses load (s'.asked question out w) := by
  have hafter : ∀ taskId ∈ finishedTasks w.tasks, taskId ∈ finishedTasks s'.world.tasks :=
    hnone.asked
  -- the state before the call, unless a task has just ended
  have hcall : Statuses load s' → Statuses load (s'.asked question out w) := fun hs =>
    hs.frame (List.suffix_cons ..)
      (fun taskId ht => (hs.marked taskId (hafter taskId ht)).mono (List.suffix_cons ..))
      (fun _ hf => hf) rfl rfl rfl fun _ hc => hc
  cases ho with
  | ended hk ht =>
    have hid := ((hb.index _ _).mp ht).2.1
    refine h.frame (List.suffix_cons ..) (fun taskId hm => ?_) (fun _ hf => hf) rfl rfl rfl
      fun _ hc => hc
    rcases mem_finishedTasks_setStatus (hafter taskId hm) with ⟨rfl, -⟩ | hm
    · exact execEnded_cons hk hid.symm
    · exact (h.marked taskId hm).mono (List.suffix_cons ..)
  | failed _ ht => exact hcall (h.markFailed hb ht _)
  | runnable | refused => exact hcall (h.of_eq (List.suffix_cons ..) rfl rfl rfl rfl rfl rfl)
  | submitted | launchEnd | finished | emitted | requested | acquire | freed => exact hcall h

theorem move (hu : Unfinished load) (hb : Base load s) (hn : OfTasks d) (h : Statuses load s)
    (hnone : MarksNone s'.log) (hm : Move rt load d s d' s') : Statuses load s' := by
  have hlog := hm.log_suffix
  have live : ∀ requestId, (s.plans.get? requestId).isSome = true →
      requestId ∉ s.cleanedRequests ∧ .accepted (load.plan requestId) ∈ s.log := by
    intro requestId hp
    obtain ⟨plan, hplan⟩ := Option.isSome_iff_exists.mp hp
    obtain ⟨hacc, hname, hc⟩ := (hb.plans _ _).mp hplan
    refine ⟨hc, ?_⟩
    rw [← hname, ← hb.accepted plan hacc]
    exact hacc
  cases hm with
  | asked ho => exact h.asked hb ho hnone
  | running => exact h.setStatus _ (by decide)
  | started | notStarted =>
    exact Statuses.of_eq (h.setStatus _ (by decide : TaskStatus.running ≠ .finished)) hlog rfl rfl
      rfl rfl rfl rfl
  | failedRequest => exact absurd (List.mem_cons_self ..) (hn _)
  | cleaned => exact h.cleanup _
  | fetching hp hall =>
    have hend := h.allEnded hu hb hp hall
    refine { h with
      fetching := fun other hf => ?_
      completed := fun other output ho => { h.completed other output ho with } }
    simp only [Dict.get?_set] at hf
    split at hf
    · rename_i heq
      exact heq ▸ hend
    · exact h.fetching other hf
  | completed hp hall hnf =>
    obtain ⟨hc, hacc⟩ := live _ (by rw [hp]; rfl)
    exact h.completeOutput hc hacc (hnf.resolve_right hc) (h.allEnded hu hb hp hall) _
  | fetched hp hnf =>
    have hf : (s.pendingOutputFetches.get? _).isSome = true := hp
    refine Statuses.completeOutput ?_ ?_ ?_ ?_ ?_ _
    · exact (h.eraseFetch _).of_eq List.suffix_rfl rfl rfl rfl rfl rfl rfl
    · exact (live _ (hb.fetches _ hf)).1
    · exact (live _ (hb.fetches _ hf)).2
    · exact hnf
    · exact h.fetching _ hf
  | notFetched hp =>
    have hl := live _ (hb.fetches _ hp)
    exact ((h.eraseFetch _).failRequest hl.2 hl.1 _).cleanup _
  | released => exact h.releaseRequest _
  | _ => exact h.of_eq hlog rfl rfl rfl rfl rfl rfl

theorem stop (hb : Base load s) (h : Statuses load s) (hnone : MarksNone s'.log)
    (hs : Stop rt d s s') : Statuses load s' := by
  cases hs with
  | here => exact h
  | asked ho => exact h.asked hb ho hnone
  | lost | starved => exact h.of_eq (List.suffix_cons ..) rfl rfl rfl rfl rfl rfl

end Statuses

theorem Reach.statuses (hu : Unfinished load) {s : Scheduler σ} (h : Reach rt load anyStep s)
    (hevents : TaskEvents s.log) (hnone : MarksNone s.log) : Statuses load s :=
  h.of_tasks (H := MarksNone) (J := fun _ s => Statuses load s)
    (fun hs hm entry he => hm entry (hs.subset he)) (fun _ hw => .init hw) (fun _ hs => hs)
    (fun hb hn hs hnone hm => hs.move hu hb hn hnone hm)
    (fun hb _ hs hnone hstop => hs.stop hb hnone hstop) hevents hnone

theorem wp_answer (load : Workload) (requestId : String) (s : Scheduler σ) :
    Prog.wp (ε := PyError)
      (match s.completedOutputs.get? requestId, s.failedRequests.get? requestId with
        | some output, _ => pure (.finished output)
        | none, some message => pure (.failed message)
        | none, none => pure .pending)
      (fun status s' => Statuses load s' → status = s'.statusOf requestId) (fun _ _ => True) s := by
  unfold statusOf
  split
  · rename_i output ho
    intro hs
    rw [(hs.completed _ _ ho).notFailed, ho]
  · rename_i message ho hf
    intro _
    rw [hf]
  · rename_i ho hf
    intro _
    rw [hf, ho]

/-- What a poll answers is the status in the state it leaves. -/
theorem wp_getRequestStatus (load : Workload) (requestId : String)
    (fetch : Option FetchArtifactsResult) (s : Scheduler σ) :
    Prog.wp (getRequestStatus requestId fetch)
      (fun status s' => Statuses load s' → status = s'.statusOf requestId) (fun _ _ => True) s := by
  unfold getRequestStatus
  rw [Prog.wp_bind, Prog.wp_get]
  split
  · rename_i message hf
    intro _
    simp [statusOf, hf]
  · rename_i output hf ho
    intro _
    simp [statusOf, hf, ho]
  · rename_i hf ho
    split
    · intro _
      simp [statusOf, hf, ho]
    · rw [Prog.wp_bind]
      refine Prog.wp_of_forall (fun _ s' => ?_) fun _ _ => trivial
      rw [Prog.wp_bind, Prog.wp_get]
      exact wp_answer load requestId s'

structure StatusStep (load : Workload) (requestId : String) (step : Step) (s s' : Scheduler σ) :
    Prop where
  unknown : .accepted (load.plan requestId) ∉ s.log → s.statusOf requestId = .pending
  stable : step ≠ .release requestId → s.statusOf requestId ≠ .pending →
    s'.statusOf requestId = s.statusOf requestId
  finished : ∀ output, s.statusOf requestId = .finished output →
    AllEnded load requestId s.log ∧ NoneFailed load requestId s
  polled : ∀ fetch status after, step = .status requestId fetch →
    getRequestStatus requestId fetch s = .ok status after → status = after.statusOf requestId

/-- Before it is accepted a request is pending; once it is finished or failed
it stays so, with its payload, until it is released; it is finished only when
all terminal tasks have ended and none of its tasks has failed; and a poll
answers its status. -/
theorem terminal_status_stable (rt : Runtime σ) (load : Workload) (hu : Unfinished load)
    (s : Scheduler σ) (h : Reach rt load anyStep s) (step : Step) (hf : step.Fits s)
    (hevents : TaskEvents (Prog.after (step.run rt load) s).log)
    (hnone : MarksNone (Prog.after (step.run rt load) s).log) (requestId : String) :
    StatusStep load requestId step s (Prog.after (step.run rt load) s) := by
  have hlog : s.log <:+ (Prog.after (step.run rt load) s).log := step_log_suffix h.base hf
  have hs : Statuses load s := h.statuses hu (TaskEvents.hereditary hlog hevents)
    fun entry he => hnone entry (hlog.subset he)
  have hs' : Statuses load (Prog.after (step.run rt load) s) :=
    Reach.statuses hu (.step h hf trivial) hevents hnone
  constructor
  · intro hn
    have hfailed : s.failedRequests.get? requestId = none :=
      Option.eq_none_iff_forall_ne_some.mpr fun message hm => hn (hs.failed _ _ hm)
    have hdone : s.completedOutputs.get? requestId = none :=
      Option.eq_none_iff_forall_ne_some.mpr fun output ho => hn (hs.completed _ _ ho).accepted
    simp [statusOf, hfailed, hdone]
  · intro hr hp
    have hkept : Kept requestId s (Prog.after (step.run rt load) s) := .step rt h.base hf hr
    unfold statusOf at hp ⊢
    cases hfail : s.failedRequests.get? requestId with
    | some message => rw [hkept.failed message hfail]
    | none =>
      cases hdone : s.completedOutputs.get? requestId with
      | none => simp [hfail, hdone] at hp
      | some output =>
        have hdone' := hkept.completed output hdone
        rw [(hs'.completed _ _ hdone').notFailed, hdone']
  · intro output ho
    unfold statusOf at ho
    split at ho
    · cases ho
    · rename_i hdone
      exact ⟨(hs.completed _ _ hdone).ended, (hs.completed _ _ hdone).noneFailed⟩
    · cases ho
  · rintro fetch status after rfl hrun
    have hpoll := wp_getRequestStatus load requestId fetch s
    have hafter : Prog.after ((Step.status requestId fetch).run rt load) s = after := by
      rw [Step.run, Prog.after_map, Prog.after, hrun]
    unfold Prog.wp at hpoll
    rw [hrun] at hpoll
    exact hpoll (hafter ▸ hs')

-- One task with one output, which is fetched; a failure of the task comes late.

def fetchOutput : ArtifactHandle := ⟨"r", "o", none⟩

def fetchTasks : Dict String InferenceTask :=
  Dict.set ∅ "t" ⟨"t", "r", .textEncode, some "g", .pending, 0, [], [], [fetchOutput], none, ∅⟩

def fetchLoad : Workload :=
  .solo ⟨"r", fetchTasks, ["t"], [], ∅⟩
    (by decide : ∀ entry ∈ fetchTasks.entries, entry.2.taskId = entry.1)
    (by decide : ∀ task ∈ fetchTasks.values, task.requestId = "r" ∧
      ∀ artifact ∈ task.inputs ++ task.outputs, artifact.requestId = "r")
    fun _ h => absurd h List.not_mem_nil

def fetchEvent (kind : WorkerEventKind) (refs : List WorkerLocalArtifactRef) : Step :=
  .event ⟨"t", "r", "g", kind, 0, "", refs⟩

def fetchSteps : List Step :=
  [.submit "r", fetchEvent .taskLaunchEnd [⟨fetchOutput, "g", 0⟩], fetchEvent .taskExecEnd [],
    .status "r" none, .status "r" (some ⟨[⟨fetchOutput, ⟨∅, none⟩⟩], none⟩)]

def fetchStart : Scheduler DynamicStepFcfs := .init (soloStart "g")

theorem fetch_reach : Reach fcfsRuntime fetchLoad anyStep
    (play fcfsRuntime fetchLoad fetchSteps fetchStart) := by
  refine Reach.play (.start rfl) ⟨?_, trivial, trivial, ?_, ?_, trivial⟩
  · exact ⟨fun _ h => absurd h List.not_mem_nil, List.not_mem_nil⟩
  · exact fun _ h => by cases h
  · rintro result ⟨⟩ artifact ha
    rw [List.mem_singleton.mp ha]
    rfl

theorem fetchLoad_unfinished : Unfinished fetchLoad := by
  intro requestId task ht
  show task.status ≠ .finished
  have hall : ∀ t ∈ fetchTasks.values, t.status ≠ .finished := by decide
  change task ∈ (if requestId = "r" then (_ : RequestExecutionPlan) else _).tasks.values at ht
  split at ht
  · exact hall task ht
  · exact absurd ht List.not_mem_nil

/-- The output stays when the task is reported failed afterwards. -/
theorem fetch_status_stable :
    (play fcfsRuntime fetchLoad fetchSteps fetchStart).statusOf "r" = .finished ⟨∅, none⟩ ∧
      StatusStep fetchLoad "r" (fetchEvent .taskFailed [])
        (play fcfsRuntime fetchLoad fetchSteps fetchStart)
        (play fcfsRuntime fetchLoad (fetchSteps ++ [fetchEvent .taskFailed []]) fetchStart) :=
  ⟨by decide +kernel, terminal_status_stable fcfsRuntime fetchLoad fetchLoad_unfinished _ fetch_reach
    (fetchEvent .taskFailed []) trivial (by decide +kernel) (by decide +kernel) "r"⟩

end Scheduler

end GfDit
