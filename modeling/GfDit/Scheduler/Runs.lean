import GfDit.Scheduler.Simulation

/-!
# Runs of the scheduler

A run submits plans, delivers worker events, lets migrations end either way,
polls for status and releases requests, in any order; a call that raises
leaves the state it has reached. `Base` is what holds in every run whatever
the policy does: the maps hold what was submitted and not cleaned up.
-/

namespace GfDit

/-- An entry of a dispatch, a migration or a question. -/
def SchedulerEntry.minor : SchedulerEntry → Bool
  | .accepted _ | .indexed _ | .cleaned _ => false
  | _ => true

def SchedulerEntry.asks : SchedulerEntry → Bool
  | .asked .. => true
  | _ => false

/-- A worker's word that a request has ended. -/
def SchedulerEntry.endsRequest : SchedulerEntry → Bool
  | .received event => event.kind.endsRequest
  | _ => false

namespace Scheduler

open Prog Agenda

variable {σ : Type} {rt : Runtime σ} {load : Workload}

-- ---------------------------------------------------------------------------
-- What a clean-up and a failure leave alone
-- ---------------------------------------------------------------------------

section Fields

variable (requestId message : String) (s : Scheduler σ)

@[simp] theorem cleanup_world : (s.cleanupRequestWorkerState requestId).world = s.world := by
  unfold cleanupRequestWorkerState
  split <;> rfl

@[simp] theorem cleanup_failedRequests :
    (s.cleanupRequestWorkerState requestId).failedRequests = s.failedRequests := by
  unfold cleanupRequestWorkerState
  split <;> rfl

@[simp] theorem cleanup_failedTasks :
    (s.cleanupRequestWorkerState requestId).failedTasks = s.failedTasks := by
  unfold cleanupRequestWorkerState
  split <;> rfl

@[simp] theorem cleanup_completedOutputs :
    (s.cleanupRequestWorkerState requestId).completedOutputs = s.completedOutputs := by
  unfold cleanupRequestWorkerState
  split <;> rfl

theorem cleanup_fetches
    (h : ((s.cleanupRequestWorkerState requestId).pendingOutputFetches.get? other).isSome = true) :
    (s.pendingOutputFetches.get? other).isSome = true := by
  unfold cleanupRequestWorkerState at h
  split at h
  · exact h
  · simp only [Dict.get?_erase] at h
    split at h
    · cases h
    · exact h

theorem mem_cleanup_cleaned :
    other ∈ (s.cleanupRequestWorkerState requestId).cleanedRequests ↔
      other = requestId ∨ other ∈ s.cleanedRequests := by
  unfold cleanupRequestWorkerState
  split
  · rename_i hc
    refine ⟨.inr, ?_⟩
    rintro (rfl | h)
    · exact hc
    · exact h
  · exact List.mem_cons

@[simp] theorem failRequest_world : (s.failRequest requestId message).world = s.world := by
  unfold failRequest
  split <;> rfl

@[simp] theorem failRequest_failedTasks :
    (s.failRequest requestId message).failedTasks = s.failedTasks := by
  unfold failRequest
  split <;> rfl

@[simp] theorem failRequest_completedOutputs :
    (s.failRequest requestId message).completedOutputs = s.completedOutputs := by
  unfold failRequest
  split <;> rfl

@[simp] theorem failRequest_pendingOutputFetches :
    (s.failRequest requestId message).pendingOutputFetches = s.pendingOutputFetches := by
  unfold failRequest
  split <;> rfl

@[simp] theorem failRequest_cleanedRequests :
    (s.failRequest requestId message).cleanedRequests = s.cleanedRequests := by
  unfold failRequest
  split <;> rfl

theorem failRequest_get?_self :
    ((s.failRequest requestId message).failedRequests.get? requestId).isSome = true := by
  unfold failRequest
  split
  · assumption
  · simp

theorem failRequest_get?_ne (hne : requestId ≠ other) :
    (s.failRequest requestId message).failedRequests.get? other = s.failedRequests.get? other := by
  unfold failRequest
  split
  · rfl
  · exact Dict.get?_set_ne _ hne _

end Fields

-- ---------------------------------------------------------------------------
-- Runs
-- ---------------------------------------------------------------------------

inductive Step
  | submit (requestId : String)
  | done (m : Migration)
  | failed (m : Migration) (e : PyError)
  | event (event : WorkerEvent)
  | status (requestId : String) (fetch : Option FetchArtifactsResult)
  | release (requestId : String)
  | clock (clockNs : Nat)

def Step.run (rt : Runtime σ) (load : Workload) : Step → SchedM σ Unit
  | .submit requestId => submitRequest rt (load.plan requestId)
  | .done m => migrationDone rt m
  | .failed m e => migrationFailed rt m e
  | .event e => handlePolled rt (.event e)
  | .status requestId fetch => (fun _ => ()) <$> getRequestStatus requestId fetch
  | .release requestId => modify (releaseRequest requestId)
  | .clock clockNs => modify fun s => { s with world := { s.world with clockNs } }

/-- A request id is submitted only once ever (the tombstones of a released
request stay), a migration that ends is in flight, and a fetch brings artifacts
of its request. -/
def Step.Fits (s : Scheduler σ) : Step → Prop
  | .submit requestId => Fresh requestId s
  | .done m | .failed m _ => m ∈ s.migrations
  | .status requestId fetch => ∀ result ∈ fetch, ∀ artifact ∈ result.artifacts,
      artifact.handle.requestId = requestId
  | .event _ | .release _ | .clock _ => True

def Step.duties : Step → List Duty
  | .release requestId => [.release requestId]
  | _ => []

inductive Reach (rt : Runtime σ) (load : Workload) (Allowed : Scheduler σ → Step → Prop) :
    Scheduler σ → Prop
  | start {w : World σ} : w.tasks = ∅ → Reach rt load Allowed (.init w)
  | step : Reach rt load Allowed s → step.Fits s → Allowed s step →
      Reach rt load Allowed (after (step.run rt load) s)

def play (rt : Runtime σ) (load : Workload) (steps : List Step) (s : Scheduler σ) : Scheduler σ :=
  steps.foldl (fun s step => after (step.run rt load) s) s

def Plays (rt : Runtime σ) (load : Workload) : List Step → Scheduler σ → Prop
  | [], _ => True
  | step :: steps, s => step.Fits s ∧ Plays rt load steps (after (step.run rt load) s)

def anyStep (_ : Scheduler σ) (_ : Step) : Prop := True

-- ---------------------------------------------------------------------------
-- What holds for any policy
-- ---------------------------------------------------------------------------

/-- The maps hold what was accepted and indexed and is not cleaned up. -/
structure Base (load : Workload) (s : Scheduler σ) : Prop where
  accepted : ∀ plan, .accepted plan ∈ s.log → plan = load.plan plan.requestId
  indexed : ∀ task, .indexed task ∈ s.log →
    load.Has task ∧ .accepted (load.plan task.requestId) ∈ s.log
  cleaned : ∀ requestId, .cleaned requestId ∈ s.log ↔ requestId ∈ s.cleanedRequests
  taking : ∀ plan, Taking plan s.log → plan.requestId ∉ s.cleanedRequests
  plans : ∀ requestId plan, s.plans.get? requestId = some plan ↔
    .accepted plan ∈ s.log ∧ plan.requestId = requestId ∧ requestId ∉ s.cleanedRequests
  index : ∀ taskId task, s.taskIndex.get? taskId = some task ↔
    .indexed task ∈ s.log ∧ task.taskId = taskId ∧ task.requestId ∉ s.cleanedRequests
  pending : ∀ taskId, (s.pendingDependencies.get? taskId).isSome = (s.taskIndex.get? taskId).isSome
  fetches : ∀ requestId, (s.pendingOutputFetches.get? requestId).isSome = true →
    (s.plans.get? requestId).isSome = true

theorem Taking.accepted_mem (h : Taking plan entries) : .accepted plan ∈ entries := by
  induction h with
  | accepted => exact List.mem_cons_self ..
  | indexed _ ih => exact List.mem_cons_of_mem _ ih

theorem Taking.not_minor (h : Taking plan (entry :: entries)) : entry.minor = false := by
  cases h <;> rfl

namespace Base

variable {s s' : Scheduler σ}

theorem init (w : World σ) : Base load (.init w) where
  accepted := fun _ h => by cases h
  indexed := fun _ h => by cases h
  cleaned := fun _ => by simp [Scheduler.init]
  taking := fun _ h => by cases h
  plans := fun _ _ => by simp [Scheduler.init]
  index := fun _ _ => by simp [Scheduler.init]
  pending := fun _ => rfl
  fetches := fun _ h => by cases h

theorem frame (h : Base load s) (entries : List SchedulerEntry)
    (hlog : s'.log = entries ++ s.log) (he : ∀ e ∈ entries, SchedulerEntry.minor e = true)
    (hplans : s'.plans = s.plans) (hindex : s'.taskIndex = s.taskIndex)
    (hpending : ∀ taskId, (s'.pendingDependencies.get? taskId).isSome =
      (s.pendingDependencies.get? taskId).isSome)
    (hcleaned : s'.cleanedRequests = s.cleanedRequests)
    (hfetch : ∀ requestId, (s'.pendingOutputFetches.get? requestId).isSome = true →
      (s.plans.get? requestId).isSome = true) : Base load s' := by
  have hold : ∀ e, SchedulerEntry.minor e = false → (e ∈ s'.log ↔ e ∈ s.log) := by
    intro e hm
    rw [hlog, List.mem_append]
    refine ⟨fun h => h.resolve_left fun hin => ?_, .inr⟩
    rw [he e hin] at hm
    cases hm
  constructor
  · exact fun plan hm => h.accepted plan ((hold _ rfl).mp hm)
  · intro task hm
    obtain ⟨hhas, hacc⟩ := h.indexed task ((hold _ rfl).mp hm)
    exact ⟨hhas, (hold _ rfl).mpr hacc⟩
  · intro requestId
    rw [hold _ rfl, hcleaned]
    exact h.cleaned requestId
  · intro plan htaking
    rw [hcleaned]
    rw [hlog] at htaking
    cases entries with
    | nil => exact h.taking plan htaking
    | cons e entries =>
      have hminor := he e (List.mem_cons_self ..)
      rw [htaking.not_minor] at hminor
      cases hminor
  · intro requestId plan
    rw [hplans, hold _ rfl, hcleaned]
    exact h.plans requestId plan
  · intro taskId task
    rw [hindex, hold _ rfl, hcleaned]
    exact h.index taskId task
  · intro taskId
    rw [hpending, hindex]
    exact h.pending taskId
  · intro requestId hf
    rw [hplans]
    exact hfetch requestId hf

theorem of_eq (h : Base load s) (hlog : s'.log = s.log) (hplans : s'.plans = s.plans)
    (hindex : s'.taskIndex = s.taskIndex)
    (hpending : s'.pendingDependencies = s.pendingDependencies)
    (hcleaned : s'.cleanedRequests = s.cleanedRequests)
    (hfetch : s'.pendingOutputFetches = s.pendingOutputFetches) : Base load s' :=
  h.frame [] hlog (by simp) hplans hindex (fun _ => by rw [hpending]) hcleaned
    fun requestId hf => h.fetches requestId (by rwa [← hfetch])

theorem of_entry (h : Base load s) (entry : SchedulerEntry) (hlog : s'.log = entry :: s.log)
    (he : entry.minor = true) (hplans : s'.plans = s.plans) (hindex : s'.taskIndex = s.taskIndex)
    (hpending : s'.pendingDependencies = s.pendingDependencies)
    (hcleaned : s'.cleanedRequests = s.cleanedRequests)
    (hfetch : s'.pendingOutputFetches = s.pendingOutputFetches) : Base load s' :=
  h.frame [entry] hlog (by simpa using he) hplans hindex (fun _ => by rw [hpending]) hcleaned
    fun requestId hf => h.fetches requestId (by rwa [← hfetch])

theorem eraseFetch (h : Base load s) (requestId : String) (hlog : s'.log = s.log)
    (hplans : s'.plans = s.plans) (hindex : s'.taskIndex = s.taskIndex)
    (hpending : s'.pendingDependencies = s.pendingDependencies)
    (hcleaned : s'.cleanedRequests = s.cleanedRequests)
    (hfetch : s'.pendingOutputFetches = s.pendingOutputFetches.erase requestId) :
    Base load s' := by
  refine h.frame [] hlog (by simp) hplans hindex (fun _ => by rw [hpending]) hcleaned
    fun other hf => h.fetches other ?_
  rw [hfetch, Dict.get?_erase] at hf
  split at hf
  · cases hf
  · exact hf

/-- The tasks that a clean-up takes out of the index are those of the request. -/
theorem mem_plannedTasks (h : Base load s) (hi : .indexed task ∈ s.log)
    (hc : requestId ∉ s.cleanedRequests) :
    task.taskId ∈ s.plannedTasks requestId ↔ task.requestId = requestId := by
  obtain ⟨hhas, hacc⟩ := h.indexed task hi
  unfold plannedTasks
  cases hp : s.plans.get? requestId with
  | none =>
    refine ⟨fun hm => absurd hm List.not_mem_nil, fun hr => ?_⟩
    subst hr
    have := (h.plans _ _).mpr ⟨hacc, load.named _, hc⟩
    rw [hp] at this
    cases this
  | some plan =>
    obtain ⟨hplan, hname, -⟩ := (h.plans _ _).mp hp
    have heq := h.accepted plan hplan
    rw [hname] at heq
    subst heq
    constructor
    · intro hm
      obtain ⟨task', hget⟩ := Option.isSome_iff_exists.mp ((Dict.mem_keys ..).mp hm)
      have hin := Dict.mem_values_of_get? hget
      rw [← (load.owned requestId task' hin).1]
      rw [hhas.eq (.of_mem hin) (load.keyed requestId _ task' hget).symm]
    · rintro rfl
      exact Workload.mem_keys hhas

theorem cleanup (h : Base load s) (requestId : String) :
    Base load (s.cleanupRequestWorkerState requestId) := by
  unfold cleanupRequestWorkerState
  split
  · exact h
  · rename_i hnc
    constructor
    · intro plan hm
      exact h.accepted plan (by simpa using hm)
    · intro task hm
      obtain ⟨hhas, hacc⟩ := h.indexed task (by simpa using hm)
      exact ⟨hhas, List.mem_cons_of_mem _ hacc⟩
    · intro other
      simp [h.cleaned]
    · intro plan htaking
      cases htaking
    · intro other plan
      simp only [Dict.get?_erase, List.mem_cons, reduceCtorEq, false_or, not_or]
      split
      · rename_i heq
        simp [heq]
      · rename_i hne
        rw [h.plans]
        simp [Ne.symm hne]
    · intro taskId task
      simp only [Dict.get?_eraseAll, List.mem_cons, reduceCtorEq, false_or, not_or]
      constructor
      · intro ht
        split at ht
        · cases ht
        · rename_i hnm
          obtain ⟨hi, rfl, hc⟩ := (h.index _ _).mp ht
          exact ⟨hi, rfl, fun e => hnm ((h.mem_plannedTasks hi hnc).mpr e), hc⟩
      · rintro ⟨hi, rfl, hne, hc⟩
        rw [if_neg fun hm => hne ((h.mem_plannedTasks hi hnc).mp hm)]
        exact (h.index _ _).mpr ⟨hi, rfl, hc⟩
    · intro taskId
      simp only [Dict.get?_eraseAll]
      split
      · rfl
      · exact h.pending taskId
    · intro other hf
      simp only [Dict.get?_erase] at hf ⊢
      split at hf
      · cases hf
      · rename_i hne
        rw [if_neg hne]
        exact h.fetches other hf

theorem failRequest (h : Base load s) (requestId message : String) :
    Base load (s.failRequest requestId message) := by
  unfold Scheduler.failRequest
  split
  · exact h
  · exact h.of_entry (.failed requestId) rfl rfl rfl rfl rfl rfl rfl

theorem countDown_isSome (index : Dict String InferenceTask) (dependents : List String)
    (pending : Dict String Int) (taskId : String) :
    ((countDown index dependents pending).1.get? taskId).isSome =
      (pending.get? taskId).isSome := by
  induction dependents generalizing pending with
  | nil => rfl
  | cons dependent rest ih =>
    have hset : ∀ n : Int, pending.get? dependent = some n →
        ((pending.set dependent (n - 1)).get? taskId).isSome = (pending.get? taskId).isSome := by
      intro n hn
      rw [Dict.get?_set]
      split
      · rename_i heq
        rw [← heq, hn]
        rfl
      · rfl
    unfold countDown
    cases hn : pending.get? dependent with
    | none => exact ih pending
    | some n =>
      simp only
      split
      · cases index.get? dependent with
        | none => exact hset n hn
        | some task => exact (ih _).trans (hset n hn)
      · exact (ih _).trans (hset n hn)

theorem newlyRunnable_isSome (s : Scheduler σ) (task : InferenceTask) (taskId : String) :
    ((s.newlyRunnable task).1.get? taskId).isSome =
      (s.pendingDependencies.get? taskId).isSome := by
  unfold newlyRunnable
  split
  · rfl
  · exact countDown_isSome ..

theorem launch (h : Base load s) {task : InferenceTask}
    (hn : s.newlyRunnable task = (left, newly)) : Base load (s.launch task left) := by
  refine h.frame [.launched task] rfl (by simp [SchedulerEntry.minor]) rfl rfl
    (fun taskId => ?_) rfl h.fetches
  have := newlyRunnable_isSome s task taskId
  rw [hn] at this
  exact this

theorem markFailed (h : Base load s) (task : InferenceTask) (message : String) :
    Base load (s.markFailed task message) := by
  refine Base.failRequest ?_ _ _
  exact h.of_eq rfl rfl rfl rfl rfl rfl

theorem asked (h : Base load s) (question : Ask) (out : List InferenceTask) (w : World σ) :
    Base load (s.asked question out w) :=
  h.of_entry (.asked question out _ _) rfl rfl rfl rfl rfl rfl rfl

theorem occasion (h : Base load s) (ho : Occasion d s question d' s') : Base load s' := by
  cases ho with
  | runnable hn => exact h.launch hn
  | ended => exact h.of_eq rfl rfl rfl rfl rfl rfl
  | failed => exact h.markFailed _ _
  | refused => exact h.of_entry (.began _) rfl rfl rfl rfl rfl rfl rfl
  | submitted | launchEnd | finished | emitted | requested | acquire | freed => exact h

theorem accept (h : Base load s) (hf : Fresh requestId s) :
    Base load (s.accept (load.plan requestId)) := by
  have hname := load.named requestId
  constructor
  · intro plan hm
    rcases List.mem_cons.mp hm with heq | hm
    · cases heq
      rw [hname]
    · exact h.accepted plan hm
  · intro task hm
    obtain ⟨hhas, hacc⟩ := h.indexed task (by simpa [Scheduler.accept] using hm)
    exact ⟨hhas, List.mem_cons_of_mem _ hacc⟩
  · intro other
    simpa [Scheduler.accept] using h.cleaned other
  · intro plan htaking
    cases htaking with
    | accepted =>
      rw [hname]
      exact hf.2
  · intro other plan
    simp only [Scheduler.accept, hname, Dict.get?_set, List.mem_cons,
      SchedulerEntry.accepted.injEq]
    split
    · rename_i heq
      subst heq
      constructor
      · rintro ⟨⟩
        exact ⟨.inl rfl, hname, hf.2⟩
      · rintro ⟨rfl | hm, hr, -⟩
        · rfl
        · exact absurd hr (hf.1 plan hm)
    · rename_i hne
      rw [h.plans]
      refine ⟨fun ⟨hm, hrest⟩ => ⟨.inr hm, hrest⟩, ?_⟩
      rintro ⟨rfl | hm, hr, hc⟩
      · exact absurd (hname.symm.trans hr) hne
      · exact ⟨hm, hr, hc⟩
  · intro taskId task
    simpa [Scheduler.accept] using h.index taskId task
  · exact h.pending
  · intro other hfetch
    simp only [Scheduler.accept, hname, Dict.get?_set]
    split
    · rfl
    · exact h.fetches other hfetch

theorem indexTask (h : Base load s) (ht : Taking plan s.log) (hm : task ∈ plan.tasks.values) :
    Base load (s.indexTask task) := by
  have hplan := h.accepted plan ht.accepted_mem
  rw [hplan] at hm
  have howner := (load.owned _ task hm).1
  have hhas : load.Has task := .of_mem hm
  have hcleaned : task.requestId ∉ s.cleanedRequests := by
    rw [howner]
    exact h.taking plan ht
  have hacc : .accepted (load.plan task.requestId) ∈ s.log := by
    rw [howner, ← hplan]
    exact ht.accepted_mem
  constructor
  · intro other hin
    exact h.accepted other (by simpa [Scheduler.indexTask] using hin)
  · intro other hin
    rcases List.mem_cons.mp hin with heq | hin
    · cases heq
      exact ⟨hhas, List.mem_cons_of_mem _ hacc⟩
    · exact ⟨(h.indexed other hin).1, List.mem_cons_of_mem _ (h.indexed other hin).2⟩
  · intro other
    simpa [Scheduler.indexTask] using h.cleaned other
  · intro other htaking
    cases htaking with
    | indexed htaking => exact h.taking other htaking
  · intro requestId other
    simpa [Scheduler.indexTask] using h.plans requestId other
  · intro taskId other
    simp only [Scheduler.indexTask, Dict.get?_set, List.mem_cons, SchedulerEntry.indexed.injEq]
    split
    · rename_i heq
      constructor
      · rintro ⟨⟩
        exact ⟨.inl rfl, heq, hcleaned⟩
      · rintro ⟨rfl | hin, hid, -⟩
        · rfl
        · rw [hhas.eq (h.indexed other hin).1 (heq.trans hid.symm)]
    · rename_i hne
      rw [h.index]
      refine ⟨fun ⟨hin, hrest⟩ => ⟨.inr hin, hrest⟩, ?_⟩
      rintro ⟨rfl | hin, hid, hc⟩
      · exact absurd hid hne
      · exact ⟨hin, hid, hc⟩
  · intro taskId
    simp only [Scheduler.indexTask, Dict.get?_set]
    split
    · rfl
    · exact h.pending taskId
  · exact h.fetches

theorem move (h : Base load s) (hm : Move rt load d s d' s') : Base load s' := by
  cases hm with
  | asked ho => exact (h.occasion ho).asked ..
  | accepted hf => exact h.accept hf
  | indexed ht hin => exact h.indexTask ht hin
  | finalized | landed | produced | received | parked | resharded | begun =>
    exact h.of_entry _ rfl rfl rfl rfl rfl rfl rfl
  | started | notStarted => exact h.of_entry (.began _) rfl rfl rfl rfl rfl rfl rfl
  | landedLast =>
    exact h.frame [_, _] rfl (by simp [SchedulerEntry.minor]) rfl rfl (fun _ => rfl) rfl h.fetches
  | listed | sent | refused | running | delivered | retired | abandoned | clock =>
    exact h.of_eq rfl rfl rfl rfl rfl rfl
  | opened | notOpened | notFailed | checked | notRequested | reshardDone | reshardFailed =>
    exact h
  | failedRequest => exact h.failRequest _ _
  | cleaned => exact h.cleanup _
  | fetching hp =>
    refine h.frame [] rfl (by simp) rfl rfl (fun _ => rfl) rfl fun requestId hf => ?_
    simp only [Dict.get?_set] at hf
    split at hf
    · rename_i heq
      rw [← heq, hp]
      rfl
    · exact h.fetches requestId hf
  | completed =>
    refine Base.cleanup ?_ _
    exact h.of_eq rfl rfl rfl rfl rfl rfl
  | fetched =>
    refine Base.cleanup ?_ _
    exact h.eraseFetch _ rfl rfl rfl rfl rfl rfl
  | notFetched =>
    refine Base.cleanup (Base.failRequest ?_ _ _) _
    exact h.eraseFetch _ rfl rfl rfl rfl rfl rfl
  | released => exact Base.of_eq (h.cleanup _) rfl rfl rfl rfl rfl rfl

theorem stop (h : Base load s) (hs : Stop rt d s s') : Base load s' := by
  cases hs with
  | here => exact h
  | asked ho => exact (h.occasion ho).asked ..
  | lost hn => exact h.launch hn
  | starved => exact h.of_entry (.migrated _ _ _) rfl rfl rfl rfl rfl rfl rfl

theorem invariant (rt : Runtime σ) (load : Workload) :
    Invariant (machine rt load) fun _ s => Base load s where
  move := Base.move
  stop := Base.stop

end Base

-- ---------------------------------------------------------------------------
-- A run is a run of the machine
-- ---------------------------------------------------------------------------

theorem does_step {step : Step} {s : Scheduler σ} (hb : Base load s) (hf : step.Fits s) :
    Does (machine rt load) step.duties (step.run rt load) nothing s := by
  cases step with
  | submit requestId =>
    refine does_submitRequest hf fun task ht hi => ?_
    obtain ⟨-, hacc⟩ := hb.indexed task hi
    refine hf.1 _ hacc ?_
    rw [load.named]
    exact (load.owned requestId task ht).1
  | done m => exact does_migrationDone hf
  | failed m e => exact does_migrationFailed e hf
  | event e =>
    refine .changeBind e.duties (fun _ => .received) ?_
    exact handles_handleWorkerEvent rt load e _
  | status requestId fetch =>
    intro below
    show wp ((fun _ => ()) <$> getRequestStatus requestId fetch) _ _ s
    rw [wp_map]
    exact does_getRequestStatus hf s below
  | release requestId => exact .change fun _ => .released
  | clock clockNs => exact .change fun _ => .clock

theorem base_step {step : Step} {s : Scheduler σ} (hb : Base load s) (hf : step.Fits s) :
    Base load (after (step.run rt load) s) :=
  after_of_wp ((Base.invariant rt load).wp (does_step hb hf) hb)

variable {Allowed : Scheduler σ → Step → Prop} {s : Scheduler σ}

theorem Reach.play (h : Reach rt load anyStep s) (hp : Plays rt load steps s) :
    Reach rt load anyStep (play rt load steps s) := by
  induction steps generalizing s with
  | nil => exact h
  | cons step steps ih => exact ih (.step h hp.1 trivial) hp.2

theorem Reach.base (h : Reach rt load Allowed s) : Base load s := by
  induction h with
  | start => exact .init _
  | step _ hf _ ih => exact base_step ih hf

/-- An invariant of the machine holds in every state reached. -/
theorem Reach.invariant {I : List Duty → Scheduler σ → Prop}
    (hi : Invariant (machine rt load) I) (h0 : ∀ w : World σ, w.tasks = ∅ → I [] (.init w))
    (hd : ∀ s (step : Step), I [] s → I step.duties s) (h : Reach rt load Allowed s) : I [] s := by
  induction h with
  | start hw => exact h0 _ hw
  | step hr hf _ ih => exact after_of_wp (hi.wp (does_step hr.base hf) (hd _ _ ih))

theorem Reach.of_moves {I : List Duty → Scheduler σ → Prop} {K : Scheduler σ → Prop}
    (h0 : ∀ w : World σ, w.tasks = ∅ → K (.init w))
    (hbegin : ∀ {s} {step : Step}, K s → Allowed s step → I step.duties s)
    (hmove : ∀ {d s d' s'}, I d s → Move rt load d s d' s' → I d' s')
    (hstop : ∀ {d s s'}, I d s → Stop rt d s s' → K s') (hend : ∀ {s}, I [] s → K s)
    (h : Reach rt load Allowed s) : K s := by
  induction h with
  | start hw => exact h0 _ hw
  | step hr hf ha ih =>
    refine after_of_wp ?_
    exact wp_mono (Invariant.wp_of_moves hmove hstop (does_step hr.base hf) (hbegin ih ha))
      (fun _ _ => hend) fun _ _ hk => hk

-- ---------------------------------------------------------------------------
-- Histories
-- ---------------------------------------------------------------------------

variable {s' : Scheduler σ}

def Quiet (s s' : Scheduler σ) : Prop :=
  ∃ entries, s'.log = entries ++ s.log ∧ ∀ entry ∈ entries, SchedulerEntry.asks entry = false

namespace Quiet

theorem of_eq (h : s'.log = s.log) : Quiet s s' := ⟨[], h, by simp⟩

theorem entry {entry : SchedulerEntry} (h : s'.log = entry :: s.log) (he : entry.asks = false) :
    Quiet s s' := ⟨[entry], h, by simpa using he⟩

theorem trans {s'' : Scheduler σ} (h : Quiet s s') (h' : Quiet s' s'') : Quiet s s'' := by
  obtain ⟨entries, hlog, he⟩ := h
  obtain ⟨entries', hlog', he'⟩ := h'
  refine ⟨entries' ++ entries, by rw [hlog', hlog, List.append_assoc], fun e hm => ?_⟩
  exact (List.mem_append.mp hm).elim (he' e) (he e)

theorem suffix (h : Quiet s s') : s.log <:+ s'.log := by
  obtain ⟨entries, hlog, -⟩ := h
  exact ⟨entries, hlog.symm⟩

theorem cleanup (requestId : String) (s : Scheduler σ) :
    Quiet s (s.cleanupRequestWorkerState requestId) := by
  unfold cleanupRequestWorkerState
  split
  · exact .of_eq rfl
  · exact .entry rfl rfl

theorem failRequest (requestId message : String) (s : Scheduler σ) :
    Quiet s (s.failRequest requestId message) := by
  unfold Scheduler.failRequest
  split
  · exact .of_eq rfl
  · exact .entry rfl rfl

theorem markFailed (task : InferenceTask) (message : String) (s : Scheduler σ) :
    Quiet s (s.markFailed task message) := by
  refine .trans ?_ (.failRequest ..)
  exact .of_eq rfl

theorem completeOutput (requestId : String) (value : HostValue) (s : Scheduler σ) :
    Quiet s (s.completeOutput requestId value) := by
  refine .trans ?_ (.cleanup ..)
  exact .of_eq rfl

end Quiet

theorem Occasion.quiet (h : Occasion d s question d' s') : Quiet s s' := by
  cases h with
  | runnable | refused => exact .entry rfl rfl
  | failed => exact .markFailed ..
  | submitted | launchEnd | ended | finished | emitted | requested | acquire | freed =>
    exact .of_eq rfl

/-- What the scheduler does before a call leaves the policy alone. -/
theorem Occasion.policy_eq (h : Occasion d s question d' s') :
    s'.world.policy = s.world.policy := by
  cases h with
  | failed => simp [markFailed, setStatus, World.setStatus]
  | _ => rfl

/-- A move calls the policy once, at its end, or leaves it alone. -/
theorem Move.asked_or_quiet (h : Move rt load d s d' s') :
    (∃ question d'' s'' out w, Occasion d s question d'' s'' ∧ Returns rt question s''.world out w ∧
      d' = out.map .task ++ d'' ∧ s' = s''.asked question out w) ∨
    Quiet s s' ∧ s'.world.policy = s.world.policy := by
  cases h with
  | asked ho hr => exact .inl ⟨_, _, _, _, _, ho, hr, rfl, rfl⟩
  | accepted | indexed | finalized | landed | produced | received | parked | resharded | begun
  | started | notStarted => exact .inr ⟨.entry rfl rfl, rfl⟩
  | landedLast => exact .inr ⟨⟨[_, _], rfl, by simp [SchedulerEntry.asks]⟩, rfl⟩
  | failedRequest => exact .inr ⟨.failRequest .., by simp⟩
  | cleaned => exact .inr ⟨.cleanup .., by simp⟩
  | completed => exact .inr ⟨.completeOutput .., by simp [completeOutput]⟩
  | fetched =>
    refine .inr ⟨.trans ?_ (.completeOutput ..), by simp [completeOutput]⟩
    exact .of_eq rfl
  | released => exact .inr ⟨.trans (.cleanup ..) (.of_eq rfl), by simp [releaseRequest]⟩
  | notFetched =>
    refine .inr ⟨.trans ?_ (.cleanup ..), by simp [failRequestFromFetchError]⟩
    exact .trans (.of_eq rfl) (.failRequest ..)
  | listed | sent | refused | running | delivered | retired | abandoned | clock | opened
  | notOpened | notFailed | checked | notRequested | reshardDone | reshardFailed | fetching =>
    exact .inr ⟨.of_eq rfl, rfl⟩

theorem Move.log_suffix (h : Move rt load d s d' s') : s.log <:+ s'.log := by
  rcases h.asked_or_quiet with ⟨_, _, _, _, _, ho, -, -, rfl⟩ | ⟨hq, -⟩
  · exact ho.quiet.suffix.trans (List.suffix_cons ..)
  · exact hq.suffix

theorem Stop.log_suffix (h : Stop rt d s s') : s.log <:+ s'.log := by
  cases h with
  | here => exact List.suffix_rfl
  | asked ho => exact ho.quiet.suffix.trans (List.suffix_cons ..)
  | lost | starved => exact List.suffix_cons ..

theorem step_log_suffix {step : Step} (hb : Base load s) (hf : step.Fits s) :
    s.log <:+ (after (step.run rt load) s).log := by
  have hi : Invariant (machine rt load) fun _ s' => s.log <:+ s'.log :=
    ⟨fun h hm => h.trans (Move.log_suffix hm), fun h hs => h.trans (Stop.log_suffix hs)⟩
  exact after_of_wp (hi.wp (does_step hb hf) List.suffix_rfl)

theorem Occasion.mem_outside {duty : Duty} (h : Occasion d s question d' s') (hm : duty ∈ d')
    (ho : duty.outside = true) : duty ∈ d := by
  cases h with
  | submitted | launchEnd | emitted => exact hm
  | runnable | finished | requested => exact List.mem_cons_of_mem _ hm
  | ended | failed | acquire | refused | freed =>
    rcases List.mem_cons.mp hm with rfl | hm
    · cases ho
    · exact List.mem_cons_of_mem _ hm

theorem mem_duties_outside {event : WorkerEvent} {duty : Duty} (hm : duty ∈ event.duties)
    (ho : duty.outside = true) : duty = .request event ∧ event.kind.endsRequest = true := by
  unfold WorkerEvent.duties at hm
  cases hk : event.kind <;> simp_all [Duty.outside, WorkerEventKind.endsRequest]

/-- No move makes a duty from outside but the arrival of an event. -/
theorem Move.mem_outside {duty : Duty} (h : Move rt load d s d' s') (hm : duty ∈ d')
    (ho : duty.outside = true) :
    duty ∈ d ∨ ∃ event, duty = .request event ∧ event.kind.endsRequest = true ∧
      SchedulerEntry.received event ∈ s'.log := by
  cases h with
  | asked hocc =>
    rcases List.mem_append.mp hm with hm | hm
    · obtain ⟨task, -, rfl⟩ := List.mem_map.mp hm
      cases ho
    · exact .inl (hocc.mem_outside hm ho)
  | received =>
    rename_i event
    rcases List.mem_append.mp hm with hm | hm
    · obtain ⟨rfl, hk⟩ := mem_duties_outside hm ho
      exact .inr ⟨event, rfl, hk, List.mem_cons_self ..⟩
    · exact .inl hm
  | parked =>
    rcases List.mem_append.mp hm with hm | hm
    · obtain ⟨artifact, -, rfl⟩ := List.mem_map.mp hm
      cases ho
    · exact .inl (List.mem_cons_of_mem _ hm)
  | accepted | indexed | listed | running | delivered | fetching | completed | fetched | notFetched
  | clock => exact .inl hm
  | _ =>
    simp only [List.mem_cons] at hm ⊢
    grind [Duty.outside]

/-- What holds of a history holds of its beginnings. -/
def Hereditary (H : List SchedulerEntry → Prop) : Prop :=
  ∀ {earlier entries}, earlier <:+ entries → H entries → H earlier

theorem invariant_given {H : List SchedulerEntry → Prop} {I J : List Duty → Scheduler σ → Prop}
    (hH : Hereditary H) (hi : Invariant (machine rt load) I)
    (hmove : ∀ {d s d' s'}, I d s → J d s → H s'.log → Move rt load d s d' s' → J d' s')
    (hstop : ∀ {d s s'}, I d s → J d s → H s'.log → Stop rt d s s' → J [] s') :
    Invariant (machine rt load) fun d s => I d s ∧ (H s.log → J d s) :=
  hi.given (fun hm => hH (Move.log_suffix hm)) (fun hs => hH (Stop.log_suffix hs)) hmove hstop

/-- The workers report the ends of tasks, not of requests. -/
def TaskEvents (entries : List SchedulerEntry) : Prop :=
  ∀ entry ∈ entries, entry.endsRequest = false

theorem TaskEvents.hereditary : Hereditary TaskEvents :=
  fun hs h entry he => h entry (hs.subset he)

instance (entries : List SchedulerEntry) : Decidable (TaskEvents entries) :=
  inferInstanceAs (Decidable (∀ entry ∈ entries, entry.endsRequest = false))

def OfTasks (d : List Duty) : Prop := ∀ event, .request event ∉ d

theorem OfTasks.move (h : OfTasks d) (hevents : TaskEvents s'.log)
    (hm : Move rt load d s d' s') : OfTasks d' := by
  intro event hd
  rcases hm.mem_outside hd rfl with hd | ⟨_, ⟨⟩, hk, hr⟩
  · exact h event hd
  · have := hevents _ hr
    simp [SchedulerEntry.endsRequest, hk] at this

theorem OfTasks.duties (step : Step) : OfTasks step.duties := by
  cases step <;> simp [OfTasks, Step.duties]

/-- An invariant of the runs in which the workers report on tasks, and of
which the history is of a certain kind. -/
theorem Reach.of_tasks {H : List SchedulerEntry → Prop} {J : List Duty → Scheduler σ → Prop}
    (hH : Hereditary H)
    (h0 : ∀ w : World σ, w.tasks = ∅ → J [] (.init w))
    (hd : ∀ {s} (step : Step), J [] s → J step.duties s)
    (hmove : ∀ {d s d' s'}, Base load s → OfTasks d → J d s → H s'.log → Move rt load d s d' s' →
      J d' s')
    (hstop : ∀ {d s s'}, Base load s → OfTasks d → J d s → H s'.log → Stop rt d s s' → J [] s')
    (h : Reach rt load Allowed s) (hevents : TaskEvents s.log) (hist : H s.log) : J [] s := by
  have hi : Invariant (machine rt load) fun d s =>
      Base load s ∧ (TaskEvents s.log ∧ H s.log → OfTasks d ∧ J d s) :=
    invariant_given (H := fun entries => TaskEvents entries ∧ H entries)
      (fun hs h => ⟨TaskEvents.hereditary hs h.1, hH hs h.2⟩) (Base.invariant rt load)
      (fun hb h hist hm => ⟨h.1.move hist.1 hm, hmove hb h.1 h.2 hist.2 hm⟩)
      fun hb h hist hs => ⟨fun _ hd => List.not_mem_nil hd, hstop hb h.1 h.2 hist.2 hs⟩
  have hinv := h.invariant hi
    (fun w hw => ⟨.init w, fun _ => ⟨fun _ hd => List.not_mem_nil hd, h0 w hw⟩⟩)
    fun s step hs => ⟨hs.1, fun hist => ⟨.duties step, hd step (hs.2 hist).2⟩⟩
  exact (hinv.2 ⟨hevents, hist⟩).2

end Scheduler

end GfDit
