import Mathlib.Data.Finset.Dedup
import Mathlib.Data.List.Sort
import GfDit.Lib.History
import GfDit.Topology

/-!
# Events of a task, from many ranks to one

Every rank of a group reports the course of a task; the pool puts the reports
together and hands the scheduler one event for each kind, after
`multiproc_worker.py`. The log is a history that no decision reads.
-/

namespace GfDit

open History

-- ---------------------------------------------------------------------------
-- Events of a rank
-- ---------------------------------------------------------------------------

inductive MetaValue
  | number (value : ℚ)
  | rank (rank : Rank)
  | ranks (ranks : List Rank)
  | outputs (refs : List WorkerLocalArtifactRef)
  deriving DecidableEq

structure RankEvent where
  eventId : String
  taskId : String
  requestId : String
  groupId : String
  workerRank : Rank
  kind : WorkerEventKind
  timestampNs : Nat
  message : String
  metadata : Dict String MetaValue
  deriving DecidableEq

def WorkerEventKind.ofTask (kind : WorkerEventKind) : Bool := !kind.endsRequest

/-- How a worker comes out of `_execute_task`. -/
inductive Ending
  -- an input cannot be resolved, and the worker goes down
  | lost
  | setupFailed
  | execFailed
  -- after the outputs are published, and after the last event
  | releaseFailed
  | lateFailed
  | done

def executeTask : Ending → List WorkerEventKind
  | .lost => []
  | .setupFailed => [.taskFailed]
  | .execFailed => [.taskLaunchBegin, .taskExecBegin, .taskFailed]
  | .releaseFailed => [.taskLaunchBegin, .taskExecBegin, .taskLaunchEnd, .taskFailed]
  | .lateFailed =>
    [.taskLaunchBegin, .taskExecBegin, .taskLaunchEnd, .taskExecEnd, .taskFailed]
  | .done => [.taskLaunchBegin, .taskExecBegin, .taskLaunchEnd, .taskExecEnd]

/-- What each worker sends about each task it is given. -/
structure Workers where
  sends : String → Rank → List RankEvent
  kinds : ∀ taskId rank, ∃ ending,
    (sends taskId rank).map RankEvent.kind = executeTask ending
  labelled : ∀ taskId rank, ∀ event ∈ sends taskId rank,
    event.taskId = taskId ∧ event.workerRank = rank

-- ---------------------------------------------------------------------------
-- The pool
-- ---------------------------------------------------------------------------

structure TaskDispatchState where
  groupId : String
  expectedRanks : Finset Rank
  resultOwnerRank : Rank
  eventsByKind : Dict WorkerEventKind (Dict Rank RankEvent)

inductive PoolEntry
  | registered (taskId : String) (group : ExecutionGroupSpec)
  | arrived (event : RankEvent)
  | emitted (event : RankEvent)

structure WorkerPool where
  topology : RuntimeTopology
  taskDispatchState : Dict String TaskDispatchState
  log : List PoolEntry

namespace TaskDispatchState

def seen (state : TaskDispatchState) (kind : WorkerEventKind) : Dict Rank RankEvent :=
  state.eventsByKind.getD kind ∅

def record (state : TaskDispatchState) (event : RankEvent) : TaskDispatchState :=
  { state with
    eventsByKind := state.eventsByKind.set event.kind
      ((state.seen event.kind).set event.workerRank event) }

theorem seen_record (state : TaskDispatchState) (event : RankEvent) :
    (state.record event).seen event.kind =
      (state.seen event.kind).set event.workerRank event := by
  simp [seen, record, Dict.getD]

theorem seen_record_ne (state : TaskDispatchState) (h : event.kind ≠ kind) :
    (state.record event).seen kind = state.seen kind := by
  simp [seen, record, Dict.getD, Dict.get?_set_ne _ h]

/-- The least event by time and rank. The event just seen stands for that of no
events, which is not asked for. -/
def earliest (last : RankEvent) : List RankEvent → RankEvent
  | [] => last
  | event :: events => events.foldl (fun best event =>
      if event.timestampNs < best.timestampNs ∨
        event.timestampNs = best.timestampNs ∧ event.workerRank < best.workerRank then event
      else best) event

def buildAggregatedEvent (state : TaskDispatchState) (last : RankEvent)
    (eventsByRank : Dict Rank RankEvent) : RankEvent :=
  let representative := (eventsByRank.get? state.resultOwnerRank).getD
    (earliest last eventsByRank.values)
  { eventId := s!"aggregate:{representative.taskId}:{last.kind.value}"
    taskId := representative.taskId
    requestId := representative.requestId
    groupId := state.groupId
    workerRank := state.resultOwnerRank
    kind := last.kind
    timestampNs := (eventsByRank.values.map RankEvent.timestampNs).foldl max 0
    message := representative.message
    metadata := representative.metadata.set "completed_ranks"
      (.ranks (eventsByRank.keys.insertionSort (· ≤ ·))) }

def failedEvent (state : TaskDispatchState) (event : RankEvent) : RankEvent :=
  { event with
    eventId := s!"aggregate:{event.taskId}:{event.kind.value}"
    groupId := state.groupId
    metadata := Dict.set ∅ "failed_rank" (.rank event.workerRank) }

end TaskDispatchState

namespace WorkerPool

def init (topology : RuntimeTopology) : WorkerPool := ⟨topology, ∅, []⟩

def enter (pool : WorkerPool) (entry : PoolEntry) : WorkerPool :=
  { pool with log := entry :: pool.log }

def setState (pool : WorkerPool) (taskId : String) (state : TaskDispatchState) : WorkerPool :=
  { pool with taskDispatchState := pool.taskDispatchState.set taskId state }

def popState (pool : WorkerPool) (taskId : String) : WorkerPool :=
  { pool with taskDispatchState := pool.taskDispatchState.erase taskId }

@[simp] theorem enter_log (pool : WorkerPool) (entry : PoolEntry) :
    (pool.enter entry).log = entry :: pool.log := rfl

@[simp] theorem setState_log (pool : WorkerPool) (taskId : String) (state : TaskDispatchState) :
    (pool.setState taskId state).log = pool.log := rfl

@[simp] theorem popState_log (pool : WorkerPool) (taskId : String) :
    (pool.popState taskId).log = pool.log := rfl

def registerTaskDispatch (pool : WorkerPool) (taskId groupId : String) :
    Except PyError WorkerPool := do
  let group ← pool.topology.getGroup groupId
  pure ((pool.setState taskId
    ⟨groupId, group.ranks.toFinset, group.leader, ∅⟩).enter (.registered taskId group))

def aggregateTaskEvent (pool : WorkerPool) (event : RankEvent) : WorkerPool × Option RankEvent :=
  match pool.taskDispatchState.get? event.taskId with
  | none => (pool, none)
  | some state =>
    if event.kind = .taskFailed then
      (pool.popState event.taskId, some (state.failedEvent event))
    else if (state.seen event.kind).contains event.workerRank then (pool, none)
    else
      let state := state.record event
      let seenByRank := state.seen event.kind
      let pool := pool.setState event.taskId state
      if seenByRank.keys.toFinset ≠ state.expectedRanks then (pool, none)
      else
        (if event.kind = .taskExecEnd then pool.popState event.taskId else pool,
          some (state.buildAggregatedEvent event seenByRank))

def consumeEvent (pool : WorkerPool) (event : RankEvent) : WorkerPool × Option RankEvent :=
  if event.kind.ofTask then pool.aggregateTaskEvent event else (pool, some event)

def enqueueEvent (pool : WorkerPool) (event : RankEvent) : WorkerPool :=
  match (pool.enter (.arrived event)).consumeEvent event with
  | (pool, none) => pool
  | (pool, some out) => pool.enter (.emitted out)

end WorkerPool

-- ---------------------------------------------------------------------------
-- Runs
-- ---------------------------------------------------------------------------

/-- The event is one its worker sends, and those that the worker sends before
have arrived. It may have arrived before itself. -/
def InOrder (workers : Workers) (log : List PoolEntry) (event : RankEvent) : Prop :=
  ∃ before after, workers.sends event.taskId event.workerRank = before ++ event :: after ∧
    ∀ earlier ∈ before, .arrived earlier ∈ log

/-- The states of the pool. A task is dispatched once; its events come from the
ranks of its group. -/
inductive PoolReach (workers : Workers) : WorkerPool → Prop
  | start : PoolReach workers (.init topology)
  | dispatch : PoolReach workers pool → (∀ group, .registered taskId group ∉ pool.log) →
      pool.registerTaskDispatch taskId groupId = .ok pool' → PoolReach workers pool'
  | arrive : PoolReach workers pool → .registered event.taskId group ∈ pool.log →
      event.workerRank ∈ group.ranks → InOrder workers pool.log event →
      PoolReach workers (pool.enqueueEvent event)

def HasReported (log : List PoolEntry) (taskId : String) (kind : WorkerEventKind) (rank : Rank)
    (event : RankEvent) : Prop :=
  .arrived event ∈ log ∧ event.taskId = taskId ∧ event.kind = kind ∧ event.workerRank = rank

def HasEmitted (log : List PoolEntry) (taskId : String) (kind : WorkerEventKind) : Prop :=
  ∃ event, .emitted event ∈ log ∧ event.taskId = taskId ∧ event.kind = kind

/-- An event that the pool emits for a task: the first of its kind, nothing
ended before, complete unless it is a failure, and the launch before the end. -/
structure EmittedWell (event : RankEvent) (earlier : List PoolEntry) : Prop where
  once : ¬ HasEmitted earlier event.taskId event.kind
  live : ¬ HasEmitted earlier event.taskId .taskFailed ∧
    ¬ HasEmitted earlier event.taskId .taskExecEnd
  complete : event.kind ≠ .taskFailed → ∃ group, .registered event.taskId group ∈ earlier ∧
    (∀ rank ∈ group.ranks, ∃ report, HasReported earlier event.taskId event.kind rank report) ∧
    ∃ report ranks, HasReported earlier event.taskId event.kind group.leader report ∧
      event.metadata = report.metadata.set "completed_ranks" (.ranks ranks) ∧
      ∀ rank, rank ∈ ranks ↔ rank ∈ group.ranks
  launched : event.kind = .taskExecEnd → HasEmitted earlier event.taskId .taskLaunchEnd

def EmitsWell (entry : PoolEntry) (earlier : List PoolEntry) : Prop :=
  ∀ event, entry = .emitted event → EmittedWell event earlier

theorem HasReported.mono (h : HasReported log taskId kind rank event) (hs : log <:+ log') :
    HasReported log' taskId kind rank event := ⟨hs.subset h.1, h.2⟩

theorem HasEmitted.mono (h : HasEmitted log taskId kind) (hs : log <:+ log') :
    HasEmitted log' taskId kind := by
  obtain ⟨event, hm, hid⟩ := h
  exact ⟨event, hs.subset hm, hid⟩

theorem hasEmitted_cons : HasEmitted (entry :: log) taskId kind ↔
    (∃ event, entry = .emitted event ∧ event.taskId = taskId ∧ event.kind = kind) ∨
      HasEmitted log taskId kind := by
  unfold HasEmitted
  constructor
  · rintro ⟨event, hm, hid⟩
    rcases List.mem_cons.mp hm with heq | hm
    · exact .inl ⟨event, heq.symm, hid⟩
    · exact .inr ⟨event, hm, hid⟩
  · rintro (⟨event, rfl, hid⟩ | ⟨event, hm, hid⟩)
    · exact ⟨event, List.mem_cons_self .., hid⟩
    · exact ⟨event, List.mem_cons_of_mem _ hm, hid⟩

-- ---------------------------------------------------------------------------
-- What the pool remembers of a task
-- ---------------------------------------------------------------------------

/-- The state of a task that has not ended is what has arrived of it. -/
structure Remembers (log : List PoolEntry) (taskId : String) (state : TaskDispatchState)
    (group : ExecutionGroupSpec) : Prop where
  registered : .registered taskId group ∈ log
  expected : state.expectedRanks = group.ranks.toFinset
  owner : state.resultOwnerRank = group.leader
  sound : ∀ kind rank event, (state.seen kind).get? rank = some event →
    HasReported log taskId kind rank event ∧ rank ∈ group.ranks
  complete : ∀ kind rank event, kind ≠ .taskFailed → HasReported log taskId kind rank event →
    ((state.seen kind).get? rank).isSome = true
  full : ∀ kind, kind ≠ .taskFailed → (HasEmitted log taskId kind ↔
    ∀ rank ∈ group.ranks, ((state.seen kind).get? rank).isSome = true)
  unfailed : ¬ HasEmitted log taskId .taskFailed
  unended : ¬ HasEmitted log taskId .taskExecEnd

theorem InOrder.mono (h : InOrder workers log event) (hs : log <:+ log') :
    InOrder workers log' event := by
  obtain ⟨before, after, heq, hb⟩ := h
  exact ⟨before, after, heq, fun earlier hm => hs.subset (hb earlier hm)⟩

theorem launchEnd_before (h : executeTask ending = before ++ .taskExecEnd :: after) :
    .taskLaunchEnd ∈ before := by
  cases ending <;> rcases before with _ | ⟨a, _ | ⟨b, _ | ⟨c, before⟩⟩⟩ <;>
    simp_all [executeTask]

/-- A worker that has reported the end of a task has reported its launch. -/
theorem InOrder.launchEnd (h : InOrder workers log event) (hk : event.kind = .taskExecEnd) :
    ∃ earlier, HasReported log event.taskId .taskLaunchEnd event.workerRank earlier := by
  obtain ⟨before, after, heq, hb⟩ := h
  obtain ⟨ending, hkinds⟩ := workers.kinds event.taskId event.workerRank
  rw [heq, List.map_append, List.map_cons, hk] at hkinds
  obtain ⟨earlier, hm, hkind⟩ := List.mem_map.mp (launchEnd_before hkinds.symm)
  obtain ⟨hid, hrank⟩ := workers.labelled event.taskId event.workerRank earlier
    (heq ▸ List.mem_append_left _ hm)
  exact ⟨earlier, hb earlier hm, hid, hkind, hrank⟩

theorem InOrder.ofTask (h : InOrder workers log event) : event.kind.ofTask = true := by
  obtain ⟨before, after, heq, -⟩ := h
  obtain ⟨ending, hkinds⟩ := workers.kinds event.taskId event.workerRank
  have hm : event.kind ∈ executeTask ending := by
    rw [← hkinds, heq]
    simp
  cases ending <;> simp [executeTask] at hm <;> grind [WorkerEventKind.ofTask, WorkerEventKind.endsRequest]

theorem Remembers.frame (h : Remembers log taskId state group) (hs : log <:+ log')
    (harr : ∀ event, .arrived event ∈ log' → event.taskId = taskId → .arrived event ∈ log)
    (hemit : ∀ event, .emitted event ∈ log' → event.taskId = taskId → .emitted event ∈ log) :
    Remembers log' taskId state group := by
  have hiff : ∀ kind, HasEmitted log' taskId kind ↔ HasEmitted log taskId kind := by
    refine fun kind => ⟨?_, fun h => h.mono hs⟩
    rintro ⟨event, hm, hid, hk⟩
    exact ⟨event, hemit event hm hid, hid, hk⟩
  constructor
  · exact hs.subset h.registered
  · exact h.expected
  · exact h.owner
  · exact fun kind rank event hg => ⟨(h.sound kind rank event hg).1.mono hs, (h.sound kind rank event hg).2⟩
  · rintro kind rank event hne ⟨hm, hid, hk⟩
    exact h.complete kind rank event hne ⟨harr event hm hid, hid, hk⟩
  · exact fun kind hne => (hiff kind).trans (h.full kind hne)
  · exact fun he => h.unfailed ((hiff _).mp he)
  · exact fun he => h.unended ((hiff _).mp he)

structure Sound (workers : Workers) (pool : WorkerPool) : Prop where
  unique : ∀ taskId group group', .registered taskId group ∈ pool.log →
    .registered taskId group' ∈ pool.log → group = group'
  ordered : ∀ event, .arrived event ∈ pool.log → InOrder workers pool.log event
  known : ∀ event, .arrived event ∈ pool.log → ∃ group, .registered event.taskId group ∈ pool.log
  emitted : ∀ event, .emitted event ∈ pool.log → ∃ group, .registered event.taskId group ∈ pool.log
  remembers : ∀ taskId state, pool.taskDispatchState.get? taskId = some state →
    ∃ group, Remembers pool.log taskId state group
  history : Each EmitsWell pool.log

namespace Sound

variable {workers : Workers} {pool pool' : WorkerPool}

theorem init (topology : RuntimeTopology) : Sound workers (.init topology) where
  unique := fun _ _ _ h => absurd h List.not_mem_nil
  ordered := fun _ h => absurd h List.not_mem_nil
  known := fun _ h => absurd h List.not_mem_nil
  emitted := fun _ h => absurd h List.not_mem_nil
  remembers := fun _ _ h => by cases h
  history := trivial

theorem register (h : Sound workers pool) (hnew : ∀ group, .registered taskId group ∉ pool.log)
    (hr : pool.registerTaskDispatch taskId groupId = .ok pool') : Sound workers pool' := by
  obtain ⟨group, -, heq⟩ := Except.bind_eq_ok.mp hr
  cases heq
  have harr : ∀ event, .arrived event ∈ pool.log → event.taskId ≠ taskId := by
    rintro event hm rfl
    obtain ⟨group, hin⟩ := h.known event hm
    exact hnew group hin
  have hemit : ∀ kind, ¬ HasEmitted pool.log taskId kind := by
    rintro kind ⟨event, hm, rfl, -⟩
    obtain ⟨group, hin⟩ := h.emitted event hm
    exact hnew group hin
  have hnone : ∀ kind, ¬ HasEmitted (.registered taskId group :: pool.log) taskId kind := by
    intro kind he
    rcases hasEmitted_cons.mp he with ⟨_, ⟨⟩, -⟩ | he
    exact hemit kind he
  have hs : pool.log <:+ .registered taskId group :: pool.log := List.suffix_cons ..
  constructor
  · intro id first second h1 h2
    simp only [WorkerPool.enter, List.mem_cons, PoolEntry.registered.injEq] at h1 h2
    rcases h1 with ⟨rfl, rfl⟩ | h1
    · rcases h2 with ⟨-, rfl⟩ | h2
      · rfl
      · exact absurd h2 (hnew second)
    · rcases h2 with ⟨rfl, rfl⟩ | h2
      · exact absurd h1 (hnew first)
      · exact h.unique id first second h1 h2
  · intro event hm
    exact (h.ordered event (by simpa using hm)).mono hs
  · intro event hm
    obtain ⟨found, hin⟩ := h.known event (by simpa using hm)
    exact ⟨found, hs.subset hin⟩
  · intro event hm
    obtain ⟨found, hin⟩ := h.emitted event (by simpa using hm)
    exact ⟨found, hs.subset hin⟩
  · intro id state hget
    simp only [WorkerPool.enter, WorkerPool.setState, Dict.get?_set] at hget
    split at hget
    · rename_i heq
      subst heq
      cases hget
      refine ⟨group, List.mem_cons_self .., rfl, rfl, ?_, ?_, ?_, hnone _, hnone _⟩
      · intro kind rank event hg
        cases hg
      · rintro kind rank event - ⟨hm, hid, -⟩
        exact absurd hid (harr event (by simpa using hm))
      · intro kind _
        refine ⟨fun he => absurd he (hnone kind), fun hall => ?_⟩
        cases hall group.leader group.leader_mem
    · obtain ⟨found, hrem⟩ := h.remembers id state hget
      exact ⟨found, hrem.frame hs (fun event hm _ => by simpa using hm)
        fun event hm _ => by simpa using hm⟩
  · exact ⟨fun _ he => (by cases he), h.history⟩

theorem arrive (h : Sound workers pool) (hreg : .registered event.taskId group ∈ pool.log)
    (ho : InOrder workers pool.log event) (out : Option RankEvent)
    (hlog : pool'.log = (out.map PoolEntry.emitted).toList ++ .arrived event :: pool.log)
    (hwell : ∀ e ∈ out, e.taskId = event.taskId ∧ EmittedWell e (.arrived event :: pool.log))
    (hother : ∀ taskId ≠ event.taskId, pool'.taskDispatchState.get? taskId =
      pool.taskDispatchState.get? taskId)
    (hself : ∀ state, pool'.taskDispatchState.get? event.taskId = some state →
      ∃ group, Remembers pool'.log event.taskId state group) : Sound workers pool' := by
  have hs : pool.log <:+ pool'.log := by
    rw [hlog]
    exact (List.suffix_cons ..).trans (List.suffix_append ..)
  have hmem : ∀ entry ∈ pool'.log, (∃ e ∈ out, entry = .emitted e) ∨ entry = .arrived event ∨
      entry ∈ pool.log := by
    intro entry hm
    rw [hlog, List.mem_append, List.mem_cons] at hm
    refine hm.imp_left fun hm => ?_
    cases out with
    | none => cases hm
    | some e => exact ⟨e, rfl, List.mem_singleton.mp hm⟩
  constructor
  · intro taskId first second h1 h2
    have hold : ∀ found, .registered taskId found ∈ pool'.log →
        .registered taskId found ∈ pool.log := by
      intro found hm
      rcases hmem _ hm with ⟨_, -, ⟨⟩⟩ | ⟨⟨⟩⟩ | hm
      exact hm
    exact h.unique taskId first second (hold _ h1) (hold _ h2)
  · intro e hm
    rcases hmem _ hm with ⟨_, -, ⟨⟩⟩ | ⟨⟨⟩⟩ | hm
    · exact ho.mono hs
    · exact (h.ordered e hm).mono hs
  · intro e hm
    rcases hmem _ hm with ⟨_, -, ⟨⟩⟩ | ⟨⟨⟩⟩ | hm
    · exact ⟨group, hs.subset hreg⟩
    · obtain ⟨found, hin⟩ := h.known e hm
      exact ⟨found, hs.subset hin⟩
  · intro e hm
    rcases hmem _ hm with ⟨_, hout, ⟨⟩⟩ | ⟨⟨⟩⟩ | hm
    · rw [(hwell e hout).1]
      exact ⟨group, hs.subset hreg⟩
    · obtain ⟨found, hin⟩ := h.emitted e hm
      exact ⟨found, hs.subset hin⟩
  · intro taskId state hget
    by_cases hid : taskId = event.taskId
    · subst hid
      exact hself state hget
    · rw [hother taskId hid] at hget
      obtain ⟨found, hrem⟩ := h.remembers taskId state hget
      refine ⟨found, hrem.frame hs (fun e hm he => ?_) fun e hm he => ?_⟩
      · rcases hmem _ hm with ⟨_, -, ⟨⟩⟩ | ⟨⟨⟩⟩ | hm
        · exact absurd he.symm hid
        · exact hm
      · rcases hmem _ hm with ⟨_, hout, ⟨⟩⟩ | ⟨⟨⟩⟩ | hm
        · exact absurd (he.symm.trans (hwell e hout).1) hid
        · exact hm
  · have hbefore : Each EmitsWell (.arrived event :: pool.log) :=
      ⟨fun _ he => (by cases he), h.history⟩
    rw [hlog]
    cases out with
    | none => exact hbefore
    | some e =>
      refine ⟨fun _ he => ?_, hbefore⟩
      cases he
      exact (hwell _ rfl).2

end Sound

namespace Remembers

variable {log : List PoolEntry} {state : TaskDispatchState} {group : ExecutionGroupSpec}
  {event out : RankEvent}

theorem hasEmitted_arrived : HasEmitted (.arrived event :: log) taskId kind ↔
    HasEmitted log taskId kind := by
  rw [hasEmitted_cons]
  exact or_iff_right fun ⟨_, h, _⟩ => by cases h

theorem hasReported_arrived (h : HasReported (.arrived event :: log) taskId kind rank report) :
    (report = event ∧ kind = event.kind ∧ rank = event.workerRank) ∨
      HasReported log taskId kind rank report := by
  obtain ⟨hm, hid, hk, hr⟩ := h
  rcases List.mem_cons.mp hm with heq | hm
  · cases heq
    exact .inl ⟨rfl, hk.symm, hr.symm⟩
  · exact .inr ⟨hm, hid, hk, hr⟩

/-- A rank that reports again is not heard. -/
theorem again (h : Remembers log event.taskId state group)
    (hseen : (state.seen event.kind).contains event.workerRank = true) :
    Remembers (.arrived event :: log) event.taskId state group := by
  refine { h with
    registered := List.mem_cons_of_mem _ h.registered
    sound := fun kind rank report hg => ?_
    complete := fun kind rank report hne hrep => ?_
    full := fun kind hne => hasEmitted_arrived.trans (h.full kind hne)
    unfailed := fun he => h.unfailed (hasEmitted_arrived.mp he)
    unended := fun he => h.unended (hasEmitted_arrived.mp he) }
  · exact ⟨(h.sound kind rank report hg).1.mono (List.suffix_cons ..), (h.sound kind rank report hg).2⟩
  · rcases hasReported_arrived hrep with ⟨-, rfl, rfl⟩ | hrep
    · exact hseen
    · exact h.complete kind rank report hne hrep

/-- A kind that a rank reports for the first time has not been emitted. -/
theorem not_emitted (h : Remembers log event.taskId state group) (hf : event.kind ≠ .taskFailed)
    (hr : event.workerRank ∈ group.ranks)
    (hnew : ¬ (state.seen event.kind).contains event.workerRank = true) :
    ¬ HasEmitted log event.taskId event.kind :=
  fun he => hnew ((h.full event.kind hf).mp he event.workerRank hr)

/-- The reports after a first one of a rank. -/
theorem record_sound (h : Remembers log event.taskId state group)
    (hr : event.workerRank ∈ group.ranks) (kind : WorkerEventKind) (rank : Rank)
    (report : RankEvent) (hg : ((state.record event).seen kind).get? rank = some report) :
    HasReported (.arrived event :: log) event.taskId kind rank report ∧ rank ∈ group.ranks := by
  have hold : (state.seen kind).get? rank = some report →
      HasReported (.arrived event :: log) event.taskId kind rank report ∧ rank ∈ group.ranks :=
    fun hg => ⟨(h.sound kind rank report hg).1.mono (List.suffix_cons ..),
      (h.sound kind rank report hg).2⟩
  by_cases hk : event.kind = kind
  · subst hk
    rw [state.seen_record, Dict.get?_set] at hg
    split at hg
    · rename_i heq
      cases hg
      exact ⟨⟨List.mem_cons_self .., rfl, rfl, heq⟩, heq ▸ hr⟩
    · exact hold hg
  · rw [state.seen_record_ne hk] at hg
    exact hold hg

theorem record_complete (h : Remembers log event.taskId state group) (kind : WorkerEventKind)
    (rank : Rank) (report : RankEvent) (hne : kind ≠ .taskFailed)
    (hrep : HasReported (.arrived event :: log) event.taskId kind rank report) :
    (((state.record event).seen kind).get? rank).isSome = true := by
  by_cases hk : event.kind = kind
  · subst hk
    rw [state.seen_record, Dict.get?_set]
    split
    · rfl
    · rename_i hrank
      rcases hasReported_arrived hrep with ⟨-, -, rfl⟩ | hrep
      · exact absurd rfl hrank
      · exact h.complete _ rank report hne hrep
  · rw [state.seen_record_ne hk]
    rcases hasReported_arrived hrep with ⟨-, rfl, -⟩ | hrep
    · exact absurd rfl hk
    · exact h.complete kind rank report hne hrep

theorem keys_eq_iff (h : Remembers log event.taskId state group)
    (hr : event.workerRank ∈ group.ranks) :
    ((state.record event).seen event.kind).keys.toFinset = (state.record event).expectedRanks ↔
      ∀ rank ∈ group.ranks,
        (((state.record event).seen event.kind).get? rank).isSome = true := by
  have hexp : (state.record event).expectedRanks = group.ranks.toFinset := h.expected
  rw [hexp, Finset.ext_iff]
  constructor
  · intro heq rank hm
    exact (Dict.mem_keys ..).mp (List.mem_toFinset.mp ((heq rank).mpr (List.mem_toFinset.mpr hm)))
  · intro hall rank
    rw [List.mem_toFinset, List.mem_toFinset, Dict.mem_keys]
    refine ⟨fun hs => ?_, hall rank⟩
    obtain ⟨report, hg⟩ := Option.isSome_iff_exists.mp hs
    exact (h.record_sound hr _ rank report hg).2

theorem recordPartial (h : Remembers log event.taskId state group) (hf : event.kind ≠ .taskFailed)
    (hr : event.workerRank ∈ group.ranks)
    (hnew : ¬ (state.seen event.kind).contains event.workerRank = true)
    (hpart : ((state.record event).seen event.kind).keys.toFinset ≠
      (state.record event).expectedRanks) :
    Remembers (.arrived event :: log) event.taskId (state.record event) group := by
  refine ⟨List.mem_cons_of_mem _ h.registered, h.expected, h.owner, h.record_sound hr,
    h.record_complete, fun kind hne => ?_, fun he => h.unfailed (hasEmitted_arrived.mp he),
    fun he => h.unended (hasEmitted_arrived.mp he)⟩
  rw [hasEmitted_arrived]
  by_cases hk : event.kind = kind
  · subst hk
    exact iff_of_false (h.not_emitted hf hr hnew) fun hall => hpart ((h.keys_eq_iff hr).mpr hall)
  · rw [state.seen_record_ne hk]
    exact h.full kind hne

theorem recordFull (h : Remembers log event.taskId state group) (hf : event.kind ≠ .taskFailed)
    (he : event.kind ≠ .taskExecEnd) (hr : event.workerRank ∈ group.ranks)
    (hfull : ((state.record event).seen event.kind).keys.toFinset =
      (state.record event).expectedRanks)
    (hout : out.taskId = event.taskId ∧ out.kind = event.kind) :
    Remembers (.emitted out :: .arrived event :: log) event.taskId (state.record event) group := by
  have hiff : ∀ kind, HasEmitted (.emitted out :: .arrived event :: log) event.taskId kind ↔
      event.kind = kind ∨ HasEmitted log event.taskId kind := by
    intro kind
    rw [hasEmitted_cons, hasEmitted_arrived]
    refine or_congr_left ⟨?_, fun hk => ⟨out, rfl, hout.1, hout.2.trans hk⟩⟩
    rintro ⟨_, ⟨⟩, -, hk⟩
    exact hout.2.symm.trans hk
  have hs : (PoolEntry.arrived event :: log) <:+ .emitted out :: .arrived event :: log :=
    List.suffix_cons ..
  refine ⟨List.mem_cons_of_mem _ (List.mem_cons_of_mem _ h.registered), h.expected, h.owner,
    fun kind rank report hg => ?_, fun kind rank report hne hrep => ?_, fun kind hne => ?_, ?_, ?_⟩
  · exact ⟨(h.record_sound hr kind rank report hg).1.mono hs, (h.record_sound hr kind rank report hg).2⟩
  · refine h.record_complete kind rank report hne ⟨?_, hrep.2⟩
    simpa using hrep.1
  · rw [hiff]
    by_cases hk : event.kind = kind
    · subst hk
      exact iff_of_true (.inl rfl) ((h.keys_eq_iff hr).mp hfull)
    · rw [state.seen_record_ne hk, or_iff_right hk]
      exact h.full kind hne
  · rw [hiff]
    exact fun hor => hor.elim hf h.unfailed
  · rw [hiff]
    exact fun hor => hor.elim he h.unended

theorem emittedWell (workers : Workers) (h : Remembers log event.taskId state group)
    (hf : event.kind ≠ .taskFailed) (hr : event.workerRank ∈ group.ranks)
    (hnew : ¬ (state.seen event.kind).contains event.workerRank = true)
    (hfull : ((state.record event).seen event.kind).keys.toFinset =
      (state.record event).expectedRanks)
    (hord : ∀ e, .arrived e ∈ .arrived event :: log → InOrder workers log e) :
    ((state.record event).buildAggregatedEvent event
      ((state.record event).seen event.kind)).taskId = event.taskId ∧
    EmittedWell ((state.record event).buildAggregatedEvent event
      ((state.record event).seen event.kind)) (.arrived event :: log) := by
  have hall := (h.keys_eq_iff hr).mp hfull
  have hreports : ∀ rank ∈ group.ranks, ∃ report,
      ((state.record event).seen event.kind).get? rank = some report ∧
        HasReported (.arrived event :: log) event.taskId event.kind rank report := by
    intro rank hm
    obtain ⟨report, hg⟩ := Option.isSome_iff_exists.mp (hall rank hm)
    exact ⟨report, hg, (h.record_sound hr _ rank report hg).1⟩
  -- the leader is one of them, and speaks for all
  obtain ⟨leader, hleader, hrep⟩ := hreports group.leader group.leader_mem
  have hown : ((state.record event).seen event.kind).get?
      (state.record event).resultOwnerRank = some leader := by
    rw [show (state.record event).resultOwnerRank = group.leader from h.owner]
    exact hleader
  have hid : ((state.record event).buildAggregatedEvent event
      ((state.record event).seen event.kind)).taskId = event.taskId := by
    simp only [TaskDispatchState.buildAggregatedEvent, hown, Option.getD_some]
    exact hrep.2.1
  refine ⟨hid, ?_, ?_, fun _ => ⟨group, ?_, ?_, leader,
    ((state.record event).seen event.kind).keys.insertionSort (· ≤ ·), ?_, ?_, ?_⟩, ?_⟩
  · rw [hid, hasEmitted_arrived]
    exact h.not_emitted hf hr hnew
  · rw [hid, hasEmitted_arrived, hasEmitted_arrived]
    exact ⟨h.unfailed, h.unended⟩
  · rw [hid]
    exact List.mem_cons_of_mem _ h.registered
  · intro rank hm
    obtain ⟨report, -, hreport⟩ := hreports rank hm
    rw [hid]
    exact ⟨report, hreport⟩
  · rw [hid]
    exact hrep
  · simp only [TaskDispatchState.buildAggregatedEvent, hown, Option.getD_some]
  · intro rank
    have hexp : (state.record event).expectedRanks = group.ranks.toFinset := h.expected
    rw [List.mem_insertionSort, ← List.mem_toFinset, hfull, hexp, List.mem_toFinset]
  · -- each rank's end comes after its launch, so the launch is complete
    intro hk
    have hend : event.kind = .taskExecEnd := hk
    rw [hid, hasEmitted_arrived, h.full _ (by decide)]
    intro rank hm
    obtain ⟨report, -, hmem, hrid, hrk, rfl⟩ := hreports rank hm
    obtain ⟨launch, hlaunch⟩ := (hord report hmem).launchEnd (hrk.trans hend)
    rw [hrid] at hlaunch
    exact h.complete _ _ launch (by decide) hlaunch

theorem failedWell (h : Remembers log event.taskId state group) (hf : event.kind = .taskFailed) :
    EmittedWell (state.failedEvent event) (.arrived event :: log) := by
  refine ⟨?_, ?_, fun hne => absurd hf hne, fun he => ?_⟩
  · show ¬ HasEmitted _ event.taskId event.kind
    rw [hasEmitted_arrived, hf]
    exact h.unfailed
  · show ¬ HasEmitted _ event.taskId _ ∧ ¬ HasEmitted _ event.taskId _
    rw [hasEmitted_arrived, hasEmitted_arrived]
    exact ⟨h.unfailed, h.unended⟩
  · have : event.kind = .taskExecEnd := he
    rw [hf] at this
    cases this

end Remembers

theorem Sound.enqueueEvent {workers : Workers} {pool : WorkerPool} (h : Sound workers pool)
    (hreg : .registered event.taskId group ∈ pool.log) (hr : event.workerRank ∈ group.ranks)
    (ho : InOrder workers pool.log event) : Sound workers (pool.enqueueEvent event) := by
  have hord : ∀ e, .arrived e ∈ .arrived event :: pool.log → InOrder workers pool.log e := by
    intro e hm
    rcases List.mem_cons.mp hm with heq | hm
    · cases heq
      exact ho
    · exact h.ordered e hm
  unfold WorkerPool.enqueueEvent WorkerPool.consumeEvent WorkerPool.aggregateTaskEvent
  rw [if_pos ho.ofTask]
  cases hget : pool.taskDispatchState.get? event.taskId with
  | none =>
    have hget' : (pool.enter (.arrived event)).taskDispatchState.get? event.taskId = none := hget
    simp only [hget']
    refine h.arrive hreg ho none rfl (by simp) (fun _ _ => rfl) fun state hs => ?_
    rw [hget'] at hs
    cases hs
  | some state =>
    obtain ⟨found, hrem⟩ := h.remembers _ state hget
    obtain rfl := h.unique _ _ _ hrem.registered hreg
    have hget' : (pool.enter (.arrived event)).taskDispatchState.get? event.taskId = some state :=
      hget
    simp only [hget']
    by_cases hf : event.kind = .taskFailed
    · simp only [if_pos hf]
      refine h.arrive hreg ho (some (state.failedEvent event)) rfl ?_ (fun taskId hne => ?_)
        fun state' hs => ?_
      · rintro _ ⟨⟩
        exact ⟨rfl, hrem.failedWell hf⟩
      · exact Dict.get?_erase_ne _ (Ne.symm hne)
      · simp [WorkerPool.popState, WorkerPool.enter] at hs
    · simp only [if_neg hf]
      by_cases hseen : (state.seen event.kind).contains event.workerRank = true
      · simp only [if_pos hseen]
        refine h.arrive hreg ho none rfl (by simp) (fun _ _ => rfl) fun state' hs => ?_
        rw [hget'] at hs
        cases hs
        exact ⟨found, hrem.again hseen⟩
      · simp only [if_neg hseen]
        by_cases hfull : ((state.record event).seen event.kind).keys.toFinset =
            (state.record event).expectedRanks
        · rw [if_neg (not_not.mpr hfull)]
          obtain ⟨hid, hwell⟩ := hrem.emittedWell workers hf hr hseen hfull hord
          refine h.arrive hreg ho (some ((state.record event).buildAggregatedEvent event
            ((state.record event).seen event.kind))) ?_ ?_ (fun taskId hne => ?_) fun state' hs => ?_
          · dsimp only
            split <;> rfl
          · rintro _ ⟨⟩
            exact ⟨hid, hwell⟩
          · dsimp only [WorkerPool.enter]
            split
            · simp [WorkerPool.popState, WorkerPool.setState,
                Dict.get?_erase_ne _ (Ne.symm hne), Dict.get?_set_ne _ (Ne.symm hne)]
            · simp [WorkerPool.setState, Dict.get?_set_ne _ (Ne.symm hne)]
          · dsimp only [WorkerPool.enter] at hs ⊢
            split at hs
            · simp [WorkerPool.popState] at hs
            · rename_i he
              simp only [WorkerPool.setState, Dict.get?_set_self, Option.some.injEq] at hs
              rw [if_neg he]
              subst hs
              exact ⟨found, hrem.recordFull hf he hr hfull ⟨hid, rfl⟩⟩
        · rw [if_pos hfull]
          refine h.arrive hreg ho none rfl (by simp) (fun taskId hne => ?_) fun state' hs => ?_
          · exact Dict.get?_set_ne _ (Ne.symm hne) _
          · simp only [WorkerPool.setState, Dict.get?_set_self, Option.some.injEq] at hs
            subst hs
            exact ⟨found, hrem.recordPartial hf hr hseen hfull⟩

theorem PoolReach.sound {workers : Workers} {pool : WorkerPool} (h : PoolReach workers pool) :
    Sound workers pool := by
  induction h with
  | start => exact .init _
  | dispatch _ hnew hr ih => exact ih.register hnew hr
  | arrive _ hreg hr ho ih => exact ih.enqueueEvent hreg hr ho

/-- Whatever order the events of the ranks come in, the pool emits at most one
event of each kind for a task: a failure, or what all ranks have reported, with
the metadata of the leader; nothing after the end, and the launch before it. -/
theorem aggregated_well (workers : Workers) (pool : WorkerPool) (h : PoolReach workers pool) :
    Each EmitsWell pool.log := h.sound.history

-- Two ranks launch a task; one of them is heard twice.

def pairGroup : ExecutionGroupSpec :=
  tensorSpec "g" 0 1 [.textEncode]

def pairTopology : RuntimeTopology :=
  ⟨[0, 1], [pairGroup], two_workers, List.nodup_singleton _, by decide⟩

def pairEvent (taskId : String) (rank : Rank) (kind : WorkerEventKind) : RankEvent :=
  ⟨"e", taskId, "r", "g", rank, kind, 0, "", ∅⟩

def pairWorkers : Workers where
  sends taskId rank := (executeTask .done).map (pairEvent taskId rank)
  kinds taskId rank := ⟨.done, by simp [Function.comp_def, pairEvent]⟩
  labelled taskId rank event hm := by
    obtain ⟨kind, -, rfl⟩ := List.mem_map.mp hm
    exact ⟨rfl, rfl⟩

def pairDispatched : WorkerPool :=
  ((WorkerPool.init pairTopology).setState "t" ⟨"g", pairGroup.ranks.toFinset, 0, ∅⟩).enter
    (.registered "t" pairGroup)

def pairLaunched : WorkerPool :=
  [1, 1, 0].foldl (fun pool rank => pool.enqueueEvent (pairEvent "t" rank .taskLaunchBegin))
    pairDispatched

theorem pair_aggregated : (pairLaunched.log.filterMap fun entry =>
      match entry with
      | .emitted event => some (event.taskId, event.kind)
      | _ => none) = [("t", .taskLaunchBegin)] ∧ Each EmitsWell pairLaunched.log := by
  have hlaunch : ∀ {pool : WorkerPool}, PoolReach pairWorkers pool → ∀ rank ∈ pairGroup.ranks,
      .registered "t" pairGroup ∈ pool.log →
      PoolReach pairWorkers (pool.enqueueEvent (pairEvent "t" rank .taskLaunchBegin)) :=
    fun h rank hr hreg => .arrive h hreg hr ⟨[], _, rfl, by simp⟩
  have hregister : (WorkerPool.init pairTopology).registerTaskDispatch "t" "g" =
      .ok pairDispatched := rfl
  have hdispatched : PoolReach pairWorkers pairDispatched :=
    .dispatch .start (fun _ h => absurd h List.not_mem_nil) hregister
  refine ⟨by decide, aggregated_well pairWorkers pairLaunched ?_⟩
  have honce := hlaunch hdispatched 1 (by decide) (.head _)
  have htwice := hlaunch honce 1 (by decide) (.tail _ (.head _))
  exact hlaunch htwice 0 (by decide) (.tail _ (.tail _ (.head _)))

end GfDit
