import GfDit.Protocol
import GfDit.Lib.Dict
import Mathlib.Data.Finset.Basic
import Mathlib.Data.List.Sort

/-!
# The migration engine

`migration_engine.py`: a job moves an artifact between two groups in four
phases. The engine sends the command of a phase to its target ranks, waits for
their replies, and sends the next. Jobs that share ranks take turns in the
order they were begun, through one queue for each rank.

The owner calls `begin`, and `pump` with the replies drained since the last
tick. The callbacks of a job run when it ends; they may begin further jobs and
may raise, which ends the pump there. What the outside can see is kept in
`log`, newest entry first; the engine never reads it.
-/

namespace GfDit

variable {τ : Type}

def MigratePhase.next : MigratePhase → Option MigratePhase
  | .describeLayout => some .buildSchedule
  | .buildSchedule => some .acceptSchedule
  | .acceptSchedule => some .executeTransfer
  | .executeTransfer => none

structure MigrationJob (τ : Type) where
  migrateId : String
  migrateSeq : Nat
  plan : MigrateArtifactsPlan
  srcGroup : ExecutionGroupSpec
  dstGroup : ExecutionGroupSpec
  participantRanks : List Rank
  srcLeaderRank : Rank
  deadline : τ
  phase : MigratePhase
  -- True once the command of the current phase is sent.
  awaiting : Bool
  pendingRanks : Finset Rank
  layoutResults : List MigrateArtifactsRankResult
  schedule : Option ArtifactMigrationSchedule
  metadataPayloads : List (String × String)
  transferOverrunWarned : Bool
  participants_nodup : participantRanks.Nodup
  leader_mem : srcLeaderRank ∈ participantRanks
  deriving DecidableEq

def MigrationJob.accept (job : MigrationJob τ) (result : MigrateArtifactsRankResult) :
    MigrationJob τ :=
  let job := { job with pendingRanks := job.pendingRanks.erase result.workerRank }
  match job.phase with
  | .describeLayout => { job with layoutResults := job.layoutResults ++ [result] }
  | .buildSchedule =>
    { job with schedule := result.schedule, metadataPayloads := result.metadataPayloads }
  | .acceptSchedule | .executeTransfer => job

/-- `_targets`: the schedule is built by the source leader alone. -/
def MigrationJob.targets (job : MigrationJob τ) : List Rank :=
  match job.phase with
  | .buildSchedule => [job.srcLeaderRank]
  | .describeLayout | .acceptSchedule | .executeTransfer => job.participantRanks

/-- `_build_migration_command` of the worker pool, the engine's `build_command`. -/
def MigrationJob.command (job : MigrationJob τ) : MigrateArtifactsCommand where
  migrateId := job.migrateId
  phase := job.phase
  plan := job.plan
  srcGroup := job.srcGroup
  dstGroup := job.dstGroup
  layoutResults := job.layoutResults
  schedule := job.schedule
  metadataPayloads := job.metadataPayloads

def MigrationJob.sending (job : MigrationJob τ) : MigrationJob τ :=
  { job with pendingRanks := job.targets.toFinset, awaiting := true }

/-- The workers are inside the transfer and cannot be called back. -/
def MigrationJob.inFlightTransfer (job : MigrationJob τ) : Bool :=
  job.phase = .executeTransfer && job.awaiting

/-- The arguments of `begin`. The participants are the sorted union of two
sets; `uuid` is what `uuid4` returns for this call. -/
structure BeginRequest (τ : Type) where
  plan : MigrateArtifactsPlan
  srcGroup : ExecutionGroupSpec
  dstGroup : ExecutionGroupSpec
  participantRanks : List Rank
  srcLeaderRank : Rank
  deadline : τ
  migrateId : Option String
  uuid : String
  participants_nodup : participantRanks.Nodup

inductive Entry (τ : Type)
  | begun (job : MigrationJob τ)
  /-- A command of a job handed to the transport, with the queues as they were. -/
  | sent (job : MigrationJob τ) (command : MigrateArtifactsCommand) (ranks : List Rank)
      (queues : Dict Rank (List String))
  /-- A reply drained from the transport. -/
  | received (result : MigrateArtifactsRankResult)
  /-- A reply looked at by the engine. -/
  | ingested (result : MigrateArtifactsRankResult)
  | done (migrateId : String) (schedule : Option ArtifactMigrationSchedule)
  | failed (migrateId : String) (error : PyError)
  deriving DecidableEq

structure Engine (τ : Type) where
  jobs : Dict String (MigrationJob τ)
  rankQueues : Dict Rank (List String)
  seq : Nat
  log : List (Entry τ)
  deriving DecidableEq

namespace Engine

def init : Engine τ := ⟨∅, ∅, 0, []⟩

def record (s : Engine τ) (entry : Entry τ) : Engine τ := { s with log := entry :: s.log }

def hasPending (s : Engine τ) : Bool := !s.jobs.entries.isEmpty

-- ---------------------------------------------------------------------------
-- Beginning a job
-- ---------------------------------------------------------------------------

/-- `migrate_id or str(uuid.uuid4())`. -/
def idFor (request : BeginRequest τ) : String :=
  match request.migrateId with
  | none => request.uuid
  | some migrateId => if migrateId = "" then request.uuid else migrateId

def newJob (s : Engine τ) (request : BeginRequest τ)
    (h : request.srcLeaderRank ∈ request.participantRanks) : MigrationJob τ where
  migrateId := idFor request
  migrateSeq := s.seq + 1
  plan := request.plan
  srcGroup := request.srcGroup
  dstGroup := request.dstGroup
  participantRanks := request.participantRanks
  srcLeaderRank := request.srcLeaderRank
  deadline := request.deadline
  phase := .describeLayout
  awaiting := false
  pendingRanks := ∅
  layoutResults := []
  schedule := none
  metadataPayloads := []
  transferOverrunWarned := false
  participants_nodup := request.participants_nodup
  leader_mem := h

def enqueue (queues : Dict Rank (List String)) (ranks : List Rank) (migrateId : String) :
    Dict Rank (List String) :=
  ranks.foldl (fun queues rank => queues.set rank (queues.getD rank [] ++ [migrateId])) queues

def addJob (s : Engine τ) (job : MigrationJob τ) : Engine τ where
  jobs := s.jobs.set job.migrateId job
  rankQueues := enqueue s.rankQueues job.participantRanks job.migrateId
  seq := job.migrateSeq
  log := .begun job :: s.log

def begin (s : Engine τ) (request : BeginRequest τ) : Except PyError (String × Engine τ) :=
  if h : request.srcLeaderRank ∈ request.participantRanks then
    if (s.jobs.get? (idFor request)).isSome then
      throw (.assertionError ("duplicate migrate_id " ++ idFor request))
    else
      pure (idFor request, s.addJob (s.newJob request h))
  else
    throw (.assertionError <| "src_leader_rank " ++ toString request.srcLeaderRank ++
      " must be in participant_ranks " ++ natTuple request.participantRanks)

-- ---------------------------------------------------------------------------
-- Ending a job
-- ---------------------------------------------------------------------------

/-- What the callback of a job that just ended does: the jobs it begins, and
the error it lets out. -/
abbrev Callback (τ : Type) := Engine τ → List (BeginRequest τ) × Option PyError

def beginAll (s : Engine τ) (requests : List (BeginRequest τ)) : Engine τ :=
  requests.foldl (fun s request =>
    match s.begin request with
    | .ok (_, s') => s'
    | .error _ => s) s

def callBack (callback : Callback τ) (s : Engine τ) : Engine τ × Option PyError :=
  (s.beginAll (callback s).1, (callback s).2)

def dequeue (queues : Dict Rank (List String)) (ranks : List Rank) (migrateId : String) :
    Dict Rank (List String) :=
  ranks.foldl (fun queues rank =>
    match queues.get? rank with
    | none => queues
    | some queue => if migrateId ∈ queue then queues.set rank (queue.erase migrateId) else queues)
    queues

/-- `_retire`: out of the jobs and out of every queue. -/
def retire (s : Engine τ) (job : MigrationJob τ) : Engine τ :=
  { s with
    jobs := s.jobs.erase job.migrateId
    rankQueues := dequeue s.rankQueues job.participantRanks job.migrateId }

def failed (s : Engine τ) (job : MigrationJob τ) (error : PyError) : Engine τ :=
  (s.retire job).record (.failed job.migrateId error)

def fail (callback : Callback τ) (s : Engine τ) (job : MigrationJob τ) (error : PyError) :
    Engine τ × Option PyError := (s.failed job error).callBack callback

def completed (s : Engine τ) (job : MigrationJob τ) : Engine τ :=
  (s.retire job).record (.done job.migrateId job.schedule)

def complete (callback : Callback τ) (s : Engine τ) (job : MigrationJob τ) :
    Engine τ × Option PyError := (s.completed job).callBack callback

-- ---------------------------------------------------------------------------
-- Taking in replies
-- ---------------------------------------------------------------------------

def setJob (s : Engine τ) (job : MigrationJob τ) : Engine τ :=
  { s with jobs := s.jobs.set job.migrateId job }

/-- `bool(result.error)` or a reply of another phase: either fails the job. -/
def refusal (job : MigrationJob τ) (result : MigrateArtifactsRankResult) : Option PyError :=
  if result.failed then
    some (.runtimeError <| "migration " ++ job.migrateId ++ " phase " ++ result.phase.value ++
      " failed on rank " ++ toString result.workerRank ++ ": " ++ result.error.getD "")
  else if result.phase ≠ job.phase then
    some (.runtimeError <| "unexpected migration result: migrate_id=" ++ job.migrateId ++
      " expected phase=" ++ job.phase.value ++ " got " ++ result.phase.value)
  else none

/-- One turn of the loop of `_ingest_results`. -/
def ingestResult (callback : Callback τ) (s : Engine τ) (result : MigrateArtifactsRankResult) :
    Engine τ × Option PyError :=
  let s := s.record (.ingested result)
  match s.jobs.get? result.migrateId with
  | none => (s, none)
  | some job =>
    match refusal job result with
    | some error => s.fail callback job error
    | none => (s.setJob (job.accept result), none)

def ingestResults (callback : Callback τ) :
    Engine τ → List MigrateArtifactsRankResult → Engine τ × Option PyError
  | s, [] => (s, none)
  | s, result :: rest =>
    match s.ingestResult callback result with
    | (s, none) => ingestResults callback s rest
    | (s, some error) => (s, some error)

-- ---------------------------------------------------------------------------
-- Advancing jobs
-- ---------------------------------------------------------------------------

/-- `_is_oldest_on_all_ranks`: the front of the queue of every participant. -/
def isOldestOnAllRanks (s : Engine τ) (job : MigrationJob τ) : Bool :=
  job.participantRanks.all fun rank => (s.rankQueues.getD rank []).head? = some job.migrateId

/-- The end of `_advance`: store the job as waiting and hand the command over. -/
def send (s : Engine τ) (job : MigrationJob τ) : Engine τ :=
  (s.setJob job.sending).record (.sent job job.command job.targets s.rankQueues)

def advance (callback : Callback τ) (s : Engine τ) (job : MigrationJob τ) :
    Engine τ × Option PyError :=
  if !s.isOldestOnAllRanks job then (s, none)
  else if job.awaiting then
    if job.pendingRanks ≠ ∅ then (s, none)
    else
      match job.phase.next with
      | none => s.complete callback job
      | some phase => (s.send { job with phase }, none)
  else (s.send job, none)

variable [LinearOrder τ]

/-- One turn of the loop of `pump`. The transfer's overrun is only noted. -/
def pumpJob (callback : Callback τ) (now : τ) (s : Engine τ) (job : MigrationJob τ) :
    Engine τ × Option PyError :=
  if job.deadline < now then
    if !job.inFlightTransfer then
      s.fail callback job (.timeoutError <| "migration " ++ job.migrateId ++
        " timed out in phase " ++ job.phase.value)
    else
      let job := { job with transferOverrunWarned := true }
      (s.setJob job).advance callback job
  else s.advance callback job

/-- The loop of `pump` over the jobs that were there when it began. A job that
ended since is out of `jobs`; its sequence number tells it from a later one. -/
def pumpJobs (callback : Callback τ) (now : τ) :
    Engine τ → List (MigrationJob τ) → Engine τ × Option PyError
  | s, [] => (s, none)
  | s, old :: rest =>
    match s.jobs.get? old.migrateId with
    | none => pumpJobs callback now s rest
    | some job =>
      if job.migrateSeq ≠ old.migrateSeq then pumpJobs callback now s rest
      else
        match s.pumpJob callback now job with
        | (s, none) => pumpJobs callback now s rest
        | (s, some error) => (s, some error)

def bySeq (jobs : List (MigrationJob τ)) : List (MigrationJob τ) :=
  jobs.insertionSort fun a b => a.migrateSeq ≤ b.migrateSeq

def receive (s : Engine τ) (results : List MigrateArtifactsRankResult) : Engine τ :=
  results.foldl (fun s result => s.record (.received result)) s

def pump (callback : Callback τ) (s : Engine τ) (results : List MigrateArtifactsRankResult)
    (now : τ) : Engine τ × Option PyError :=
  match (s.receive results).ingestResults callback results with
  | (s, some error) => (s, some error)
  | (s, none) => s.pumpJobs callback now (bySeq s.jobs.values)

end Engine

-- ---------------------------------------------------------------------------
-- Runs
-- ---------------------------------------------------------------------------

variable [LinearOrder τ]

/-- The states after any calls of the owner. `admits` limits the batches of
replies a pump may be given. -/
inductive Engine.Run (admits : Engine τ → List MigrateArtifactsRankResult → Prop) :
    Engine τ → Prop
  | init : Run admits Engine.init
  | begin (h : Run admits s) (hb : s.begin request = .ok (migrateId, s')) : Run admits s'
  | pump (h : Run admits s) (ha : admits s results) (callback : Engine.Callback τ) (now : τ) :
      Run admits (s.pump callback results now).1

end GfDit
