import GfDit.Engine.Basic
import GfDit.Lib.Turns
import Mathlib.Logic.Relation

/-!
# What a call of the engine can do

Every call is a sequence of small steps on the engine and the part of the
batch still to be looked at. The steps carry their guards, so an invariant is
checked step by step and holds after every call.
-/

namespace GfDit

open Relation (ReflTransGen)

variable {τ : Type}

/-- The engine and the replies of the current pump not looked at yet. -/
structure Config (τ : Type) where
  engine : Engine τ
  batch : List MigrateArtifactsRankResult

inductive Step (admits : Engine τ → List MigrateArtifactsRankResult → Prop) :
    Config τ → Config τ → Prop
  | begin {s s' : Engine τ} (h : s.begin request = .ok (migrateId, s')) :
      Step admits ⟨s, batch⟩ ⟨s', batch⟩
  | receive {s : Engine τ} (h : admits s results) :
      Step admits ⟨s, []⟩ ⟨s.receive results, results⟩
  | ignore {s : Engine τ} (h : s.jobs.get? result.migrateId = none) :
      Step admits ⟨s, result :: batch⟩ ⟨s.record (.ingested result), batch⟩
  | refuse {s : Engine τ} {job : MigrationJob τ} (h : s.jobs.get? result.migrateId = some job)
      (hr : Engine.refusal job result = some error) :
      Step admits ⟨s, result :: batch⟩ ⟨(s.record (.ingested result)).failed job error, batch⟩
  | accept {s : Engine τ} {job : MigrationJob τ} (h : s.jobs.get? result.migrateId = some job)
      (hr : Engine.refusal job result = none) :
      Step admits ⟨s, result :: batch⟩
        ⟨(s.record (.ingested result)).setJob (job.accept result), batch⟩
  -- A callback raised: the rest of the batch is lost.
  | drop : Step admits ⟨s, batch⟩ ⟨s, []⟩
  | timeout {s : Engine τ} {job : MigrationJob τ} (h : s.jobs.get? migrateId = some job)
      (ht : job.inFlightTransfer = false) : Step admits ⟨s, []⟩ ⟨s.failed job error, []⟩
  | warn {s : Engine τ} {job : MigrationJob τ} (h : s.jobs.get? migrateId = some job) :
      Step admits ⟨s, []⟩ ⟨s.setJob { job with transferOverrunWarned := true }, []⟩
  | start {s : Engine τ} {job : MigrationJob τ} (h : s.jobs.get? migrateId = some job)
      (ho : s.isOldestOnAllRanks job = true) (ha : job.awaiting = false) :
      Step admits ⟨s, []⟩ ⟨s.send job, []⟩
  | next {s : Engine τ} {job : MigrationJob τ} (h : s.jobs.get? migrateId = some job)
      (ho : s.isOldestOnAllRanks job = true) (ha : job.awaiting = true)
      (hp : job.pendingRanks = ∅) (hn : job.phase.next = some phase) :
      Step admits ⟨s, []⟩ ⟨s.send { job with phase }, []⟩
  | complete {s : Engine τ} {job : MigrationJob τ} (h : s.jobs.get? migrateId = some job)
      (ho : s.isOldestOnAllRanks job = true) (ha : job.awaiting = true)
      (hp : job.pendingRanks = ∅) (hn : job.phase.next = none) :
      Step admits ⟨s, []⟩ ⟨s.completed job, []⟩

variable {admits : Engine τ → List MigrateArtifactsRankResult → Prop} {s s' : Engine τ}
  {batch : List MigrateArtifactsRankResult} {result : MigrateArtifactsRankResult}
  {job : MigrationJob τ}

abbrev Steps (admits : Engine τ → List MigrateArtifactsRankResult → Prop) :=
  ReflTransGen (Step admits)

-- ---------------------------------------------------------------------------
-- Every call is a sequence of steps
-- ---------------------------------------------------------------------------

theorem beginAll_steps (requests : List (BeginRequest τ)) :
    Steps admits ⟨s, batch⟩ ⟨s.beginAll requests, batch⟩ := by
  induction requests generalizing s with
  | nil => exact .refl
  | cons request requests ih =>
    cases hb : s.begin request with
    | error e =>
      have : s.beginAll (request :: requests) = s.beginAll requests := by
        simp [Engine.beginAll, hb]
      exact this ▸ ih
    | ok pair =>
      have : s.beginAll (request :: requests) = pair.2.beginAll requests := by
        simp [Engine.beginAll, hb]
      exact this ▸ ReflTransGen.head (.begin hb) ih

theorem callBack_steps (callback : Engine.Callback τ) :
    Steps admits ⟨s, batch⟩ ⟨(s.callBack callback).1, batch⟩ := beginAll_steps _

theorem ingestResult_steps (callback : Engine.Callback τ) :
    Steps admits ⟨s, result :: batch⟩ ⟨(s.ingestResult callback result).1, batch⟩ := by
  simp only [Engine.ingestResult]
  split
  · exact .single (.ignore ‹_›)
  · split
    · exact ReflTransGen.head (.refuse ‹_› ‹_›) (callBack_steps callback)
    · exact .single (.accept ‹_› ‹_›)

theorem ingestResults_steps (callback : Engine.Callback τ) :
    Steps admits ⟨s, batch⟩ ⟨(s.ingestResults callback batch).1, []⟩ := by
  induction batch generalizing s with
  | nil => exact .refl
  | cons result rest ih =>
    have hone : Steps admits ⟨s, result :: rest⟩ ⟨(s.ingestResult callback result).1, rest⟩ :=
      ingestResult_steps callback
    simp only [Engine.ingestResults]
    split
    · rename_i heq
      rw [heq] at hone
      exact hone.trans ih
    · rename_i heq
      rw [heq] at hone
      exact hone.tail .drop

theorem advance_steps (callback : Engine.Callback τ) (h : s.jobs.get? migrateId = some job) :
    Steps admits ⟨s, []⟩ ⟨(s.advance callback job).1, []⟩ := by
  simp only [Engine.advance]
  split
  · exact .refl
  · rename_i ho
    have ho : s.isOldestOnAllRanks job = true := by simpa using ho
    split
    · rename_i ha
      split
      · exact .refl
      · rename_i hp
        have hp : job.pendingRanks = ∅ := by simpa using hp
        split
        · rename_i hn
          exact ReflTransGen.head (.complete h ho ha hp hn) (callBack_steps callback)
        · rename_i hn
          exact .single (.next h ho ha hp hn)
    · rename_i ha
      exact .single (.start h ho (by simpa using ha))

-- ---------------------------------------------------------------------------
-- Jobs are stored under their own id
-- ---------------------------------------------------------------------------

def Engine.Keyed (s : Engine τ) : Prop :=
  ∀ migrateId job, s.jobs.get? migrateId = some job → job.migrateId = migrateId

theorem Engine.Keyed.setJob (hk : s.Keyed) (job : MigrationJob τ) : (s.setJob job).Keyed := by
  intro migrateId other h
  rw [Engine.setJob, Dict.get?_set] at h
  split at h
  · cases h
    assumption
  · exact hk migrateId other h

theorem Engine.Keyed.retire (hk : s.Keyed) (job : MigrationJob τ) : (s.retire job).Keyed := by
  intro migrateId other h
  rw [Engine.retire, Dict.get?_erase] at h
  split at h
  · cases h
  · exact hk migrateId other h

theorem begin_ok {request : BeginRequest τ} (h : s.begin request = .ok (migrateId, s')) :
    ∃ hl, migrateId = Engine.idFor request ∧ s.jobs.get? migrateId = none ∧
      s' = s.addJob (s.newJob request hl) := by
  unfold Engine.begin at h
  split at h
  · split at h
    · cases h
    · cases h
      refine ⟨‹_›, rfl, ?_, rfl⟩
      rename_i hn
      simpa using hn
  · cases h

theorem refusal_none (h : Engine.refusal job result = none) :
    result.failed = false ∧ result.phase = job.phase := by
  unfold Engine.refusal at h
  split at h
  · cases h
  · split at h
    · cases h
    · simp_all

theorem receive_eq (s : Engine τ) (results : List MigrateArtifactsRankResult) :
    s.receive results = { s with log := (results.map .received).reverse ++ s.log } := by
  induction results generalizing s with
  | nil => rfl
  | cons result results ih =>
    have hstep : s.receive (result :: results) = (s.record (.received result)).receive results := rfl
    rw [hstep, ih]
    simp [Engine.record]

theorem Step.keyed {c c' : Config τ} (h : Step admits c c') (hk : c.engine.Keyed) :
    c'.engine.Keyed := by
  cases h with
  | begin h =>
    obtain ⟨_, -, -, rfl⟩ := begin_ok h
    exact hk.setJob _
  | receive _ =>
    rw [receive_eq]
    exact hk
  | ignore _ => exact hk
  | refuse _ _ => exact Engine.Keyed.retire hk _
  | accept _ _ => exact Engine.Keyed.setJob hk _
  | drop => exact hk
  | timeout _ _ => exact hk.retire _
  | warn _ => exact hk.setJob _
  | start _ _ _ => exact hk.setJob _
  | next _ _ _ _ _ => exact hk.setJob _
  | complete _ _ _ _ _ => exact hk.retire _

theorem Steps.keyed {c c' : Config τ} (h : Steps admits c c') (hk : c.engine.Keyed) :
    c'.engine.Keyed := by
  induction h with
  | refl => exact hk
  | tail _ hstep ih => exact hstep.keyed ih

variable [LinearOrder τ]

theorem pumpJob_steps (callback : Engine.Callback τ) (now : τ) (hk : s.Keyed)
    (h : s.jobs.get? migrateId = some job) :
    Steps admits ⟨s, []⟩ ⟨(s.pumpJob callback now job).1, []⟩ := by
  simp only [Engine.pumpJob]
  split
  · split
    · rename_i ht
      exact ReflTransGen.head (.timeout h (by simpa using ht)) (callBack_steps callback)
    · have hget : (s.setJob { job with transferOverrunWarned := true }).jobs.get? migrateId =
          some { job with transferOverrunWarned := true } := by
        simp [Engine.setJob, hk migrateId job h]
      exact ReflTransGen.head (.warn h) (advance_steps callback hget)
  · exact advance_steps callback h

theorem pumpJobs_steps (callback : Engine.Callback τ) (now : τ) (jobs : List (MigrationJob τ))
    (hk : s.Keyed) : Steps admits ⟨s, []⟩ ⟨(s.pumpJobs callback now jobs).1, []⟩ := by
  induction jobs generalizing s with
  | nil => exact .refl
  | cons old rest ih =>
    simp only [Engine.pumpJobs]
    split
    · exact ih hk
    · rename_i job hget
      split
      · exact ih hk
      · have hone : Steps admits ⟨s, []⟩ ⟨(s.pumpJob callback now job).1, []⟩ :=
          pumpJob_steps callback now hk hget
        split
        · rename_i heq
          rw [heq] at hone
          exact hone.trans (ih (hone.keyed hk))
        · rename_i heq
          rwa [heq] at hone

theorem pump_steps (callback : Engine.Callback τ) (now : τ) (hk : s.Keyed)
    (ha : admits s batch) : Steps admits ⟨s, []⟩ ⟨(s.pump callback batch now).1, []⟩ := by
  have hin : Steps admits ⟨s, []⟩
      ⟨((s.receive batch).ingestResults callback batch).1, []⟩ :=
    ReflTransGen.head (.receive ha) (ingestResults_steps callback)
  simp only [Engine.pump]
  split
  · rename_i heq
    rwa [heq] at hin
  · rename_i heq
    rw [heq] at hin
    exact hin.trans (pumpJobs_steps callback now _ (hin.keyed hk))

/-- Every state after some calls is reached by steps. -/
theorem Engine.Run.steps (h : Engine.Run admits s) : Steps admits ⟨Engine.init, []⟩ ⟨s, []⟩ := by
  have h0 : (Engine.init : Engine τ).Keyed := fun _ _ h => by simp [Engine.init] at h
  induction h with
  | init => exact .refl
  | begin _ hb ih => exact ih.tail (.begin hb)
  | pump _ ha callback now ih => exact ih.trans (pump_steps callback now (ih.keyed h0) ha)

theorem Engine.Run.beginAll (h : Engine.Run admits s) (requests : List (BeginRequest τ)) :
    Engine.Run admits (s.beginAll requests) := by
  induction requests generalizing s with
  | nil => exact h
  | cons request requests ih =>
    cases hb : s.begin request with
    | error e =>
      have : s.beginAll (request :: requests) = s.beginAll requests := by
        simp [Engine.beginAll, hb]
      exact this ▸ ih h
    | ok pair =>
      have : s.beginAll (request :: requests) = pair.2.beginAll requests := by
        simp [Engine.beginAll, hb]
      exact this ▸ ih (.begin h hb)

end GfDit
