import GfDit.Engine.Order

/-!
# No command reaches a rank inside a transfer

A rank that was sent the transfer of a job is inside a blocking collective
until it replies, and a command of another job must not reach it there. The
engine keeps the job at the front of its queues until every rank has replied,
except when a reply is an error or of another phase: then the job is retired
at once, and the ranks that still owe a reply are free for the next one.
-/

namespace GfDit

variable {τ : Type} {s s' : Engine τ} {job job' : MigrationJob τ} {log : List (Entry τ)}

/-- The rank was sent this command of the job and has not replied since. -/
def owes (rank : Rank) (migrateId : String) (phase : MigratePhase) : List (Entry τ) → Bool
  | [] => false
  | .sent _ command ranks _ :: older =>
    (command.migrateId = migrateId ∧ command.phase = phase ∧ rank ∈ ranks) ||
      owes rank migrateId phase older
  | .received result :: older =>
    !(result.migrateId = migrateId ∧ result.phase = phase ∧ result.workerRank = rank) &&
      owes rank migrateId phase older
  | .begun _ :: older | .ingested _ :: older | .done .. :: older | .failed .. :: older =>
    owes rank migrateId phase older

/-- No command was sent to a rank while it owed the transfer of another job. -/
def Exclusive : List (Entry τ) → Prop
  | [] => True
  | .sent _ command ranks _ :: older =>
    (∀ rank ∈ ranks, ∀ other, other ≠ command.migrateId →
      owes rank other .executeTransfer older = false) ∧ Exclusive older
  | .begun _ :: older | .received _ :: older | .ingested _ :: older | .done .. :: older
  | .failed .. :: older => Exclusive older

/-- A batch with a reply that fails a job inside its transfer also has the
replies of all ranks the job still waits for. -/
def SafeBatch (s : Engine τ) (results : List MigrateArtifactsRankResult) : Prop :=
  ∀ job ∈ s.jobs.values, job.inFlightTransfer = true →
    (∃ result ∈ results, result.migrateId = job.migrateId ∧
      (result.failed = true ∨ result.phase ≠ .executeTransfer)) →
    ∀ rank ∈ job.pendingRanks, ∃ result ∈ results, result.migrateId = job.migrateId ∧
      result.phase = .executeTransfer ∧ result.workerRank = rank

/-- The rank takes part in a transfer that is under way and waits for it. -/
def InTransfer (s : Engine τ) (rank : Rank) (migrateId : String) : Prop :=
  ∃ job, s.jobs.get? migrateId = some job ∧ job.inFlightTransfer = true ∧
    rank ∈ job.pendingRanks ∧ rank ∈ job.participantRanks

/-- A reply that fails a job inside its transfer. -/
def Fatal (migrateId : String) (result : MigrateArtifactsRankResult) : Prop :=
  result.migrateId = migrateId ∧ (result.failed = true ∨ result.phase ≠ .executeTransfer)

-- ---------------------------------------------------------------------------
-- The front of a queue stays the front
-- ---------------------------------------------------------------------------

theorem head?_erase_of_ne {l : List String} (h : l.head? = some a) (hne : a ≠ b) :
    (l.erase b).head? = some a := by
  cases l with
  | nil => cases h
  | cons x l =>
    cases h
    rw [List.erase_cons_tail (by simpa using hne)]
    rfl

theorem oldest_iff : s.isOldestOnAllRanks job = true ↔
    ∀ rank ∈ job.participantRanks, (s.rankQueues.getD rank []).head? = some job.migrateId := by
  simp [Engine.isOldestOnAllRanks]

theorem oldest_retire (h : s.isOldestOnAllRanks job = true)
    (hne : job.migrateId ≠ job'.migrateId) : (s.retire job').isOldestOnAllRanks job = true := by
  rw [oldest_iff] at h ⊢
  intro rank hr
  rw [Engine.retire, getD_dequeue job'.participants_nodup]
  split
  · exact head?_erase_of_ne (h rank hr) hne
  · exact h rank hr

theorem oldest_addJob (h : s.isOldestOnAllRanks job = true) :
    (s.addJob job').isOldestOnAllRanks job = true := by
  rw [oldest_iff] at h ⊢
  intro rank hr
  rw [Engine.addJob, getD_enqueue job'.participants_nodup, List.head?_append, h rank hr]
  rfl

/-- Two jobs at the front of all their queues share no rank. -/
theorem oldest_disjoint (h : s.isOldestOnAllRanks job = true)
    (h' : s.isOldestOnAllRanks job' = true) (hr : rank ∈ job.participantRanks)
    (hr' : rank ∈ job'.participantRanks) : job.migrateId = job'.migrateId := by
  have h1 := oldest_iff.mp h rank hr
  have h2 := oldest_iff.mp h' rank hr'
  exact Option.some.inj (h1.symm.trans h2)

theorem targets_subset (h : rank ∈ job.targets) : rank ∈ job.participantRanks := by
  unfold MigrationJob.targets at h
  split at h
  · rw [List.mem_singleton.mp h]
    exact job.leader_mem
  · exact h
  · exact h
  · exact h

-- ---------------------------------------------------------------------------
-- Owing under each kind of entry
-- ---------------------------------------------------------------------------

theorem owes_receive (results : List MigrateArtifactsRankResult) :
    owes rank migrateId phase (s.receive results).log = true ↔
      owes rank migrateId phase s.log = true ∧ ∀ result ∈ results,
        ¬ (result.migrateId = migrateId ∧ result.phase = phase ∧ result.workerRank = rank) := by
  induction results generalizing s with
  | nil => simp [Engine.receive]
  | cons result results ih =>
    have hstep : s.receive (result :: results) = (s.record (.received result)).receive results := rfl
    rw [hstep, ih]
    simp only [Engine.record, owes, Bool.and_eq_true, Bool.not_eq_true', decide_eq_false_iff_not,
      List.forall_mem_cons]
    tauto

theorem exclusive_receive (h : Exclusive s.log) (results : List MigrateArtifactsRankResult) :
    Exclusive (s.receive results).log := by
  induction results generalizing s with
  | nil => exact h
  | cons result results ih => exact ih (s := s.record (.received result)) h

theorem InTransfer.setJob (h : InTransfer s rank migrateId) (hk : s.Keyed)
    (hget : s.jobs.get? key = some job) (hs : SameTurn job job')
    (hf : job'.inFlightTransfer = job.inFlightTransfer)
    (hp : migrateId = key → rank ∈ job.pendingRanks → rank ∈ job'.pendingRanks) :
    InTransfer (s.setJob job') rank migrateId := by
  obtain ⟨other, ho, hflight, hpend, hpart⟩ := h
  have hkey : job'.migrateId = key := hs.1.trans (hk _ _ hget)
  by_cases he : migrateId = key
  · subst he
    rw [hget] at ho
    cases ho
    refine ⟨job', by simp [Engine.setJob, hkey], hf.trans hflight, hp rfl hpend, ?_⟩
    rw [hs.2.2]
    exact hpart
  · refine ⟨other, ?_, hflight, hpend, hpart⟩
    rw [Engine.setJob, hkey, Dict.get?_set_ne _ (Ne.symm he)]
    exact ho

theorem InTransfer.retire (h : InTransfer s rank migrateId) (hne : migrateId ≠ job.migrateId) :
    InTransfer (s.retire job) rank migrateId := by
  obtain ⟨other, ho, hflight, hpend, hpart⟩ := h
  refine ⟨other, ?_, hflight, hpend, hpart⟩
  rw [Engine.retire, Dict.get?_erase_ne _ (Ne.symm hne)]
  exact ho

/-- Every job that waits for replies is at the front of its queues. -/
def WaitingAtFront (s : Engine τ) : Prop :=
  ∀ migrateId job, s.jobs.get? migrateId = some job → job.awaiting = true →
    s.isOldestOnAllRanks job = true

theorem WaitingAtFront.setJob (h : WaitingAtFront s) (hk : s.Keyed)
    (hget : s.jobs.get? key = some job) (hs : SameTurn job job')
    (ha : job'.awaiting = true → s.isOldestOnAllRanks job = true) :
    WaitingAtFront (s.setJob job') := by
  intro migrateId other ho hw
  have hkey : job'.migrateId = key := hs.1.trans (hk _ _ hget)
  rw [Engine.setJob, hkey, Dict.get?_set] at ho
  split at ho
  · cases ho
    have hold := oldest_iff.mp (ha hw)
    refine oldest_iff.mpr fun rank hr => ?_
    rw [hs.1]
    exact hold rank (hs.2.2 ▸ hr)
  · exact h migrateId other ho hw

theorem WaitingAtFront.retire (h : WaitingAtFront s) (hk : s.Keyed) (job : MigrationJob τ) :
    WaitingAtFront (s.retire job) := by
  intro migrateId other ho hw
  rw [Engine.retire, Dict.get?_erase] at ho
  split at ho
  · cases ho
  · rename_i hne
    exact oldest_retire (h migrateId other ho hw) (by rw [hk _ _ ho]; exact Ne.symm hne)

theorem WaitingAtFront.addJob (h : WaitingAtFront s) (ha : job.awaiting = false) :
    WaitingAtFront (s.addJob job) := by
  intro migrateId other ho hw
  rw [Engine.addJob, Dict.get?_set] at ho
  split at ho
  · cases ho
    rw [ha] at hw
    cases hw
  · exact oldest_addJob (h migrateId other ho hw)

-- ---------------------------------------------------------------------------
-- The steps keep the guard
-- ---------------------------------------------------------------------------

theorem accept_transfer (job : MigrationJob τ) (result : MigrateArtifactsRankResult) :
    (job.accept result).inFlightTransfer = job.inFlightTransfer ∧
      (job.accept result).awaiting = job.awaiting ∧
      (job.accept result).pendingRanks = job.pendingRanks.erase result.workerRank := by
  unfold MigrationJob.accept MigrationJob.inFlightTransfer
  cases job.phase <;> exact ⟨rfl, rfl, rfl⟩

theorem fatal_of_refusal (h : Engine.refusal job result = some error)
    (hf : job.inFlightTransfer = true) (hid : result.migrateId = migrateId) :
    Fatal migrateId result := by
  have hphase : job.phase = .executeTransfer := by
    simp only [MigrationJob.inFlightTransfer, Bool.and_eq_true, decide_eq_true_eq] at hf
    exact hf.1
  refine ⟨hid, ?_⟩
  by_cases hfail : result.failed = true
  · exact .inl hfail
  · by_cases hp : result.phase = .executeTransfer
    · simp [Engine.refusal, hfail, hp, hphase] at h
    · exact .inr hp

/-- What holds between the steps of runs with safe batches. -/
structure Guarded (c : Config τ) : Prop where
  owed : ∀ rank migrateId, owes rank migrateId .executeTransfer c.engine.log = true →
    InTransfer c.engine rank migrateId
  answered : ∀ result ∈ c.batch,
    owes result.workerRank result.migrateId result.phase c.engine.log = false
  fatal : ∀ migrateId, (∃ result ∈ c.batch, Fatal migrateId result) →
    ∀ rank, owes rank migrateId .executeTransfer c.engine.log = false
  front : WaitingAtFront c.engine
  exclusive : Exclusive c.engine.log

theorem Guarded.drop (h : Guarded ⟨s, batch⟩) : Guarded ⟨s, []⟩ :=
  ⟨h.owed, by simp, by simp, h.front, h.exclusive⟩

theorem Guarded.ingested (h : Guarded ⟨s, result :: batch⟩) :
    Guarded ⟨s.record (.ingested result), batch⟩ where
  owed := h.owed
  answered := fun r hm => h.answered r (List.mem_cons_of_mem _ hm)
  fatal := fun migrateId ⟨r, hm, hf⟩ => h.fatal migrateId ⟨r, List.mem_cons_of_mem _ hm, hf⟩
  front := h.front
  exclusive := h.exclusive

/-- A job may end when no rank owes its transfer. -/
theorem Guarded.retire (h : Guarded ⟨s, batch⟩) (ho : s.Ordered)
    (hget : s.jobs.get? key = some job)
    (hfree : ∀ rank, owes rank key .executeTransfer s.log = false) :
    Guarded ⟨s.retire job, batch⟩ where
  owed := by
    intro rank migrateId hw
    have hw : owes rank migrateId .executeTransfer s.log = true := hw
    refine (h.owed rank migrateId hw).retire fun he => ?_
    rw [he, ho.keyed _ _ hget, hfree rank] at hw
    cases hw
  answered := h.answered
  fatal := h.fatal
  front := h.front.retire ho.keyed job
  exclusive := h.exclusive

theorem Guarded.ended (h : Guarded ⟨s, batch⟩) (hn : ∀ log : List (Entry τ), Exclusive log →
      Exclusive (entry :: log)) (hw : ∀ rank migrateId phase (log : List (Entry τ)),
      owes rank migrateId phase (entry :: log) = owes rank migrateId phase log) :
    Guarded ⟨s.record entry, batch⟩ where
  owed := fun rank migrateId hw' => h.owed rank migrateId ((hw ..) ▸ hw')
  answered := fun r hm => (hw ..).trans (h.answered r hm)
  fatal := fun migrateId hf rank => (hw ..).trans (h.fatal migrateId hf rank)
  front := h.front
  exclusive := hn _ h.exclusive

theorem Guarded.free (h : Guarded ⟨s, batch⟩) (hget : s.jobs.get? key = some job)
    (hidle : job.inFlightTransfer = false ∨ job.pendingRanks = ∅) (rank : Rank) :
    owes rank key .executeTransfer s.log = false := by
  cases hw : owes rank key .executeTransfer s.log with
  | false => rfl
  | true =>
    obtain ⟨other, ho, hflight, hpend, -⟩ := h.owed rank key hw
    rw [hget] at ho
    cases ho
    rcases hidle with hf | hp
    · rw [hf] at hflight
      cases hflight
    · rw [hp] at hpend
      cases hpend

/-- A job at the front of its queues sends to no rank inside a transfer. -/
theorem Guarded.send (h : Guarded ⟨s, []⟩) (ho : s.Ordered) (hget : s.jobs.get? key = some job)
    (hs : SameTurn job job') (hold : s.isOldestOnAllRanks job = true)
    (hidle : job.inFlightTransfer = false ∨ job.pendingRanks = ∅) :
    Guarded ⟨s.send job', []⟩ := by
  have hkey : job'.migrateId = key := hs.1.trans (ho.keyed _ _ hget)
  refine ⟨fun rank migrateId hw => ?_, by simp, by simp, ?_, ?_, h.exclusive⟩
  · simp only [Engine.send, Engine.record, Engine.setJob, owes, Bool.or_eq_true,
      decide_eq_true_eq] at hw
    rcases hw with ⟨hid, hphase, hr⟩ | hw
    · -- The command just sent.
      refine ⟨job'.sending, ?_, ?_, ?_, targets_subset hr⟩
      · rw [← hid]
        simp [Engine.send, Engine.setJob, Engine.record, MigrationJob.sending, MigrationJob.command]
      · have hphase : job'.phase = .executeTransfer := hphase
        simp [MigrationJob.inFlightTransfer, MigrationJob.sending, hphase]
      · simpa [MigrationJob.sending] using hr
    · -- One sent before, of another job.
      obtain ⟨other, hother, hrest⟩ := h.owed rank migrateId hw
      have hne : migrateId ≠ key := fun he => by
        rw [he, h.free hget hidle rank] at hw
        cases hw
      refine ⟨other, ?_, hrest⟩
      have hsent : job'.sending.migrateId = key := hkey
      rw [Engine.send, Engine.record, Engine.setJob, hsent, Dict.get?_set_ne _ (Ne.symm hne)]
      exact hother
  · exact h.front.setJob ho.keyed hget (show SameTurn job job'.sending from hs) fun _ => hold
  · intro rank hr other hne
    cases hw : owes rank other .executeTransfer s.log with
    | false => exact hw
    | true =>
      obtain ⟨blocked, hget', hflight, -, hpart⟩ := h.owed rank other hw
      have hwait : blocked.awaiting = true := by
        simp only [MigrationJob.inFlightTransfer, Bool.and_eq_true] at hflight
        exact hflight.2
      have hr' : rank ∈ job.participantRanks := hs.2.2 ▸ targets_subset hr
      have hsame := oldest_disjoint (h.front _ _ hget' hwait) hold hpart hr'
      rw [ho.keyed _ _ hget'] at hsame
      exact absurd (hsame.trans hs.1.symm) hne

theorem Step.guarded {c c' : Config τ} (h : Step SafeBatch c c') (ho : c.engine.Ordered)
    (hg : Guarded c) : Guarded c' := by
  cases h with
  | begin h =>
    obtain ⟨hl, rfl, hget, rfl⟩ := begin_ok h
    refine ⟨fun rank migrateId hw => ?_, hg.answered, hg.fatal, hg.front.addJob rfl, hg.exclusive⟩
    obtain ⟨other, hother, hrest⟩ := hg.owed rank migrateId hw
    refine ⟨other, ?_, hrest⟩
    rw [Engine.addJob, Dict.get?_set_ne _ fun he => ?_]
    · exact hother
    · have he : Engine.idFor _ = migrateId := he
      rw [← he, hget] at hother
      cases hother
  | @receive results s hsafe =>
    have hfree : ∀ migrateId, (∃ result ∈ results, Fatal migrateId result) →
        ∀ rank, owes rank migrateId .executeTransfer (s.receive results).log = false := by
      rintro migrateId ⟨result, hm, hid, hf⟩ rank
      cases hw : owes rank migrateId .executeTransfer (s.receive results).log with
      | false => rfl
      | true =>
        obtain ⟨hold, hnone⟩ := (owes_receive results).mp hw
        obtain ⟨job, hget, hflight, hpend, -⟩ := hg.owed rank migrateId hold
        have hkey := ho.keyed _ _ hget
        obtain ⟨r, hr, hrest⟩ := hsafe job (Dict.mem_values_of_get? hget) hflight
          ⟨result, hm, hid.trans hkey.symm, hf⟩ rank hpend
        exact absurd ⟨hrest.1.trans hkey, hrest.2⟩ (hnone r hr)
    refine ⟨fun rank migrateId hw => ?_, fun r hm => ?_, hfree, ?_, exclusive_receive hg.exclusive _⟩
    · obtain ⟨job, hrest⟩ := hg.owed rank migrateId ((owes_receive results).mp hw).1
      exact ⟨job, by rw [receive_eq]; exact hrest⟩
    · cases hw : owes r.workerRank r.migrateId r.phase (s.receive results).log with
      | false => rfl
      | true => exact absurd ⟨rfl, rfl, rfl⟩ (((owes_receive results).mp hw).2 r hm)
    · rw [receive_eq]
      exact hg.front
  | ignore _ => exact hg.ingested
  | @refuse result error batch s job hget hr =>
    have hfree : ∀ rank, owes rank result.migrateId .executeTransfer s.log = false := by
      cases hf : job.inFlightTransfer with
      | false => exact hg.free hget (.inl hf)
      | true => exact hg.fatal _ ⟨result, List.mem_cons_self .., fatal_of_refusal hr hf rfl⟩
    exact (hg.ingested.retire (ho.record _) hget hfree).ended (fun _ h => h) (fun _ _ _ _ => rfl)
  | @accept result batch s job hget hr =>
    obtain ⟨hflight, hwait, hpend⟩ := accept_transfer job result
    have hsame := accept_sameTurn job result
    refine ⟨fun rank migrateId hw => ?_, hg.ingested.answered, hg.ingested.fatal, ?_, hg.exclusive⟩
    · have hin := hg.owed rank migrateId hw
      refine InTransfer.setJob (s := s.record (.ingested result)) hin ho.keyed hget hsame hflight ?_
      intro he hp
      rw [hpend, Finset.mem_erase]
      refine ⟨fun hrank => ?_, hp⟩
      -- The rank that just replied owes nothing any more.
      obtain ⟨other, hother, hf, -⟩ := hin
      rw [he, hget] at hother
      cases hother
      have hphase : job.phase = .executeTransfer := by
        simp only [MigrationJob.inFlightTransfer, Bool.and_eq_true, decide_eq_true_eq] at hf
        exact hf.1
      have hans := hg.answered result (List.mem_cons_self ..)
      rw [(refusal_none hr).2, hphase, ← he, ← hrank] at hans
      have hw : owes rank migrateId .executeTransfer s.log = true := hw
      rw [hans] at hw
      cases hw
    · exact WaitingAtFront.setJob (s := s.record (.ingested result)) hg.front ho.keyed hget hsame
        fun ha => hg.front _ _ hget (hwait ▸ ha)
  | drop => exact hg.drop
  | timeout hget ht =>
    exact (hg.retire ho hget (hg.free hget (.inl ht))).ended (fun _ h => h) (fun _ _ _ _ => rfl)
  | warn hget =>
    refine ⟨fun rank migrateId hw => ?_, hg.answered, hg.fatal, ?_, hg.exclusive⟩
    · exact (hg.owed rank migrateId hw).setJob ho.keyed hget ⟨rfl, rfl, rfl⟩ rfl fun _ hp => hp
    · exact hg.front.setJob ho.keyed hget ⟨rfl, rfl, rfl⟩ fun ha => hg.front _ _ hget ha
  | start hget hold ha =>
    refine hg.send ho hget ⟨rfl, rfl, rfl⟩ hold (.inl ?_)
    simp [MigrationJob.inFlightTransfer, ha]
  | next hget hold _ hp _ => exact hg.send ho hget ⟨rfl, rfl, rfl⟩ hold (.inr hp)
  | complete hget _ _ hp _ =>
    exact (hg.retire ho hget (hg.free hget (.inr hp))).ended (fun _ h => h) (fun _ _ _ _ => rfl)

/-- In every run whose batches are safe no command reaches a rank that still
owes its reply to the transfer of another job. -/
theorem exclusive_of_safe_batches [LinearOrder τ] (h : Engine.Run SafeBatch s) :
    Exclusive s.log := by
  have h0 : Guarded (⟨Engine.init, []⟩ : Config τ) :=
    ⟨by simp [Engine.init, owes], by simp, by simp, fun _ _ h => by simp [Engine.init] at h,
      trivial⟩
  exact (h.invariant h0 fun _ _ ho hs hg => hs.guarded ho hg).2.exclusive

-- ---------------------------------------------------------------------------
-- An error reply frees ranks that are still inside the transfer
-- ---------------------------------------------------------------------------

def brokenTransfer : List (List MigrateArtifactsRankResult) :=
  handshake ++ [[reply "a" .executeTransfer (some "lost") 0]]

/-- The command of the second job reaches ranks 1 and 2 inside the transfer. -/
theorem exclusive_fails_on_error :
    ¬ ∀ s : Engine Nat, Engine.Run (fun _ _ => True) s → Exclusive s.log := by
  intro h
  have hrun : Engine.Run (fun _ _ => True) (pumpAll twoJobs brokenTransfer) :=
    pumpAll_run (Engine.Run.init.beginAll _) fun _ _ => trivial
  have hx : (∀ rank ∈ _, ∀ other, other ≠ _ → owes rank other .executeTransfer _ = false) ∧
      Exclusive _ := h _ hrun
  exact absurd (hx.1 1 (by decide) "a" (by decide)) (by decide)

instance (s : Engine τ) (results : List MigrateArtifactsRankResult) :
    Decidable (SafeBatch s results) :=
  inferInstanceAs (Decidable (∀ _ ∈ _, _ → _ → ∀ _ ∈ _, _))

/-- The same error in one batch with the replies of the other two ranks. -/
theorem exclusive_after_late_error :
    Exclusive (pumpAll twoJobs (handshake ++ [[reply "a" .executeTransfer (some "lost") 0,
      reply "a" .executeTransfer none 1, reply "a" .executeTransfer none 2]])).log :=
  exclusive_of_safe_batches (pumpAll_run (Engine.Run.init.beginAll _) (by decide))

end GfDit
