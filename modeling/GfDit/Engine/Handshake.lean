import GfDit.Engine.Order

/-!
# What the handshake guarantees

The phases of a job are separated by nothing but a set of pending ranks. When
every worker replies at most once to a command it received, and ids do not
repeat, that is enough: a job ends once, it completes only after all its
participants replied in every phase, and what travels with the later commands
is what its own source leader built.
-/

namespace GfDit

variable {τ : Type} {s s' : Engine τ} {job job' : MigrationJob τ} {log older : List (Entry τ)}
  {entry : Entry τ}

-- ---------------------------------------------------------------------------
-- Who takes part in a job
-- ---------------------------------------------------------------------------

structure Party where
  migrateId : String
  participantRanks : List Rank
  srcLeaderRank : Rank

def MigrationJob.party (job : MigrationJob τ) : Party :=
  ⟨job.migrateId, job.participantRanks, job.srcLeaderRank⟩

def Party.targets (p : Party) : MigratePhase → List Rank
  | .buildSchedule => [p.srcLeaderRank]
  | .describeLayout | .acceptSchedule | .executeTransfer => p.participantRanks

theorem targets_party (job : MigrationJob τ) : job.targets = job.party.targets job.phase := by
  unfold MigrationJob.targets Party.targets
  cases job.phase <;> rfl

def GoodReply (p : Party) (phase : MigratePhase) (rank : Rank)
    (result : MigrateArtifactsRankResult) : Prop :=
  result.migrateId = p.migrateId ∧ result.phase = phase ∧ result.workerRank = rank ∧
    result.failed = false

def PhaseDone (p : Party) (phase : MigratePhase) (before : List (Entry τ) → Prop)
    (log : List (Entry τ)) : Prop :=
  ∃ since older sender command queues,
    log = since ++ .sent sender command (p.targets phase) queues :: older ∧
    command.migrateId = p.migrateId ∧ command.phase = phase ∧ before older ∧
    ∀ rank ∈ p.targets phase, ∃ result, .ingested result ∈ since ∧ GoodReply p phase rank result

/-- What was done when the command of a phase may be sent. -/
def Reached (p : Party) : MigratePhase → List (Entry τ) → Prop
  | .describeLayout => fun _ => True
  | .buildSchedule => PhaseDone p .describeLayout fun _ => True
  | .acceptSchedule => PhaseDone p .buildSchedule (PhaseDone p .describeLayout fun _ => True)
  | .executeTransfer => PhaseDone p .acceptSchedule <| PhaseDone p .buildSchedule <|
      PhaseDone p .describeLayout fun _ => True

/-- Every participant replied to the layouts, then the leader to the schedule,
then every participant to the acceptance and then to the transfer. -/
def Transferred (p : Party) (log : List (Entry τ)) : Prop :=
  PhaseDone p .executeTransfer (Reached p .executeTransfer) log

/-- The reply with which the source leader of the job returned its schedule. -/
def BuiltBy (p : Party) (result : MigrateArtifactsRankResult) (log : List (Entry τ)) : Prop :=
  .ingested result ∈ log ∧ GoodReply p .buildSchedule p.srcLeaderRank result

def Begun (p : Party) (log : List (Entry τ)) : Prop := ∃ job, .begun job ∈ log ∧ job.party = p

-- ---------------------------------------------------------------------------
-- The agreement
-- ---------------------------------------------------------------------------

def Entry.ends (migrateId : String) : Entry τ → Bool
  | .done other _ => other = migrateId
  | .failed other _ => other = migrateId
  | .begun _ | .sent .. | .received _ | .ingested _ => false

/-- What an entry says about the entries before it. -/
def Entry.Agrees (older : List (Entry τ)) : Entry τ → Prop
  | .done migrateId schedule => ∃ p result, p.migrateId = migrateId ∧ Begun p older ∧
      Transferred p older ∧ BuiltBy p result older ∧ schedule = result.schedule
  | .sent _ command _ _ => ∃ p, p.migrateId = command.migrateId ∧ Begun p older ∧
      (command.phase = .buildSchedule →
        (command.layoutResults.map (·.workerRank)).Perm p.participantRanks ∧
        ∀ result ∈ command.layoutResults, .ingested result ∈ older ∧
          GoodReply p .describeLayout result.workerRank result) ∧
      (command.phase = .acceptSchedule ∨ command.phase = .executeTransfer →
        ∃ result, BuiltBy p result older ∧ command.schedule = result.schedule ∧
          command.metadataPayloads = result.metadataPayloads)
  | .begun _ | .received _ | .ingested _ | .failed .. => True

def Agreed : List (Entry τ) → Prop
  | [] => True
  | entry :: older => entry.Agrees older ∧ Agreed older

-- ---------------------------------------------------------------------------
-- What is assumed of the workers and the ids
-- ---------------------------------------------------------------------------

def sentCount (migrateId : String) (phase : MigratePhase) (rank : Rank) (log : List (Entry τ)) :
    Nat :=
  log.countP fun
    | .sent _ command ranks _ =>
      command.migrateId = migrateId ∧ command.phase = phase ∧ rank ∈ ranks
    | _ => false

def isReply (migrateId : String) (phase : MigratePhase) (rank : Rank)
    (result : MigrateArtifactsRankResult) : Bool :=
  result.migrateId = migrateId ∧ result.phase = phase ∧ result.workerRank = rank

def receivedCount (migrateId : String) (phase : MigratePhase) (rank : Rank)
    (log : List (Entry τ)) : Nat :=
  log.countP fun
    | .received result => isReply migrateId phase rank result
    | _ => false

/-- At every moment a rank has sent at most one reply for each command of a
phase it received. -/
def RepliesOnce (log : List (Entry τ)) : Prop :=
  ∀ older, older <:+ log → ∀ migrateId phase rank,
    receivedCount migrateId phase rank older ≤ sentCount migrateId phase rank older

def begunIds (log : List (Entry τ)) : List String :=
  log.filterMap fun
    | .begun job => some job.migrateId
    | _ => none

/-- No id was given to two jobs. -/
def FreshIds (log : List (Entry τ)) : Prop := (begunIds log).Nodup

-- ---------------------------------------------------------------------------
-- The state of one job against the log
-- ---------------------------------------------------------------------------

def ingestedCount (migrateId : String) (phase : MigratePhase) (rank : Rank)
    (log : List (Entry τ)) : Nat :=
  log.countP fun
    | .ingested result => isReply migrateId phase rank result
    | _ => false

def MigratePhase.index : MigratePhase → Nat
  | .describeLayout => 0
  | .buildSchedule => 1
  | .acceptSchedule => 2
  | .executeTransfer => 3

structure InPhase (job : MigrationJob τ) (log : List (Entry τ)) : Prop where
  sent : ∃ since older sender command queues,
    log = since ++ .sent sender command (job.party.targets job.phase) queues :: older ∧
    command.migrateId = job.migrateId ∧ command.phase = job.phase ∧
    Reached job.party job.phase older ∧
    ∀ rank ∈ job.party.targets job.phase, rank ∉ job.pendingRanks →
      ∃ result, .ingested result ∈ since ∧ GoodReply job.party job.phase rank result
  pending : ∀ rank ∈ job.pendingRanks, rank ∈ job.party.targets job.phase
  once : ∀ rank, sentCount job.migrateId job.phase rank log ≤
    if rank ∈ job.party.targets job.phase then 1 else 0
  later : ∀ phase, job.phase.index < phase.index → ∀ rank,
    sentCount job.migrateId phase rank log = 0
  layouts : ∀ result ∈ job.layoutResults, .ingested result ∈ log ∧
    GoodReply job.party .describeLayout result.workerRank result
  layouts_nodup : (job.layoutResults.map (·.workerRank)).Nodup
  layouts_mem : ∀ rank, rank ∈ job.layoutResults.map (·.workerRank) ↔
    rank ∈ job.participantRanks ∧ (job.phase = .describeLayout → rank ∉ job.pendingRanks)
  built : job.phase = .acceptSchedule ∨ job.phase = .executeTransfer ∨
      job.phase = .buildSchedule ∧ job.srcLeaderRank ∉ job.pendingRanks →
    ∃ result, BuiltBy job.party result log ∧ job.schedule = result.schedule ∧
      job.metadataPayloads = result.metadataPayloads

structure Untouched (job : MigrationJob τ) (log : List (Entry τ)) : Prop where
  phase : job.phase = .describeLayout
  layouts : job.layoutResults = []
  unsent : ∀ phase rank, sentCount job.migrateId phase rank log = 0

structure JobInv (job : MigrationJob τ) (log : List (Entry τ)) : Prop where
  begun : Begun job.party log
  unended : ∀ entry ∈ log, entry.ends job.migrateId = false
  idle : job.awaiting = false → Untouched job log
  waiting : job.awaiting = true → InPhase job log

-- ---------------------------------------------------------------------------
-- Entries about other jobs
-- ---------------------------------------------------------------------------

/-- The entry neither sends a command of the job nor ends it. -/
def Entry.Spares (migrateId : String) : Entry τ → Prop
  | .sent _ command _ _ => command.migrateId ≠ migrateId
  | .done other _ => other ≠ migrateId
  | .failed other _ => other ≠ migrateId
  | .begun _ | .received _ | .ingested _ => True

theorem Entry.Spares.ends (h : entry.Spares migrateId) : entry.ends migrateId = false := by
  cases entry <;> simp_all [Entry.Spares, Entry.ends]

theorem sentCount_cons (h : entry.Spares migrateId) (phase : MigratePhase) (rank : Rank)
    (log : List (Entry τ)) :
    sentCount migrateId phase rank (entry :: log) = sentCount migrateId phase rank log := by
  rw [sentCount, List.countP_cons_of_neg]
  · rfl
  · cases entry <;> simp_all [Entry.Spares]

theorem Begun.cons (h : Begun p log) : Begun p (entry :: log) := by
  obtain ⟨job, hm, hp⟩ := h
  exact ⟨job, List.mem_cons_of_mem _ hm, hp⟩

theorem BuiltBy.cons (h : BuiltBy p result log) : BuiltBy p result (entry :: log) :=
  ⟨List.mem_cons_of_mem _ h.1, h.2⟩

theorem InPhase.cons (h : InPhase job log) (hs : entry.Spares job.migrateId) :
    InPhase job (entry :: log) where
  sent := by
    obtain ⟨since, older, sender, command, queues, rfl, hid, hp, hr, hreplied⟩ := h.sent
    refine ⟨entry :: since, older, sender, command, queues, rfl, hid, hp, hr, fun rank ht hn => ?_⟩
    obtain ⟨result, hm, hgood⟩ := hreplied rank ht hn
    exact ⟨result, List.mem_cons_of_mem _ hm, hgood⟩
  pending := h.pending
  once := fun rank => by
    rw [sentCount_cons hs]
    exact h.once rank
  later := fun phase hlt rank => by
    rw [sentCount_cons hs]
    exact h.later phase hlt rank
  layouts := fun result hm => by
    obtain ⟨hin, hgood⟩ := h.layouts result hm
    exact ⟨List.mem_cons_of_mem _ hin, hgood⟩
  layouts_nodup := h.layouts_nodup
  layouts_mem := h.layouts_mem
  built := fun hp => by
    obtain ⟨result, hb, hrest⟩ := h.built hp
    exact ⟨result, hb.cons, hrest⟩

theorem JobInv.cons (h : JobInv job log) (hs : entry.Spares job.migrateId) :
    JobInv job (entry :: log) where
  begun := h.begun.cons
  unended := fun e hm => by
    rcases List.mem_cons.mp hm with rfl | hm
    · exact hs.ends
    · exact h.unended e hm
  idle := fun ha => by
    obtain ⟨hp, hl, hu⟩ := h.idle ha
    exact ⟨hp, hl, fun phase rank => (sentCount_cons hs phase rank log).trans (hu phase rank)⟩
  waiting := fun ha => (h.waiting ha).cons hs

-- ---------------------------------------------------------------------------
-- The job's own steps
-- ---------------------------------------------------------------------------

/-- A good reply that is the only one to its command comes from a pending rank. -/
theorem InPhase.pending_of_reply (h : InPhase job log)
    (hc : ingestedCount job.migrateId job.phase rank log + 1 ≤
      sentCount job.migrateId job.phase rank log) : rank ∈ job.pendingRanks := by
  have honce := h.once rank
  by_contra hn
  by_cases ht : rank ∈ job.party.targets job.phase
  · rw [if_pos ht] at honce
    obtain ⟨since, older, sender, command, queues, rfl, -, -, -, hreplied⟩ := h.sent
    obtain ⟨result, hm, hid, hp, hr, -⟩ := hreplied rank ht hn
    have hpos : 0 < ingestedCount job.migrateId job.phase rank
        (since ++ .sent sender command (job.party.targets job.phase) queues :: older) := by
      refine List.countP_pos_iff.mpr ⟨.ingested result, List.mem_append_left _ hm, ?_⟩
      have hid : result.migrateId = job.migrateId := hid
      simp [isReply, hid, hp, hr]
    omega
  · rw [if_neg ht] at honce
    omega

theorem accept_party (job : MigrationJob τ) (result : MigrateArtifactsRankResult) :
    (job.accept result).party = job.party ∧ (job.accept result).phase = job.phase ∧
      (job.accept result).awaiting = job.awaiting ∧
      (job.accept result).pendingRanks = job.pendingRanks.erase result.workerRank := by
  unfold MigrationJob.accept MigrationJob.party
  cases job.phase <;> exact ⟨rfl, rfl, rfl, rfl⟩

theorem accept_layouts (job : MigrationJob τ) (result : MigrateArtifactsRankResult) :
    (job.accept result).layoutResults = if job.phase = .describeLayout then
      job.layoutResults ++ [result] else job.layoutResults := by
  unfold MigrationJob.accept
  cases job.phase <;> rfl

theorem accept_schedule (job : MigrationJob τ) (result : MigrateArtifactsRankResult) :
    ((job.accept result).schedule, (job.accept result).metadataPayloads) =
      if job.phase = .buildSchedule then (result.schedule, result.metadataPayloads)
      else (job.schedule, job.metadataPayloads) := by
  unfold MigrationJob.accept
  cases job.phase <;> rfl

theorem InPhase.accept (h : InPhase job log) (hid : result.migrateId = job.migrateId)
    (hgood : result.failed = false) (hphase : result.phase = job.phase)
    (hp : result.workerRank ∈ job.pendingRanks) :
    InPhase (job.accept result) (.ingested result :: log) := by
  obtain ⟨hparty, hph, -, hpend⟩ := accept_party job result
  have hmid : (job.accept result).migrateId = job.migrateId := congrArg Party.migrateId hparty
  have hranks : (job.accept result).participantRanks = job.participantRanks :=
    congrArg Party.participantRanks hparty
  have hlead : (job.accept result).srcLeaderRank = job.srcLeaderRank :=
    congrArg Party.srcLeaderRank hparty
  have hspare : (Entry.ingested result : Entry τ).Spares job.migrateId := trivial
  have h' := h.cons hspare
  have hreply : GoodReply job.party job.phase result.workerRank result := ⟨hid, hphase, rfl, hgood⟩
  constructor
  · rw [hparty, hph, hpend, hmid]
    obtain ⟨since, older, sender, command, queues, hlog, hcid, hcp, hr, hreplied⟩ := h.sent
    refine ⟨.ingested result :: since, older, sender, command, queues, by rw [hlog]; rfl, hcid, hcp,
      hr, fun rank ht hn => ?_⟩
    by_cases he : rank = result.workerRank
    · subst he
      exact ⟨result, List.mem_cons_self .., hreply⟩
    · obtain ⟨old, hm, hg⟩ := hreplied rank ht fun hin => hn (Finset.mem_erase.mpr ⟨he, hin⟩)
      exact ⟨old, List.mem_cons_of_mem _ hm, hg⟩
  · rw [hparty, hph, hpend]
    exact fun rank hr => h.pending rank (Finset.mem_of_mem_erase hr)
  · rw [hparty, hph, hmid]
    exact h'.once
  · rw [hph, hmid]
    exact h'.later
  · rw [hparty, accept_layouts]
    split
    · rename_i hd
      intro r hr
      rcases List.mem_append.mp hr with hr | hr
      · exact h'.layouts r hr
      · rw [List.mem_singleton.mp hr]
        exact ⟨List.mem_cons_self .., hd ▸ hreply⟩
    · exact h'.layouts
  · rw [accept_layouts]
    split
    · rename_i hd
      rw [List.map_append, List.nodup_append]
      refine ⟨h.layouts_nodup, List.nodup_singleton _, fun rank hr other ho he => ?_⟩
      rw [List.map_singleton, List.mem_singleton] at ho
      exact ((h.layouts_mem rank).mp hr).2 hd (he.trans ho ▸ hp)
    · exact h.layouts_nodup
  · intro rank
    rw [accept_layouts, hranks, hph, hpend]
    split
    · rename_i hd
      have hpart : result.workerRank ∈ job.participantRanks := by
        have := h.pending _ hp
        rwa [hd] at this
      rw [List.map_append, List.mem_append, h.layouts_mem, List.map_singleton, List.mem_singleton]
      simp only [hd, forall_true_left, Finset.mem_erase, not_and]
      constructor
      · rintro (⟨hin, hn⟩ | rfl)
        · exact ⟨hin, fun _ => hn⟩
        · exact ⟨hpart, fun hne => absurd rfl hne⟩
      · rintro ⟨hin, hn⟩
        by_cases he : rank = result.workerRank
        · exact .inr he
        · exact .inl ⟨hin, hn he⟩
    · rename_i hd
      rw [h.layouts_mem]
      simp only [hd, false_imp_iff]
  · rw [hparty, hph, hpend, hlead]
    intro hcase
    have hsched := accept_schedule job result
    split at hsched
    · rename_i hb
      obtain ⟨h1, h2⟩ := Prod.mk.inj hsched
      have hlead : result.workerRank = job.srcLeaderRank := by
        have := h.pending _ hp
        rw [hb] at this
        exact List.mem_singleton.mp this
      exact ⟨result, ⟨List.mem_cons_self .., hid, hphase.trans hb, hlead, hgood⟩, h1, h2⟩
    · rename_i hb
      obtain ⟨h1, h2⟩ := Prod.mk.inj hsched
      rw [h1, h2]
      refine h'.built ?_
      rcases hcase with hc | hc | hc
      · exact .inl hc
      · exact .inr (.inl hc)
      · exact absurd hc.1 hb

theorem JobInv.accept (h : JobInv job log) (hb : job.awaiting = false → False)
    (hid : result.migrateId = job.migrateId) (hgood : result.failed = false)
    (hphase : result.phase = job.phase)
    (hp : job.awaiting = true → result.workerRank ∈ job.pendingRanks) :
    JobInv (job.accept result) (.ingested result :: log) := by
  obtain ⟨hparty, -, haw, -⟩ := accept_party job result
  have hmid : (job.accept result).migrateId = job.migrateId := congrArg Party.migrateId hparty
  have hspare : (Entry.ingested result : Entry τ).Spares job.migrateId := trivial
  refine ⟨hparty ▸ h.begun.cons, hmid ▸ (h.cons hspare).unended, fun ha => ?_, fun ha => ?_⟩
  · exact absurd (haw ▸ ha) hb
  · exact (h.waiting (haw ▸ ha)).accept hid hgood hphase (hp (haw ▸ ha))

theorem sentCount_send (job : MigrationJob τ) (queues : Dict Rank (List String))
    (phase : MigratePhase) (rank : Rank) (log : List (Entry τ)) :
    sentCount job.migrateId phase rank (.sent job job.command job.targets queues :: log) =
      sentCount job.migrateId phase rank log +
        if job.phase = phase ∧ rank ∈ job.targets then 1 else 0 := by
  rw [sentCount, List.countP_cons]
  congr 1
  simp [MigrationJob.command]

theorem InPhase.send (job : MigrationJob τ) (hr : Reached job.party job.phase log)
    (hnew : ∀ phase, job.phase.index ≤ phase.index → ∀ rank,
      sentCount job.migrateId phase rank log = 0)
    (hl : ∀ result ∈ job.layoutResults, .ingested result ∈ log ∧
      GoodReply job.party .describeLayout result.workerRank result)
    (hn : (job.layoutResults.map (·.workerRank)).Nodup)
    (hm : ∀ rank, rank ∈ job.layoutResults.map (·.workerRank) ↔
      rank ∈ job.participantRanks ∧ job.phase ≠ .describeLayout)
    (hb : job.phase = .acceptSchedule ∨ job.phase = .executeTransfer →
      ∃ result, BuiltBy job.party result log ∧ job.schedule = result.schedule ∧
        job.metadataPayloads = result.metadataPayloads) (queues : Dict Rank (List String)) :
    InPhase job.sending (.sent job job.command job.targets queues :: log) where
  sent := by
    refine ⟨[], log, job, job.command, queues, ?_, rfl, rfl, hr, fun rank ht hnp => ?_⟩
    · rw [targets_party]
      rfl
    · refine absurd ?_ hnp
      rw [MigrationJob.sending, List.mem_toFinset, targets_party]
      exact ht
  pending := fun rank hp => by
    have hp : rank ∈ job.targets := List.mem_toFinset.mp hp
    rwa [targets_party] at hp
  once := fun rank => by
    have hcount := sentCount_send job queues job.phase rank log
    rw [hnew _ (Nat.le_refl _), Nat.zero_add, targets_party] at hcount
    refine Nat.le_of_eq (hcount.trans ?_)
    by_cases ht : rank ∈ job.party.targets job.phase
    · rw [if_pos ⟨rfl, ht⟩]
      exact (if_pos ht).symm
    · rw [if_neg fun h => ht h.2]
      exact (if_neg ht).symm
  later := fun phase hlt rank => by
    have hlt : job.phase.index < phase.index := hlt
    have hne : job.phase ≠ phase := fun he => by simp [he] at hlt
    have hcount := sentCount_send job queues phase rank log
    rw [hnew _ (Nat.le_of_lt hlt), if_neg fun h => hne h.1] at hcount
    exact hcount
  layouts := fun result hm => by
    obtain ⟨hin, hgood⟩ := hl result hm
    exact ⟨List.mem_cons_of_mem _ hin, hgood⟩
  layouts_nodup := hn
  layouts_mem := fun rank => by
    rw [show job.sending.layoutResults = job.layoutResults from rfl, hm]
    refine and_congr_right fun hin => ?_
    constructor
    · exact fun hne hd => absurd hd hne
    · intro himp hd
      refine himp hd ?_
      rw [MigrationJob.sending, List.mem_toFinset, MigrationJob.targets, hd]
      exact hin
  built := fun hcase => by
    have hnext : job.phase = .acceptSchedule ∨ job.phase = .executeTransfer := by
      rcases hcase with hc | hc | ⟨hc, hp⟩
      · exact .inl hc
      · exact .inr hc
      · refine absurd ?_ hp
        have hc : job.phase = .buildSchedule := hc
        simp [MigrationJob.sending, MigrationJob.targets, hc]
    obtain ⟨result, hbuilt, hrest⟩ := hb hnext
    exact ⟨result, hbuilt.cons, hrest⟩

theorem Untouched.start (h : Untouched job log) (queues : Dict Rank (List String)) :
    InPhase job.sending (.sent job job.command job.targets queues :: log) := by
  obtain ⟨hp, hl, hu⟩ := h
  refine InPhase.send job (by rw [hp]; trivial) (fun phase _ rank => hu phase rank) ?_ ?_ ?_ ?_ queues
  · simp [hl]
  · simp [hl]
  · simp [hl, hp]
  · simp [hp]

theorem InPhase.phaseDone (h : InPhase job log) (hp : job.pendingRanks = ∅) :
    PhaseDone job.party job.phase (Reached job.party job.phase) log := by
  obtain ⟨since, older, sender, command, queues, hlog, hid, hph, hr, hreplied⟩ := h.sent
  exact ⟨since, older, sender, command, queues, hlog, hid, hph, hr, fun rank ht =>
    hreplied rank ht (by simp [hp])⟩

theorem reached_next (p : Party) (hn : phase.next = some phase')
    (h : PhaseDone p phase (Reached p phase) log) : Reached p phase' log := by
  cases phase <;> cases hn <;> exact h

theorem index_next {phase phase' : MigratePhase} (hn : phase.next = some phase') :
    phase'.index = phase.index + 1 := by
  cases phase <;> cases hn <;> rfl

theorem InPhase.built_of_done (h : InPhase job log) (hp : job.pendingRanks = ∅)
    (hne : job.phase ≠ .describeLayout) :
    ∃ result, BuiltBy job.party result log ∧ job.schedule = result.schedule ∧
      job.metadataPayloads = result.metadataPayloads := by
  refine h.built ?_
  cases hph : job.phase with
  | describeLayout => exact absurd hph hne
  | buildSchedule => exact .inr (.inr ⟨rfl, by simp [hp]⟩)
  | acceptSchedule => exact .inl rfl
  | executeTransfer => exact .inr (.inl rfl)

theorem InPhase.next (h : InPhase job log) (hp : job.pendingRanks = ∅)
    (hn : job.phase.next = some phase) (queues : Dict Rank (List String)) :
    InPhase (MigrationJob.sending { job with phase })
      (.sent { job with phase } (MigrationJob.command { job with phase })
        (MigrationJob.targets { job with phase }) queues :: log) := by
  have hindex := index_next hn
  refine InPhase.send { job with phase } (reached_next _ hn (h.phaseDone hp))
    (fun other hle rank => h.later other ?_ rank) h.layouts h.layouts_nodup (fun rank => ?_)
    (fun hcase => h.built_of_done hp ?_) queues
  · have hle : phase.index ≤ other.index := hle
    omega
  · rw [h.layouts_mem]
    have hne : phase ≠ .describeLayout := fun he => by simp [he, MigratePhase.index] at hindex
    simp [hp, hne]
  · intro hd
    rw [hd] at hn
    cases hn
    rcases hcase with hc | hc <;> cases hc

-- ---------------------------------------------------------------------------
-- All jobs together
-- ---------------------------------------------------------------------------

structure Handshakes (s : Engine τ) : Prop where
  jobs : ∀ migrateId job, s.jobs.get? migrateId = some job → JobInv job s.log
  agreed : Agreed s.log
  once : ∀ migrateId, s.log.countP (Entry.ends migrateId) ≤ 1
  begunFirst : ∀ entry ∈ s.log, ∀ migrateId, ¬ entry.Spares migrateId → migrateId ∈ begunIds s.log

theorem begunIds_subset (entry : Entry τ) (h : migrateId ∈ begunIds log) :
    migrateId ∈ begunIds (entry :: log) := by
  obtain ⟨e, hm, he⟩ := List.mem_filterMap.mp h
  exact List.mem_filterMap.mpr ⟨e, List.mem_cons_of_mem _ hm, he⟩

theorem Begun.mem_begunIds (h : Begun p log) : p.migrateId ∈ begunIds log := by
  obtain ⟨job, hm, rfl⟩ := h
  exact List.mem_filterMap.mpr ⟨_, hm, rfl⟩

theorem Handshakes.record (h : Handshakes s) (hs : ∀ migrateId, entry.Spares migrateId)
    (ha : entry.Agrees s.log) : Handshakes (s.record entry) where
  jobs := fun migrateId job hget => (h.jobs migrateId job hget).cons (hs _)
  agreed := ⟨ha, h.agreed⟩
  once := fun migrateId => by
    rw [Engine.record, List.countP_cons_of_neg]
    · exact h.once migrateId
    · simp [(hs migrateId).ends]
  begunFirst := fun e hm migrateId hn => by
    rcases List.mem_cons.mp hm with rfl | hm
    · exact absurd (hs migrateId) hn
    · exact begunIds_subset _ (h.begunFirst e hm migrateId hn)

theorem Handshakes.receive (h : Handshakes s) (results : List MigrateArtifactsRankResult) :
    Handshakes (s.receive results) := by
  induction results generalizing s with
  | nil => exact h
  | cons result results ih =>
    have hr : Handshakes (s.record (.received result)) := h.record (fun _ => trivial) trivial
    exact ih hr

theorem Handshakes.ended (h : Handshakes s) (ho : s.Ordered) (hget : s.jobs.get? key = some job)
    (hs : ∀ migrateId, migrateId ≠ key → entry.Spares migrateId) (ha : entry.Agrees s.log) :
    Handshakes ((s.retire job).record entry) where
  jobs := by
    intro migrateId other hother
    rw [Engine.record, Engine.retire, Dict.get?_erase] at hother
    split at hother
    · cases hother
    · rename_i hne
      rw [ho.keyed _ _ hget] at hne
      refine (h.jobs migrateId other hother).cons (hs _ ?_)
      rw [ho.keyed _ _ hother]
      exact Ne.symm hne
  agreed := ⟨ha, h.agreed⟩
  once := by
    intro migrateId
    have hcount : ((s.retire job).record entry).log.countP (Entry.ends migrateId) =
        s.log.countP (Entry.ends migrateId) + if entry.ends migrateId = true then 1 else 0 :=
      List.countP_cons ..
    rw [hcount]
    by_cases he : migrateId = key
    · -- The job had not ended before.
      have hzero : s.log.countP (Entry.ends migrateId) = 0 := by
        refine List.countP_eq_zero.mpr fun e hm => ?_
        have := (h.jobs _ _ hget).unended e hm
        rw [ho.keyed _ _ hget] at this
        simp [he, this]
      rw [hzero]
      split <;> omega
    · simp [(hs migrateId he).ends, h.once migrateId]
  begunFirst := by
    intro e hm migrateId hn
    rcases List.mem_cons.mp hm with rfl | hm
    · by_cases he : migrateId = key
      · have := (h.jobs _ _ hget).begun.mem_begunIds
        rw [he, ← ho.keyed _ _ hget]
        exact begunIds_subset _ this
      · exact absurd (hs migrateId he) hn
    · exact begunIds_subset _ (h.begunFirst e hm migrateId hn)

theorem Handshakes.setJob (h : Handshakes s) (ho : s.Ordered) (hget : s.jobs.get? key = some job)
    (hkey : job'.migrateId = key)
    (hs : ∀ migrateId, migrateId ≠ key → entry.Spares migrateId) (he : entry.ends key = false)
    (ha : entry.Agrees s.log) (hinv : JobInv job' (entry :: s.log)) :
    Handshakes ((s.setJob job').record entry) where
  jobs := by
    intro migrateId other hother
    rw [Engine.record, Engine.setJob, hkey, Dict.get?_set] at hother
    split at hother
    · cases hother
      exact hinv
    · rename_i hne
      refine (h.jobs migrateId other hother).cons (hs _ ?_)
      rw [ho.keyed _ _ hother]
      exact Ne.symm hne
  agreed := ⟨ha, h.agreed⟩
  once := by
    intro migrateId
    rw [Engine.record, List.countP_cons_of_neg]
    · exact h.once migrateId
    · by_cases hk : migrateId = key
      · simp [hk, he]
      · simp [(hs migrateId hk).ends]
  begunFirst := by
    intro e hm migrateId hn
    rcases List.mem_cons.mp hm with rfl | hm
    · by_cases hk : migrateId = key
      · have := (h.jobs _ _ hget).begun.mem_begunIds
        rw [hk, ← ho.keyed _ _ hget]
        exact begunIds_subset _ this
      · exact absurd (hs migrateId hk) hn
    · exact begunIds_subset _ (h.begunFirst e hm migrateId hn)

theorem Handshakes.begin (h : Handshakes s) {request : BeginRequest τ}
    (hl : request.srcLeaderRank ∈ request.participantRanks)
    (hf : FreshIds (s.addJob (s.newJob request hl)).log) :
    Handshakes (s.addJob (s.newJob request hl)) := by
  have hfresh : Engine.idFor request ∉ begunIds s.log := (List.nodup_cons.mp hf).1
  have hspares : ∀ e ∈ s.log, e.Spares (Engine.idFor request) := fun e hm => by
    by_contra hn
    exact hfresh (h.begunFirst e hm _ hn)
  have hspare : ∀ migrateId, (Entry.begun (s.newJob request hl)).Spares migrateId := fun _ => trivial
  constructor
  · intro migrateId job hget
    rw [Engine.addJob, Dict.get?_set] at hget
    split at hget
    · cases hget
      refine ⟨⟨_, List.mem_cons_self .., rfl⟩, fun e hm => ?_, fun _ => ⟨rfl, rfl, ?_⟩,
        fun ha => Bool.noConfusion ha⟩
      · rcases List.mem_cons.mp hm with rfl | hm
        · rfl
        · exact (hspares e hm).ends
      · intro phase rank
        refine (sentCount_cons (hspare _) phase rank s.log).trans (List.countP_eq_zero.mpr ?_)
        intro e hm
        have := hspares e hm
        cases e <;> simp_all [Entry.Spares, Engine.newJob]
    · exact (h.jobs migrateId job hget).cons (hspare _)
  · exact ⟨trivial, h.agreed⟩
  · intro migrateId
    rw [Engine.addJob, List.countP_cons_of_neg (by simp [Entry.ends])]
    exact h.once migrateId
  · intro e hm migrateId hn
    rcases List.mem_cons.mp hm with rfl | hm
    · exact absurd (hspare migrateId) hn
    · exact begunIds_subset _ (h.begunFirst e hm migrateId hn)

-- ---------------------------------------------------------------------------
-- The steps keep the handshakes
-- ---------------------------------------------------------------------------

/-- A reply is looked at at most once. -/
def Counted (c : Config τ) : Prop :=
  ∀ migrateId phase rank, ingestedCount migrateId phase rank c.engine.log +
    c.batch.countP (isReply migrateId phase rank) ≤
    receivedCount migrateId phase rank c.engine.log

theorem counted_ingested (h : Counted ⟨s, result :: batch⟩) :
    Counted ⟨s.record (.ingested result), batch⟩ := by
  intro migrateId phase rank
  have := h migrateId phase rank
  simp only [Engine.record, ingestedCount, receivedCount, List.countP_cons, Bool.false_eq_true,
    if_false, Nat.add_zero] at this ⊢
  omega

theorem counted_receive (h : Counted ⟨s, []⟩) (results : List MigrateArtifactsRankResult) :
    Counted ⟨s.receive results, results⟩ := by
  intro migrateId phase rank
  have hold := h migrateId phase rank
  have hi : ingestedCount migrateId phase rank (s.receive results).log =
      ingestedCount migrateId phase rank s.log := by
    rw [receive_eq]
    simp [ingestedCount, List.countP_append, List.countP_eq_zero]
  have hr : receivedCount migrateId phase rank (s.receive results).log =
      results.countP (isReply migrateId phase rank) + receivedCount migrateId phase rank s.log := by
    rw [receive_eq]
    simp [receivedCount, List.countP_append, List.countP_map, Function.comp_def]
  simp only [List.countP_nil, Nat.add_zero] at hold
  show ingestedCount migrateId phase rank (s.receive results).log + results.countP _ ≤ _
  rw [hi, hr]
  omega

theorem Step.counted {c c' : Config τ} (h : Step admits c c') (hc : Counted c) : Counted c' := by
  cases h with
  | begin h =>
    obtain ⟨_, -, -, rfl⟩ := begin_ok h
    exact hc
  | receive _ => exact counted_receive hc _
  | ignore _ => exact counted_ingested hc
  | refuse _ _ => exact counted_ingested hc
  | accept _ _ => exact counted_ingested hc
  | drop => exact fun migrateId phase rank => Nat.le_trans (Nat.le_add_right _ _) (hc ..)
  | timeout _ _ => exact hc
  | warn _ => exact hc
  | start _ _ _ => exact hc
  | next _ _ _ _ _ => exact hc
  | complete _ _ _ _ _ => exact hc

theorem Step.log_suffix {c c' : Config τ} (h : Step admits c c') :
    c.engine.log <:+ c'.engine.log := by
  cases h with
  | begin h =>
    obtain ⟨_, -, -, rfl⟩ := begin_ok h
    exact List.suffix_cons ..
  | receive _ =>
    rw [receive_eq]
    exact List.suffix_append ..
  | ignore _ => exact List.suffix_cons ..
  | refuse _ _ => exact (List.suffix_cons ..).trans (List.suffix_cons ..)
  | accept _ _ => exact List.suffix_cons ..
  | drop => exact List.suffix_refl _
  | timeout _ _ => exact List.suffix_cons ..
  | warn _ => exact List.suffix_refl _
  | start _ _ _ => exact List.suffix_cons ..
  | next _ _ _ _ _ => exact List.suffix_cons ..
  | complete _ _ _ _ _ => exact List.suffix_cons ..

theorem RepliesOnce.suffix (h : RepliesOnce log) (hs : older <:+ log) : RepliesOnce older :=
  fun l hl => h l (hl.trans hs)

theorem FreshIds.suffix (h : FreshIds log) (hs : older <:+ log) : FreshIds older :=
  List.Nodup.sublist (hs.sublist.filterMap _) h

theorem JobInv.warned (h : JobInv job log) :
    JobInv { job with transferOverrunWarned := true } log where
  begun := h.begun
  unended := h.unended
  idle := fun ha => by
    obtain ⟨hp, hl, hu⟩ := h.idle ha
    exact ⟨hp, hl, hu⟩
  waiting := fun ha => by
    obtain ⟨h1, h2, h3, h4, h5, h6, h7, h8⟩ := h.waiting ha
    exact ⟨h1, h2, h3, h4, h5, h6, h7, h8⟩

theorem JobInv.sending (h : JobInv job log) (hp : job'.party = job.party)
    (hin : InPhase job'.sending (.sent job' job'.command job'.targets queues :: log)) :
    JobInv job'.sending (.sent job' job'.command job'.targets queues :: log) where
  begun := by
    have hb : Begun job'.party log := hp ▸ h.begun
    exact hb.cons
  unended := fun e hm => by
    rcases List.mem_cons.mp hm with rfl | hm
    · rfl
    · have := h.unended e hm
      rwa [show job.migrateId = job'.migrateId from (congrArg Party.migrateId hp).symm] at this
  idle := fun ha => nomatch ha
  waiting := fun _ => hin

/-- The command of the next phase carries what its job has gathered. -/
theorem InPhase.agrees (h : InPhase job log) (hb : Begun job.party log)
    (hp : job.pendingRanks = ∅) (hn : job.phase.next = some phase)
    (queues : Dict Rank (List String)) :
    (Entry.sent { job with phase } (MigrationJob.command { job with phase })
      (MigrationJob.targets { job with phase }) queues).Agrees log := by
  refine ⟨job.party, rfl, hb, fun hbuild => ⟨?_, h.layouts⟩, fun hlate => h.built_of_done hp ?_⟩
  · refine (List.perm_ext_iff_of_nodup h.layouts_nodup job.participants_nodup).mpr fun rank => ?_
    rw [h.layouts_mem]
    simp [hp]
  · intro hd
    rw [hd] at hn
    cases hn
    rcases hlate with hc | hc <;> cases hc

theorem Step.handshakes {c c' : Config τ} (h : Step admits c c') (ho : c.engine.Ordered)
    (hc : Counted c) (hr : RepliesOnce c'.engine.log) (hf : FreshIds c'.engine.log)
    (hh : Handshakes c.engine) : Handshakes c'.engine := by
  have hspare : ∀ {key migrateId : String}, migrateId ≠ key → key ≠ migrateId := fun h => Ne.symm h
  cases h with
  | begin h =>
    obtain ⟨hl, -, -, rfl⟩ := begin_ok h
    exact hh.begin hl hf
  | receive _ => exact hh.receive _
  | ignore _ => exact hh.record (fun _ => trivial) trivial
  | @refuse result error batch s job hget hr =>
    have hin : Handshakes (s.record (.ingested result)) := hh.record (fun _ => trivial) trivial
    refine hin.ended (ho.record _) hget (fun migrateId hne => ?_) trivial
    rw [← ho.keyed _ _ hget] at hne
    exact hspare hne
  | @accept result batch s job hget hrefuse =>
    obtain ⟨hgood, hphase⟩ := refusal_none hrefuse
    have hkey := ho.keyed _ _ hget
    have hinv : JobInv job s.log := hh.jobs _ _ hget
    -- At most one reply to a command that was sent: the rank is still pending.
    have hcount : ingestedCount job.migrateId job.phase result.workerRank s.log + 1 ≤
        sentCount job.migrateId job.phase result.workerRank s.log := by
      have h1 := hc job.migrateId job.phase result.workerRank
      have h2 := hr.suffix (List.suffix_cons ..) s.log (List.suffix_refl _) job.migrateId job.phase
        result.workerRank
      have h3 : 0 < (result :: batch).countP (isReply job.migrateId job.phase result.workerRank) :=
        List.countP_pos_iff.mpr ⟨result, List.mem_cons_self .., by simp [isReply, hkey, hphase]⟩
      simp only at h1
      omega
    have hjob := hinv.accept (fun hidle => by
      have := (hinv.idle hidle).unsent job.phase result.workerRank
      omega) hkey.symm hgood hphase fun ha => (hinv.waiting ha).pending_of_reply hcount
    obtain ⟨hparty, -⟩ := accept_party job result
    exact hh.setJob ho hget ((congrArg Party.migrateId hparty).trans hkey) (fun _ _ => trivial) rfl
      trivial hjob
  | drop => exact hh
  | timeout hget _ =>
    refine hh.ended ho hget (fun migrateId hne => ?_) trivial
    rw [← ho.keyed _ _ hget] at hne
    exact hspare hne
  | @warn key s job hget =>
    have hkey := ho.keyed _ _ hget
    refine ⟨fun migrateId other hother => ?_, hh.agreed, hh.once, hh.begunFirst⟩
    rw [Engine.setJob, Dict.get?_set] at hother
    split at hother
    · cases hother
      exact (hh.jobs _ _ hget).warned
    · exact hh.jobs migrateId other hother
  | @start key s job hget _ ha =>
    have hkey := ho.keyed _ _ hget
    have hinv := hh.jobs _ _ hget
    have hidle := hinv.idle ha
    refine hh.setJob ho hget hkey (fun migrateId hne => ?_) rfl ?_
      (hinv.sending rfl (hidle.start s.rankQueues))
    · rw [← hkey] at hne
      exact hspare hne
    · refine ⟨job.party, rfl, hinv.begun, fun hb => ?_, fun hb => ?_⟩
      · have hb : job.phase = .buildSchedule := hb
        rw [hidle.phase] at hb
        cases hb
      · have hb : job.phase = .acceptSchedule ∨ job.phase = .executeTransfer := hb
        rw [hidle.phase] at hb
        rcases hb with hb | hb <;> cases hb
  | @next key phase s job hget _ ha hp hn =>
    have hkey := ho.keyed _ _ hget
    have hinv := hh.jobs _ _ hget
    have hin := hinv.waiting ha
    refine hh.setJob ho hget hkey (fun migrateId hne => ?_) rfl
      (hin.agrees hinv.begun hp hn s.rankQueues) (hinv.sending rfl (hin.next hp hn s.rankQueues))
    rw [← hkey] at hne
    exact hspare hne
  | @complete key s job hget _ ha hp hn =>
    have hkey := ho.keyed _ _ hget
    have hinv := hh.jobs _ _ hget
    have hin := hinv.waiting ha
    have hphase : job.phase = .executeTransfer := by
      cases hph : job.phase <;> rw [hph] at hn <;> first | rfl | cases hn
    obtain ⟨result, hbuilt, hsched, -⟩ := hin.built_of_done hp (by simp [hphase])
    have hdone := hin.phaseDone hp
    rw [hphase] at hdone
    refine hh.ended ho hget (fun migrateId hne => ?_)
      ⟨job.party, result, rfl, hinv.begun, hdone, hbuilt, hsched⟩
    rw [← hkey] at hne
    exact hspare hne

/-- Handshake agreement. When workers reply at most once to a command and ids
do not repeat, every job ends at most once, completes only after all replies
of all four phases in turn, and its later commands and its completion carry
what its own source leader built from one layout of each participant. -/
theorem handshake_agreement [LinearOrder τ] (h : Engine.Run (fun _ _ => True) s)
    (hr : RepliesOnce s.log) (hf : FreshIds s.log) :
    (∀ migrateId, s.log.countP (Entry.ends migrateId) ≤ 1) ∧ Agreed s.log := by
  have h0 : Handshakes (Engine.init : Engine τ) :=
    ⟨fun _ _ h => by simp [Engine.init] at h, trivial, fun _ => Nat.zero_le _, fun _ h => nomatch h⟩
  have hinv := h.invariant (I := fun c => Counted c ∧ (RepliesOnce c.engine.log →
    FreshIds c.engine.log → Handshakes c.engine)) ⟨fun _ _ _ => Nat.le_refl _, fun _ _ => h0⟩
    fun c c' ho hs hi => ⟨hs.counted hi.1, fun hr hf => hs.handshakes ho hi.1 hr hf
      (hi.2 (hr.suffix hs.log_suffix) (hf.suffix hs.log_suffix))⟩
  have hh := hinv.2.2 hr hf
  exact ⟨hh.once, hh.agreed⟩

def Entry.reply? : Entry τ → Option MigrateArtifactsRankResult
  | .received result => some result
  | .begun _ | .sent .. | .ingested _ | .done .. | .failed .. => none

/-- Only the replies in the log need to be looked at. -/
theorem repliesOnce_of_received (h : ∀ older ∈ log.tails, ∀ result ∈ older.filterMap Entry.reply?,
    receivedCount result.migrateId result.phase result.workerRank older ≤
      sentCount result.migrateId result.phase result.workerRank older) : RepliesOnce log := by
  intro older hs migrateId phase rank
  rcases Nat.eq_zero_or_pos (receivedCount migrateId phase rank older) with hz | hpos
  · rw [hz]
    exact Nat.zero_le _
  · obtain ⟨entry, hm, he⟩ := List.countP_pos_iff.mp hpos
    cases entry with
    | received result =>
      have hkey : result.migrateId = migrateId ∧ result.phase = phase ∧
          result.workerRank = rank := by simpa [isReply] using he
      obtain ⟨rfl, rfl, rfl⟩ := hkey
      exact h older ((List.mem_tails ..).mpr hs) result (List.mem_filterMap.mpr ⟨_, hm, rfl⟩)
    | _ => cases he

def finished : Engine Nat :=
  pumpAll twoJobs (handshake ++ [[0, 1, 2].map (reply "a" .executeTransfer none)])

theorem finished_agreement :
    .done "a" none ∈ finished.log ∧
    (∀ migrateId, finished.log.countP (Entry.ends migrateId) ≤ 1) ∧ Agreed finished.log :=
  ⟨by decide, handshake_agreement (pumpAll_run (Engine.Run.init.beginAll _) fun _ _ => trivial)
    (repliesOnce_of_received (by decide)) (by unfold FreshIds; decide)⟩

end GfDit
