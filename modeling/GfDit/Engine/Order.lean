import GfDit.Engine.Steps

/-!
# Jobs take turns in the order they were begun

The jobs under way stand in `jobs` in the order of their sequence numbers, and
every rank's queue is that order restricted to the jobs the rank takes part
in. A command is therefore only sent by a job that no older job blocks, and
the oldest job is never blocked.
-/

namespace GfDit

open Relation (ReflTransGen)

variable {τ : Type} {admits : Engine τ → List MigrateArtifactsRankResult → Prop} {s s' : Engine τ}
  {job job' : MigrationJob τ}

def Engine.order (s : Engine τ) : List (String × List Rank) :=
  s.jobs.entries.map fun entry => (entry.1, entry.2.participantRanks)

structure Engine.Ordered (s : Engine τ) : Prop where
  keyed : s.Keyed
  sorted : (s.jobs.entries.map (·.2.migrateSeq)).Pairwise (· < ·)
  bound : ∀ n ∈ s.jobs.entries.map (·.2.migrateSeq), n ≤ s.seq
  queues : ∀ rank, s.rankQueues.getD rank [] = Turns.queue s.order rank

-- ---------------------------------------------------------------------------
-- The queues under the three ways jobs change
-- ---------------------------------------------------------------------------

theorem getD_enqueue {ranks : List Rank} (hn : ranks.Nodup) (queues : Dict Rank (List String))
    (migrateId : String) (rank : Rank) :
    (Engine.enqueue queues ranks migrateId).getD rank [] =
      queues.getD rank [] ++ if rank ∈ ranks then [migrateId] else [] := by
  induction ranks generalizing queues with
  | nil => simp [Engine.enqueue]
  | cons r ranks ih =>
    obtain ⟨hr, hn⟩ := List.nodup_cons.mp hn
    have hstep : Engine.enqueue queues (r :: ranks) migrateId =
        Engine.enqueue (queues.set r (queues.getD r [] ++ [migrateId])) ranks migrateId := rfl
    rw [hstep, ih hn]
    by_cases h : r = rank
    · subst h
      simp [Dict.getD, hr]
    · simp [Dict.getD, Dict.get?_set_ne _ h, Ne.symm h]

theorem getD_dequeue {ranks : List Rank} (hn : ranks.Nodup) (queues : Dict Rank (List String))
    (migrateId : String) (rank : Rank) :
    (Engine.dequeue queues ranks migrateId).getD rank [] =
      if rank ∈ ranks then (queues.getD rank []).erase migrateId else queues.getD rank [] := by
  induction ranks generalizing queues with
  | nil => simp [Engine.dequeue]
  | cons r ranks ih =>
    obtain ⟨hr, hn⟩ := List.nodup_cons.mp hn
    have hstep : Engine.dequeue queues (r :: ranks) migrateId =
        Engine.dequeue (Engine.dequeue queues [r] migrateId) ranks migrateId := rfl
    -- One rank: its own queue loses the job, the others stay.
    have hone : (Engine.dequeue queues [r] migrateId).getD rank [] =
        if rank = r then (queues.getD rank []).erase migrateId else queues.getD rank [] := by
      simp only [Engine.dequeue, List.foldl_cons, List.foldl_nil]
      split
      · rename_i hget
        by_cases h : rank = r
        · simp [h, Dict.getD, hget]
        · simp [h]
      · rename_i queue hget
        by_cases hm : migrateId ∈ queue
        · by_cases h : rank = r
          · simp [h, Dict.getD, hget, hm]
          · simp [h, hm, Dict.getD, Dict.get?_set_ne _ (Ne.symm h)]
        · by_cases h : rank = r
          · simp [h, hm, Dict.getD, hget, List.erase_of_not_mem hm]
          · simp [h, hm]
    rw [hstep, ih hn, hone]
    by_cases h : rank = r
    · simp [h, hr]
    · simp [h]

def SameTurn (job job' : MigrationJob τ) : Prop :=
  job'.migrateId = job.migrateId ∧ job'.migrateSeq = job.migrateSeq ∧
    job'.participantRanks = job.participantRanks

theorem Engine.Ordered.setJob (h : s.Ordered) (hget : s.jobs.get? migrateId = some job)
    (hs : SameTurn job job') : (s.setJob job').Ordered := by
  obtain ⟨hid, hseq, hranks⟩ := hs
  have hkey : job'.migrateId = migrateId := hid.trans (h.keyed _ _ hget)
  have hseqs : (s.setJob job').jobs.entries.map (·.2.migrateSeq) =
      s.jobs.entries.map (·.2.migrateSeq) := by
    simp only [Engine.setJob, hkey]
    exact Dict.map_entries_set _ hget hseq
  have horder : (s.setJob job').order = s.order := by
    simp only [Engine.order, Engine.setJob, hkey]
    exact Dict.map_entries_set _ hget (by rw [hranks])
  refine ⟨h.keyed.setJob _, hseqs ▸ h.sorted, hseqs ▸ h.bound, fun rank => ?_⟩
  rw [horder]
  exact h.queues rank

theorem Engine.Ordered.record (h : s.Ordered) (entry : Entry τ) : (s.record entry).Ordered :=
  ⟨h.keyed, h.sorted, h.bound, h.queues⟩

theorem Engine.Ordered.send (h : s.Ordered) (hget : s.jobs.get? migrateId = some job)
    (hs : SameTurn job job') : (s.send job').Ordered :=
  Engine.Ordered.record (h.setJob hget (show SameTurn job job'.sending from hs)) _

theorem Engine.Ordered.retire (h : s.Ordered) (hget : s.jobs.get? migrateId = some job) :
    (s.retire job).Ordered := by
  have hkey := h.keyed _ _ hget
  have hsub : (s.retire job).jobs.entries.Sublist s.jobs.entries := List.filter_sublist
  refine ⟨h.keyed.retire _, h.sorted.sublist (hsub.map _),
    fun n hm => h.bound n ((hsub.map _).subset hm), fun rank => ?_⟩
  have horder : (s.retire job).order = s.order.filter fun entry => entry.1 ≠ migrateId := by
    simp only [Engine.order, Engine.retire, Dict.entries_erase, hkey, List.filter_map]
    rfl
  have hnodup : (Turns.queue s.order rank).Nodup := by
    refine Turns.queue_nodup ?_ rank
    simpa [Engine.order, Function.comp_def, Dict.keys] using s.jobs.keys_nodup
  rw [horder, Turns.queue_remove, Engine.retire, getD_dequeue job.participants_nodup, h.queues, hkey,
    ← hnodup.erase_eq_filter]
  split
  · rfl
  · rename_i hr
    refine (List.erase_of_not_mem fun hm => hr ?_).symm
    obtain ⟨needs, hm, hin⟩ := Turns.mem_queue.mp hm
    obtain ⟨⟨k, other⟩, he, heq⟩ := List.mem_map.mp hm
    obtain ⟨rfl, rfl⟩ := Prod.mk.inj heq
    have := (s.jobs.get?_eq_some.mpr he).symm.trans hget
    rw [← Option.some.inj this]
    exact hin

theorem Engine.Ordered.addJob {request : BeginRequest τ} (h : s.Ordered)
    (hget : s.jobs.get? (Engine.idFor request) = none)
    (hl : request.srcLeaderRank ∈ request.participantRanks) :
    (s.addJob (s.newJob request hl)).Ordered := by
  have hentries : (s.addJob (s.newJob request hl)).jobs.entries =
      s.jobs.entries ++ [(Engine.idFor request, s.newJob request hl)] :=
    Dict.entries_set_of_none hget _
  refine ⟨h.keyed.setJob _, ?_, ?_, fun rank => ?_⟩
  · rw [hentries, List.map_append, List.pairwise_append]
    refine ⟨h.sorted, List.pairwise_singleton _ _, fun n hm n' hm' => ?_⟩
    rw [List.mem_singleton.mp hm']
    exact Nat.lt_succ_of_le (h.bound n hm)
  · intro n hm
    rw [hentries, List.map_append, List.mem_append] at hm
    rcases hm with hm | hm
    · exact Nat.le_succ_of_le (h.bound n hm)
    · rw [List.mem_singleton.mp hm]
      exact Nat.le_refl _
  · have horder : (s.addJob (s.newJob request hl)).order =
        s.order ++ [(Engine.idFor request, request.participantRanks)] := by
      rw [Engine.order, hentries, List.map_append]
      rfl
    rw [horder, Turns.queue_append, Turns.queue_singleton, ← h.queues]
    exact getD_enqueue request.participants_nodup _ _ _

theorem accept_sameTurn (job : MigrationJob τ) (result : MigrateArtifactsRankResult) :
    SameTurn job (job.accept result) := by
  unfold MigrationJob.accept
  cases job.phase <;> exact ⟨rfl, rfl, rfl⟩

theorem Step.ordered {c c' : Config τ} (h : Step admits c c') (ho : c.engine.Ordered) :
    c'.engine.Ordered := by
  cases h with
  | begin h =>
    obtain ⟨hl, rfl, hget, rfl⟩ := begin_ok h
    exact ho.addJob hget hl
  | receive _ =>
    rw [receive_eq]
    exact ⟨ho.keyed, ho.sorted, ho.bound, ho.queues⟩
  | ignore _ => exact ho.record _
  | refuse h _ => exact (Engine.Ordered.retire (ho.record _) h).record _
  | accept h _ => exact Engine.Ordered.setJob (ho.record _) h (accept_sameTurn _ _)
  | drop => exact ho
  | timeout h _ => exact (ho.retire h).record _
  | warn h => exact ho.setJob h ⟨rfl, rfl, rfl⟩
  | start h _ _ => exact ho.send h ⟨rfl, rfl, rfl⟩
  | next h _ _ _ _ => exact ho.send h ⟨rfl, rfl, rfl⟩
  | complete h _ _ _ _ => exact (ho.retire h).record _

theorem init_ordered : (Engine.init : Engine τ).Ordered where
  keyed := fun _ _ h => by simp [Engine.init] at h
  sorted := List.Pairwise.nil
  bound := fun _ h => nomatch h
  queues := fun _ => rfl

theorem Engine.Run.invariant [LinearOrder τ] {I : Config τ → Prop} (h0 : I ⟨Engine.init, []⟩)
    (hstep : ∀ c c', c.engine.Ordered → Step admits c c' → I c → I c') (h : Engine.Run admits s) :
    s.Ordered ∧ I ⟨s, []⟩ := by
  have key : ∀ c, Steps admits ⟨Engine.init, []⟩ c → c.engine.Ordered ∧ I c := by
    intro c hc
    induction hc with
    | refl => exact ⟨init_ordered, h0⟩
    | tail _ hs ih => exact ⟨hs.ordered ih.1, hstep _ _ ih.1 hs ih.2⟩
  exact key _ h.steps

-- ---------------------------------------------------------------------------
-- Order and progress
-- ---------------------------------------------------------------------------

structure QueueOrdered (s : Engine τ) (rank : Rank) : Prop where
  nodup : (s.rankQueues.getD rank []).Nodup
  mem_iff : ∀ migrateId, migrateId ∈ s.rankQueues.getD rank [] ↔
    ∃ job, s.jobs.get? migrateId = some job ∧ rank ∈ job.participantRanks
  increasing : (s.rankQueues.getD rank []).Pairwise fun a b => ∀ job job',
    s.jobs.get? a = some job → s.jobs.get? b = some job' → job.migrateSeq < job'.migrateSeq

/-- Every command was sent by a job at the front of all its queues. -/
def SentFromFront (log : List (Entry τ)) : Prop :=
  ∀ job command ranks queues, .sent job command ranks queues ∈ log →
    command.migrateId = job.migrateId ∧
    ∀ rank ∈ job.participantRanks, (queues.getD rank []).head? = some job.migrateId

theorem order_fst (s : Engine τ) : s.order.map Prod.fst = s.jobs.keys := by
  simp [Engine.order, Dict.keys, Function.comp_def]

theorem Engine.Ordered.queueOrdered (h : s.Ordered) (rank : Rank) : QueueOrdered s rank where
  nodup := by
    rw [h.queues]
    exact Turns.queue_nodup (order_fst s ▸ s.jobs.keys_nodup) rank
  mem_iff := by
    intro migrateId
    rw [h.queues, Turns.mem_queue]
    constructor
    · rintro ⟨needs, hm, hin⟩
      obtain ⟨⟨k, job⟩, he, heq⟩ := List.mem_map.mp hm
      obtain ⟨rfl, rfl⟩ := Prod.mk.inj heq
      exact ⟨job, s.jobs.get?_eq_some.mpr he, hin⟩
    · rintro ⟨job, hget, hin⟩
      exact ⟨_, List.mem_map.mpr ⟨_, s.jobs.get?_eq_some.mp hget, rfl⟩, hin⟩
  increasing := by
    rw [h.queues]
    refine Turns.queue_pairwise ?_ rank
    rw [order_fst, Dict.keys, List.pairwise_map]
    refine (List.pairwise_map.mp h.sorted).imp_of_mem fun ha hb hlt job job' hj hj' => ?_
    rw [s.jobs.get?_eq_some.mpr ha] at hj
    rw [s.jobs.get?_eq_some.mpr hb] at hj'
    cases hj
    cases hj'
    exact hlt

/-- The job with the smallest sequence number is at the front of all its queues. -/
theorem Engine.Ordered.front (h : s.Ordered) (hget : s.jobs.get? migrateId = some job)
    (hmin : ∀ other ∈ s.jobs.values, job.migrateSeq ≤ other.migrateSeq)
    (hr : rank ∈ job.participantRanks) :
    (s.rankQueues.getD rank []).head? = some migrateId := by
  have hm := s.jobs.get?_eq_some.mp hget
  rw [h.queues, Engine.order]
  cases he : s.jobs.entries with
  | nil => simp [he] at hm
  | cons first rest =>
    -- Nothing in front: a first entry other than the job would have a smaller number.
    have hfirst : first = (migrateId, job) := by
      rw [he] at hm
      rcases List.mem_cons.mp hm with rfl | hm
      · rfl
      · have hs := h.sorted
        rw [he, List.map_cons, List.pairwise_cons] at hs
        have hlt := hs.1 _ (List.mem_map.mpr ⟨_, hm, rfl⟩)
        have hle := hmin first.2 (List.mem_map.mpr ⟨first, by simp [he], rfl⟩)
        exact absurd hlt (Nat.not_lt.mpr hle)
    rw [hfirst]
    exact Turns.head_queue hr

theorem sentFromFront_cons {log : List (Entry τ)} {entry : Entry τ} (h : SentFromFront log)
    (hn : ∀ job command ranks queues, entry ≠ .sent job command ranks queues) :
    SentFromFront (entry :: log) := by
  intro job command ranks queues hm
  rcases List.mem_cons.mp hm with he | hm
  · exact absurd he.symm (hn _ _ _ _)
  · exact h _ _ _ _ hm

theorem sentFromFront_send (h : SentFromFront s.log) (ho : s.isOldestOnAllRanks job = true)
    (hs : SameTurn job job') : SentFromFront (s.send job').log := by
  intro other command ranks queues hm
  rcases List.mem_cons.mp hm with he | hm
  · cases he
    refine ⟨rfl, fun rank hr => ?_⟩
    rw [hs.2.2] at hr
    rw [hs.1]
    simpa using List.all_eq_true.mp ho rank hr
  · exact h _ _ _ _ hm

theorem Step.sentFromFront {c c' : Config τ} (h : Step admits c c')
    (hf : SentFromFront c.engine.log) : SentFromFront c'.engine.log := by
  cases h with
  | begin h =>
    obtain ⟨_, -, -, rfl⟩ := begin_ok h
    exact sentFromFront_cons hf (by simp)
  | receive _ =>
    rw [receive_eq]
    intro job command ranks queues hm
    rcases List.mem_append.mp hm with hm | hm
    · simp at hm
    · exact hf _ _ _ _ hm
  | ignore _ => exact sentFromFront_cons hf (by simp)
  | refuse _ _ => exact sentFromFront_cons (sentFromFront_cons hf (by simp)) (by simp)
  | accept _ _ => exact sentFromFront_cons hf (by simp)
  | drop => exact hf
  | timeout _ _ => exact sentFromFront_cons hf (by simp)
  | warn _ => exact hf
  | start _ ho _ => exact sentFromFront_send hf ho ⟨rfl, rfl, rfl⟩
  | next _ ho _ _ _ => exact sentFromFront_send hf ho ⟨rfl, rfl, rfl⟩
  | complete _ _ _ _ _ => exact sentFromFront_cons hf (by simp)

/-- After any calls, with any replies and any callbacks: the queues are the
jobs under way in the order they were begun, every command was sent by a job
at the front of all its queues, and the oldest job is at the front of its. -/
theorem engine_order_and_progress [LinearOrder τ] (h : Engine.Run (fun _ _ => True) s) :
    (∀ rank, QueueOrdered s rank) ∧ SentFromFront s.log ∧
    ∀ job ∈ s.jobs.values, (∀ other ∈ s.jobs.values, job.migrateSeq ≤ other.migrateSeq) →
      s.isOldestOnAllRanks job = true := by
  obtain ⟨ho, hf⟩ := h.invariant (I := fun c => SentFromFront c.engine.log)
    (fun _ _ _ _ hm => nomatch hm) fun _ _ _ hs hf => hs.sentFromFront hf
  refine ⟨ho.queueOrdered, hf, fun job hm hmin => ?_⟩
  obtain ⟨migrateId, hget⟩ := Dict.exists_get?_of_mem_values hm
  refine List.all_eq_true.mpr fun rank hr => ?_
  rw [ho.keyed _ _ hget]
  simpa using ho.front hget hmin hr

def smallRequest (uuid : String) : BeginRequest Nat where
  plan := smallPlan
  srcGroup := smallGroup "src" 0 1
  dstGroup := smallGroup "dst" 1 2
  participantRanks := [0, 1, 2]
  srcLeaderRank := 0
  deadline := 10
  migrateId := none
  uuid := uuid
  participants_nodup := by decide

def quiet : Engine.Callback Nat := fun _ => ([], none)

def twoJobs : Engine Nat := (Engine.init.beginAll [smallRequest "a", smallRequest "b"])

theorem twoJobs_run : Engine.Run (fun _ _ => True) (twoJobs.pump quiet [] 0).1 :=
  .pump (Engine.Run.init.beginAll _) trivial _ _

theorem twoJobs_order :
    (∀ rank, QueueOrdered (twoJobs.pump quiet [] 0).1 rank) ∧
    SentFromFront (twoJobs.pump quiet [] 0).1.log ∧
    ∀ job ∈ (twoJobs.pump quiet [] 0).1.jobs.values,
      (∀ other ∈ (twoJobs.pump quiet [] 0).1.jobs.values, job.migrateSeq ≤ other.migrateSeq) →
      (twoJobs.pump quiet [] 0).1.isOldestOnAllRanks job = true :=
  engine_order_and_progress twoJobs_run

-- ---------------------------------------------------------------------------
-- The replies of a whole handshake
-- ---------------------------------------------------------------------------

def reply (migrateId : String) (phase : MigratePhase) (error : Option String) (rank : Rank) :
    MigrateArtifactsRankResult where
  migrateId := migrateId
  requestId := "r"
  workerRank := rank
  phase := phase
  srcLayouts := []
  dstLayouts := []
  schedule := none
  metadataPayloads := []
  error := error

def pumpAll (s : Engine Nat) (batches : List (List MigrateArtifactsRankResult)) : Engine Nat :=
  batches.foldl (fun s results => (s.pump quiet results 0).1) s

theorem pumpAll_run {admits : Engine Nat → List MigrateArtifactsRankResult → Prop} {s : Engine Nat}
    (h : Engine.Run admits s)
    (ha : ∀ n, (hn : n < batches.length) → admits (pumpAll s (batches.take n)) (batches.get ⟨n, hn⟩)) :
    Engine.Run admits (pumpAll s batches) := by
  induction batches generalizing s with
  | nil => exact h
  | cons results batches ih =>
    refine ih (.pump h (ha 0 (Nat.succ_pos _)) quiet 0) fun n hn => ?_
    exact ha (n + 1) (Nat.succ_lt_succ hn)

def handshake : List (List MigrateArtifactsRankResult) :=
  [[], [0, 1, 2].map (reply "a" .describeLayout none), [reply "a" .buildSchedule none 0],
    [0, 1, 2].map (reply "a" .acceptSchedule none)]

end GfDit
