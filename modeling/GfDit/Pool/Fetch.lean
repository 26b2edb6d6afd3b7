import GfDit.Lib.History
import GfDit.Lib.Prog
import GfDit.Topology

/-!
# Fetching artifacts from the workers

`start_fetch_artifacts`, `poll_fetch_artifacts` and `discard_fetch` of
`multiproc_worker.py`. A fetch is answered on the result queue of the leader it
was sent to. A poll drains that queue for every fetch there: a result is kept
under its own fetch id until it is asked for, and dropped when nobody waits for
it any more.
-/

namespace GfDit

-- ---------------------------------------------------------------------------
-- Results
-- ---------------------------------------------------------------------------

/-- An artifact as it comes over the pipe, pickled or as it is. -/
inductive FetchedArtifact
  | serialized (handle : ArtifactHandle) (payload : List UInt8)
  | plain (value : ArtifactValue)
  deriving DecidableEq

structure FetchArtifactsResult where
  requestId : String
  workerRank : Rank
  artifacts : List FetchedArtifact
  error : Option String
  fetchId : String
  deriving DecidableEq

/-- What a worker can put on its result pipe. -/
inductive ResultPayload
  | fetch (result : FetchArtifactsResult)
  | other (typeName : String)
  deriving DecidableEq

structure FetchState where
  inflightFetches : Dict String Rank
  completedFetches : Dict String FetchArtifactsResult
  resultQueues : Dict Rank (List ResultPayload)

abbrev FetchM := EStateM PyError FetchState

namespace FetchState

variable (state : FetchState)

def setQueue (rank : Rank) (queue : List ResultPayload) : FetchState :=
  { state with resultQueues := state.resultQueues.set rank queue }

/-- A result is kept while its fetch is waited for. -/
def keep (result : FetchArtifactsResult) : FetchState :=
  if state.inflightFetches.contains result.fetchId ∨ state.completedFetches.contains result.fetchId
  then { state with completedFetches := state.completedFetches.set result.fetchId result }
  else state

/-- The lock-protected blocks of `poll_fetch_artifacts` and `discard_fetch`. -/
def forget (fetchId : String) : FetchState :=
  { state with
    inflightFetches := state.inflightFetches.erase fetchId
    completedFetches := state.completedFetches.erase fetchId }

end FetchState

section Calls

variable (topology : RuntimeTopology) (loads : List UInt8 → HostValue)

/-- `start_fetch_artifacts` under the id `uuid4` gives; a worker has a handle
when it has a result queue. -/
def startFetchArtifacts (fetchId groupId : String) : FetchM Rank := do
  let leaderRank ← Prog.check (topology.getGroupLeader groupId)
  if (← get).resultQueues.contains leaderRank then
    modify fun s => { s with inflightFetches := s.inflightFetches.set fetchId leaderRank }
    pure leaderRank
  else throw (.keyError (toString leaderRank))

/-- The rest of a result queue, as `_drain_fetch_results_for_rank` takes it. -/
def drainFetchResults (leaderRank : Rank) : List ResultPayload → FetchM Unit
  | [] => pure ()
  | payload :: queue => do
    modify fun s => s.setQueue leaderRank queue
    match payload with
    | .other typeName =>
      throw (.runtimeError <| s!"unexpected result type from worker {leaderRank}: " ++
        s!"expected FetchArtifactsResult, got {typeName}")
    | .fetch result =>
      if result.fetchId = "" then
        throw (.runtimeError s!"received fetch result without fetch_id from worker {leaderRank}")
      else
        modify fun s => s.keep result
        drainFetchResults leaderRank queue

def drainFetchResultsForRank (leaderRank : Rank) : FetchM Unit := do
  match (← get).resultQueues.get? leaderRank with
  | none => pure ()
  | some queue => drainFetchResults leaderRank queue

/-- `_normalize_fetch_result`; `loads` unpickles what a worker has pickled. -/
def normalizeFetchResult (result : FetchArtifactsResult) : FetchArtifactsResult :=
  { result with
    artifacts := result.artifacts.map fun
      | .plain value => .plain value
      | .serialized handle payload => .plain ⟨handle, loads payload⟩ }

def pollFetchArtifacts (fetchId : String) : FetchM (Option FetchArtifactsResult) := do
  match (← get).completedFetches.get? fetchId with
  | some completed =>
    modify fun s => s.forget fetchId
    pure (some (normalizeFetchResult loads completed))
  | none =>
    match (← get).inflightFetches.get? fetchId with
    | none => pure none
    | some leaderRank =>
      drainFetchResultsForRank leaderRank
      match (← get).completedFetches.get? fetchId with
      | none => pure none
      | some completed =>
        modify fun s => s.forget fetchId
        pure (some (normalizeFetchResult loads completed))

def discardFetch (fetchId : String) : FetchM Unit := modify fun s => s.forget fetchId

end Calls

-- ---------------------------------------------------------------------------
-- Runs
-- ---------------------------------------------------------------------------

inductive FetchEntry
  | started (fetchId : String) (leaderRank : Rank)
  | arrived (leaderRank : Rank) (result : FetchArtifactsResult)
  | returned (fetchId : String) (result : FetchArtifactsResult)
  | discarded (fetchId : String)
  deriving DecidableEq

def FetchEntry.fetchId : FetchEntry → String
  | .started fetchId _ | .returned fetchId _ | .discarded fetchId => fetchId
  | .arrived _ result => result.fetchId

/-- Calls in any order, with results of the workers between them. An id that
`uuid4` gives is new, and a worker answers the commands it was sent, late and
more than once if it likes. -/
inductive FetchRun (workers : List Rank) (loads : List UInt8 → HostValue) :
    List FetchEntry → FetchState → Prop
  | init : FetchRun workers loads []
      ⟨∅, ∅, workers.foldl (fun queues rank => queues.set rank []) ∅⟩
  | start : FetchRun workers loads log s → fetchId ≠ "" →
      (∀ entry ∈ log, entry.fetchId ≠ fetchId) →
      startFetchArtifacts topology fetchId groupId s = .ok leaderRank s' →
      FetchRun workers loads (.started fetchId leaderRank :: log) s'
  | startRaises : FetchRun workers loads log s →
      startFetchArtifacts topology fetchId groupId s = .error e s' → FetchRun workers loads log s'
  | arrive : FetchRun workers loads log s → .started result.fetchId rank ∈ log →
      s.resultQueues.get? rank = some queue →
      FetchRun workers loads (.arrived rank result :: log)
        (s.setQueue rank (queue ++ [.fetch result]))
  | pollNone : FetchRun workers loads log s → pollFetchArtifacts loads fetchId s = .ok none s' →
      FetchRun workers loads log s'
  | pollSome : FetchRun workers loads log s →
      pollFetchArtifacts loads fetchId s = .ok (some result) s' →
      FetchRun workers loads (.returned fetchId result :: log) s'
  | pollRaises : FetchRun workers loads log s → pollFetchArtifacts loads fetchId s = .error e s' →
      FetchRun workers loads log s'
  | discard : FetchRun workers loads log s → discardFetch fetchId s = .ok u s' →
      FetchRun workers loads (.discarded fetchId :: log) s'

-- ---------------------------------------------------------------------------
-- Draining
-- ---------------------------------------------------------------------------

def latestIn (fetchId : String) (queue : List ResultPayload) : Option FetchArtifactsResult :=
  queue.reverse.findSome? fun
    | .fetch result => if result.fetchId = fetchId then some result else none
    | .other _ => none

theorem latestIn_cons (fetchId : String) (result : FetchArtifactsResult)
    (queue : List ResultPayload) : latestIn fetchId (.fetch result :: queue) =
      (latestIn fetchId queue).or (if result.fetchId = fetchId then some result else none) := by
  simp [latestIn, List.findSome?_append]

theorem latestIn_ne_none (h : .fetch result ∈ queue) : latestIn result.fetchId queue ≠ none := by
  intro hnone
  have := List.findSome?_eq_none_iff.mp hnone (.fetch result) (List.mem_reverse.mpr h)
  simp at this

theorem mem_of_latestIn (h : latestIn fetchId queue = some result) :
    .fetch result ∈ queue ∧ result.fetchId = fetchId := by
  obtain ⟨payload, hm, hp⟩ := List.exists_of_findSome?_eq_some h
  cases payload with
  | other typeName => cases hp
  | fetch other =>
    simp only at hp
    split at hp
    · cases hp
      exact ⟨List.mem_reverse.mp hm, by assumption⟩
    · cases hp

/-- Results wait only for a fetch that is waited for, each under its own id. -/
structure FetchState.Kept (s : FetchState) : Prop where
  inflight : ∀ fetchId, s.completedFetches.get? fetchId ≠ none →
    s.inflightFetches.get? fetchId ≠ none
  own : ∀ fetchId result, s.completedFetches.get? fetchId = some result → result.fetchId = fetchId

theorem FetchState.Kept.completed_keep {s : FetchState} (h : s.Kept)
    (result : FetchArtifactsResult) (fetchId : String) :
    (s.keep result).completedFetches.get? fetchId =
      if result.fetchId = fetchId ∧ s.inflightFetches.get? fetchId ≠ none then some result
      else s.completedFetches.get? fetchId := by
  unfold FetchState.keep
  by_cases hin : s.inflightFetches.get? result.fetchId = none
  · have hcompleted : s.completedFetches.get? result.fetchId = none := by
      by_contra hne
      exact h.inflight _ hne hin
    rw [if_neg (by simp [Dict.contains, hin, hcompleted])]
    rw [if_neg]
    rintro ⟨rfl, hne⟩
    exact hne hin
  · rw [if_pos (.inl (by simpa [Dict.contains, Option.isSome_iff_ne_none] using hin))]
    simp only [Dict.get?_set]
    by_cases heq : result.fetchId = fetchId
    · subst heq
      simp [hin]
    · simp [heq]

theorem FetchState.keep_inflight (s : FetchState) (result : FetchArtifactsResult) :
    (s.keep result).inflightFetches = s.inflightFetches := by
  unfold FetchState.keep
  split <;> rfl

theorem FetchState.keep_queues (s : FetchState) (result : FetchArtifactsResult) :
    (s.keep result).resultQueues = s.resultQueues := by
  unfold FetchState.keep
  split <;> rfl

theorem FetchState.Kept.keep {s : FetchState} (h : s.Kept) (result : FetchArtifactsResult) :
    (s.keep result).Kept := by
  constructor
  · intro fetchId hne
    rw [h.completed_keep] at hne
    rw [FetchState.keep_inflight]
    split at hne
    · rename_i hin
      exact hin.2
    · exact h.inflight fetchId hne
  · intro fetchId kept hget
    rw [h.completed_keep] at hget
    split at hget
    · rename_i hin
      exact Option.some.inj hget ▸ hin.1
    · exact h.own fetchId kept hget

theorem FetchState.Kept.forget {s : FetchState} (h : s.Kept) (fetchId : String) :
    (s.forget fetchId).Kept := by
  constructor
  · intro other hne
    simp only [FetchState.forget, Dict.get?_erase] at hne ⊢
    split at hne
    · exact absurd rfl hne
    · rename_i heq
      rw [if_neg heq]
      exact h.inflight other hne
  · intro other result hget
    simp only [FetchState.forget, Dict.get?_erase] at hget
    split at hget
    · cases hget
    · exact h.own other result hget

structure Drained (rank : Rank) (queue : List ResultPayload) (s s' : FetchState) : Prop where
  kept : s'.Kept
  inflight : s'.inflightFetches = s.inflightFetches
  empty : s'.resultQueues.get? rank = some []
  other : ∀ r, r ≠ rank → s'.resultQueues.get? r = s.resultQueues.get? r
  completed : ∀ fetchId, s.inflightFetches.get? fetchId ≠ none →
    s'.completedFetches.get? fetchId =
      (latestIn fetchId queue).or (s.completedFetches.get? fetchId)

theorem drainFetchResults_ok {s : FetchState} (h : s.Kept)
    (hq : s.resultQueues.get? rank = some queue)
    (hpayloads : ∀ payload ∈ queue, ∃ result : FetchArtifactsResult,
      payload = .fetch result ∧ result.fetchId ≠ "") :
    ∃ s', drainFetchResults rank queue s = .ok () s' ∧ Drained rank queue s s' := by
  induction queue generalizing s with
  | nil => exact ⟨s, rfl, h, rfl, hq, fun _ _ => rfl, fun _ _ => rfl⟩
  | cons payload queue ih =>
    obtain ⟨⟨result, rfl, hne⟩, hrest⟩ := List.forall_mem_cons.mp hpayloads
    have hkept : (s.setQueue rank queue).Kept := ⟨h.inflight, h.own⟩
    obtain ⟨s', hrun, hd⟩ := ih (hkept.keep result)
      (by rw [FetchState.keep_queues]; exact Dict.get?_set_self ..) hrest
    refine ⟨s', ?_, hd.kept, ?_, hd.empty, fun r hr => ?_, fun fetchId hin => ?_⟩
    · simp only [drainFetchResults, if_neg hne]
      exact hrun
    · rw [hd.inflight, FetchState.keep_inflight]
      rfl
    · rw [hd.other r hr, FetchState.keep_queues]
      exact Dict.get?_set_ne _ (Ne.symm hr) _
    · rw [hd.completed fetchId (by rw [FetchState.keep_inflight]; exact hin),
        hkept.completed_keep, latestIn_cons]
      have hin' : (s.setQueue rank queue).inflightFetches.get? fetchId ≠ none := hin
      by_cases heq : result.fetchId = fetchId
      · rw [if_pos ⟨heq, hin'⟩, if_pos heq]
        cases latestIn fetchId queue <;> rfl
      · rw [if_neg (fun hand => heq hand.1), if_neg heq, Option.or_none]
        rfl

-- ---------------------------------------------------------------------------
-- Polls
-- ---------------------------------------------------------------------------

/-- The queues hold results of fetches. -/
def FetchState.Fetches (s : FetchState) : Prop :=
  ∀ rank queue, s.resultQueues.get? rank = some queue → ∀ payload ∈ queue,
    ∃ result : FetchArtifactsResult, payload = .fetch result ∧ result.fetchId ≠ ""

/-- What a poll can come to: it returns what was put aside; or nobody waits for
the fetch; or it drains the queue of the leader and returns what that has. -/
theorem poll_cases (loads : List UInt8 → HostValue) {s : FetchState} (h : s.Kept) (hf : s.Fetches)
    (hq : ∀ rank, s.inflightFetches.get? fetchId = some rank → s.resultQueues.get? rank ≠ none) :
    (∃ kept, s.completedFetches.get? fetchId = some kept ∧ pollFetchArtifacts loads fetchId s =
      .ok (some (normalizeFetchResult loads kept)) (s.forget fetchId)) ∨
    (s.inflightFetches.get? fetchId = none ∧ pollFetchArtifacts loads fetchId s = .ok none s) ∨
    ∃ rank queue s', s.inflightFetches.get? fetchId = some rank ∧
      s.completedFetches.get? fetchId = none ∧ s.resultQueues.get? rank = some queue ∧
      Drained rank queue s s' ∧
      pollFetchArtifacts loads fetchId s = match latestIn fetchId queue with
        | none => .ok none s'
        | some result => .ok (some (normalizeFetchResult loads result)) (s'.forget fetchId) := by
  cases hc : s.completedFetches.get? fetchId with
  | some kept =>
    refine .inl ⟨kept, rfl, ?_⟩
    rw [pollFetchArtifacts, Prog.get_bind, hc]
    rfl
  | none =>
    refine .inr ?_
    cases hi : s.inflightFetches.get? fetchId with
    | none =>
      refine .inl ⟨rfl, ?_⟩
      simp only [pollFetchArtifacts, Prog.get_bind, hc, hi]
      rfl
    | some rank =>
      obtain ⟨queue, hqueue⟩ := Option.ne_none_iff_exists'.mp (hq rank hi)
      obtain ⟨s', hrun, hd⟩ := drainFetchResults_ok h hqueue (hf rank queue hqueue)
      have hdrain : drainFetchResultsForRank rank s = .ok () s' := by
        rw [drainFetchResultsForRank, Prog.get_bind, hqueue]
        exact hrun
      have hcompleted := hd.completed fetchId (by rw [hi]; simp)
      rw [hc, Option.or_none] at hcompleted
      refine .inr ⟨rank, queue, s', rfl, rfl, hqueue, hd, ?_⟩
      simp only [pollFetchArtifacts, Prog.get_bind, hc, hi, Prog.bind_ok hdrain, hcompleted]
      cases latestIn fetchId queue <;> rfl

-- ---------------------------------------------------------------------------
-- The invariant
-- ---------------------------------------------------------------------------

variable {loads : List UInt8 → HostValue}

def FetchClosed (log : List FetchEntry) (fetchId : String) : Prop :=
  .discarded fetchId ∈ log ∨ ∃ result, .returned fetchId result ∈ log

theorem FetchClosed.cons (h : FetchClosed log fetchId) (entry : FetchEntry) :
    FetchClosed (entry :: log) fetchId := by
  rcases h with hd | ⟨result, hr⟩
  · exact .inl (List.mem_cons_of_mem _ hd)
  · exact .inr ⟨result, List.mem_cons_of_mem _ hr⟩

theorem fetchClosed_cons_iff (hd : entry ≠ .discarded fetchId)
    (hr : ∀ result, entry ≠ .returned fetchId result) :
    FetchClosed (entry :: log) fetchId ↔ FetchClosed log fetchId := by
  refine ⟨fun h => ?_, fun h => h.cons entry⟩
  rcases h with h | ⟨result, h⟩
  · exact .inl ((List.mem_cons.mp h).resolve_left fun heq => hd heq.symm)
  · exact .inr ⟨result, (List.mem_cons.mp h).resolve_left fun heq => hr result heq.symm⟩

/-- What an entry owes to those before it: ids are new, and a fetch is returned
while it is open, with a result that arrived for it. -/
def FetchLawful (loads : List UInt8 → HostValue) : FetchEntry → List FetchEntry → Prop
  | .started fetchId _, earlier => fetchId ≠ "" ∧ ∀ entry ∈ earlier, entry.fetchId ≠ fetchId
  | .returned fetchId result, earlier => ¬ FetchClosed earlier fetchId ∧
      ∃ rank arrived, .arrived rank arrived ∈ earlier ∧ arrived.fetchId = fetchId ∧
        result = normalizeFetchResult loads arrived
  | .arrived rank result, earlier => .started result.fetchId rank ∈ earlier
  | .discarded _, _ => True

structure FetchInv (loads : List UInt8 → HostValue) (log : List FetchEntry) (s : FetchState) :
    Prop where
  kept : s.Kept
  inflight : ∀ fetchId rank, s.inflightFetches.get? fetchId = some rank ↔
    .started fetchId rank ∈ log ∧ ¬ FetchClosed log fetchId
  hasQueue : ∀ fetchId rank, .started fetchId rank ∈ log → s.resultQueues.get? rank ≠ none
  queued : ∀ rank queue, s.resultQueues.get? rank = some queue → ∀ payload ∈ queue,
    ∃ result, payload = .fetch result ∧ .arrived rank result ∈ log
  aside : ∀ fetchId result, s.completedFetches.get? fetchId = some result →
    ∃ rank, .arrived rank result ∈ log
  present : ∀ rank result, .arrived rank result ∈ log → ¬ FetchClosed log result.fetchId →
    s.completedFetches.get? result.fetchId ≠ none ∨
      ∃ queue, s.resultQueues.get? rank = some queue ∧ .fetch result ∈ queue
  lawful : History.Each (FetchLawful loads) log

theorem FetchInv.started_of_arrived (h : FetchInv loads log s) (hm : .arrived rank result ∈ log) :
    .started result.fetchId rank ∈ log := by
  obtain ⟨later, earlier, rfl⟩ := List.append_of_mem hm
  have := h.lawful.at rfl
  exact List.mem_append_right _ (List.mem_cons_of_mem _ this)

theorem FetchInv.ne_empty (h : FetchInv loads log s) (hm : .started fetchId rank ∈ log) :
    fetchId ≠ "" := by
  obtain ⟨later, earlier, rfl⟩ := List.append_of_mem hm
  exact (h.lawful.at rfl).1

theorem started_unique (h : History.Each (FetchLawful loads) log)
    (ha : .started fetchId a ∈ log) (hb : .started fetchId b ∈ log) : a = b := by
  induction log with
  | nil => cases ha
  | cons entry log ih =>
    obtain ⟨hentry, hlog⟩ := h
    rcases List.mem_cons.mp ha with rfl | ha'
    · rcases List.mem_cons.mp hb with heq | hb'
      · cases heq
        rfl
      · exact absurd rfl (hentry.2 _ hb')
    · rcases List.mem_cons.mp hb with rfl | hb'
      · exact absurd rfl (hentry.2 _ ha')
      · exact ih hlog ha' hb'

theorem FetchInv.fetches (h : FetchInv loads log s) : s.Fetches := by
  intro rank queue hq payload hm
  obtain ⟨result, heq, ha⟩ := h.queued rank queue hq payload hm
  exact ⟨result, heq, h.ne_empty (h.started_of_arrived ha)⟩

theorem FetchInv.completed_none (h : FetchInv loads log s) (hc : FetchClosed log fetchId) :
    s.inflightFetches.get? fetchId = none ∧ s.completedFetches.get? fetchId = none := by
  have hin : s.inflightFetches.get? fetchId = none := by
    cases hget : s.inflightFetches.get? fetchId with
    | none => rfl
    | some rank => exact absurd hc ((h.inflight fetchId rank).mp hget).2
  refine ⟨hin, ?_⟩
  by_contra hne
  exact h.kept.inflight fetchId hne hin

-- ---------------------------------------------------------------------------
-- Steps
-- ---------------------------------------------------------------------------

theorem init_queue (workers : List Rank) (queues : Dict Rank (List ResultPayload))
    (h : ∀ rank queue, queues.get? rank = some queue → queue = []) (rank : Rank)
    (queue : List ResultPayload)
    (hq : (workers.foldl (fun queues rank => queues.set rank []) queues).get? rank = some queue) :
    queue = [] := by
  induction workers generalizing queues with
  | nil => exact h rank queue hq
  | cons worker workers ih =>
    refine ih (queues.set worker []) (fun r q hr => ?_) hq
    rw [Dict.get?_set] at hr
    split at hr
    · exact (Option.some.inj hr).symm
    · exact h r q hr

theorem FetchInv.init (loads : List UInt8 → HostValue) (workers : List Rank) :
    FetchInv loads [] ⟨∅, ∅, workers.foldl (fun queues rank => queues.set rank []) ∅⟩ where
  kept := ⟨by simp, by simp⟩
  inflight := by simp
  hasQueue := by simp
  queued := fun rank queue hq payload hm => by
    rw [init_queue workers ∅ (by simp) rank queue hq] at hm
    cases hm
  aside := by simp
  present := by simp
  lawful := trivial

theorem startFetchArtifacts_cases (topology : RuntimeTopology) (fetchId groupId : String)
    (s : FetchState) :
    (∃ rank, s.resultQueues.get? rank ≠ none ∧ startFetchArtifacts topology fetchId groupId s =
      .ok rank { s with inflightFetches := s.inflightFetches.set fetchId rank }) ∨
    ∃ e, startFetchArtifacts topology fetchId groupId s = .error e s := by
  unfold startFetchArtifacts
  cases hleader : topology.getGroupLeader groupId with
  | error e => exact .inr ⟨e, rfl⟩
  | ok rank =>
    by_cases hq : s.resultQueues.contains rank
    · refine .inl ⟨rank, Option.isSome_iff_ne_none.mp hq, ?_⟩
      rw [Prog.bind_ok (show Prog.check (.ok rank) s = .ok rank s from rfl), Prog.get_bind,
        if_pos hq]
      rfl
    · refine .inr ⟨.keyError (toString rank), ?_⟩
      rw [Prog.bind_ok (show Prog.check (.ok rank) s = .ok rank s from rfl), Prog.get_bind,
        if_neg hq]
      rfl

theorem FetchInv.start (h : FetchInv loads log s) (hne : fetchId ≠ "")
    (hnew : ∀ entry ∈ log, entry.fetchId ≠ fetchId) (hq : s.resultQueues.get? rank ≠ none) :
    FetchInv loads (.started fetchId rank :: log)
      { s with inflightFetches := s.inflightFetches.set fetchId rank } where
  kept := by
    refine ⟨fun other hc => ?_, h.kept.own⟩
    simp only [Dict.get?_set]
    split
    · simp
    · exact h.kept.inflight other hc
  inflight := by
    intro other r
    rw [fetchClosed_cons_iff (by simp) (by simp), List.mem_cons]
    simp only [Dict.get?_set]
    by_cases heq : fetchId = other
    · subst heq
      have hopen : ¬ FetchClosed log fetchId := by
        rintro (hd | ⟨result, hr⟩)
        · exact hnew _ hd rfl
        · exact hnew _ hr rfl
      have hnot : .started fetchId r ∉ log := fun hm => hnew _ hm rfl
      simp [hopen, hnot, eq_comm]
    · rw [if_neg heq, h.inflight]
      simp [Ne.symm heq]
  hasQueue := by
    intro other r hm
    rcases List.mem_cons.mp hm with heq | hm
    · cases heq
      exact hq
    · exact h.hasQueue other r hm
  queued := fun r queue hr payload hm => by
    obtain ⟨result, heq, ha⟩ := h.queued r queue hr payload hm
    exact ⟨result, heq, List.mem_cons_of_mem _ ha⟩
  aside := fun other result hget => by
    obtain ⟨r, ha⟩ := h.aside other result hget
    exact ⟨r, List.mem_cons_of_mem _ ha⟩
  present := fun r result hm hopen => by
    have ha := (List.mem_cons.mp hm).resolve_left (by simp)
    exact h.present r result ha fun hc => hopen (hc.cons _)
  lawful := ⟨⟨hne, hnew⟩, h.lawful⟩

theorem FetchInv.arrive (h : FetchInv loads log s) (hstarted : .started result.fetchId rank ∈ log)
    (hq : s.resultQueues.get? rank = some queue) :
    FetchInv loads (.arrived rank result :: log)
      (s.setQueue rank (queue ++ [.fetch result])) where
  kept := ⟨h.kept.inflight, h.kept.own⟩
  inflight := fun other r => by
    rw [fetchClosed_cons_iff (by simp) (by simp)]
    simpa [FetchState.setQueue] using h.inflight other r
  hasQueue := fun other r hm => by
    simp only [FetchState.setQueue, Dict.get?_set]
    split
    · simp
    · exact h.hasQueue other r ((List.mem_cons.mp hm).resolve_left (by simp))
  queued := fun r q hr payload hm => by
    simp only [FetchState.setQueue, Dict.get?_set] at hr
    split at hr
    · rename_i heq
      cases hr
      rcases List.mem_append.mp hm with hm | hm
      · obtain ⟨other, heq', ha⟩ := h.queued rank queue hq payload hm
        exact ⟨other, heq', List.mem_cons_of_mem _ (heq ▸ ha)⟩
      · exact ⟨result, List.mem_singleton.mp hm, by simp [heq]⟩
    · obtain ⟨other, heq', ha⟩ := h.queued r q hr payload hm
      exact ⟨other, heq', List.mem_cons_of_mem _ ha⟩
  aside := fun other kept hget => by
    obtain ⟨r, ha⟩ := h.aside other kept hget
    exact ⟨r, List.mem_cons_of_mem _ ha⟩
  present := fun r other hm hopen => by
    simp only [FetchState.setQueue, Dict.get?_set]
    rcases List.mem_cons.mp hm with heq | hm
    · cases heq
      exact .inr ⟨_, if_pos rfl, by simp⟩
    · rcases h.present r other hm fun hc => hopen (hc.cons _) with hc | ⟨q, hr, hmem⟩
      · exact .inl hc
      · refine .inr ?_
        by_cases heq : rank = r
        · subst heq
          rw [hq] at hr
          cases hr
          exact ⟨_, if_pos rfl, List.mem_append_left _ hmem⟩
        · exact ⟨q, by rw [if_neg heq]; exact hr, hmem⟩
  lawful := ⟨hstarted, h.lawful⟩

theorem FetchInv.drain (h : FetchInv loads log s) (hq : s.resultQueues.get? rank = some queue)
    (hd : Drained rank queue s s') : FetchInv loads log s' where
  kept := hd.kept
  inflight := fun fetchId r => by rw [hd.inflight, h.inflight]
  hasQueue := fun fetchId r hm => by
    by_cases heq : r = rank
    · rw [heq, hd.empty]
      simp
    · rw [hd.other r heq]
      exact h.hasQueue fetchId r hm
  queued := fun r q hr payload hm => by
    by_cases heq : r = rank
    · rw [heq, hd.empty] at hr
      cases hr
      cases hm
    · rw [hd.other r heq] at hr
      exact h.queued r q hr payload hm
  aside := fun fetchId result hget => by
    have hin := hd.kept.inflight fetchId (by rw [hget]; simp)
    rw [hd.inflight] at hin
    rw [hd.completed fetchId hin] at hget
    rcases Option.or_eq_some_iff.mp hget with hl | ⟨-, hc⟩
    · obtain ⟨other, heq, ha⟩ := h.queued rank queue hq _ (mem_of_latestIn hl).1
      cases heq
      exact ⟨rank, ha⟩
    · exact h.aside fetchId result hc
  present := fun r result hm hopen => by
    have hin : s.inflightFetches.get? result.fetchId = some r :=
      (h.inflight _ _).mpr ⟨h.started_of_arrived hm, hopen⟩
    rw [hd.completed result.fetchId (by rw [hin]; simp)]
    rcases h.present r result hm hopen with hc | ⟨q, hr, hmem⟩
    · refine .inl fun hnone => hc ?_
      exact (Option.or_eq_none_iff.mp hnone).2
    · by_cases heq : r = rank
      · subst heq
        rw [hq] at hr
        cases hr
        exact .inl fun hnone => latestIn_ne_none hmem (Option.or_eq_none_iff.mp hnone).1
      · exact .inr ⟨q, by rw [hd.other r heq]; exact hr, hmem⟩
  lawful := h.lawful

theorem FetchInv.close (h : FetchInv loads log s) (hlawful : FetchLawful loads entry log)
    (hentry : entry = .discarded fetchId ∨ ∃ result, entry = .returned fetchId result) :
    FetchInv loads (entry :: log) (s.forget fetchId) := by
  have hclosed : FetchClosed (entry :: log) fetchId := by
    rcases hentry with rfl | ⟨result, rfl⟩
    · exact .inl (List.mem_cons_self ..)
    · exact .inr ⟨result, List.mem_cons_self ..⟩
  have hother : ∀ other, fetchId ≠ other →
      (FetchClosed (entry :: log) other ↔ FetchClosed log other) := by
    intro other hne
    refine fetchClosed_cons_iff (fun heq => ?_) fun result heq => ?_
    all_goals
      rcases hentry with rfl | ⟨_, rfl⟩ <;> cases heq
      exact hne rfl
  have hstarted : ∀ other r, .started other r ∈ entry :: log ↔ .started other r ∈ log := by
    rcases hentry with rfl | ⟨result, rfl⟩ <;> simp
  have harrived : ∀ r other, .arrived r other ∈ entry :: log ↔ .arrived r other ∈ log := by
    rcases hentry with rfl | ⟨result, rfl⟩ <;> simp
  constructor
  · exact h.kept.forget fetchId
  · intro other r
    simp only [FetchState.forget, Dict.get?_erase]
    by_cases heq : fetchId = other
    · subst heq
      simp [hclosed]
    · rw [if_neg heq, hother other heq, hstarted, h.inflight]
  · intro other r hm
    exact h.hasQueue other r ((hstarted other r).mp hm)
  · intro r queue hr payload hm
    obtain ⟨result, heq, ha⟩ := h.queued r queue hr payload hm
    exact ⟨result, heq, List.mem_cons_of_mem _ ha⟩
  · intro other result hget
    simp only [FetchState.forget, Dict.get?_erase] at hget
    split at hget
    · cases hget
    · obtain ⟨r, ha⟩ := h.aside other result hget
      exact ⟨r, List.mem_cons_of_mem _ ha⟩
  · intro r result hm hopen
    have hne : fetchId ≠ result.fetchId := fun heq => hopen (heq ▸ hclosed)
    rw [hother _ hne] at hopen
    simp only [FetchState.forget, Dict.get?_erase, if_neg hne]
    exact h.present r result ((harrived r result).mp hm) hopen
  · exact ⟨hlawful, h.lawful⟩

-- ---------------------------------------------------------------------------
-- Every run
-- ---------------------------------------------------------------------------

theorem FetchInv.poll (h : FetchInv loads log s) (fetchId : String) :
    (pollFetchArtifacts loads fetchId s = .ok none s ∧
      s.inflightFetches.get? fetchId = none) ∨
    (∃ s', pollFetchArtifacts loads fetchId s = .ok none s' ∧ FetchInv loads log s' ∧
      ∀ rank result, .arrived rank result ∈ log → result.fetchId = fetchId →
        FetchClosed log fetchId) ∨
    ∃ result s', pollFetchArtifacts loads fetchId s = .ok (some result) s' ∧
      FetchInv loads (.returned fetchId result :: log) s' := by
  have hqueue : ∀ rank, s.inflightFetches.get? fetchId = some rank →
      s.resultQueues.get? rank ≠ none :=
    fun rank hin => h.hasQueue fetchId rank ((h.inflight _ _).mp hin).1
  rcases poll_cases loads h.kept h.fetches hqueue with
    ⟨kept, hc, hpoll⟩ | ⟨hin, hpoll⟩ | ⟨rank, queue, s', hin, hc, hq, hd, hpoll⟩
  · refine .inr (.inr ⟨_, _, hpoll, h.close ⟨?_, ?_⟩ (.inr ⟨_, rfl⟩)⟩)
    · exact fun hclosed => (by simp [(h.completed_none hclosed).2] at hc)
    · obtain ⟨rank, ha⟩ := h.aside fetchId kept hc
      exact ⟨rank, kept, ha, h.kept.own fetchId kept hc, rfl⟩
  · exact .inl ⟨hpoll, hin⟩
  · have hopen := ((h.inflight fetchId rank).mp hin).2
    cases hl : latestIn fetchId queue with
    | none =>
      rw [hl] at hpoll
      refine .inr (.inl ⟨s', hpoll, h.drain hq hd, fun r result ha heq => ?_⟩)
      subst heq
      by_contra _
      have hr := started_unique h.lawful (h.started_of_arrived ha) ((h.inflight _ _).mp hin).1
      rcases h.present r result ha hopen with hne | ⟨q, hget, hmem⟩
      · exact hne hc
      · rw [hr, hq] at hget
        cases hget
        exact latestIn_ne_none hmem hl
    | some result =>
      rw [hl] at hpoll
      obtain ⟨hmem, hid⟩ := mem_of_latestIn hl
      obtain ⟨other, heq, ha⟩ := h.queued rank queue hq _ hmem
      cases heq
      exact .inr (.inr ⟨_, _, hpoll, (h.drain hq hd).close ⟨hopen, rank, result, ha, hid, rfl⟩
        (.inr ⟨_, rfl⟩)⟩)

theorem FetchRun.inv (h : FetchRun workers loads log s) : FetchInv loads log s := by
  induction h with
  | init => exact .init loads workers
  | @start log s fetchId topology groupId leaderRank s' _ hne hnew hstart ih =>
    rcases startFetchArtifacts_cases topology fetchId groupId s with ⟨rank, hq, heq⟩ | ⟨e, heq⟩
    · rw [heq] at hstart
      cases hstart
      exact ih.start hne hnew hq
    · rw [heq] at hstart
      cases hstart
  | @startRaises log s topology fetchId groupId e s' _ hstart ih =>
    rcases startFetchArtifacts_cases topology fetchId groupId s with ⟨rank, hq, heq⟩ | ⟨e, heq⟩
    · rw [heq] at hstart
      cases hstart
    · rw [heq] at hstart
      cases hstart
      exact ih
  | arrive _ hstarted hq ih => exact ih.arrive hstarted hq
  | @pollNone log s fetchId s' _ hpoll ih =>
    rcases ih.poll fetchId with ⟨heq, -⟩ | ⟨_, heq, hinv, -⟩ | ⟨_, _, heq, -⟩ <;>
      rw [heq] at hpoll <;> cases hpoll
    · exact ih
    · exact hinv
  | @pollSome log s fetchId result s' _ hpoll ih =>
    rcases ih.poll fetchId with ⟨heq, -⟩ | ⟨_, heq, -⟩ | ⟨_, _, heq, hinv⟩ <;>
      rw [heq] at hpoll <;> cases hpoll
    exact hinv
  | @pollRaises log s fetchId e s' _ hpoll ih =>
    rcases ih.poll fetchId with ⟨heq, -⟩ | ⟨_, heq, -⟩ | ⟨_, _, heq, -⟩ <;>
      rw [heq] at hpoll <;> cases hpoll
  | discard _ hdiscard ih =>
    cases hdiscard
    exact ih.close trivial (.inl rfl)

def FetchEntry.returns (fetchId : String) : FetchEntry → Bool
  | .returned other _ => other = fetchId
  | _ => false

theorem returned_once (h : History.Each (FetchLawful loads) log) (fetchId : String) :
    log.countP (FetchEntry.returns fetchId) ≤ 1 := by
  induction log with
  | nil => simp
  | cons entry log ih =>
    obtain ⟨hentry, hlog⟩ := h
    rw [List.countP_cons]
    split
    · rename_i hr
      have hzero : log.countP (FetchEntry.returns fetchId) = 0 := by
        refine List.countP_eq_zero.mpr fun other hm ho => ?_
        cases entry with
        | returned id result =>
          cases other with
          | returned id' result' =>
            obtain rfl : id = fetchId := by simpa [FetchEntry.returns] using hr
            obtain rfl : id' = id := by simpa [FetchEntry.returns] using ho
            exact hentry.1 (.inr ⟨result', hm⟩)
          | started _ _ | arrived _ _ | discarded _ => cases ho
        | started _ _ | arrived _ _ | discarded _ => cases hr
      omega
    · exact ih hlog

/-- Each fetch is returned at most once and with a result of its own, a
discarded one never; what has arrived for an open fetch is returned by the next
poll of it; and nothing is kept of a fetch that was returned or discarded. -/
theorem fetch_protocol (h : FetchRun workers loads log s) :
    (∀ fetchId, log.countP (FetchEntry.returns fetchId) ≤ 1) ∧
    (∀ fetchId result, .returned fetchId result ∈ log → result.fetchId = fetchId ∧
      ∃ rank arrived, .started fetchId rank ∈ log ∧ .arrived rank arrived ∈ log ∧
        result = normalizeFetchResult loads arrived) ∧
    (∀ fetchId later earlier, log = later ++ .discarded fetchId :: earlier →
      ∀ result, .returned fetchId result ∉ later) ∧
    (∀ rank arrived, .arrived rank arrived ∈ log → ¬ FetchClosed log arrived.fetchId →
      ∃ result s', pollFetchArtifacts loads arrived.fetchId s = .ok (some result) s') ∧
    (∀ fetchId, FetchClosed log fetchId →
      s.inflightFetches.get? fetchId = none ∧ s.completedFetches.get? fetchId = none) ∧
    ∀ fetchId, ∃ result s', pollFetchArtifacts loads fetchId s = .ok result s' := by
  have hinv := h.inv
  refine ⟨returned_once hinv.lawful, fun fetchId result hm => ?_, ?_, ?_,
    fun fetchId => hinv.completed_none, fun fetchId => ?_⟩
  · obtain ⟨later, earlier, rfl⟩ := List.append_of_mem hm
    obtain ⟨-, rank, arrived, ha, hid, rfl⟩ := hinv.lawful.at rfl
    have hmem : .arrived rank arrived ∈
        later ++ .returned fetchId (normalizeFetchResult loads arrived) :: earlier :=
      List.mem_append_right _ (List.mem_cons_of_mem _ ha)
    exact ⟨hid, rank, arrived, hid ▸ hinv.started_of_arrived hmem, hmem, rfl⟩
  · rintro fetchId later earlier rfl result hm
    obtain ⟨newer, older, rfl⟩ := List.append_of_mem hm
    have hlawful := hinv.lawful.at (List.append_assoc ..)
    exact hlawful.1 (.inl (by simp))
  · intro rank arrived ha hopen
    rcases hinv.poll arrived.fetchId with ⟨-, hin⟩ | ⟨_, -, -, hclosed⟩ | ⟨result, s', hpoll, -⟩
    · have := (hinv.inflight _ _).mpr ⟨hinv.started_of_arrived ha, hopen⟩
      rw [hin] at this
      cases this
    · exact absurd (hclosed rank arrived ha rfl) hopen
    · exact ⟨result, s', hpoll⟩
  · rcases hinv.poll fetchId with ⟨hpoll, -⟩ | ⟨s', hpoll, -⟩ | ⟨result, s', hpoll, -⟩
    · exact ⟨none, s, hpoll⟩
    · exact ⟨none, s', hpoll⟩
    · exact ⟨some result, s', hpoll⟩

def loneTopology : RuntimeTopology where
  workers := [0]
  groups := [soloSpec "g" 0 [.finalize]]
  workers_nodup := one_worker
  ids_nodup := by decide
  ranks_known := by decide

def sharedResult : FetchArtifactsResult := ⟨"r", 0, [], none, "b"⟩

/-- Two fetches on one leader: the poll of the first drains the result of the
second, which the next poll of the second returns. -/
theorem fetch_protocol_shared : ∃ s,
    FetchRun [0] (fun _ => ⟨∅, none⟩)
      [.arrived 0 sharedResult, .started "b" 0, .started "a" 0] s ∧
    s.resultQueues.get? 0 = some [] ∧
    ∃ result s', pollFetchArtifacts (fun _ => ⟨∅, none⟩) "b" s = .ok (some result) s' := by
  have hrun : FetchRun [0] (fun _ => ⟨∅, none⟩)
      [.arrived 0 sharedResult, .started "b" 0, .started "a" 0]
      (Prog.after (pollFetchArtifacts (fun _ => ⟨∅, none⟩) "a")
        ⟨(Dict.set ∅ "a" 0).set "b" 0, ∅, Dict.set ∅ 0 [.fetch sharedResult]⟩) := by
    have hstart : FetchRun [0] (fun _ => ⟨∅, none⟩) [.started "b" 0, .started "a" 0]
        ⟨(Dict.set ∅ "a" 0).set "b" 0, ∅, Dict.set ∅ 0 []⟩ := by
      refine .start (.start .init ?_ ?_ (show startFetchArtifacts loneTopology "a" "g" _ = _ from rfl))
        ?_ ?_ (show startFetchArtifacts loneTopology "b" "g" _ = _ from rfl)
      all_goals decide
    have hcommand : FetchEntry.started sharedResult.fetchId 0 ∈
        [.started "b" 0, FetchEntry.started "a" 0] := by decide
    have harrive := FetchRun.arrive hstart hcommand rfl
    exact .pollNone harrive (show pollFetchArtifacts _ "a" _ = _ from rfl)
  refine ⟨_, hrun, rfl, (fetch_protocol hrun).2.2.2.1 0 sharedResult (by simp) ?_⟩
  simp [FetchClosed]

end GfDit
