import GfDit.FrontEnd.Basic
import GfDit.Lib.Custody
import Mathlib.Algebra.Order.Group.Multiset
import Mathlib.Tactic.Abel

/-!
# Where a request is

A request that was submitted is a token in one of the queues and maps of the
front end or in the hand of the control thread. Each step of the thread and of
the processes hands over at most one token; a finished or aborted id is taken
out of the maps.
-/

namespace GfDit.FrontEnd

open Custody

variable {ρ δ ω : Type}

inductive Token (ρ δ ω : Type)
  -- Not yet given to the engine.
  | waiting (request : OmniDiffusionRequest ρ)
  | running
  | collected (result : CollectedDiffusionResult ρ δ)
  | done (outcome : Except String ω)

namespace Token

abbrev ofEntry (entry : String × String) : String × Token ρ δ ω := (entry.1, .running)

abbrev ofItem (item : String × CollectedDiffusionResult ρ δ) : String × Token ρ δ ω :=
  (item.1, .collected item.2)

abbrev ofOutcome (item : String × Except String ω) : String × Token ρ δ ω :=
  (item.1, .done item.2)

end Token

def Control.inHand : Control ρ δ ω → Multiset (String × Token ρ δ ω)
  | .drained requestId outcome => {(requestId, .done outcome)}
  | .taken request | .passing request => {(request.requestId, .waiting request)}
  | .passed requestId _ => {(requestId, .running)}
  | .refused requestId message | .lost requestId message _
  | .undelivered requestId message _ => {(requestId, .done (.error message))}
  | .collected requestId result _ | .enqueueing requestId result _ =>
    {(requestId, .collected result)}
  | .draining | .submitting | .snapshot | .polling _ | .collecting .. | .enqueued .. => 0

/-- The submission in hand whose entry is about to go. -/
def Control.fetched : Control ρ δ ω → Option String
  | .lost requestId .. | .collected requestId .. => some requestId
  | _ => none

def Control.ahead : Control ρ δ ω → List (String × String)
  | .polling inflight => inflight
  | .collecting requestId submissionId inflight => (requestId, submissionId) :: inflight
  | .lost _ _ inflight | .collected _ _ inflight | .enqueueing _ _ inflight
  | .enqueued _ inflight | .undelivered _ _ inflight => inflight
  | _ => []

def Control.round : Control ρ δ ω → List String
  | .polling inflight => inflight.map Prod.fst
  | .collecting requestId _ inflight | .lost requestId _ inflight
  | .collected requestId _ inflight | .enqueueing requestId _ inflight
  | .enqueued requestId inflight | .undelivered requestId _ inflight =>
    requestId :: inflight.map Prod.fst
  | _ => []

namespace AsyncOmniDiffusion

def queued (s : AsyncOmniDiffusion ρ δ ω) : List (String × Token ρ δ ω) :=
  s.submitQueue.map fun request => (request.requestId, .waiting request)

def submitted (s : AsyncOmniDiffusion ρ δ ω) : List (String × Token ρ δ ω) :=
  (s.submissionIds.entries.filter fun entry => s.control.fetched != some entry.1).map
    Token.ofEntry

def postprocessed (s : AsyncOmniDiffusion ρ δ ω) : List (String × Token ρ δ ω) :=
  (s.postprocessInQueue ++ s.postprocessing).map Token.ofItem ++
    s.postprocessOutQueue.map Token.ofOutcome

def answers (s : AsyncOmniDiffusion ρ δ ω) : List (String × Token ρ δ ω) :=
  s.completedResults.entries.map (fun entry => (entry.1, .done (.ok entry.2))) ++
    s.failedRequests.entries.map fun entry => (entry.1, .done (.error entry.2))

def holdings (s : AsyncOmniDiffusion ρ δ ω) : Multiset (String × Token ρ δ ω) :=
  ↑s.queued + s.control.inHand + ↑s.submitted + ↑s.postprocessed + ↑s.answers

variable {s : AsyncOmniDiffusion ρ δ ω} {requestId : String} {token : Token ρ δ ω}

-- ---------------------------------------------------------------------------
-- What the maps say
-- ---------------------------------------------------------------------------

theorem mem_submitted : (requestId, token) ∈ s.submitted ↔ token = .running ∧
    (s.submissionIds.get? requestId).isSome = true ∧ s.control.fetched ≠ some requestId := by
  simp only [submitted, List.mem_map, List.mem_filter, bne_iff_ne, Prod.mk.injEq]
  constructor
  · rintro ⟨⟨key, submissionId⟩, ⟨hm, hf⟩, rfl, rfl⟩
    exact ⟨rfl, Option.isSome_iff_exists.mpr ⟨_, s.submissionIds.get?_eq_some.mpr hm⟩, hf⟩
  · rintro ⟨rfl, hk, hf⟩
    obtain ⟨submissionId, hk⟩ := Option.isSome_iff_exists.mp hk
    exact ⟨(requestId, submissionId), ⟨s.submissionIds.get?_eq_some.mp hk, hf⟩, rfl, rfl⟩

theorem submitted_of_get (hk : s.submissionIds.get? requestId = some submissionId)
    (hf : s.control.fetched ≠ some requestId) : (requestId, .running) ∈ s.submitted :=
  mem_submitted.mpr ⟨rfl, by rw [hk]; rfl, hf⟩

theorem mem_answers : (requestId, token) ∈ s.answers ↔
    (∃ result, token = .done (.ok result) ∧ s.completedResults.get? requestId = some result) ∨
      ∃ message, token = .done (.error message) ∧
        s.failedRequests.get? requestId = some message := by
  simp only [answers, List.mem_append, List.mem_map, Prod.mk.injEq, Dict.get?_eq_some]
  constructor
  · rintro (⟨⟨key, result⟩, hm, rfl, rfl⟩ | ⟨⟨key, message⟩, hm, rfl, rfl⟩)
    · exact .inl ⟨_, rfl, hm⟩
    · exact .inr ⟨_, rfl, hm⟩
  · rintro (⟨result, rfl, hm⟩ | ⟨message, rfl, hm⟩)
    · exact .inl ⟨(requestId, result), hm, rfl, rfl⟩
    · exact .inr ⟨(requestId, message), hm, rfl, rfl⟩

theorem mem_holdings {item : String × Token ρ δ ω} : item ∈ s.holdings ↔
    item ∈ s.queued ∨ item ∈ s.control.inHand ∨ item ∈ s.submitted ∨ item ∈ s.postprocessed ∨
      item ∈ s.answers := by
  simp only [holdings, Multiset.mem_add, Multiset.mem_coe, or_assoc]

/-- What the thread holds is nowhere else. -/
theorem inHand_only (h : Single s.holdings) (hc : s.control.inHand = {(requestId, token)}) :
    (∀ t, (requestId, t) ∉ s.submitted) ∧ s.completedResults.get? requestId = none ∧
      s.failedRequests.get? requestId = none := by
  have hsplit : s.holdings =
      {(requestId, token)} + (↑s.queued + ↑s.submitted + ↑s.postprocessed + ↑s.answers) := by
    rw [holdings, hc]
    abel
  rw [hsplit] at h
  have hnot : ∀ t, (requestId, t) ∉ s.submitted ∧ (requestId, t) ∉ s.answers := fun t => by
    have := @Single.not_mem _ _ _ _ t _ h
    simp only [Multiset.mem_add, Multiset.mem_coe, not_or] at this
    exact ⟨this.1.1.2, this.2⟩
  refine ⟨fun t => (hnot t).1, ?_, ?_⟩
  · cases hr : s.completedResults.get? requestId with
    | none => rfl
    | some result => exact absurd (mem_answers.mpr (.inl ⟨result, rfl, hr⟩)) (hnot _).2
  · cases hr : s.failedRequests.get? requestId with
    | none => rfl
    | some message => exact absurd (mem_answers.mpr (.inr ⟨message, rfl, hr⟩)) (hnot _).2

-- ---------------------------------------------------------------------------
-- An id that is taken out of the maps
-- ---------------------------------------------------------------------------

theorem forget_le (s : AsyncOmniDiffusion ρ δ ω) (requestId : String) :
    (s.forget requestId).holdings ≤ s.holdings := by
  have hs : (s.forget requestId).submitted.Sublist s.submitted := by
    refine List.Sublist.map _ (List.Sublist.filter _ ?_)
    rw [forget, Dict.entries_erase]
    exact List.filter_sublist
  have ha : (s.forget requestId).answers.Sublist s.answers := by
    refine List.Sublist.append (List.Sublist.map _ ?_) (List.Sublist.map _ ?_)
    · rw [forget, Dict.entries_erase]
      exact List.filter_sublist
    · rw [forget, Dict.entries_erase]
      exact List.filter_sublist
  have hq : (s.forget requestId).queued = s.queued := rfl
  have hc : (s.forget requestId).control = s.control := rfl
  have hp : (s.forget requestId).postprocessed = s.postprocessed := rfl
  rw [holdings, holdings, hq, hc, hp]
  gcongr
  · exact Multiset.coe_le.mpr hs.subperm
  · exact Multiset.coe_le.mpr ha.subperm

theorem mem_forget_other {other : String} (h : other ≠ requestId) :
    (other, token) ∈ (s.forget requestId).holdings ↔ (other, token) ∈ s.holdings := by
  rw [mem_holdings, mem_holdings, mem_submitted, mem_submitted, mem_answers, mem_answers]
  simp only [forget, Dict.get?_erase_ne _ h.symm]
  rfl

theorem mem_forget_self : (requestId, token) ∈ (s.forget requestId).holdings ↔
    (requestId, token) ∈ s.queued ∨ (requestId, token) ∈ s.control.inHand ∨
      (requestId, token) ∈ s.postprocessed := by
  rw [mem_holdings, mem_submitted, mem_answers]
  simp only [forget, Dict.get?_erase_self]
  simp [queued, postprocessed]

-- ---------------------------------------------------------------------------
-- Steps that move a token and do not change it
-- ---------------------------------------------------------------------------

theorem coe_cons (item : α) (l : List α) : ((item :: l : List α) : Multiset α) = {item} + ↑l := rfl

theorem holdings_next (hc : s.control.inHand = 0) (hf : s.control.fetched = none)
    {control : Control ρ δ ω} (hc' : control.inHand = 0) (hf' : control.fetched = none) :
    ({ s with control } : AsyncOmniDiffusion ρ δ ω).holdings = s.holdings := by
  simp only [holdings, queued, submitted, postprocessed, answers, hc, hf, hc', hf']

theorem holdings_drain (hc : s.control = .draining)
    (ho : s.postprocessOutQueue = (requestId, outcome) :: rest) :
    ({ s with postprocessOutQueue := rest, control := .drained requestId outcome } :
      AsyncOmniDiffusion ρ δ ω).holdings = s.holdings := by
  simp only [holdings, queued, submitted, postprocessed, answers, hc, ho, Control.inHand,
    Control.fetched, List.map_cons, ← Multiset.coe_add, coe_cons]
  abel

theorem holdings_taken (hc : s.control = .submitting) (ho : s.submitQueue = request :: rest) :
    ({ s with submitQueue := rest, control := .taken request } :
      AsyncOmniDiffusion ρ δ ω).holdings = s.holdings := by
  simp only [holdings, queued, submitted, postprocessed, answers, hc, ho, Control.inHand,
    Control.fetched, List.map_cons, coe_cons]
  abel

theorem holdings_passing (hc : s.control = .taken request) :
    ({ s with control := .passing request } : AsyncOmniDiffusion ρ δ ω).holdings =
      s.holdings := by
  simp only [holdings, queued, submitted, postprocessed, answers, hc, Control.inHand,
    Control.fetched]

theorem holdings_result (hc : s.control.inHand = {(requestId, .done (.ok result))})
    (hf : s.control.fetched = none) (hr : s.completedResults.get? requestId = none)
    {control : Control ρ δ ω} (hc' : control.inHand = 0) (hf' : control.fetched = none) :
    ({ s with completedResults := s.completedResults.set requestId result, control } :
      AsyncOmniDiffusion ρ δ ω).holdings = s.holdings := by
  simp only [holdings, queued, submitted, postprocessed, answers, hc, hf, hc', hf',
    Dict.entries_set_of_none hr, List.map_append, List.map_singleton, ← Multiset.coe_add,
    Multiset.coe_singleton]
  abel

theorem entries_fetched (submissions : Dict String String) (requestId : String) :
    ((submissions.erase requestId).entries.filter fun entry => none != some entry.1) =
      submissions.entries.filter fun entry => some requestId != some entry.1 := by
  rw [Dict.entries_erase, List.filter_filter]
  refine List.filter_congr fun entry _ => ?_
  by_cases h : entry.1 = requestId
  · simp [h]
  · simp [h, Ne.symm h, bne]

theorem holdings_failed (hc : s.control.inHand = {(requestId, .done (.error message))})
    (hr : s.failedRequests.get? requestId = none) {control : Control ρ δ ω}
    (hc' : control.inHand = 0) (hf' : control.fetched = none)
    {submissions : Dict String String}
    (hs : (submissions.entries.filter fun entry => none != some entry.1) =
      s.submissionIds.entries.filter fun entry => s.control.fetched != some entry.1) :
    ({ s with
      submissionIds := submissions
      failedRequests := s.failedRequests.set requestId message, control } :
      AsyncOmniDiffusion ρ δ ω).holdings = s.holdings := by
  simp only [holdings, queued, submitted, postprocessed, answers, hc, hc', hf', hs,
    Dict.entries_set_of_none hr, List.map_append, List.map_singleton, ← Multiset.coe_add,
    Multiset.coe_singleton]
  abel

theorem holdings_accepted (hc : s.control = .passed requestId submissionId)
    (hr : s.submissionIds.get? requestId = none) :
    ({ s with
      submissionIds := s.submissionIds.set requestId submissionId, control := .submitting } :
      AsyncOmniDiffusion ρ δ ω).holdings = s.holdings := by
  simp only [holdings, queued, submitted, postprocessed, answers, hc, Control.inHand,
    Control.fetched, Dict.entries_set_of_none hr, List.filter_append, List.map_append,
    ← Multiset.coe_add]
  simp
  abel

theorem holdings_fetched (hc : s.control = .collected requestId result inflight) :
    ({ s with
      submissionIds := s.submissionIds.erase requestId
      control := .enqueueing requestId result inflight } :
      AsyncOmniDiffusion ρ δ ω).holdings = s.holdings := by
  simp only [holdings, queued, submitted, postprocessed, answers, hc, Control.inHand,
    Control.fetched, entries_fetched]

theorem holdings_enqueued (hc : s.control = .enqueueing requestId result inflight) :
    ({ s with
      postprocessInQueue := s.postprocessInQueue ++ [(requestId, result)]
      control := .enqueued requestId inflight } :
      AsyncOmniDiffusion ρ δ ω).holdings = s.holdings := by
  simp only [holdings, queued, submitted, postprocessed, answers, hc, Control.inHand,
    Control.fetched, List.map_append, List.map_singleton, ← Multiset.coe_add,
    Multiset.coe_singleton]
  abel

theorem holdings_take (hq : s.postprocessInQueue = item :: rest) :
    ({ s with postprocessInQueue := rest, postprocessing := s.postprocessing ++ [item] } :
      AsyncOmniDiffusion ρ δ ω).holdings = s.holdings := by
  simp only [holdings, queued, submitted, postprocessed, answers, hq, List.map_append,
    List.map_cons, List.map_nil, List.cons_append, ← Multiset.coe_add, coe_cons,
    Multiset.coe_nil]
  abel

end AsyncOmniDiffusion

end GfDit.FrontEnd
