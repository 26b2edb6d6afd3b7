import GfDit.FrontEnd.Holdings
import GfDit.Lib.Unique

/-!
# Steps that change a token

A call of the engine or of a process turns the token of its request into the
next one, and the thread drops the token of an id that is marked as cancelled.
-/

namespace GfDit.FrontEnd

open Custody

namespace AsyncOmniDiffusion

variable {ρ δ ω : Type} {s : AsyncOmniDiffusion ρ δ ω} {requestId : String}
  {token : Token ρ δ ω} {new : Option (Token ρ δ ω)} {control : Control ρ δ ω}

theorem handover_hand (hc : s.control.inHand = {(requestId, token)})
    (hf : s.control.fetched = none) (hc' : control.inHand = items requestId new)
    (hf' : control.fetched = none) :
    Handover requestId (some token) new s.holdings
      ({ s with control } : AsyncOmniDiffusion ρ δ ω).holdings := by
  refine ⟨↑s.queued + ↑s.submitted + ↑s.postprocessed + ↑s.answers, ?_, ?_, fun h => by cases h⟩
  · rw [holdings, hc, items]
    abel
  · simp only [holdings, queued, submitted, postprocessed, answers, hc', hf, hf']
    abel

/-- The entry of a submission is one token. -/
theorem entries_split {submissions : Dict String String}
    (h : submissions.get? requestId = some submissionId) :
    (((submissions.entries.filter fun entry => none != some entry.1).map
        Token.ofEntry : List (String × Token ρ δ ω)) : Multiset (String × Token ρ δ ω)) =
      {(requestId, .running)} +
        ↑((submissions.entries.filter fun entry => some requestId != some entry.1).map
          Token.ofEntry : List (String × Token ρ δ ω)) := by
  have hone : (submissions.entries.filter fun entry => entry.1 == requestId) =
      [(requestId, submissionId)] := by
    have hm := submissions.get?_eq_some.mp h
    refine List.filter_eq_singleton (List.Nodup.of_map _ submissions.nodup) hm (by simp) ?_
    rintro ⟨key, value⟩ hv hk
    have hk : key = requestId := by simpa using hk
    subst hk
    rw [submissions.get?_eq_some.mpr hv] at h
    rw [Option.some.inj h]
  have hrest : (submissions.entries.filter fun entry => some requestId != some entry.1) =
      submissions.entries.filter fun entry => !(entry.1 == requestId) := by
    refine List.filter_congr fun entry _ => ?_
    by_cases hk : entry.1 = requestId
    · simp [hk]
    · simp [hk, Ne.symm hk, bne]
  have hperm := (List.filter_append_perm (fun entry => entry.1 == requestId)
    submissions.entries).map (Token.ofEntry : _ → String × Token ρ δ ω)
  rw [hone] at hperm
  rw [hrest, show (submissions.entries.filter fun entry => none != some entry.1) =
    submissions.entries by simp]
  exact (Multiset.coe_eq_coe.mpr hperm).symm

theorem entries_absent {submissions : Dict String String}
    (h : submissions.get? requestId = none) :
    (submissions.entries.filter fun entry => some requestId != some entry.1) =
      submissions.entries.filter fun entry => none != some entry.1 := by
  refine List.filter_congr fun entry hm => ?_
  have hk : requestId ≠ entry.1 := fun hk =>
    (submissions.get?_eq_none.mp h) (hk ▸ List.mem_map_of_mem hm)
  simp [hk, bne]

/-- The engine has an answer, which the thread now holds instead of the entry. -/
theorem handover_fetched (hc : s.control.inHand = 0) (hf : s.control.fetched = none)
    (hc' : control.inHand = {(requestId, token)}) (hf' : control.fetched = some requestId)
    (hfresh : s.submissionIds.get? requestId = none → ∀ t, (requestId, t) ∉ s.holdings) :
    ∃ old, Handover requestId old (some token) s.holdings
      ({ s with control } : AsyncOmniDiffusion ρ δ ω).holdings := by
  cases hk : s.submissionIds.get? requestId with
  | none =>
    refine ⟨none, s.holdings, (zero_add _).symm, ?_, fun _ => hfresh hk⟩
    simp only [holdings, queued, submitted, postprocessed, answers, hc, hf, hc', hf', items,
      entries_absent hk]
    abel
  | some submissionId =>
    refine ⟨some .running, Multiset.ofList s.queued +
      Multiset.ofList ((s.submissionIds.entries.filter fun entry =>
        some requestId != some entry.1).map Token.ofEntry) +
      Multiset.ofList s.postprocessed + Multiset.ofList s.answers, ?_, ?_, fun h => by cases h⟩
    · simp only [holdings, queued, submitted, postprocessed, answers, hc, hf, items,
        entries_split hk]
      abel
    · simp only [holdings, queued, submitted, postprocessed, answers, hc', hf', items]
      abel

theorem handover_dropped (hc : s.control.inHand = 0) (hf : s.control.fetched = none)
    (hc' : control.inHand = 0) (hf' : control.fetched = none) :
    let next : AsyncOmniDiffusion ρ δ ω :=
      { s with submissionIds := s.submissionIds.erase requestId, control }
    next.holdings = s.holdings ∨
      Handover requestId (some .running) none s.holdings next.holdings := by
  cases hk : s.submissionIds.get? requestId with
  | none =>
    left
    simp only [holdings, queued, submitted, postprocessed, answers, hc, hf, hc', hf',
      entries_fetched, entries_absent hk]
  | some submissionId =>
    right
    refine ⟨({ s with submissionIds := s.submissionIds.erase requestId, control } :
      AsyncOmniDiffusion ρ δ ω).holdings, ?_, (zero_add _).symm, fun h => by cases h⟩
    simp only [holdings, queued, submitted, postprocessed, answers, hc, hf, hc', hf', items,
      entries_fetched, entries_split hk]
    abel

theorem handover_postprocess {item : String × CollectedDiffusionResult ρ δ}
    (h : s.postprocessing[place]? = some item) (outcome : Except String ω) :
    Handover item.1 (some (.collected item.2)) (some (.done outcome)) s.holdings
      ({ s with
        postprocessing := s.postprocessing.eraseIdx place
        postprocessOutQueue := s.postprocessOutQueue ++ [(item.1, outcome)] } :
        AsyncOmniDiffusion ρ δ ω).holdings := by
  obtain ⟨hlt, rfl⟩ := List.getElem?_eq_some_iff.mp h
  have hsplit : Multiset.ofList (s.postprocessing.map (@Token.ofItem ρ δ ω)) =
      {Token.ofItem s.postprocessing[place]} +
        Multiset.ofList ((s.postprocessing.eraseIdx place).map Token.ofItem) :=
    (Multiset.coe_eq_coe.mpr ((List.getElem_cons_eraseIdx_perm hlt).map _)).symm
  refine ⟨Multiset.ofList s.queued + s.control.inHand + Multiset.ofList s.submitted +
    (Multiset.ofList (s.postprocessInQueue.map Token.ofItem) +
      Multiset.ofList ((s.postprocessing.eraseIdx place).map Token.ofItem) +
      Multiset.ofList (s.postprocessOutQueue.map Token.ofOutcome)) + Multiset.ofList s.answers,
    ?_, ?_, fun h => by cases h⟩
  · simp only [holdings, queued, submitted, postprocessed, answers, items, List.map_append,
      ← Multiset.coe_add, hsplit]
    abel
  · simp only [holdings, queued, submitted, postprocessed, answers, items, List.map_append,
      ← Multiset.coe_add, List.map_singleton, Multiset.coe_singleton]
    abel

theorem handover_submit (request : OmniDiffusionRequest ρ)
    (hfresh : ∀ t, (request.requestId, t) ∉ s.holdings) :
    Handover request.requestId none (some (.waiting request)) s.holdings
      ({ s with submitQueue := s.submitQueue ++ [request] } :
        AsyncOmniDiffusion ρ δ ω).holdings := by
  refine ⟨s.holdings, (zero_add _).symm, ?_, fun _ => hfresh⟩
  simp only [holdings, queued, submitted, postprocessed, answers, items, List.map_append,
    ← Multiset.coe_add, List.map_singleton, Multiset.coe_singleton]
  abel

end AsyncOmniDiffusion

end GfDit.FrontEnd
