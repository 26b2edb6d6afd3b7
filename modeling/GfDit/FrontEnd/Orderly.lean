import GfDit.FrontEnd.Books

/-!
# What every step keeps

The books, the answers on file and the round of the control thread, kept by
every step, as long as no id is submitted while it is marked as cancelled.
-/

namespace GfDit.FrontEnd

open Custody

def Control.Named {ρ δ ω : Type} : Control ρ δ ω → Prop
  | .passed requestId submissionId => submissionId = requestId
  | _ => True

namespace AsyncOmniDiffusion

variable {ρ δ ω : Type}

structure Filed (s : AsyncOmniDiffusion ρ δ ω) : Prop where
  unanswered : requestId ∈ s.cancelledRequests → s.completedResults.get? requestId = none
  seen : s.answering = some (requestId, outcome) → s.answer requestId = some outcome

structure Rounds (s : AsyncOmniDiffusion ρ δ ω) : Prop where
  nodup : s.control.round.Nodup
  named : s.submissionIds.get? requestId = some submissionId → submissionId = requestId
  passed : s.control.Named
  known : (requestId, submissionId) ∈ s.control.ahead →
    submissionId = requestId ∧ (s.pendingRequests.get? requestId).isSome = true
  gone : (requestId, submissionId) ∈ s.control.ahead → s.submissionIds.get? requestId = none →
    requestId ∈ s.cancelledRequests ∧ ∀ t, (requestId, t) ∉ s.holdings

structure Orderly (s : AsyncOmniDiffusion ρ δ ω) : Prop where
  books : Books s
  filed : Filed s
  rounds : Rounds s

variable {s s' : AsyncOmniDiffusion ρ δ ω} {requestId : String} {token : Token ρ δ ω}

-- ---------------------------------------------------------------------------
-- The parts
-- ---------------------------------------------------------------------------

theorem Filed.keep (h : Filed s) (ha : s'.answering = s.answering)
    (hc : s'.cancelledRequests ⊆ s.cancelledRequests)
    (hr : s'.completedResults = s.completedResults)
    (he : s'.failedRequests = s.failedRequests) : Filed s' where
  unanswered hm := hr ▸ h.unanswered (hc hm)
  seen hs := by
    rw [answer, hr, he]
    exact h.seen (ha ▸ hs)

theorem answer_none (hr : s.completedResults.get? requestId = none)
    (he : s.failedRequests.get? requestId = none) : s.answer requestId = none := by
  rw [answer, he]
  simp [hr]

/-- A coroutine has not seen an answer that is filed only now. -/
theorem Filed.other {other : String} (h : Filed s) (hr : s.completedResults.get? requestId = none)
    (he : s.failedRequests.get? requestId = none) (hs : s.answering = some (other, outcome)) :
    requestId ≠ other := by
  rintro rfl
  have := h.seen hs
  rw [answer_none hr he] at this
  cases this

theorem Filed.fail (h : Filed s) (ha : s'.answering = s.answering)
    (hc : s'.cancelledRequests ⊆ s.cancelledRequests)
    (hr : s'.completedResults = s.completedResults)
    (he : s'.failedRequests = s.failedRequests.set requestId message)
    (hrn : s.completedResults.get? requestId = none)
    (hen : s.failedRequests.get? requestId = none) : Filed s' where
  unanswered hm := hr ▸ h.unanswered (hc hm)
  seen hs := by
    rw [ha] at hs
    have hne := h.other hrn hen hs
    simp only [answer, hr, he, Dict.get?_set_ne _ hne]
    exact h.seen hs

theorem Filed.complete (h : Filed s) (ha : s'.answering = s.answering)
    (hc : s'.cancelledRequests ⊆ s.cancelledRequests) (hm : requestId ∉ s.cancelledRequests)
    (hr : s'.completedResults = s.completedResults.set requestId result)
    (he : s'.failedRequests = s.failedRequests)
    (hrn : s.completedResults.get? requestId = none)
    (hen : s.failedRequests.get? requestId = none) : Filed s' where
  unanswered {other} hmem := by
    have hne : requestId ≠ other := fun heq => hm (heq ▸ hc hmem)
    rw [hr, Dict.get?_set_ne _ hne]
    exact h.unanswered (hc hmem)
  seen hs := by
    rw [ha] at hs
    have hne := h.other hrn hen hs
    simp only [answer, hr, he, Dict.get?_set_ne _ hne]
    exact h.seen hs

theorem Rounds.later (h : Rounds s) (hr : s'.control.round.Sublist s.control.round)
    (ha : s'.control.ahead ⊆ s.control.ahead)
    (hn : ∀ id submissionId, s'.submissionIds.get? id = some submissionId → submissionId = id)
    (hp : s'.control.Named)
    (hk : ∀ item ∈ s'.control.ahead,
      s'.submissionIds.get? item.1 = s.submissionIds.get? item.1 ∧
        (s'.pendingRequests.get? item.1).isSome = (s.pendingRequests.get? item.1).isSome ∧
          (item.1 ∈ s.cancelledRequests → item.1 ∈ s'.cancelledRequests))
    (hh : ∀ item ∈ s'.control.ahead, ∀ t, (item.1, t) ∈ s'.holdings →
      ∃ t, (item.1, t) ∈ s.holdings) : Rounds s' where
  nodup := h.nodup.sublist hr
  named := hn _ _
  passed := hp
  known hm := ⟨(h.known (ha hm)).1, (hk _ hm).2.1.trans (h.known (ha hm)).2⟩
  gone hm hnone := by
    obtain ⟨hc, hno⟩ := h.gone (ha hm) ((hk _ hm).1 ▸ hnone)
    refine ⟨(hk _ hm).2.2 hc, fun t ht => ?_⟩
    obtain ⟨t, ht⟩ := hh _ hm t ht
    exact hno t ht

theorem Rounds.outside (h : Rounds s) (hr : s'.control.round = [])
    (ha : s'.control.ahead = []) (hn : s'.submissionIds = s.submissionIds)
    (hp : s'.control.Named) : Rounds s' :=
  h.later (hr ▸ List.nil_sublist _) (ha ▸ List.nil_subset _) (fun _ _ hs => h.named (hn ▸ hs)) hp
    (fun _ hm => absurd (ha ▸ hm) List.not_mem_nil)
    (fun _ hm => absurd (ha ▸ hm) List.not_mem_nil)

end AsyncOmniDiffusion

end GfDit.FrontEnd
