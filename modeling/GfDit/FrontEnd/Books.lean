import GfDit.FrontEnd.Handovers
import GfDit.Lib.History

/-!
# The books of the front end

The history says which request is current under an id: the one submitted last,
unless the id was aborted or answered since. A current request is pending and
has exactly one token, which belongs to it; an id that is marked as cancelled
may have one late token; any other id has none.
-/

namespace GfDit.FrontEnd

open Custody

variable {ρ δ ω : Type}

def current (requestId : String) : List (Event ρ ω) → Option (OmniDiffusionRequest ρ)
  | [] => none
  | .submitted request :: log =>
    if request.requestId = requestId then some request else current requestId log
  | .aborted id :: log | .returned id _ :: log =>
    if id = requestId then none else current requestId log
  | .passed _ :: log | .produced _ _ :: log => current requestId log

def Token.Belongs (s : AsyncOmniDiffusion ρ δ ω) (request : OmniDiffusionRequest ρ) :
    Token ρ δ ω → Prop
  | .waiting r => r = request
  | .running => s.pendingRequests.get? request.requestId = some request
  | .collected result => result.request = request
  | .done outcome => Event.produced request outcome ∈ s.log

namespace AsyncOmniDiffusion

def Owned (s : AsyncOmniDiffusion ρ δ ω) (requestId : String) (token : Token ρ δ ω) : Prop :=
  ∃ request, request.requestId = requestId ∧ Event.submitted request ∈ s.log ∧
    token.Belongs s request ∧
      (current requestId s.log = some request ∨ requestId ∈ s.cancelledRequests)

structure Books (s : AsyncOmniDiffusion ρ δ ω) : Prop where
  single : Single s.holdings
  unmarked : current requestId s.log = some request → requestId ∉ s.cancelledRequests
  held : current requestId s.log = some request → ∃ token, (requestId, token) ∈ s.holdings
  owned : (requestId, token) ∈ s.holdings → s.Owned requestId token
  pending : ∀ requestId,
    (s.pendingSubmissions.get? requestId).isSome = (current requestId s.log).isSome
  futures : ∀ requestId,
    s.submitFutures.contains requestId = s.pendingSubmissions.contains requestId
  engine : s.pendingRequests.get? requestId = some request →
    request.requestId = requestId ∧ Event.submitted request ∈ s.log

/-- What only a coroutine changes. -/
structure Frame (s s' : AsyncOmniDiffusion ρ δ ω) : Prop where
  pending : s'.pendingSubmissions = s.pendingSubmissions
  futures : s'.submitFutures = s.submitFutures
  log : s.log ⊆ s'.log
  current : ∀ requestId, current requestId s'.log = current requestId s.log

variable {s s' : AsyncOmniDiffusion ρ δ ω} {requestId : String} {token : Token ρ δ ω}
  {old new : Option (Token ρ δ ω)}

theorem Frame.of_log (hp : s'.pendingSubmissions = s.pendingSubmissions)
    (hf : s'.submitFutures = s.submitFutures) (hl : s'.log = s.log) : Frame s s' :=
  ⟨hp, hf, hl ▸ fun _ h => h, fun _ => by rw [hl]⟩

theorem Owned.mono (h : s.Owned requestId token) (hl : s.log ⊆ s'.log)
    (hcur : current requestId s'.log = current requestId s.log)
    (hc : requestId ∈ s.cancelledRequests → requestId ∈ s'.cancelledRequests)
    (he : s'.pendingRequests.get? requestId = s.pendingRequests.get? requestId) :
    s'.Owned requestId token := by
  obtain ⟨request, rfl, hsub, hb, hown⟩ := h
  refine ⟨request, rfl, hl hsub, ?_, hcur ▸ hown.imp_right hc⟩
  cases token with
  | waiting _ | collected _ => exact hb
  | running => exact he.trans hb
  | done outcome => exact hl hb

theorem Books.keep (h : Books s) (hf : Frame s s') (hh : s'.holdings = s.holdings)
    (hc : s'.cancelledRequests = s.cancelledRequests)
    (he : s'.pendingRequests = s.pendingRequests) : Books s' where
  single := hh ▸ h.single
  unmarked hcur := hc ▸ h.unmarked (hf.current _ ▸ hcur)
  held hcur := hh ▸ h.held (hf.current _ ▸ hcur)
  owned ht := (h.owned (hh ▸ ht)).mono hf.log (hf.current _) (fun hm => hc ▸ hm) (by rw [he])
  pending id := by rw [hf.pending, hf.current, h.pending]
  futures id := by rw [hf.pending, hf.futures, h.futures]
  engine hr := (h.engine (he ▸ hr)).imp_right fun hsub => hf.log hsub

/-- A token is handed over, or dropped from an id that is marked. -/
theorem Books.handover (h : Books s) (hf : Frame s s')
    (hh : Handover requestId old new s.holdings s'.holdings)
    (hc : ∀ id, id ∈ s'.cancelledRequests → id ∈ s.cancelledRequests)
    (hkept : ∀ id, id ≠ requestId → id ∈ s.cancelledRequests → id ∈ s'.cancelledRequests)
    (hother : ∀ id, id ≠ requestId → s'.pendingRequests.get? id = s.pendingRequests.get? id)
    (hengine : ∀ request, s'.pendingRequests.get? requestId = some request →
      request.requestId = requestId ∧ Event.submitted request ∈ s'.log)
    (hnew : new.elim True (s'.Owned requestId))
    (hgone : new.isSome = true ∨ requestId ∈ s.cancelledRequests) : Books s' where
  single := hh.single h.single
  unmarked hcur hm := h.unmarked (hf.current _ ▸ hcur) (hc _ hm)
  held {id _} hcur := by
    obtain ⟨t, ht⟩ := h.held (hf.current _ ▸ hcur)
    by_cases hid : id = requestId
    · subst hid
      cases new with
      | none =>
        exact absurd (hgone.resolve_left Bool.false_ne_true) (h.unmarked (hf.current _ ▸ hcur))
      | some t => exact ⟨t, (hh.mem_self h.single).mpr rfl⟩
    · exact ⟨t, (hh.mem_other hid).mpr ht⟩
  owned {id t} ht := by
    by_cases hid : id = requestId
    · subst hid
      rw [(hh.mem_self h.single).mp ht] at hnew
      exact hnew
    · exact (h.owned ((hh.mem_other hid).mp ht)).mono hf.log (hf.current _) (hkept id hid)
        (hother id hid)
  pending id := by rw [hf.pending, hf.current, h.pending]
  futures id := by rw [hf.pending, hf.futures, h.futures]
  engine {id request} hr := by
    by_cases hid : id = requestId
    · exact hid ▸ hengine request (hid ▸ hr)
    · exact (h.engine (hother id hid ▸ hr)).imp_right fun hsub => hf.log hsub

/-- An id ends: what is left of it is late, the others stay as they are. -/
theorem Books.settle (h : Books s) (hh : s'.holdings = (s.forget requestId).holdings)
    (hl : s.log ⊆ s'.log)
    (hcur : ∀ id, current id s'.log = if requestId = id then none else current id s.log)
    (hc : ∀ id, id ≠ requestId → (id ∈ s'.cancelledRequests ↔ id ∈ s.cancelledRequests))
    (hp : s'.pendingSubmissions = s.pendingSubmissions.erase requestId)
    (hf : s'.submitFutures = s.submitFutures.erase requestId)
    (he : s'.pendingRequests = s.pendingRequests)
    (hown : ∀ t, (requestId, t) ∈ s'.holdings → s'.Owned requestId t) : Books s' := by
  have hmem {id : String} {t : Token ρ δ ω} (hne : id ≠ requestId) :
      (id, t) ∈ s'.holdings ↔ (id, t) ∈ s.holdings := by
    rw [hh]
    exact mem_forget_other hne
  have hother {id : String} (hne : id ≠ requestId) : current id s'.log = current id s.log := by
    rw [hcur, if_neg hne.symm]
  have hne {id : String} {request : OmniDiffusionRequest ρ}
      (hsome : current id s'.log = some request) : id ≠ requestId := by
    rintro rfl
    rw [hcur, if_pos rfl] at hsome
    cases hsome
  refine ⟨h.single.of_le (hh ▸ forget_le s requestId), fun hsome hm => ?_, fun hsome => ?_,
    fun {id t} ht => ?_, fun id => ?_, fun id => ?_, fun hr => ?_⟩
  · exact h.unmarked (hother (hne hsome) ▸ hsome) ((hc _ (hne hsome)).mp hm)
  · obtain ⟨t, ht⟩ := h.held (hother (hne hsome) ▸ hsome)
    exact ⟨t, (hmem (hne hsome)).mpr ht⟩
  · by_cases hid : id = requestId
    · subst hid
      exact hown t ht
    · exact (h.owned ((hmem hid).mp ht)).mono hl (hother hid) (hc id hid).mpr (by rw [he])
  · rw [hp, hcur, Dict.get?_erase]
    split
    · rfl
    · exact h.pending id
  · simp only [hp, hf, Dict.contains, Dict.get?_erase]
    split
    · rfl
    · exact h.futures id
  · exact (h.engine (he ▸ hr)).imp_right fun hsub => hl hsub

end AsyncOmniDiffusion

end GfDit.FrontEnd
