import GfDit.FrontEnd.Answers

/-!
# Ids that are lost

An abort marks its id as cancelled so that the thread drops what is still on
its way. The mark goes when a late result of the id comes back. If none is on
its way, the mark stays: a later request under this id is dropped before it
reaches the engine, and nobody is told.
-/

namespace GfDit.FrontEnd

def Control.past {ρ δ ω : Type} : Control ρ δ ω → Option String
  | .drained requestId _ | .passed requestId _ | .refused requestId _
  | .collecting requestId _ _ | .lost requestId _ _ | .collected requestId _ _
  | .enqueueing requestId _ _ | .undelivered requestId _ _ => some requestId
  | .passing request => some request.requestId
  | .draining | .submitting | .taken _ | .snapshot | .polling _ | .enqueued .. => none

namespace AsyncOmniDiffusion

variable {ρ δ ω : Type}

structure Held (s : AsyncOmniDiffusion ρ δ ω) (requestId : String) : Prop where
  hand : s.control.past ≠ some requestId
  items : ∀ item ∈ s.postprocessInQueue ++ s.postprocessing, item.1 ≠ requestId
  results : ∀ item ∈ s.postprocessOutQueue, item.1 ≠ requestId

/-- The id is marked, and nothing is there that would take the mark away or
be an answer. -/
structure Barred (s : AsyncOmniDiffusion ρ δ ω) (requestId : String) : Prop where
  marked : requestId ∈ s.cancelledRequests
  held : Held s requestId
  unanswered : s.answer requestId = none
  unseen : ∀ outcome, s.answering ≠ some (requestId, outcome)

variable {s t u : AsyncOmniDiffusion ρ δ ω} {requestId other : String} {action : Action ρ δ ω}

theorem answer_failed (hne : other ≠ requestId) (message : String) :
    ({ s with failedRequests := s.failedRequests.set other message } :
      AsyncOmniDiffusion ρ δ ω).answer requestId = s.answer requestId := by
  simp only [answer, Dict.get?_set_ne _ hne]

theorem answer_completed (hne : other ≠ requestId) (result : ω) :
    ({ s with completedResults := s.completedResults.set other result } :
      AsyncOmniDiffusion ρ δ ω).answer requestId = s.answer requestId := by
  simp only [answer, Dict.get?_set_ne _ hne]

theorem answer_forget (hne : other ≠ requestId) :
    (s.forget other).answer requestId = s.answer requestId := by
  simp only [answer, forget, Dict.get?_erase_ne _ hne]

theorem Held.keep (h : Held s requestId) (hc : t.control = s.control)
    (hin : t.postprocessInQueue = s.postprocessInQueue) (hp : t.postprocessing = s.postprocessing)
    (hout : t.postprocessOutQueue = s.postprocessOutQueue) : Held t requestId :=
  ⟨hc ▸ h.hand, by rw [hin, hp]; exact h.items, hout ▸ h.results⟩

theorem Barred.next (h : Barred s requestId) (hm : requestId ∈ t.cancelledRequests)
    (hhand : t.control.past ≠ some requestId)
    (hin : t.postprocessInQueue = s.postprocessInQueue) (hp : t.postprocessing = s.postprocessing)
    (hout : ∀ item ∈ t.postprocessOutQueue, item ∈ s.postprocessOutQueue)
    (ha : t.answer requestId = s.answer requestId) (hs : t.answering = s.answering) :
    Barred t requestId where
  marked := hm
  held := ⟨hhand, by rw [hin, hp]; exact h.held.items,
    fun item hi => h.held.results item (hout item hi)⟩
  unanswered := ha.trans h.unanswered
  unseen outcome := by
    rw [hs]
    exact h.unseen outcome

theorem Barred.takeResult (h : Barred s requestId) (hne : other ≠ requestId)
    (outcome : Except String ω) : Barred { s.takeResult other outcome with control := .draining }
      requestId := by
  unfold AsyncOmniDiffusion.takeResult
  split
  · exact h.next (Finset.mem_erase.mpr ⟨hne.symm, h.marked⟩) (by simp [Control.past]) rfl rfl
      (fun _ hi => hi) rfl rfl
  · cases outcome with
    | error message =>
      exact h.next h.marked (by simp [Control.past]) rfl rfl (fun _ hi => hi)
        (answer_failed (s := s) hne message) rfl
    | ok result =>
      exact h.next h.marked (by simp [Control.past]) rfl rfl (fun _ hi => hi)
        (answer_completed (s := s) hne result) rfl

theorem Barred.control (h : Barred s requestId) (reply : Reply δ) :
    Barred (s.controlStep reply) requestId := by
  have hhand := h.held.hand
  cases hc : s.control with
  | draining =>
    cases ho : s.postprocessOutQueue with
    | nil =>
      simp only [controlStep, hc, ho]
      exact h.next h.marked (by simp [Control.past]) rfl rfl (fun _ hi => ho ▸ hi) rfl rfl
    | cons item rest =>
      have hne : item.1 ≠ requestId := h.held.results item (ho ▸ List.mem_cons_self ..)
      simp only [controlStep, hc, ho]
      exact h.next h.marked (by simp [Control.past, hne]) rfl rfl
        (fun _ hi => ho ▸ List.mem_cons_of_mem _ hi) rfl rfl
  | drained other outcome =>
    have hne : other ≠ requestId := by simpa [hc, Control.past] using hhand
    simp only [controlStep, hc]
    exact h.takeResult hne outcome
  | submitting =>
    simp only [controlStep, hc]
    split
    · exact h.next h.marked (by simp [Control.past]) rfl rfl (fun _ hi => hi) rfl rfl
    · exact h.next h.marked (by simp [Control.past]) rfl rfl (fun _ hi => hi) rfl rfl
  | taken request =>
    simp only [controlStep, hc]
    split
    · exact h.next h.marked (by simp [Control.past]) rfl rfl (fun _ hi => hi) rfl rfl
    next hm =>
      have hne : request.requestId ≠ requestId := fun heq => hm (heq ▸ h.marked)
      exact h.next h.marked (by simp [Control.past, hne]) rfl rfl (fun _ hi => hi) rfl rfl
  | passing request =>
    have hne : request.requestId ≠ requestId := by simpa [hc, Control.past] using hhand
    simp only [controlStep, hc]
    cases reply with
    | raised _ | timedOut | ready _ =>
      exact h.next h.marked (fun heq => hne (Option.some.inj heq)) rfl rfl (fun _ hi => hi) rfl rfl
  | passed other submissionId =>
    simp only [controlStep, hc]
    exact h.next h.marked (by simp [Control.past]) rfl rfl (fun _ hi => hi) rfl rfl
  | refused other message | lost other message inflight | undelivered other message inflight =>
    have hne : other ≠ requestId := by simpa [hc, Control.past] using hhand
    simp only [controlStep, hc]
    exact h.next h.marked (by simp [Control.past]) rfl rfl (fun _ hi => hi)
      (answer_failed (s := s) hne message) rfl
  | snapshot | enqueued other inflight =>
    simp only [controlStep, hc]
    exact h.next h.marked (by simp [Control.past]) rfl rfl (fun _ hi => hi) rfl rfl
  | polling inflight =>
    cases inflight with
    | nil =>
      simp only [controlStep, hc]
      exact h.next h.marked (by simp [Control.past]) rfl rfl (fun _ hi => hi) rfl rfl
    | cons item inflight =>
      simp only [controlStep, hc]
      split
      · exact h.next h.marked (by simp [Control.past]) rfl rfl (fun _ hi => hi) rfl rfl
      next hm =>
        have hne : item.1 ≠ requestId := fun heq => hm (heq ▸ h.marked)
        exact h.next h.marked (by simp [Control.past, hne]) rfl rfl (fun _ hi => hi) rfl rfl
  | collecting other submissionId inflight =>
    have hne : other ≠ requestId := by simpa [hc, Control.past] using hhand
    simp only [controlStep, hc, engineCollectRaw]
    split
    · exact h.next h.marked (by simp [Control.past, hne]) rfl rfl (fun _ hi => hi) rfl rfl
    · split
      · exact h.next h.marked (by simp [Control.past]) rfl rfl (fun _ hi => hi) rfl rfl
      · exact h.next h.marked (fun heq => hne (Option.some.inj heq)) rfl rfl (fun _ hi => hi)
          rfl rfl
      · exact h.next h.marked (by simp [Control.past, hne]) rfl rfl (fun _ hi => hi) rfl rfl
  | collected other result inflight =>
    have hne : other ≠ requestId := by simpa [hc, Control.past] using hhand
    simp only [controlStep, hc]
    exact h.next h.marked (by simp [Control.past, hne]) rfl rfl (fun _ hi => hi) rfl rfl
  | enqueueing other result inflight =>
    have hne : other ≠ requestId := by simpa [hc, Control.past] using hhand
    simp only [controlStep, hc]
    cases reply with
    | raised message =>
      exact h.next h.marked (fun heq => hne (Option.some.inj heq)) rfl rfl (fun _ hi => hi)
        rfl rfl
    | timedOut | ready _ =>
      refine ⟨h.marked, ⟨by simp [Control.past], fun item hi => ?_, h.held.results⟩,
        h.unanswered, h.unseen⟩
      have hold := h.held.items
      simp only [List.mem_append, List.mem_singleton] at hi hold
      obtain (hi | rfl) | hi := hi
      · exact hold item (.inl hi)
      · exact hne
      · exact hold item (.inr hi)

theorem Barred.step (h : Barred s requestId) (hs : Stepped s action t) : Barred t requestId := by
  cases hs with
  | submit hn hsub =>
    rw [AsyncOmniDiffusion.submit] at hsub
    split at hsub
    · cases hsub
    · obtain rfl := Except.ok.inj hsub
      exact ⟨h.marked, h.held.keep rfl rfl rfl rfl, h.unanswered, h.unseen⟩
  | @abort other hn =>
    refine ⟨Finset.mem_insert_of_mem h.marked, h.held.keep rfl rfl rfl rfl, ?_, h.unseen⟩
    by_cases hid : other = requestId
    · subst hid
      exact answer_none (Dict.get?_erase_self ..) (Dict.get?_erase_self ..)
    · exact (answer_forget (s := s) hid).trans h.unanswered
  | aside collects answering ha =>
    refine ⟨h.marked, h.held.keep rfl rfl rfl rfl, h.unanswered, fun outcome hseen => ?_⟩
    cases h.unanswered.symm.trans (ha _ _ hseen)
  | @finish other outcome hseen =>
    have hne : other ≠ requestId := fun heq => h.unseen outcome (heq ▸ hseen)
    exact ⟨Finset.mem_erase.mpr ⟨hne.symm, h.marked⟩, h.held.keep rfl rfl rfl rfl,
      (answer_forget (s := s) hne).trans h.unanswered, fun _ heq => by cases heq⟩
  | control reply => exact h.control reply
  | take hq =>
    refine ⟨h.marked, ⟨h.held.hand, fun item hi => h.held.items item ?_, h.held.results⟩,
      h.unanswered, h.unseen⟩
    rw [hq]
    simp only [List.mem_append, List.mem_cons, List.not_mem_nil, or_false] at hi ⊢
    tauto
  | @postprocess place item hp outcome =>
    have hmem := List.mem_of_getElem? hp
    refine ⟨h.marked, ⟨h.held.hand, fun other hi => h.held.items other ?_, fun other hi => ?_⟩,
      h.unanswered, h.unseen⟩
    · exact (List.mem_append.mp hi).elim (List.mem_append_left _)
        fun hi => List.mem_append_right _ (List.mem_of_mem_eraseIdx hi)
    · obtain hi | hi := List.mem_append.mp hi
      · exact h.held.results other hi
      · rw [List.mem_singleton.mp hi]
        exact h.held.items item (List.mem_append_right _ hmem)

theorem Barred.log (h : Barred s requestId) (hs : Stepped s action t) :
    ∃ entries, t.log = entries ++ s.log ∧ ∀ event ∈ entries,
      (∀ request, event = .passed request → request.requestId ≠ requestId) ∧
        ∀ outcome, event ≠ .returned requestId outcome := by
  cases hs with
  | submit hn hsub =>
    rw [AsyncOmniDiffusion.submit] at hsub
    split at hsub
    · cases hsub
    · obtain rfl := Except.ok.inj hsub
      exact ⟨[_], rfl, by simp⟩
  | abort hn => exact ⟨[_], rfl, by simp⟩
  | aside collects answering ha => exact ⟨[], rfl, by simp⟩
  | @finish other outcome hseen =>
    have hne : other ≠ requestId := fun heq => h.unseen outcome (heq ▸ hseen)
    exact ⟨[_], rfl, by simp [hne]⟩
  | control reply =>
    obtain ⟨entries, hl, hentries⟩ := (continues_control s reply).log
    refine ⟨entries, hl, fun event hm => ?_⟩
    obtain ⟨request, rfl, hc⟩ | ⟨request, outcome, rfl⟩ := hentries event hm
    · have hne : request.requestId ≠ requestId := by
        simpa [hc, Control.past] using h.held.hand
      exact ⟨fun r heq => Event.passed.inj heq ▸ hne, fun _ heq => by cases heq⟩
    · exact ⟨fun _ heq => (by cases heq), fun _ heq => by cases heq⟩
  | take hq => exact ⟨[], rfl, by simp⟩
  | postprocess hp outcome => exact ⟨[_], rfl, by simp⟩

theorem Run.barred {Allowed : AsyncOmniDiffusion ρ δ ω → Action ρ δ ω → Prop}
    (hr : Run Allowed s t) (h : Barred s requestId) : Barred t requestId ∧
      ∃ entries, t.log = entries ++ s.log ∧ ∀ event ∈ entries,
        (∀ request, event = .passed request → request.requestId ≠ requestId) ∧
          ∀ outcome, event ≠ .returned requestId outcome := by
  induction hr with
  | refl => exact ⟨h, [], rfl, by simp⟩
  | tail _ _ hs ih =>
    obtain ⟨hb, entries, hl, hentries⟩ := ih
    obtain ⟨later, hl', hlater⟩ := hb.log (step_cases hs)
    refine ⟨hb.step (step_cases hs), later ++ entries, by rw [hl', hl, List.append_assoc], ?_⟩
    intro event hm
    exact (List.mem_append.mp hm).elim (hlater event) (hentries event)

theorem Held.barred (h : Held s requestId) (hn : s.answering = none) :
    Barred (s.abort requestId) requestId where
  marked := Finset.mem_insert_self ..
  held := h.keep rfl rfl rfl rfl
  unanswered := answer_none (Dict.get?_erase_self ..) (Dict.get?_erase_self ..)
  unseen outcome heq := by cases hn.symm.trans heq

end AsyncOmniDiffusion

end GfDit.FrontEnd
