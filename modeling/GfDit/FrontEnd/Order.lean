import GfDit.FrontEnd.Answers

/-!
# In which order requests go to the engine

Requests are numbered as they are built. Whatever the callers do, the control
thread hands them to the engine in this order, each at most once.
-/

namespace GfDit.FrontEnd

open History

def InOrder {ρ ω : Type} : Event ρ ω → List (Event ρ ω) → Prop
  | .submitted request, earlier =>
    ∀ other, Event.submitted other ∈ earlier → other.serial < request.serial
  | .passed request, earlier => Event.submitted request ∈ earlier ∧
    ∀ other, Event.passed other ∈ earlier → other.serial < request.serial
  | _, _ => True

def Control.carried {ρ δ ω : Type} : Control ρ δ ω → List (OmniDiffusionRequest ρ)
  | .taken request | .passing request => [request]
  | _ => []

namespace AsyncOmniDiffusion

variable {ρ δ ω : Type}

def line (s : AsyncOmniDiffusion ρ δ ω) : List (OmniDiffusionRequest ρ) :=
  s.control.carried ++ s.submitQueue

structure Lined (s : AsyncOmniDiffusion ρ δ ω) : Prop where
  order : Each InOrder s.log
  sorted : s.line.Pairwise fun request later => request.serial < later.serial
  submitted : ∀ request ∈ s.line, Event.submitted request ∈ s.log
  built : ∀ request, Event.submitted request ∈ s.log → request.serial < s.built
  passed : ∀ request, Event.passed request ∈ s.log → Event.submitted request ∈ s.log ∧
    ∀ later ∈ s.line, request.serial < later.serial

structure Shrinks (s s' : AsyncOmniDiffusion ρ δ ω) : Prop where
  line : s'.line.Sublist s.line
  built : s'.built = s.built

variable {s s' t : AsyncOmniDiffusion ρ δ ω} {action : Action ρ δ ω}
  {request : OmniDiffusionRequest ρ}

theorem Lined.shrinks (h : Lined s) (hs : Shrinks s s')
    (hl : ∃ entries, s'.log = entries ++ s.log ∧ ∀ event ∈ entries,
      (∀ request, event ≠ .submitted request) ∧ ∀ request, event ≠ .passed request) :
    Lined s' := by
  obtain ⟨hline, hb⟩ := hs
  obtain ⟨entries, hl, hquiet⟩ := hl
  have hsub (r : OmniDiffusionRequest ρ) :
      Event.submitted r ∈ s'.log ↔ Event.submitted r ∈ s.log := by
    rw [hl, List.mem_append]
    exact or_iff_right fun hm => (hquiet _ hm).1 r rfl
  have hpas (r : OmniDiffusionRequest ρ) :
      Event.passed r ∈ s'.log ↔ Event.passed r ∈ s.log := by
    rw [hl, List.mem_append]
    exact or_iff_right fun hm => (hquiet _ hm).2 r rfl
  refine ⟨?_, h.sorted.sublist hline, fun r hr => (hsub r).mpr (h.submitted r (hline.subset hr)),
    fun r hr => hb ▸ h.built r ((hsub r).mp hr), fun r hr => ?_⟩
  · rw [hl]
    refine h.order.append fun event hm _ => ?_
    cases event with
    | submitted r => exact absurd rfl ((hquiet _ hm).1 r)
    | passed r => exact absurd rfl ((hquiet _ hm).2 r)
    | aborted _ | produced _ _ | returned _ _ => trivial
  · obtain ⟨hold, hlater⟩ := h.passed r ((hpas r).mp hr)
    exact ⟨(hsub r).mpr hold, fun q hq => hlater q (hline.subset hq)⟩

theorem Lined.pass (h : Lined s) (hline : s.line = request :: s'.line) (hb : s'.built = s.built)
    (hl : s'.log = .passed request :: s.log) : Lined s' := by
  have hhead : request ∈ s.line := hline ▸ List.mem_cons_self ..
  have htail {q : OmniDiffusionRequest ρ} (hq : q ∈ s'.line) : q ∈ s.line :=
    hline ▸ List.mem_cons_of_mem _ hq
  have hsorted := h.sorted
  rw [hline, List.pairwise_cons] at hsorted
  refine ⟨?_, hsorted.2, fun r hr => ?_, fun r hr => ?_, fun r hr => ?_⟩
  · rw [hl]
    exact ⟨⟨h.submitted request hhead, fun other ho => (h.passed other ho).2 request hhead⟩,
      h.order⟩
  · rw [hl]
    exact List.mem_cons_of_mem _ (h.submitted r (htail hr))
  · rw [hl] at hr
    rw [hb]
    exact h.built r ((List.mem_cons.mp hr).resolve_left fun heq => by cases heq)
  · rw [hl] at hr ⊢
    obtain heq | hr := List.mem_cons.mp hr
    · obtain rfl := Event.passed.inj heq
      exact ⟨List.mem_cons_of_mem _ (h.submitted r hhead), hsorted.1⟩
    · obtain ⟨hold, hlater⟩ := h.passed r hr
      exact ⟨List.mem_cons_of_mem _ hold, fun q hq => hlater q (htail hq)⟩

theorem Lined.join (h : Lined s) (hline : s'.line = s.line ++ [request])
    (hserial : request.serial = s.built) (hb : s'.built = s.built + 1)
    (hl : s'.log = .submitted request :: s.log) : Lined s' := by
  have hlast {r : OmniDiffusionRequest ρ} (hr : Event.submitted r ∈ s.log) :
      r.serial < request.serial := hserial ▸ h.built r hr
  refine ⟨?_, ?_, fun r hr => ?_, fun r hr => ?_, fun r hr => ?_⟩
  · rw [hl]
    exact ⟨fun _ ho => hlast ho, h.order⟩
  · rw [hline]
    refine List.pairwise_append.mpr ⟨h.sorted, List.pairwise_singleton .., fun r hr q hq => ?_⟩
    rw [List.mem_singleton.mp hq]
    exact hlast (h.submitted r hr)
  · rw [hline] at hr
    rw [hl]
    obtain hr | hr := List.mem_append.mp hr
    · exact List.mem_cons_of_mem _ (h.submitted r hr)
    · rw [List.mem_singleton.mp hr]
      exact List.mem_cons_self ..
  · rw [hl] at hr
    rw [hb]
    obtain heq | hr := List.mem_cons.mp hr
    · rw [Event.submitted.inj heq, hserial]
      exact Nat.lt_succ_self _
    · exact Nat.lt_succ_of_lt (h.built r hr)
  · rw [hl] at hr ⊢
    rw [hline]
    obtain ⟨hold, hlater⟩ :=
      h.passed r ((List.mem_cons.mp hr).resolve_left fun heq => by cases heq)
    refine ⟨List.mem_cons_of_mem _ hold, fun q hq => ?_⟩
    obtain hq | hq := List.mem_append.mp hq
    · exact hlater q hq
    · rw [List.mem_singleton.mp hq]
      exact hlast hold

theorem takeResult_line (s : AsyncOmniDiffusion ρ δ ω) (requestId : String)
    (outcome : Except String ω) : (s.takeResult requestId outcome).submitQueue = s.submitQueue ∧
      (s.takeResult requestId outcome).built = s.built := by
  unfold takeResult
  split
  · exact ⟨rfl, rfl⟩
  · split
    · exact ⟨rfl, rfl⟩
    · exact ⟨rfl, rfl⟩

theorem Shrinks.same (hc : s'.control.carried = s.control.carried)
    (hq : s'.submitQueue = s.submitQueue) (hb : s'.built = s.built) : Shrinks s s' :=
  ⟨by rw [AsyncOmniDiffusion.line, AsyncOmniDiffusion.line, hc, hq], hb⟩

theorem shrinks_control (reply : Reply δ) (hpassing : ∀ request, s.control ≠ .passing request) :
    Shrinks s (s.controlStep reply) := by
  cases hc : s.control with
  | passing request => exact absurd hc (hpassing request)
  | drained requestId outcome =>
    obtain ⟨hq, hb⟩ := takeResult_line s requestId outcome
    simp only [controlStep, hc]
    exact .same (by rw [hc]; rfl) hq hb
  | draining =>
    simp only [controlStep, hc]
    split
    · exact .same (by rw [hc]; rfl) rfl rfl
    · exact .same (by rw [hc]; rfl) rfl rfl
  | submitting =>
    cases hq : s.submitQueue with
    | nil =>
      simp only [controlStep, hc, hq]
      exact .same (by rw [hc]; rfl) hq.symm rfl
    | cons request rest =>
      simp only [controlStep, hc, hq]
      exact ⟨by simp [line, hc, hq, Control.carried], rfl⟩
  | taken request =>
    simp only [controlStep, hc]
    split
    · exact ⟨by simp [line, hc, Control.carried], rfl⟩
    · exact .same (by rw [hc]; rfl) rfl rfl
  | polling inflight =>
    cases inflight with
    | nil =>
      simp only [controlStep, hc]
      exact .same (by rw [hc]; rfl) rfl rfl
    | cons item inflight =>
      simp only [controlStep, hc]
      split
      · exact .same (by rw [hc]; rfl) rfl rfl
      · exact .same (by rw [hc]; rfl) rfl rfl
  | collecting requestId submissionId inflight =>
    simp only [controlStep, hc, engineCollectRaw]
    split
    · exact .same (by rw [hc]; rfl) rfl rfl
    · split
      · exact .same (by rw [hc]; rfl) rfl rfl
      · exact .same (by rw [hc]; rfl) rfl rfl
      · exact .same (by rw [hc]; rfl) rfl rfl
  | enqueueing requestId result inflight =>
    simp only [controlStep, hc]
    cases reply with
    | raised _ | timedOut | ready _ => exact .same (by rw [hc]; rfl) rfl rfl
  | passed _ _ | refused _ _ | snapshot | lost _ _ _ | collected _ _ _ | enqueued _ _
  | undelivered _ _ _ =>
    simp only [controlStep, hc]
    exact .same (by rw [hc]; rfl) rfl rfl

theorem Lined.control (h : Lined s) (reply : Reply δ) : Lined (s.controlStep reply) := by
  by_cases hpassing : ∃ request, s.control = .passing request
  · obtain ⟨request, hc⟩ := hpassing
    have hline : s.line = request :: s.submitQueue := by rw [line, hc]; rfl
    simp only [controlStep, hc]
    cases reply with
    | raised message =>
      have hpass : Lined (({ s with
          control := .refused request.requestId ("Diffusion submit failed: " ++ message) } :
          AsyncOmniDiffusion ρ δ ω).record (.passed request)) := h.pass hline rfl rfl
      exact hpass.shrinks ⟨List.Sublist.refl _, rfl⟩
        ⟨[.produced request (.error ("Diffusion submit failed: " ++ message))], rfl, by simp⟩
    | timedOut | ready _ => exact h.pass hline rfl rfl
  · have hnot : ∀ request, s.control ≠ .passing request := fun r hc => hpassing ⟨r, hc⟩
    obtain ⟨entries, hl, hentries⟩ := (continues_control s reply).log
    refine h.shrinks (shrinks_control reply hnot) ⟨entries, hl, fun event hm => ?_⟩
    obtain ⟨r, -, hc⟩ | ⟨r, outcome, rfl⟩ := hentries event hm
    · exact absurd hc (hnot r)
    · simp

theorem Lined.step (h : Lined s) (hs : Stepped s action t) : Lined t := by
  cases hs with
  | submit hn hsub =>
    rw [AsyncOmniDiffusion.submit] at hsub
    split at hsub
    · cases hsub
    obtain rfl := Except.ok.inj hsub
    exact h.join (List.append_assoc ..).symm rfl rfl rfl
  | @abort requestId hn =>
    exact h.shrinks ⟨List.Sublist.refl _, rfl⟩ ⟨[.aborted requestId], rfl, by simp⟩
  | aside collects answering ha => exact ⟨h.order, h.sorted, h.submitted, h.built, h.passed⟩
  | @finish requestId outcome hseen =>
    exact h.shrinks ⟨List.Sublist.refl _, rfl⟩ ⟨[.returned requestId outcome], rfl, by simp⟩
  | control reply => exact h.control reply
  | take hq => exact ⟨h.order, h.sorted, h.submitted, h.built, h.passed⟩
  | postprocess hp outcome =>
    exact h.shrinks ⟨List.Sublist.refl _, rfl⟩ ⟨[_], rfl, by simp⟩

theorem Run.lined {Allowed : AsyncOmniDiffusion ρ δ ω → Action ρ δ ω → Prop}
    (hr : Run Allowed s t) (h : Lined s) : Lined t := by
  induction hr with
  | refl => exact h
  | tail _ _ hs ih => exact ih.step (step_cases hs)

/-- Requests go to the engine in the order they were built, each at most once. -/
theorem in_order {Allowed : AsyncOmniDiffusion ρ δ ω → Action ρ δ ω → Prop} (processes : Nat)
    (hr : Run Allowed (start processes) s) : Each InOrder s.log :=
  (hr.lined ⟨trivial, List.Pairwise.nil, fun _ hm => absurd hm List.not_mem_nil,
    fun _ hm => absurd hm List.not_mem_nil, fun _ hm => absurd hm List.not_mem_nil⟩).order

theorem in_order_two : ∃ s : AsyncOmniDiffusion Unit Unit Unit,
    Event.passed ⟨1, "b", ()⟩ ∈ s.log ∧ Each InOrder s.log := by
  let actions : List (Action Unit Unit Unit) :=
    [.submit "a" (), .submit "b" ()] ++ List.replicate 8 (.control .timedOut)
  have hrun : (actions.foldlM step (start 1)).any
      (fun s => decide (Event.passed ⟨1, "b", ()⟩ ∈ s.log)) = true := by
    decide +kernel
  obtain ⟨s, hs, hm⟩ := (Option.any_eq_true _ _).mp hrun
  have hstart : Run (fun _ _ => True) (start 1 : AsyncOmniDiffusion Unit Unit Unit) (start 1) :=
    .refl
  exact ⟨s, of_decide_eq_true hm, in_order 1 (hstart.extend (fun _ _ _ => trivial) hs)⟩

end AsyncOmniDiffusion

end GfDit.FrontEnd
