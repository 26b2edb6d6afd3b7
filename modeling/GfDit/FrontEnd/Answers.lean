import GfDit.FrontEnd.Delivery

/-!
# Whose answer is returned

An answer was made for the request that is current under its id. A call of
`collect` that outlived an abort of its id may still get an error of the
aborted request, never its result.
-/

namespace GfDit.FrontEnd

open Custody History

/-- What is owed to an answer by what came before it. -/
def Due {ρ ω : Type} : Event ρ ω → List (Event ρ ω) → Prop
  | .returned requestId outcome, earlier =>
    ∃ request, request.requestId = requestId ∧ Event.submitted request ∈ earlier ∧
      Event.produced request outcome ∈ earlier ∧
        (current requestId earlier = some request ∨
          Event.aborted requestId ∈ earlier ∧ ∃ message, outcome = .error message)
  | _, _ => True

namespace AsyncOmniDiffusion

variable {ρ δ ω : Type}

-- ---------------------------------------------------------------------------
-- What the control thread leaves alone
-- ---------------------------------------------------------------------------

structure Continues (s s' : AsyncOmniDiffusion ρ δ ω) : Prop where
  log : ∃ entries, s'.log = entries ++ s.log ∧ ∀ event ∈ entries,
    (∃ request, event = .passed request ∧ s.control = .passing request) ∨
      ∃ request outcome, event = .produced request outcome
  cancelled : s'.cancelledRequests ⊆ s.cancelledRequests
  answering : s'.answering = s.answering

variable {s s' t : AsyncOmniDiffusion ρ δ ω} {requestId : String} {action : Action ρ δ ω}

theorem Continues.same (hl : s'.log = s.log)
    (hc : s'.cancelledRequests ⊆ s.cancelledRequests) (ha : s'.answering = s.answering) :
    Continues s s' :=
  ⟨⟨[], hl, fun _ hm => absurd hm List.not_mem_nil⟩, hc, ha⟩

theorem Continues.produced (request : OmniDiffusionRequest ρ) (outcome : Except String ω)
    (hl : s'.log = .produced request outcome :: s.log)
    (hc : s'.cancelledRequests ⊆ s.cancelledRequests) (ha : s'.answering = s.answering) :
    Continues s s' :=
  ⟨⟨[.produced request outcome], hl, fun _ hm => .inr ⟨_, _, List.mem_singleton.mp hm⟩⟩, hc, ha⟩

theorem continues_takeResult (s : AsyncOmniDiffusion ρ δ ω) (requestId : String)
    (outcome : Except String ω) : Continues s (s.takeResult requestId outcome) := by
  unfold takeResult
  split
  · exact .same rfl (Finset.erase_subset _ _) rfl
  · split
    · exact .same rfl (Finset.Subset.refl _) rfl
    · exact .same rfl (Finset.Subset.refl _) rfl

theorem continues_control (s : AsyncOmniDiffusion ρ δ ω) (reply : Reply δ) :
    Continues s (s.controlStep reply) := by
  have hself : s.cancelledRequests ⊆ s.cancelledRequests := Finset.Subset.refl _
  cases hc : s.control with
  | drained requestId outcome =>
    obtain ⟨hl, hm, ha⟩ := continues_takeResult s requestId outcome
    simp only [controlStep, hc]
    exact ⟨hl, hm, ha⟩
  | draining | submitting =>
    simp only [controlStep, hc]
    split
    · exact .same rfl hself rfl
    · exact .same rfl hself rfl
  | taken request =>
    simp only [controlStep, hc]
    split
    · exact .same rfl hself rfl
    · exact .same rfl hself rfl
  | polling inflight =>
    cases inflight with
    | nil =>
      simp only [controlStep, hc]
      exact .same rfl hself rfl
    | cons item inflight =>
      simp only [controlStep, hc]
      split
      · exact .same rfl hself rfl
      · exact .same rfl hself rfl
  | passing request =>
    simp only [controlStep, hc]
    cases reply with
    | raised message =>
      refine ⟨⟨[_, _], rfl, fun event hm => ?_⟩, hself, rfl⟩
      rcases List.mem_pair.mp hm with rfl | rfl
      · exact .inr ⟨_, _, rfl⟩
      · exact .inl ⟨_, rfl, hc⟩
    | timedOut | ready _ =>
      exact ⟨⟨[_], rfl, fun _ hm => .inl ⟨_, List.mem_singleton.mp hm, hc⟩⟩, hself, rfl⟩
  | collecting requestId submissionId inflight =>
    simp only [controlStep, hc, engineCollectRaw]
    split
    · exact .same rfl hself rfl
    · split
      · exact .same rfl hself rfl
      · exact .produced _ _ rfl hself rfl
      · exact .same rfl hself rfl
  | enqueueing requestId result inflight =>
    simp only [controlStep, hc]
    cases reply with
    | raised message => exact .produced _ _ rfl hself rfl
    | timedOut | ready _ => exact .same rfl hself rfl
  | passed _ _ | refused _ _ | snapshot | lost _ _ _ | collected _ _ _ | enqueued _ _
  | undelivered _ _ _ =>
    simp only [controlStep, hc]
    exact .same rfl hself rfl

-- ---------------------------------------------------------------------------
-- Answers
-- ---------------------------------------------------------------------------

/-- Every answer so far was due, and only aborted ids are marked. -/
structure Honest (s : AsyncOmniDiffusion ρ δ ω) : Prop where
  due : Each Due s.log
  aborted : ∀ requestId ∈ s.cancelledRequests, Event.aborted requestId ∈ s.log

theorem Honest.continues (h : Honest s) (hs : Continues s s') : Honest s' := by
  obtain ⟨⟨entries, hl, hentries⟩, hc, -⟩ := hs
  refine ⟨?_, fun id hm => ?_⟩
  · rw [hl]
    refine h.due.append fun event hm _ => ?_
    obtain ⟨_, rfl, -⟩ | ⟨_, _, rfl⟩ := hentries event hm
    · trivial
    · trivial
  · rw [hl]
    exact List.mem_append_right _ (h.aborted id (hc hm))

theorem Orderly.due (h : Orderly s) (hh : Honest s)
    (hs : s.answering = some (requestId, outcome)) : Due (.returned requestId outcome) s.log := by
  have hseen := h.filed.seen hs
  have hfile := mem_answers_of_answer hseen
  obtain ⟨request, hid, hsub, hb, hcur | hm⟩ :=
    h.books.owned (mem_holdings.mpr (.inr (.inr (.inr (.inr hfile)))))
  · exact ⟨request, hid, hsub, hb, .inl hcur⟩
  · refine ⟨request, hid, hsub, hb, .inr ⟨hh.aborted _ hm, ?_⟩⟩
    obtain ⟨result, -, hr⟩ | ⟨message, heq, -⟩ := mem_answers.mp hfile
    · cases (h.filed.unanswered hm).symm.trans hr
    · exact ⟨message, Token.done.inj heq⟩

theorem Honest.step (h : Honest s) (ho : Orderly s) (hs : Stepped s action t) : Honest t := by
  cases hs with
  | submit hn hsub =>
    rw [AsyncOmniDiffusion.submit] at hsub
    split at hsub
    · cases hsub
    · obtain rfl := Except.ok.inj hsub
      exact ⟨⟨trivial, h.due⟩, fun _ hm => List.mem_cons_of_mem _ (h.aborted _ hm)⟩
  | abort hn =>
    refine ⟨⟨trivial, h.due⟩, fun _ hm => ?_⟩
    obtain rfl | hm := Finset.mem_insert.mp hm
    · exact List.mem_cons_self ..
    · exact List.mem_cons_of_mem _ (h.aborted _ hm)
  | aside collects answering ha => exact ⟨h.due, h.aborted⟩
  | finish hseen =>
    exact ⟨⟨ho.due h hseen, h.due⟩,
      fun _ hm => List.mem_cons_of_mem _ (h.aborted _ (Finset.mem_of_mem_erase hm))⟩
  | control reply => exact h.continues (continues_control s reply)
  | take hq => exact ⟨h.due, h.aborted⟩
  | postprocess hp outcome =>
    exact ⟨⟨trivial, h.due⟩, fun _ hm => List.mem_cons_of_mem _ (h.aborted _ hm)⟩

theorem Run.honest (hr : Run Clean s t) (ho : Orderly s) (h : Honest s) : Honest t := by
  induction hr with
  | refl => exact h
  | tail hrun _ hs ih => exact ih.step (hrun.orderly ho) (step_cases hs)

/-- No call gets the result of another request. -/
theorem own_answers (processes : Nat) (hr : Run Clean (start processes) s) : Each Due s.log :=
  (hr.honest (.start processes)
    ⟨trivial, fun _ hm => absurd hm (Finset.notMem_empty _)⟩).due

theorem own_answers_refused : ∃ s : AsyncOmniDiffusion Unit Unit Unit,
    Event.returned "a" (.error "Diffusion submit failed: full") ∈ s.log ∧ Each Due s.log := by
  let actions : List (Action Unit Unit Unit) :=
    List.replicate 5 (.control (.raised "full")) ++ [.collect "a", .poll "a", .finish]
  have hfirst : Run Clean (start 1 : AsyncOmniDiffusion Unit Unit Unit) _ :=
    Run.refl.tail (show Clean _ (.submit "a" ()) from Finset.notMem_empty _) rfl
  have hclean : ∀ action ∈ actions, ∀ s : AsyncOmniDiffusion Unit Unit Unit, Clean s action := by
    simp [actions, Clean]
  have hrun : (((start 1).step (.submit "a" ())).bind fun s => actions.foldlM step s).any
      (fun s => decide (Event.returned "a" (.error "Diffusion submit failed: full") ∈ s.log)) =
        true := by
    decide +kernel
  obtain ⟨s, hs, hm⟩ := (Option.any_eq_true _ _).mp hrun
  exact ⟨s, of_decide_eq_true hm, own_answers 1 (hfirst.extend hclean hs)⟩

end AsyncOmniDiffusion

end GfDit.FrontEnd
