import GfDit.FrontEnd.Lifecycle
import GfDit.Lib.Except

/-!
# What the callers get

In a run where no id is submitted while it is marked as cancelled, a request
that is neither aborted nor answered is in one place, and every answer that is
returned was made for the request it answers.
-/

namespace GfDit.FrontEnd

open Custody

namespace AsyncOmniDiffusion

variable {ρ δ ω : Type}

-- ---------------------------------------------------------------------------
-- What a step can be
-- ---------------------------------------------------------------------------

inductive Stepped (s : AsyncOmniDiffusion ρ δ ω) :
    Action ρ δ ω → AsyncOmniDiffusion ρ δ ω → Prop
  | submit (hn : s.answering = none) (h : s.submit requestId payload = .ok t) :
      Stepped s (.submit requestId payload) t
  | abort (hn : s.answering = none) : Stepped s (.abort requestId) (s.abort requestId)
  -- A call of `collect` begins to wait, sees its answer or is given up.
  | aside (collects : List String) (answering : Option (String × Except String ω))
      (ha : ∀ id outcome, answering = some (id, outcome) → s.answer id = some outcome) :
      Stepped s action { s with collects, answering }
  | finish (h : s.answering = some (requestId, outcome)) :
      Stepped s .finish (s.finish requestId outcome)
  | control (reply : Reply δ) : Stepped s (.control reply) (s.controlStep reply)
  | take (hq : s.postprocessInQueue = item :: rest) :
      Stepped s .take
        { s with postprocessInQueue := rest, postprocessing := s.postprocessing ++ [item] }
  | postprocess (hp : s.postprocessing[place]? = some item) (outcome : Except String ω) :
      Stepped s (.postprocess place outcome)
        (({ s with postprocessing := s.postprocessing.eraseIdx place } :
          AsyncOmniDiffusion ρ δ ω).postprocess item outcome)

variable {s t : AsyncOmniDiffusion ρ δ ω} {requestId : String} {action : Action ρ δ ω}

theorem step_cases (hs : s.step action = some t) : Stepped s action t := by
  have hunseen (hn : s.answering.isNone = true) (id : String) (outcome : Except String ω)
      (ha : s.answering = some (id, outcome)) : s.answer id = some outcome := by
    rw [ha] at hn
    cases hn
  cases action with
  | submit id payload =>
    rw [step] at hs
    split at hs
    next hn => exact .submit (Option.isNone_iff_eq_none.mp hn) (Except.toOption_eq_some hs)
    · cases hs
  | abort id =>
    rw [step] at hs
    split at hs
    next hn =>
      obtain rfl := Option.some.inj hs
      exact .abort (Option.isNone_iff_eq_none.mp hn)
    · cases hs
  | collect id =>
    rw [step] at hs
    split at hs
    next hn =>
      have hc := Except.toOption_eq_some hs
      rw [collect] at hc
      split at hc
      · obtain rfl := Except.ok.inj hc
        exact .aside _ _ (hunseen hn)
      · cases hc
    · cases hs
  | poll id =>
    rw [step] at hs
    split at hs
    next hn =>
      obtain rfl := Option.some.inj hs
      rw [poll]
      split
      next outcome ha =>
        refine .aside _ _ fun other found heq => ?_
        cases heq
        exact ha
      · exact .aside s.collects s.answering (hunseen hn.1)
    · cases hs
  | giveUp id =>
    rw [step] at hs
    split at hs
    next hn =>
      obtain rfl := Option.some.inj hs
      exact .aside _ _ (hunseen hn.1)
    · cases hs
  | finish =>
    obtain ⟨⟨id, outcome⟩, ha, rfl⟩ := Option.map_eq_some_iff.mp hs
    exact .finish ha
  | control reply =>
    obtain rfl := Option.some.inj hs
    exact .control reply
  | take =>
    rw [step] at hs
    split at hs
    · cases hs
    next hq =>
      split at hs
      · obtain rfl := Option.some.inj hs
        exact .take hq
      · cases hs
  | postprocess place outcome =>
    obtain ⟨item, hp, rfl⟩ := Option.map_eq_some_iff.mp hs
    exact .postprocess hp outcome

theorem Run.extend {Allowed : AsyncOmniDiffusion ρ δ ω → Action ρ δ ω → Prop}
    {actions : List (Action ρ δ ω)} {r : AsyncOmniDiffusion ρ δ ω} (hr : Run Allowed r s)
    (ha : ∀ action ∈ actions, ∀ s, Allowed s action) (hs : actions.foldlM step s = some t) :
    Run Allowed r t := by
  induction actions generalizing s with
  | nil => exact Option.some.inj hs ▸ hr
  | cons action actions ih =>
    obtain ⟨u, hu, hrest⟩ := Option.bind_eq_some_iff.mp hs
    exact ih (hr.tail (ha action (List.mem_cons_self ..) s) hu)
      (fun other hm => ha other (List.mem_cons_of_mem _ hm)) hrest

-- ---------------------------------------------------------------------------
-- Runs keep order
-- ---------------------------------------------------------------------------

def Clean (s : AsyncOmniDiffusion ρ δ ω) : Action ρ δ ω → Prop
  | .submit requestId _ => requestId ∉ s.cancelledRequests
  | _ => True

theorem Orderly.step (h : Orderly s) (ha : Clean s action) (hs : s.step action = some t) :
    Orderly t := by
  cases step_cases hs with
  | submit hn hsub => exact h.submit ha hsub
  | abort hn => exact h.abort hn _
  | aside collects answering ha => exact h.aside collects ha
  | finish hseen => exact h.finish hseen
  | control reply => exact h.control reply
  | take hq => exact h.take hq
  | postprocess hp outcome => exact h.postprocess hp outcome

theorem holdings_start (processes : Nat) :
    (start processes : AsyncOmniDiffusion ρ δ ω).holdings = 0 := rfl

theorem Orderly.start (processes : Nat) :
    Orderly (start processes : AsyncOmniDiffusion ρ δ ω) where
  books :=
    { single := by simp [holdings_start, Single]
      unmarked hcur := by cases hcur
      held hcur := by cases hcur
      owned ht := by
        rw [holdings_start] at ht
        exact absurd ht (Multiset.notMem_zero _)
      pending _ := rfl
      futures _ := rfl
      engine hr := by cases (Dict.get?_empty _).symm.trans hr }
  filed := ⟨fun _ => rfl, fun hs => by cases hs⟩
  rounds :=
    { nodup := List.nodup_nil
      named hs := by cases (Dict.get?_empty _).symm.trans hs
      passed := trivial
      known hm := absurd hm List.not_mem_nil
      gone hm := absurd hm List.not_mem_nil }

theorem Run.orderly (hr : Run Clean s t) (h : Orderly s) : Orderly t := by
  induction hr with
  | refl => exact h
  | tail _ ha hs ih => exact ih.step ha hs

-- ---------------------------------------------------------------------------
-- A pending request is in one place
-- ---------------------------------------------------------------------------

/-- Nothing is on its way: the queues are empty, the thread holds nothing, no
submission is with the runner and nothing is being postprocessed. -/
structure AtRest (s : AsyncOmniDiffusion ρ δ ω) : Prop where
  submitQueue : s.submitQueue = []
  control : s.control.inHand = 0
  submissionIds : s.submissionIds = ∅
  postprocessInQueue : s.postprocessInQueue = []
  postprocessing : s.postprocessing = []
  postprocessOutQueue : s.postprocessOutQueue = []

theorem AtRest.holdings (h : AtRest s) : s.holdings = ↑s.answers := by
  simp [AsyncOmniDiffusion.holdings, queued, submitted, postprocessed, h.submitQueue, h.control,
    h.submissionIds, h.postprocessInQueue, h.postprocessing, h.postprocessOutQueue]

/-- An answer that is the only one on file is the one `collect` finds. -/
theorem answer_of_mem (h : Single s.holdings) (hm : (requestId, .done outcome) ∈ s.answers) :
    s.answer requestId = some outcome := by
  rcases mem_answers.mp hm with ⟨result, heq, hr⟩ | ⟨message, heq, hf⟩
  · obtain rfl := Token.done.inj heq
    cases hf : s.failedRequests.get? requestId with
    | none => simp [answer, hf, hr]
    | some message =>
      have hfail : (requestId, .done (.error message)) ∈ s.answers :=
        mem_answers.mpr (.inr ⟨message, rfl, hf⟩)
      cases h.unique (mem_holdings.mpr (.inr (.inr (.inr (.inr hm)))))
        (mem_holdings.mpr (.inr (.inr (.inr (.inr hfail)))))
  · obtain rfl := Token.done.inj heq
    simp [answer, hf]

theorem Orderly.answered (h : Orderly s) (hrest : AtRest s)
    (hcur : current requestId s.log = some request) :
    ∃ outcome, s.answer requestId = some outcome ∧ Event.produced request outcome ∈ s.log := by
  obtain ⟨token, ht⟩ := h.books.held hcur
  obtain ⟨r, hid, -, hb, hown⟩ := h.books.owned ht
  obtain rfl := Option.some.inj
    ((hown.resolve_right (h.books.unmarked hcur)).symm.trans hcur)
  rw [hrest.holdings] at ht
  rcases mem_answers.mp ht with ⟨result, rfl, -⟩ | ⟨message, rfl, -⟩
  · exact ⟨_, answer_of_mem h.books.single ht, hb⟩
  · exact ⟨_, answer_of_mem h.books.single ht, hb⟩

end AsyncOmniDiffusion

end GfDit.FrontEnd
