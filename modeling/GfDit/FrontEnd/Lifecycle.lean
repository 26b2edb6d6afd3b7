import GfDit.FrontEnd.Thread

/-!
# The life of a request

The coroutines and the processes keep order as the control thread does. In a
run where no id is submitted while it is marked as cancelled, a request that
is neither aborted nor answered is in one place, and an answer is one to the
request it is given for.
-/

namespace GfDit.FrontEnd

open Custody

theorem Control.fetched_ne {ρ δ ω : Type} {c : Control ρ δ ω} (hn : c.round.Nodup)
    (hm : (requestId, submissionId) ∈ c.ahead) : c.fetched ≠ some requestId := by
  cases c with
  | lost id message inflight | collected id result inflight =>
    intro heq
    obtain rfl := Option.some.inj heq
    exact (List.nodup_cons.mp hn).1 (List.mem_map_of_mem hm)
  | _ => exact fun heq => by cases heq

namespace AsyncOmniDiffusion

variable {ρ δ ω : Type} {s s' t : AsyncOmniDiffusion ρ δ ω} {requestId : String}
  {token : Token ρ δ ω} {action : Action ρ δ ω}

-- ---------------------------------------------------------------------------
-- The processes
-- ---------------------------------------------------------------------------

theorem Orderly.take (h : Orderly s) (hq : s.postprocessInQueue = item :: rest) :
    Orderly { s with postprocessInQueue := rest, postprocessing := s.postprocessing ++ [item] } :=
  ⟨h.books.keep (.of_log rfl rfl rfl) (holdings_take hq) rfl rfl,
    h.filed.keep rfl (fun _ hm => hm) rfl rfl,
    h.rounds.next (List.Sublist.refl _) rfl rfl rfl rfl h.rounds.passed
      fun _ _ t ht => ⟨t, holdings_take hq ▸ ht⟩⟩

theorem Orderly.postprocess {item : String × CollectedDiffusionResult ρ δ} (h : Orderly s)
    (hp : s.postprocessing[place]? = some item) (outcome : Except String ω) :
    Orderly (({ s with postprocessing := s.postprocessing.eraseIdx place } :
      AsyncOmniDiffusion ρ δ ω).postprocess item outcome) := by
  have hh := handover_postprocess hp (outcome.mapError ("Diffusion postprocess failed: " ++ ·))
  obtain ⟨request, hid, hsub, rfl, hcur⟩ := h.books.owned hh.mem_old
  have hframe : Frame s (({ s with postprocessing := s.postprocessing.eraseIdx place } :
      AsyncOmniDiffusion ρ δ ω).postprocess item outcome) :=
    ⟨rfl, rfl, List.subset_cons_self .., fun _ => rfl⟩
  refine ⟨h.books.handover hframe hh (fun _ hm => hm) (fun _ _ hm => hm) (fun _ _ => rfl)
      (fun _ hr => (h.books.engine hr).imp_right fun hm => hframe.log hm) ?_ (.inl rfl),
    h.filed.keep rfl (fun _ hm => hm) rfl rfl,
    h.rounds.next (List.Sublist.refl _) rfl rfl rfl rfl h.rounds.passed
      fun _ _ _ ht => hh.exists_old ht⟩
  exact ⟨_, hid, hframe.log hsub, List.mem_cons_self .., hcur⟩

-- ---------------------------------------------------------------------------
-- A new request
-- ---------------------------------------------------------------------------

/-- An id that is neither pending nor marked has no token. -/
theorem Books.idle (h : Books s) (hn : current requestId s.log = none)
    (hc : requestId ∉ s.cancelledRequests) (token : Token ρ δ ω) :
    (requestId, token) ∉ s.holdings := by
  intro ht
  obtain ⟨request, -, -, -, hcur | hm⟩ := h.owned ht
  · cases hn.symm.trans hcur
  · exact hc hm

/-- A submission ahead of the round is with the engine, or was aborted. -/
theorem Rounds.ahead_cases (h : Rounds s) (hm : (requestId, submissionId) ∈ s.control.ahead) :
    (requestId, .running) ∈ s.submitted ∨
      requestId ∈ s.cancelledRequests ∧ ∀ token, (requestId, token) ∉ s.holdings := by
  cases hk : s.submissionIds.get? requestId with
  | none => exact .inr (h.gone hm hk)
  | some _ => exact .inl (submitted_of_get hk (Control.fetched_ne h.nodup hm))

theorem Orderly.submit (h : Orderly s) (hc : requestId ∉ s.cancelledRequests)
    (hs : s.submit requestId payload = .ok s') : Orderly s' := by
  rw [AsyncOmniDiffusion.submit] at hs
  split at hs
  · cases hs
  next hpending =>
  obtain rfl := Except.ok.inj hs
  have hnone : current requestId s.log = none := by
    rw [Dict.contains, h.books.pending] at hpending
    simpa using hpending
  have hh := handover_submit (s := s) ⟨s.built, requestId, payload⟩ (h.books.idle hnone hc)
  have hcur (id : String) : current id
      (.submitted ⟨s.built, requestId, payload⟩ :: s.log) =
        if requestId = id then some ⟨s.built, requestId, payload⟩ else current id s.log := rfl
  refine ⟨⟨hh.single h.books.single, fun {id _} hsome => ?_, fun {id _} hsome => ?_,
    fun {id t} ht => ?_, fun id => ?_, fun id => ?_, fun hr => ?_⟩,
    h.filed.keep rfl (fun _ hm => hm) rfl rfl,
    h.rounds.next (List.Sublist.refl _) rfl rfl rfl rfl h.rounds.passed ?_⟩
  · by_cases hid : requestId = id
    · exact hid ▸ hc
    · exact h.books.unmarked ((hcur id).symm.trans hsome |> (if_neg hid).symm.trans)
  · by_cases hid : id = requestId
    · subst hid
      exact ⟨_, (hh.mem_self h.books.single).mpr rfl⟩
    · obtain ⟨t, ht⟩ := h.books.held ((if_neg (Ne.symm hid)).symm.trans hsome)
      exact ⟨t, (hh.mem_other hid).mpr ht⟩
  · by_cases hid : id = requestId
    · subst hid
      obtain rfl := Option.some.inj ((hh.mem_self h.books.single).mp ht)
      exact ⟨_, rfl, List.mem_cons_self .., rfl, .inl (if_pos rfl)⟩
    · exact (h.books.owned ((hh.mem_other hid).mp ht)).mono (List.subset_cons_self ..)
        (if_neg (Ne.symm hid)) (fun hm => hm) rfl
  · refine (congrArg Option.isSome (Dict.get?_set ..)).trans ?_
    refine Eq.trans ?_ (congrArg Option.isSome (hcur id)).symm
    by_cases hid : requestId = id
    · rw [if_pos hid, if_pos hid]
      rfl
    · rw [if_neg hid, if_neg hid, h.books.pending]
  · simp only [record, Dict.contains, Dict.get?_set]
    split
    · rfl
    · exact h.books.futures id
  · exact (h.books.engine hr).imp_right fun hm => List.mem_cons_of_mem _ hm
  · rintro ⟨id, submissionId⟩ hi t ht
    rcases h.rounds.ahead_cases hi with hrun | ⟨hm, -⟩
    · exact ⟨_, mem_holdings.mpr (.inr (.inr (.inl hrun)))⟩
    · exact ⟨t, (hh.mem_other fun heq : id = requestId => hc (heq ▸ hm)).mp ht⟩

-- ---------------------------------------------------------------------------
-- An id that ends
-- ---------------------------------------------------------------------------

/-- What is on file or with the engine is all there is of an id. -/
theorem forget_clears (h : Single s.holdings)
    (ht : (requestId, token) ∈ s.submitted ∨ (requestId, token) ∈ s.answers)
    (t : Token ρ δ ω) : (requestId, t) ∉ (s.forget requestId).holdings := by
  have hsplit : s.holdings =
      (↑s.submitted + ↑s.answers) + (↑s.queued + s.control.inHand + ↑s.postprocessed) := by
    rw [holdings]
    abel
  rw [hsplit] at h
  have hnot := h.apart (t := t) (Multiset.mem_add.mpr ht)
  rw [mem_forget_self]
  simpa [or_assoc] using hnot

theorem mem_answers_of_answer (h : s.answer requestId = some outcome) :
    (requestId, .done outcome) ∈ s.answers := by
  rw [answer] at h
  split at h
  next message hf =>
    obtain rfl := Option.some.inj h
    exact mem_answers.mpr (.inr ⟨message, rfl, hf⟩)
  next hf =>
    obtain ⟨result, hr, rfl⟩ := Option.map_eq_some_iff.mp h
    exact mem_answers.mpr (.inl ⟨result, rfl, hr⟩)

theorem Rounds.settle (h : Rounds s) (hs : Single s.holdings) (hcontrol : s'.control = s.control)
    (hsub : s'.submissionIds = s.submissionIds.erase requestId)
    (he : s'.pendingRequests = s.pendingRequests)
    (hh : s'.holdings = (s.forget requestId).holdings)
    (hc : ∀ id, id ≠ requestId → id ∈ s.cancelledRequests → id ∈ s'.cancelledRequests)
    (hself : requestId ∈ s'.cancelledRequests ∨
      ∀ submissionId, (requestId, submissionId) ∉ s.control.ahead) : Rounds s' where
  nodup := hcontrol ▸ h.nodup
  named {id _} hk := by
    rw [hsub, Dict.get?_erase] at hk
    split at hk
    · cases hk
    · exact h.named hk
  passed := hcontrol ▸ h.passed
  known hm := he ▸ h.known (hcontrol ▸ hm)
  gone {id _} hm hnone := by
    rw [hcontrol] at hm
    by_cases hid : id = requestId
    · subst hid
      refine ⟨hself.resolve_right fun hno => hno _ hm, fun t ht => ?_⟩
      rw [hh] at ht
      rcases h.ahead_cases hm with hrun | ⟨-, hno⟩
      · exact forget_clears hs (.inl hrun) t ht
      · exact hno t (Multiset.mem_of_le (forget_le s id) ht)
    · rw [hsub, Dict.get?_erase_ne _ (Ne.symm hid)] at hnone
      obtain ⟨hmark, hno⟩ := h.gone hm hnone
      exact ⟨hc id hid hmark, fun t ht => hno t ((mem_forget_other hid).mp (hh ▸ ht))⟩

theorem Orderly.abort (h : Orderly s) (hn : s.answering = none) (requestId : String) :
    Orderly (s.abort requestId) := by
  have hh : (s.abort requestId).holdings = (s.forget requestId).holdings := rfl
  refine ⟨h.books.settle hh (List.subset_cons_self ..) (fun _ => rfl) (fun _ hne => ?_) rfl rfl rfl
      fun t ht => ?_,
    ⟨fun {id} hm => ?_, fun hs => ?_⟩,
    h.rounds.settle h.books.single rfl rfl rfl hh (fun _ _ hm => Finset.mem_insert_of_mem hm)
      (.inl (Finset.mem_insert_self ..))⟩
  · exact ⟨fun hm => (Finset.mem_insert.mp hm).resolve_left hne, Finset.mem_insert_of_mem⟩
  · obtain ⟨request, hid, hsub, hb, -⟩ := h.books.owned
      (Multiset.mem_of_le (forget_le s requestId) (hh ▸ ht))
    refine ⟨request, hid, List.mem_cons_of_mem _ hsub, ?_, .inr (Finset.mem_insert_self ..)⟩
    cases t with
    | waiting _ | running | collected _ => exact hb
    | done _ => exact List.mem_cons_of_mem _ hb
  · refine (Dict.get?_erase ..).trans ?_
    split
    · rfl
    next hne => exact h.filed.unanswered ((Finset.mem_insert.mp hm).resolve_left (Ne.symm hne))
  · cases hn.symm.trans hs

theorem Orderly.finish (h : Orderly s) (hs : s.answering = some (requestId, outcome)) :
    Orderly (s.finish requestId outcome) := by
  have hh : (s.finish requestId outcome).holdings = (s.forget requestId).holdings := rfl
  have hfile := mem_answers_of_answer (h.filed.seen hs)
  have hheld : (requestId, .done outcome) ∈ s.holdings :=
    mem_holdings.mpr (.inr (.inr (.inr (.inr hfile))))
  refine ⟨h.books.settle hh (List.subset_cons_self ..) (fun _ => rfl) (fun _ hne => ?_) rfl rfl rfl
      fun t ht => absurd (hh ▸ ht) (forget_clears h.books.single (.inr hfile) t),
    ⟨fun {id} hm => ?_, fun hs => by cases hs⟩,
    h.rounds.settle h.books.single rfl rfl rfl hh
      (fun _ hne hm => Finset.mem_erase.mpr ⟨hne, hm⟩) (.inr fun submissionId hm => ?_)⟩
  · exact ⟨fun hm => (Finset.mem_erase.mp hm).2, fun hm => Finset.mem_erase.mpr ⟨hne, hm⟩⟩
  · obtain ⟨hne, hm⟩ := Finset.mem_erase.mp hm
    exact (Dict.get?_erase_ne _ (Ne.symm hne)).trans (h.filed.unanswered hm)
  · rcases h.rounds.ahead_cases hm with hrun | ⟨-, hno⟩
    · have hrun := mem_holdings.mpr (.inr (.inr (.inl hrun)))
      cases h.books.single.unique hrun hheld
    · exact hno _ hheld

/-- A call of `collect` that waits, sees its answer or is given up. -/
theorem Orderly.aside (h : Orderly s) (collects : List String)
    {answering : Option (String × Except String ω)}
    (ha : ∀ id outcome, answering = some (id, outcome) → s.answer id = some outcome) :
    Orderly { s with collects, answering } :=
  ⟨h.books.keep (.of_log rfl rfl rfl) rfl rfl rfl, ⟨h.filed.unanswered, ha _ _⟩,
    h.rounds.next (List.Sublist.refl _) rfl rfl rfl rfl h.rounds.passed
      fun _ _ t ht => ⟨t, ht⟩⟩

end AsyncOmniDiffusion

end GfDit.FrontEnd
