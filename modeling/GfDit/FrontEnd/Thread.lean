import GfDit.FrontEnd.Orderly

/-!
# The control thread keeps order

One lemma for each point at which the thread may stand.
-/

namespace GfDit.FrontEnd

open Custody

namespace AsyncOmniDiffusion

variable {ρ δ ω : Type} {s s' : AsyncOmniDiffusion ρ δ ω} {requestId : String}
  {token : Token ρ δ ω} {reply : Reply δ}

-- ---------------------------------------------------------------------------
-- Results that come back
-- ---------------------------------------------------------------------------

theorem Orderly.draining (h : Orderly s) (hc : s.control = .draining) :
    Orderly (s.controlStep reply) := by
  cases ho : s.postprocessOutQueue with
  | nil =>
    simp only [controlStep, hc, ho]
    refine ⟨h.books.keep (.of_log rfl rfl rfl) ?_ rfl rfl,
      h.filed.keep rfl (fun _ hm => hm) rfl rfl,
      h.rounds.outside rfl rfl rfl trivial⟩
    rw [← ho]
    exact holdings_next (by rw [hc]; rfl) (by rw [hc]; rfl) rfl rfl
  | cons item rest =>
    simp only [controlStep, hc, ho]
    exact ⟨h.books.keep (.of_log rfl rfl rfl) (holdings_drain hc ho) rfl rfl,
      h.filed.keep rfl (fun _ hm => hm) rfl rfl,
      h.rounds.outside rfl rfl rfl trivial⟩

theorem Orderly.drained (h : Orderly s) (hc : s.control = .drained requestId outcome) :
    Orderly (s.controlStep reply) := by
  have hhand : s.control.inHand = {(requestId, .done outcome)} := by rw [hc]; rfl
  have hnone : s.control.fetched = none := by rw [hc]; rfl
  obtain ⟨-, hrn, hen⟩ := inHand_only h.books.single hhand
  simp only [controlStep, hc, takeResult]
  by_cases hm : requestId ∈ s.cancelledRequests
  · simp only [if_pos hm]
    have hh := @handover_hand ρ δ ω s requestId _ none .draining hhand hnone rfl rfl
    refine ⟨h.books.handover (.of_log rfl rfl rfl) hh
        (fun _ hm => Finset.mem_of_mem_erase hm)
        (fun _ hne hm => Finset.mem_erase.mpr ⟨hne, hm⟩) (fun _ _ => rfl)
        (fun _ hr => h.books.engine hr) trivial (.inr hm),
      h.filed.keep rfl (Finset.erase_subset _ _) rfl rfl,
      h.rounds.outside rfl rfl rfl trivial⟩
  · simp only [if_neg hm]
    cases outcome with
    | ok result =>
      exact ⟨h.books.keep (.of_log rfl rfl rfl)
          (@holdings_result ρ δ ω s requestId result hhand hnone hrn .draining rfl rfl) rfl rfl,
        h.filed.complete rfl (fun _ hm => hm) hm rfl rfl hrn hen,
        h.rounds.outside rfl rfl rfl trivial⟩
    | error message =>
      exact ⟨h.books.keep (.of_log rfl rfl rfl)
          (@holdings_failed ρ δ ω s requestId message hhand hen .draining rfl rfl
            s.submissionIds (by rw [hnone])) rfl rfl,
        h.filed.fail rfl (fun _ hm => hm) rfl rfl hrn hen,
        h.rounds.outside rfl rfl rfl trivial⟩

-- ---------------------------------------------------------------------------
-- Requests that go to the engine
-- ---------------------------------------------------------------------------

theorem Orderly.submitting (h : Orderly s) (hc : s.control = .submitting) :
    Orderly (s.controlStep reply) := by
  cases ho : s.submitQueue with
  | nil =>
    simp only [controlStep, hc, ho]
    refine ⟨h.books.keep (.of_log rfl rfl rfl) ?_ rfl rfl,
      h.filed.keep rfl (fun _ hm => hm) rfl rfl,
      h.rounds.outside rfl rfl rfl trivial⟩
    rw [← ho]
    exact holdings_next (by rw [hc]; rfl) (by rw [hc]; rfl) rfl rfl
  | cons request rest =>
    simp only [controlStep, hc, ho]
    exact ⟨h.books.keep (.of_log rfl rfl rfl) (holdings_taken hc ho) rfl rfl,
      h.filed.keep rfl (fun _ hm => hm) rfl rfl,
      h.rounds.outside rfl rfl rfl trivial⟩

theorem Orderly.taken (h : Orderly s) (hc : s.control = .taken request) :
    Orderly (s.controlStep reply) := by
  simp only [controlStep, hc]
  by_cases hm : request.requestId ∈ s.cancelledRequests
  · simp only [if_pos hm]
    have hhand : s.control.inHand = {(request.requestId, .waiting request)} := by rw [hc]; rfl
    have hnone : s.control.fetched = none := by rw [hc]; rfl
    have hh := @handover_hand ρ δ ω s request.requestId _ none .submitting hhand hnone rfl rfl
    exact ⟨h.books.handover (.of_log rfl rfl rfl) hh (fun _ hm => hm) (fun _ _ hm => hm)
        (fun _ _ => rfl) (fun _ hr => h.books.engine hr) trivial (.inr hm),
      h.filed.keep rfl (fun _ hm => hm) rfl rfl,
      h.rounds.outside rfl rfl rfl trivial⟩
  · simp only [if_neg hm]
    exact ⟨h.books.keep (.of_log rfl rfl rfl) (holdings_passing hc) rfl rfl,
      h.filed.keep rfl (fun _ hm => hm) rfl rfl,
      h.rounds.outside rfl rfl rfl trivial⟩

theorem Orderly.passing (h : Orderly s) (hc : s.control = .passing request) :
    Orderly (s.controlStep reply) := by
  have hhand : s.control.inHand = {(request.requestId, .waiting request)} := by rw [hc]; rfl
  have hnone : s.control.fetched = none := by rw [hc]; rfl
  have hheld : (request.requestId, .waiting request) ∈ s.holdings :=
    mem_holdings.mpr (.inr (.inl (by rw [hhand]; simp)))
  obtain ⟨r, hid, hsub, rfl, hcur⟩ := h.books.owned hheld
  have haccept : Orderly (s.accepted request) := by
    have hframe : Frame s (s.accepted request) :=
      ⟨rfl, rfl, List.subset_cons_self .., fun _ => rfl⟩
    have hh := @handover_hand ρ δ ω s request.requestId _ (some .running)
      (.passed request.requestId request.requestId) hhand hnone rfl rfl
    refine ⟨h.books.handover hframe hh (fun _ hm => hm) (fun _ _ hm => hm)
        (fun _ hne => Dict.get?_set_ne _ hne.symm _) ?_ ?_ (.inl rfl),
      h.filed.keep rfl (fun _ hm => hm) rfl rfl,
      h.rounds.outside rfl rfl rfl rfl⟩
    · intro other hr
      obtain rfl := Option.some.inj ((Dict.get?_set_self ..).symm.trans hr)
      exact ⟨rfl, hframe.log hsub⟩
    · exact ⟨request, rfl, hframe.log hsub, Dict.get?_set_self .., hcur⟩
  simp only [controlStep, hc]
  cases reply with
  | raised message =>
    have hframe : Frame s (s.engineSubmit request (.raised message)) :=
      ⟨rfl, rfl, fun _ hm => List.mem_cons_of_mem _ (List.mem_cons_of_mem _ hm),
        fun _ => rfl⟩
    have hh := @handover_hand ρ δ ω s request.requestId _
      (some (.done (.error ("Diffusion submit failed: " ++ message))))
      (.refused request.requestId ("Diffusion submit failed: " ++ message)) hhand hnone rfl rfl
    refine ⟨h.books.handover hframe hh (fun _ hm => hm) (fun _ _ hm => hm) (fun _ _ => rfl)
        (fun _ hr => (h.books.engine hr).imp_right fun hm => hframe.log hm) ?_
        (.inl rfl),
      h.filed.keep rfl (fun _ hm => hm) rfl rfl,
      h.rounds.outside rfl rfl rfl trivial⟩
    exact ⟨request, rfl, hframe.log hsub, List.mem_cons_self .., hcur⟩
  | timedOut | ready _ => exact haccept

theorem Orderly.passed (h : Orderly s) (hc : s.control = .passed requestId submissionId) :
    Orderly (s.controlStep reply) := by
  have hhand : s.control.inHand = {(requestId, .running)} := by rw [hc]; rfl
  obtain ⟨hsub, -⟩ := inHand_only h.books.single hhand
  have hnone : s.submissionIds.get? requestId = none := by
    cases hk : s.submissionIds.get? requestId with
    | none => rfl
    | some _ => exact absurd (submitted_of_get hk (by simp [hc, Control.fetched])) (hsub _)
  obtain rfl : submissionId = requestId := by
    have := h.rounds.passed
    rwa [hc] at this
  simp only [controlStep, hc]
  refine ⟨h.books.keep (.of_log rfl rfl rfl) (holdings_accepted hc hnone) rfl rfl,
    h.filed.keep rfl (fun _ hm => hm) rfl rfl,
    h.rounds.later (List.nil_sublist _) (List.nil_subset _) ?_ trivial
      (fun _ hm => absurd hm List.not_mem_nil) fun _ hm => absurd hm List.not_mem_nil⟩
  intro other id hk
  rw [Dict.get?_set] at hk
  split at hk
  · exact (Option.some.inj hk).symm.trans ‹_›
  · exact h.rounds.named hk

theorem Orderly.refused (h : Orderly s) (hc : s.control = .refused requestId message) :
    Orderly (s.controlStep reply) := by
  have hhand : s.control.inHand = {(requestId, .done (.error message))} := by rw [hc]; rfl
  obtain ⟨-, hrn, hen⟩ := inHand_only h.books.single hhand
  simp only [controlStep, hc]
  exact ⟨h.books.keep (.of_log rfl rfl rfl)
      (@holdings_failed ρ δ ω s requestId message hhand hen .submitting rfl rfl
        s.submissionIds (by rw [hc]; rfl)) rfl rfl,
    h.filed.fail rfl (fun _ hm => hm) rfl rfl hrn hen,
    h.rounds.outside rfl rfl rfl trivial⟩

-- ---------------------------------------------------------------------------
-- The round over the submissions
-- ---------------------------------------------------------------------------

theorem Orderly.snapshot (h : Orderly s) (hc : s.control = .snapshot) :
    Orderly (s.controlStep reply) := by
  have hget {item : String × String} (hm : item ∈ s.submissionIds.entries) :
      s.submissionIds.get? item.1 = some item.2 := s.submissionIds.get?_eq_some.mpr hm
  simp only [controlStep, hc]
  refine ⟨h.books.keep (.of_log rfl rfl rfl)
      (holdings_next (by rw [hc]; rfl) (by rw [hc]; rfl) rfl rfl) rfl rfl,
    h.filed.keep rfl (fun _ hm => hm) rfl rfl,
    ⟨s.submissionIds.nodup, h.rounds.named, trivial, fun {id _} hm => ?_, fun hm hnone => ?_⟩⟩
  · refine ⟨h.rounds.named (hget hm), ?_⟩
    have hrun : (id, .running) ∈ s.submitted :=
      submitted_of_get (hget hm) (by simp [hc, Control.fetched])
    obtain ⟨request, rfl, -, hb, -⟩ := h.books.owned (mem_holdings.mpr (.inr (.inr (.inl hrun))))
    exact Option.isSome_iff_exists.mpr ⟨_, hb⟩
  · cases hnone.symm.trans (hget hm)

theorem Orderly.polling (h : Orderly s) (hc : s.control = .polling inflight) :
    Orderly (s.controlStep reply) := by
  have hround : s.control.round = inflight.map Prod.fst := by rw [hc]; rfl
  have hahead : s.control.ahead = inflight := by rw [hc]; rfl
  cases inflight with
  | nil =>
    simp only [controlStep, hc]
    exact ⟨h.books.keep (.of_log rfl rfl rfl)
        (holdings_next (by rw [hc]; rfl) (by rw [hc]; rfl) rfl rfl) rfl rfl,
      h.filed.keep rfl (fun _ hm => hm) rfl rfl,
      h.rounds.outside rfl rfl rfl trivial⟩
  | cons item inflight =>
    obtain ⟨requestId, submissionId⟩ := item
    simp only [controlStep, hc]
    by_cases hm : requestId ∈ s.cancelledRequests
    · simp only [if_pos hm]
      have hnot : ∀ item ∈ inflight, item.1 ≠ requestId := by
        have := hround ▸ h.rounds.nodup
        rw [List.map_cons, List.nodup_cons] at this
        exact fun item hi heq => this.1 (List.mem_map.mpr ⟨item, hi, heq⟩)
      have hother {item : String × String} (hi : item ∈ inflight) :
          (s.submissionIds.erase requestId).get? item.1 = s.submissionIds.get? item.1 :=
        Dict.get?_erase_ne _ (hnot item hi).symm
      have hdrop := @handover_dropped ρ δ ω s requestId (.polling inflight)
        (by rw [hc]; rfl) (by rw [hc]; rfl) rfl rfl
      refine ⟨?_, h.filed.keep rfl (fun _ hm => hm) rfl rfl,
        h.rounds.later (hround ▸ List.sublist_cons_self ..) (hahead ▸ List.subset_cons_self ..)
          ?_ trivial (fun item hi => ⟨hother hi, rfl, fun hm => hm⟩) ?_⟩
      · rcases hdrop with hsame | hh
        · exact h.books.keep (.of_log rfl rfl rfl) hsame rfl rfl
        · exact h.books.handover (.of_log rfl rfl rfl) hh (fun _ hm => hm) (fun _ _ hm => hm)
            (fun _ _ => rfl) (fun _ hr => h.books.engine hr) trivial (.inr hm)
      · intro other id hk
        rw [Dict.get?_erase] at hk
        split at hk
        · cases hk
        · exact h.rounds.named hk
      · intro item hi t ht
        rcases hdrop with hsame | hh
        · exact ⟨t, hsame ▸ ht⟩
        · exact ⟨t, (hh.mem_other (hnot item hi)).mp ht⟩
    · simp only [if_neg hm]
      have hsame := @holdings_next ρ δ ω s (by rw [hc]; rfl) (by rw [hc]; rfl)
        (.collecting requestId submissionId inflight) rfl rfl
      exact ⟨h.books.keep (.of_log rfl rfl rfl) hsame rfl rfl,
        h.filed.keep rfl (fun _ hm => hm) rfl rfl,
        h.rounds.later (hround ▸ List.Sublist.refl _) (hahead ▸ List.Subset.refl _)
          (fun _ _ hk => h.rounds.named hk) trivial (fun _ _ => ⟨rfl, rfl, fun hm => hm⟩)
          fun _ _ t ht => ⟨t, hsame ▸ ht⟩⟩

theorem Orderly.fetching (h : Orderly s)
    (hc : s.control = .collecting requestId submissionId inflight) :
    submissionId = requestId ∧ ∃ request, s.pendingRequests.get? requestId = some request ∧
      (current requestId s.log = some request ∨ requestId ∈ s.cancelledRequests) ∧
        (s.submissionIds.get? requestId = none → ∀ t, (requestId, t) ∉ s.holdings) := by
  have hmem : (requestId, submissionId) ∈ s.control.ahead := by rw [hc]; exact List.mem_cons_self ..
  obtain ⟨hname, hsome⟩ := h.rounds.known hmem
  obtain ⟨request, hr⟩ := Option.isSome_iff_exists.mp hsome
  refine ⟨hname, request, hr, ?_, fun hnone => (h.rounds.gone hmem hnone).2⟩
  cases hk : s.submissionIds.get? requestId with
  | none => exact .inr (h.rounds.gone hmem hk).1
  | some _ =>
    have hrun : (requestId, .running) ∈ s.submitted :=
      submitted_of_get hk (by simp [hc, Control.fetched])
    obtain ⟨r, rfl, -, hb, hcur⟩ := h.books.owned (mem_holdings.mpr (.inr (.inr (.inl hrun))))
    obtain rfl := Option.some.inj (hr.symm.trans hb)
    exact hcur

theorem Orderly.collecting (h : Orderly s)
    (hc : s.control = .collecting requestId submissionId inflight) :
    Orderly (s.controlStep reply) := by
  have hround : s.control.round = requestId :: inflight.map Prod.fst := by rw [hc]; rfl
  have hahead : s.control.ahead = (requestId, submissionId) :: inflight := by rw [hc]; rfl
  have hnot : ∀ item ∈ inflight, item.1 ≠ requestId := fun item hi heq =>
    (List.nodup_cons.mp (hround ▸ h.rounds.nodup)).1 (List.mem_map.mpr ⟨item, hi, heq⟩)
  obtain ⟨rfl, request, hr, hcur, hfresh⟩ := h.fetching hc
  obtain ⟨hid, hsub⟩ := h.books.engine hr
  have hfetch {t : Token ρ δ ω} {control : Control ρ δ ω} :=
    @handover_fetched ρ δ ω s submissionId t control (by rw [hc]; rfl) (by rw [hc]; rfl)
  simp only [controlStep, hc, engineCollectRaw, hr]
  cases reply with
  | timedOut =>
    have hsame := @holdings_next ρ δ ω s (by rw [hc]; rfl) (by rw [hc]; rfl)
      (.polling inflight) rfl rfl
    exact ⟨h.books.keep (.of_log rfl rfl rfl) hsame rfl rfl,
      h.filed.keep rfl (fun _ hm => hm) rfl rfl,
      h.rounds.later (hround ▸ List.sublist_cons_self ..) (hahead ▸ List.subset_cons_self ..)
        (fun _ _ hk => h.rounds.named hk) trivial (fun _ _ => ⟨rfl, rfl, fun hm => hm⟩)
        fun _ _ t ht => ⟨t, hsame ▸ ht⟩⟩
  | raised message =>
    obtain ⟨old, hh⟩ := @hfetch (.done (.error ("Diffusion collect failed: " ++ message)))
      (.lost submissionId ("Diffusion collect failed: " ++ message) inflight)
      rfl rfl hfresh
    have hframe : Frame s (({ s with
        control := .lost submissionId ("Diffusion collect failed: " ++ message) inflight } :
        AsyncOmniDiffusion ρ δ ω).record
          (.produced request (.error ("Diffusion collect failed: " ++ message)))) :=
      ⟨rfl, rfl, List.subset_cons_self .., fun _ => rfl⟩
    refine ⟨h.books.handover hframe hh (fun _ hm => hm) (fun _ _ hm => hm) (fun _ _ => rfl)
        (fun _ hr => (h.books.engine hr).imp_right fun hm => hframe.log hm) ?_ (.inl rfl),
      h.filed.keep rfl (fun _ hm => hm) rfl rfl,
      h.rounds.later (hround ▸ List.Sublist.refl _) (hahead ▸ List.subset_cons_self ..)
        (fun _ _ hk => h.rounds.named hk) trivial (fun _ _ => ⟨rfl, rfl, fun hm => hm⟩)
        fun item hi t ht => ⟨t, (hh.mem_other (hnot item hi)).mp ht⟩⟩
    exact ⟨request, hid, hframe.log hsub, List.mem_cons_self .., hcur⟩
  | ready output =>
    obtain ⟨old, hh⟩ := @hfetch (.collected ⟨request, output⟩)
      (.collected submissionId ⟨request, output⟩ inflight) rfl rfl hfresh
    have hother {other : String} (hne : other ≠ submissionId) :
        (s.pendingRequests.erase submissionId).get? other = s.pendingRequests.get? other :=
      Dict.get?_erase_ne _ hne.symm
    refine ⟨h.books.handover (.of_log rfl rfl rfl) hh (fun _ hm => hm) (fun _ _ hm => hm)
        (fun _ hne => hother hne) (fun _ hr => ?_) ?_ (.inl rfl),
      h.filed.keep rfl (fun _ hm => hm) rfl rfl,
      h.rounds.later (hround ▸ List.Sublist.refl _) (hahead ▸ List.subset_cons_self ..)
        (fun _ _ hk => h.rounds.named hk) trivial
        (fun item hi => ⟨rfl, by rw [hother (hnot item hi)], fun hm => hm⟩)
        fun item hi t ht => ⟨t, (hh.mem_other (hnot item hi)).mp ht⟩⟩
    · cases (Dict.get?_erase_self ..).symm.trans hr
    · exact ⟨request, hid, hsub, rfl, hcur⟩

theorem Rounds.erase (h : Rounds s) (hround : s.control.round = requestId :: inflight.map Prod.fst)
    (hahead : s.control.ahead = inflight)
    (hr : s'.control.round.Sublist (requestId :: inflight.map Prod.fst))
    (ha : s'.control.ahead = inflight)
    (hs : s'.submissionIds = s.submissionIds.erase requestId)
    (he : s'.pendingRequests = s.pendingRequests)
    (hm : s'.cancelledRequests = s.cancelledRequests)
    (hp : s'.control.Named)
    (hh : s'.holdings = s.holdings) : Rounds s' := by
  have hnot : ∀ item ∈ inflight, item.1 ≠ requestId := fun item hi heq =>
    (List.nodup_cons.mp (hround ▸ h.nodup)).1 (List.mem_map.mpr ⟨item, hi, heq⟩)
  refine h.later (hround ▸ hr) (hahead ▸ ha ▸ List.Subset.refl _) ?_ hp
    (fun item hi => ?_) fun _ _ t ht => ⟨t, hh ▸ ht⟩
  · intro other submissionId hk
    rw [hs, Dict.get?_erase] at hk
    split at hk
    · cases hk
    · exact h.named hk
  · rw [hs, he, hm]
    exact ⟨Dict.get?_erase_ne _ (hnot item (ha ▸ hi)).symm, rfl, fun hm => hm⟩

theorem Orderly.lost (h : Orderly s) (hc : s.control = .lost requestId message inflight) :
    Orderly (s.controlStep reply) := by
  have hhand : s.control.inHand = {(requestId, .done (.error message))} := by rw [hc]; rfl
  obtain ⟨-, hrn, hen⟩ := inHand_only h.books.single hhand
  have hsame := @holdings_failed ρ δ ω s requestId message hhand hen (.polling inflight) rfl rfl
    (s.submissionIds.erase requestId) (by rw [hc]; exact entries_fetched _ _)
  simp only [controlStep, hc]
  exact ⟨h.books.keep (.of_log rfl rfl rfl) hsame rfl rfl,
    h.filed.fail rfl (fun _ hm => hm) rfl rfl hrn hen,
    h.rounds.erase (by rw [hc]; rfl) (by rw [hc]; rfl) (List.sublist_cons_self ..) rfl rfl rfl rfl
      trivial hsame⟩

theorem Orderly.collected (h : Orderly s) (hc : s.control = .collected requestId result inflight) :
    Orderly (s.controlStep reply) := by
  have hsame := holdings_fetched hc
  simp only [controlStep, hc]
  exact ⟨h.books.keep (.of_log rfl rfl rfl) hsame rfl rfl,
    h.filed.keep rfl (fun _ hm => hm) rfl rfl,
    h.rounds.erase (by rw [hc]; rfl) (by rw [hc]; rfl) (List.Sublist.refl _) rfl rfl rfl rfl
      trivial hsame⟩

theorem Rounds.next (h : Rounds s) (hr : s'.control.round.Sublist s.control.round)
    (ha : s'.control.ahead = s.control.ahead) (hs : s'.submissionIds = s.submissionIds)
    (he : s'.pendingRequests = s.pendingRequests)
    (hm : s'.cancelledRequests = s.cancelledRequests)
    (hp : s'.control.Named)
    (hh : ∀ item ∈ s.control.ahead, ∀ t, (item.1, t) ∈ s'.holdings →
      ∃ t, (item.1, t) ∈ s.holdings) : Rounds s' := by
  refine h.later hr (ha ▸ List.Subset.refl _) (fun _ _ hk => h.named (hs ▸ hk)) hp
    (fun item hi => ?_) (ha ▸ hh)
  rw [hs, he, hm]
  exact ⟨rfl, rfl, fun hm => hm⟩

theorem Orderly.enqueueing (h : Orderly s)
    (hc : s.control = .enqueueing requestId result inflight) :
    Orderly (s.controlStep reply) := by
  have hhand : s.control.inHand = {(requestId, .collected result)} := by rw [hc]; rfl
  have hnone : s.control.fetched = none := by rw [hc]; rfl
  have haccept : Orderly { s with
      postprocessInQueue := s.postprocessInQueue ++ [(requestId, result)]
      control := .enqueued requestId inflight } :=
    ⟨h.books.keep (.of_log rfl rfl rfl) (holdings_enqueued hc) rfl rfl,
      h.filed.keep rfl (fun _ hm => hm) rfl rfl,
      h.rounds.next (by rw [hc]; exact List.Sublist.refl _) (by rw [hc]; rfl) rfl rfl rfl trivial
        fun _ _ t ht => ⟨t, holdings_enqueued hc ▸ ht⟩⟩
  simp only [controlStep, hc]
  cases reply with
  | raised message =>
    have hheld : (requestId, .collected result) ∈ s.holdings :=
      mem_holdings.mpr (.inr (.inl (by rw [hhand]; simp)))
    obtain ⟨request, rfl, hsub, hb, hcur⟩ := h.books.owned hheld
    have hh := @handover_hand ρ δ ω s request.requestId _
      (some (.done (.error ("Diffusion postprocess enqueue failed: " ++ message))))
      (.undelivered request.requestId ("Diffusion postprocess enqueue failed: " ++ message)
        inflight) hhand hnone rfl rfl
    have hframe : Frame s (({ s with
        control := .undelivered request.requestId
          ("Diffusion postprocess enqueue failed: " ++ message) inflight } :
        AsyncOmniDiffusion ρ δ ω).record (.produced result.request
          (.error ("Diffusion postprocess enqueue failed: " ++ message)))) :=
      ⟨rfl, rfl, List.subset_cons_self .., fun _ => rfl⟩
    refine ⟨h.books.handover hframe hh (fun _ hm => hm) (fun _ _ hm => hm) (fun _ _ => rfl)
        (fun _ hr => (h.books.engine hr).imp_right fun hm => hframe.log hm) ?_ (.inl rfl),
      h.filed.keep rfl (fun _ hm => hm) rfl rfl,
      h.rounds.next (by rw [hc]; exact List.Sublist.refl _) (by rw [hc]; rfl) rfl rfl rfl trivial
        fun _ _ _ ht => hh.exists_old ht⟩
    have hb : result.request = request := hb
    exact ⟨request, rfl, hframe.log hsub, by rw [hb]; exact List.mem_cons_self .., hcur⟩
  | timedOut | ready _ => exact haccept

theorem Orderly.enqueued (h : Orderly s) (hc : s.control = .enqueued requestId inflight) :
    Orderly (s.controlStep reply) := by
  have hsame := @holdings_next ρ δ ω s (by rw [hc]; rfl) (by rw [hc]; rfl)
    (.polling inflight) rfl rfl
  simp only [controlStep, hc]
  exact ⟨h.books.keep (.of_log rfl rfl rfl) hsame rfl rfl,
    h.filed.keep rfl (fun _ hm => hm) rfl rfl,
    h.rounds.next (by rw [hc]; exact List.sublist_cons_self ..) (by rw [hc]; rfl) rfl rfl rfl
      trivial fun _ _ t ht => ⟨t, hsame ▸ ht⟩⟩

theorem Orderly.undelivered (h : Orderly s)
    (hc : s.control = .undelivered requestId message inflight) :
    Orderly (s.controlStep reply) := by
  have hhand : s.control.inHand = {(requestId, .done (.error message))} := by rw [hc]; rfl
  obtain ⟨-, hrn, hen⟩ := inHand_only h.books.single hhand
  have hsame := @holdings_failed ρ δ ω s requestId message hhand hen (.polling inflight) rfl rfl
    s.submissionIds (by rw [hc]; rfl)
  simp only [controlStep, hc]
  exact ⟨h.books.keep (.of_log rfl rfl rfl) hsame rfl rfl,
    h.filed.fail rfl (fun _ hm => hm) rfl rfl hrn hen,
    h.rounds.next (by rw [hc]; exact List.sublist_cons_self ..) (by rw [hc]; rfl) rfl rfl rfl
      trivial fun _ _ t ht => ⟨t, hsame ▸ ht⟩⟩

theorem Orderly.control (h : Orderly s) (reply : Reply δ) : Orderly (s.controlStep reply) := by
  cases hc : s.control with
  | draining => exact h.draining hc
  | drained _ _ => exact h.drained hc
  | submitting => exact h.submitting hc
  | taken _ => exact h.taken hc
  | passing _ => exact h.passing hc
  | passed _ _ => exact h.passed hc
  | refused _ _ => exact h.refused hc
  | snapshot => exact h.snapshot hc
  | polling _ => exact h.polling hc
  | collecting _ _ _ => exact h.collecting hc
  | lost _ _ _ => exact h.lost hc
  | collected _ _ _ => exact h.collected hc
  | enqueueing _ _ _ => exact h.enqueueing hc
  | enqueued _ _ => exact h.enqueued hc
  | undelivered _ _ _ => exact h.undelivered hc

end AsyncOmniDiffusion

end GfDit.FrontEnd
