import GfDit.Simulator.RankLaws

/-!
# No scheduled request is dropped

From the answer of the round search to the dispatched blocks: unless some
request on 8 GPUs is doubled, every scheduled request runs in the round, on as
many free ranks as it was given GPUs.
-/

namespace GfDit

namespace Tetriserve

variable {policy : RoundPolicy} {combos : List Combo} {cands : List Candidate}

theorem comboTime_ok {combo : Combo} (h : ∃ cand, cands[combo.idx]? = some cand) :
    ∃ time, comboTime policy cands combo = .ok time := by
  obtain ⟨cand, hcand⟩ := h
  exact ⟨_, by rw [comboTime, candidateAt_ok hcand, Except.ok_bind]; rfl⟩

theorem one_le_maxStep (perStep minTime : ℚ) (steps : Int) : 1 ≤ maxStep perStep minTime steps := by
  unfold maxStep
  split
  · rw [List.getLastD_eq_getLast?]
    cases hlast : List.getLast? _ with
    | none => exact le_rfl
    | some step =>
      have hmem := List.mem_range'_1.mp
        ((List.takeWhile_sublist _).subset (List.mem_of_getLast? hlast))
      exact hmem.1
  · exact le_rfl

/-- Synchronizing only changes steps, to at least one. -/
def Shortened (combo out : Combo) : Prop :=
  ∃ steps > 0, out = { combo with steps }

theorem synchronizeSteps_ok (policy : RoundPolicy)
    (hidx : ∀ combo ∈ combos, ∃ cand, cands[combo.idx]? = some cand) :
    ∃ out, synchronizeSteps policy combos cands = .ok out ∧
      List.Forall₂ Shortened combos out := by
  have htimes : combos.mapM (comboTime policy cands) =
      .ok (combos.map fun combo => (comboTime policy cands combo).toOption.getD (0, 0)) := by
    refine Except.mapM_ok fun combo hmem => ?_
    obtain ⟨time, htime⟩ := comboTime_ok (hidx combo hmem)
    rw [htime]
    rfl
  unfold synchronizeSteps
  rw [htimes, Except.ok_bind]
  refine ⟨_, rfl, ?_⟩
  rw [List.map_zip_eq_zipWith, List.zipWith_map_right, List.zipWith_self]
  exact List.forall₂_map_right_iff.mpr
    (List.forall₂_same.mpr fun combo _ => ⟨_, by exact_mod_cast one_le_maxStep .., rfl⟩)

/-- A block of steps dispatched for a combo on the ranks assigned to it. -/
structure Committed (cands : List Candidate) (combo : Combo) (ranks : List Rank)
    (commitment : Commitment) : Prop where
  request : ∃ cand, cands[combo.idx]? = some cand ∧ commitment.requestId = cand.requestId
  ranks_perm : commitment.ranks.Perm ranks
  steps_pos : 0 < commitment.steps

theorem commit_ok {combo : Combo} {ranks : List Rank} (hidx : ∃ cand, cands[combo.idx]? = some cand)
    (hsteps : 0 < combo.steps) (hranks : ranks.length = combo.gpus) :
    ∃ commitment, commit cands combo ranks = .ok (some commitment) ∧
      Committed cands combo ranks commitment := by
  obtain ⟨cand, hcand⟩ := hidx
  have hblock : 0 < blockStepGranularity cand.pixels := by
    unfold blockStepGranularity
    split_ifs <;> omega
  have hok : commit cands combo ranks = .ok (some ⟨cand.requestId, ranks.mergeSort,
      min combo.steps (blockStepGranularity cand.pixels)⟩) := by
    rw [commit, if_neg (by omega), candidateAt_ok hcand, Except.ok_bind]
    rfl
  exact ⟨_, hok, ⟨cand, hcand, rfl⟩, List.mergeSort_perm .., lt_min hsteps (by exact_mod_cast hblock)⟩

/-- A round without a failure: scaling up keeps the shapes and the capacity,
each combo has as many ranks as GPUs, and each is dispatched. -/
structure PlacedInFull (policy : RoundPolicy) (placement : Placement) (combos : List Combo)
    (cands : List Candidate) (scaled : List Combo) (reshaped : List Candidate)
    (groups : List (List Rank)) (out : List Commitment) : Prop where
  scaled_up : scaleUpToFillBubble policy (largestFirst combos) cands placement.freeRanks.card =
    .ok (scaled, reshaped)
  counts : List.Forall₂ Rescaled (largestFirst combos) scaled
  shapes : List.Forall₂ Reshaped cands reshaped
  nonneg : ∀ cand ∈ reshaped, ∀ gi, 0 ≤ cand.shape gi
  fits : gpuTotal scaled ≤ placement.freeRanks.card
  assigned : assignRanks policy placement scaled reshaped = .ok groups
  filled : List.Forall₂ (fun combo ranks => ranks.length = combo.gpus) scaled groups
  disjoint : groups.flatten.Nodup
  free : ∀ rank ∈ groups.flatten, rank ∈ placement.freeRanks
  placed : placeRound policy placement combos cands = .ok out
  kept : List.Forall₂ (fun pair => Committed cands pair.1 pair.2) (scaled.zip groups) out

theorem largestFirst_perm (combos : List Combo) : (largestFirst combos).Perm combos :=
  List.mergeSort_perm ..

theorem gpuTotal_largestFirst (combos : List Combo) :
    gpuTotal (largestFirst combos) = gpuTotal combos :=
  ((largestFirst_perm combos).map _).sum_eq

theorem largestFirst_sorted (combos : List Combo) :
    (largestFirst combos).Pairwise fun a b => b.gpus ≤ a.gpus := by
  refine (List.pairwise_mergeSort ?_ ?_ combos).imp fun h => of_decide_eq_true h
  · intro a b c hab hbc
    simp only [decide_eq_true_eq] at hab hbc ⊢
    exact hbc.trans hab
  · intro a b
    simpa using le_total b.gpus a.gpus

theorem Searched.largestFirst {world : Nat} (h : Searched cands world combos) :
    Searched cands world (largestFirst combos) where
  distinct := ((largestFirst_perm combos).map _).nodup_iff.mpr h.distinct
  placeable := fun combo hmem => h.placeable combo ((largestFirst_perm combos).mem_iff.mp hmem)
  nonneg := h.nonneg
  fits := gpuTotal_largestFirst combos ▸ h.fits

theorem rescaled_refl {world : Nat} (h : Searched cands world combos) :
    List.Forall₂ Rescaled combos combos := by
  refine List.forall₂_same.mpr fun combo hmem => ?_
  obtain ⟨-, _, -, gi, hgi, hgpus, -⟩ := h.placeable combo hmem
  exact ⟨rfl, rfl, gi, hgi, hgpus⟩

theorem scaleUp_ok {world : Nat} (h : Searched cands world combos)
    (hnone : NoneDoubled policy world cands combos) :
    ∃ scaled reshaped, scaleUpToFillBubble policy combos cands world = .ok (scaled, reshaped) ∧
      List.Forall₂ Rescaled combos scaled ∧ List.Forall₂ Reshaped cands reshaped ∧
      gpuTotal scaled ≤ world := by
  have hsame : List.Forall₂ Reshaped cands cands := List.forall₂_same.mpr fun cand _ => .refl cand
  have hfits := h.fits
  unfold scaleUpToFillBubble
  by_cases hh100 : policy.gpuIsH100 = true
  · exact ⟨combos, cands, if_pos hh100, rescaled_refl h, hsame, hfits⟩
  by_cases hfull : gpuTotal combos ≥ world
  · exact ⟨combos, cands, by rw [if_neg hh100, if_pos hfull]; rfl, rescaled_refl h, hsame, hfits⟩
  rw [if_neg hh100, if_neg hfull]
  obtain ⟨scaled, reshaped, hok, hscaled, hshaped, htotal⟩ :=
    scaleCombos_ok h.distinct h.placeable hfits
      fun combo hmem height cand hcand =>
        (hnone.resolve_left hh100).imp id fun hslow => hslow combo hmem height cand hcand
  exact ⟨scaled, reshaped, hok, hscaled, hshaped, by omega⟩

theorem scaleUp_error {world : Nat} (h : Searched cands world combos)
    (hsorted : combos.Pairwise fun a b => b.gpus ≤ a.gpus)
    (hsome : ¬ NoneDoubled policy world cands combos) :
    scaleUpToFillBubble policy combos cands world =
      .error (.indexError "list index out of range") := by
  unfold NoneDoubled at hsome
  push Not at hsome
  obtain ⟨hh100, hroom, combo, hmem, height, cand, hcand, hfast⟩ := hsome
  rw [scaleUpToFillBubble, if_neg hh100, if_neg (by omega)]
  exact scaleCombos_error hsorted h.placeable hroom ⟨combo, hmem, height, cand, hcand, hfast⟩

theorem commits_ok {groups : List (List Rank)} {shortened : List Combo}
    (hidx : ∀ combo ∈ combos, ∃ cand, cands[combo.idx]? = some cand)
    (hshort : List.Forall₂ Shortened combos shortened)
    (hfilled : List.Forall₂ (fun combo ranks => ranks.length = combo.gpus) combos groups) :
    ∃ out, ((shortened.zip groups).mapM fun (combo, ranks) => commit cands combo ranks) =
        .ok (out.map some) ∧
      List.Forall₂ (fun pair => Committed cands pair.1 pair.2) (combos.zip groups) out := by
  induction hshort generalizing groups with
  | nil => exact ⟨[], rfl, .nil⟩
  | @cons combo short rest shorts hshort _ ih =>
    obtain ⟨ranks, groups, hranks, hrest, rfl⟩ := List.forall₂_cons_left_iff.mp hfilled
    obtain ⟨steps, hsteps, rfl⟩ := hshort
    obtain ⟨commitment, hcommit, hcommitted⟩ :=
      @commit_ok cands { combo with steps } ranks (hidx combo (List.mem_cons_self ..)) hsteps hranks
    obtain ⟨out, hout, hall⟩ :=
      ih (fun other hmem => hidx other (List.mem_cons_of_mem _ hmem)) hrest
    refine ⟨commitment :: out, ?_, .cons ⟨hcommitted.1, hcommitted.2, hcommitted.3⟩ hall⟩
    rw [List.zip_cons_cons, List.mapM_cons]
    simp only [hcommit, hout]
    rfl

theorem Reshaped.requestId {cand out : Candidate} (h : Reshaped cand out) :
    out.requestId = cand.requestId := by
  rw [h.same]

theorem round_placement (policy : RoundPolicy) (placement : Placement)
    (h : Searched cands placement.freeRanks.card combos) :
    (∃ scaled reshaped groups out,
      PlacedInFull policy placement combos cands scaled reshaped groups out) ↔
    NoneDoubled policy placement.freeRanks.card cands combos := by
  have hcongr : NoneDoubled policy placement.freeRanks.card cands (largestFirst combos) ↔
      NoneDoubled policy placement.freeRanks.card cands combos := by
    simp only [NoneDoubled, gpuTotal_largestFirst, (largestFirst_perm combos).mem_iff]
  rw [← hcongr]
  constructor
  · rintro ⟨scaled, reshaped, groups, out, hplaced⟩
    by_contra hsome
    have herror := scaleUp_error h.largestFirst (largestFirst_sorted combos) hsome
    cases herror.symm.trans hplaced.scaled_up
  · intro hnone
    obtain ⟨scaled, reshaped, hok, hscaled, hshaped, hfits⟩ := scaleUp_ok h.largestFirst hnone
    have hidx : ∀ combo ∈ scaled, ∃ cand, reshaped[combo.idx]? = some cand := by
      intro combo hmem
      obtain ⟨before, hbefore, hidx, -⟩ := forall₂_mem_right hscaled hmem
      obtain ⟨-, cand, hcand, -⟩ := h.largestFirst.placeable before hbefore
      obtain ⟨cand', hcand', -⟩ := forall₂_getElem? hshaped hcand
      exact ⟨cand', hidx ▸ hcand'⟩
    obtain ⟨groups, hgroups, hfilled, hdisjoint, hfree⟩ := assignRanks_spec placement hidx hfits
    obtain ⟨shortened, hsync, hshort⟩ := synchronizeSteps_ok policy hidx
    obtain ⟨out, hout, hcommitted⟩ := commits_ok hidx hshort hfilled
    refine ⟨scaled, reshaped, groups, out, hok, hscaled, hshaped, ?_, hfits, hgroups, hfilled,
      hdisjoint, hfree, ?_, hcommitted.imp fun pair commitment hcommit => ?_⟩
    · intro cand hmem
      obtain ⟨before, hbefore, hreshaped⟩ := forall₂_mem_right hshaped hmem
      exact hreshaped.nonneg (h.nonneg before hbefore)
    · rw [placeRound, hok, Except.ok_bind]
      simp only [hgroups, hsync, hout, Except.ok_bind]
      simp [pure, Except.pure, List.filterMap_map]
    · obtain ⟨⟨cand, hcand, hid⟩, hperm, hpos⟩ := hcommit
      obtain ⟨before, hbefore, hreshaped⟩ := forall₂_getElem? hshaped.flip hcand
      exact ⟨⟨before, hbefore, hid.trans hreshaped.requestId⟩, hperm, hpos⟩

-- ---------------------------------------------------------------------------
-- A request on all of the GPUs its shape knows
-- ---------------------------------------------------------------------------

def linearPolicy : RoundPolicy := ⟨fun _ gpus => 32 / gpus, false, 7 / 100, true, false, true⟩

def eightCandidate : Candidate := ⟨"a", none, 0, 64, 64, ![0, 0, 0, 2], 2⟩

def eightCombo : Combo := ⟨0, 8, 3, 2⟩

def freshPlacement (world : Nat) : Placement :=
  ⟨⟨List.range world, [], List.nodup_range, List.nodup_nil, by simp⟩, ∅, Finset.range world⟩

theorem searched_eight {world : Nat} (h : 8 ≤ world) :
    Searched [eightCandidate] (freshPlacement world).freeRanks.card [eightCombo] where
  distinct := List.nodup_singleton _
  placeable := by
    rintro combo hmem
    obtain rfl := List.mem_singleton.mp hmem
    exact ⟨by decide, eightCandidate, rfl, 3, rfl, rfl, by decide⟩
  nonneg := by
    rintro cand hmem
    obtain rfl := List.mem_singleton.mp hmem
    decide
  fits := by simpa [freshPlacement, gpuTotal, eightCombo] using h

/-- On eight free ranks there is no room to double. -/
theorem round_placement_eight : ∃ scaled reshaped groups out, PlacedInFull linearPolicy
    (freshPlacement 8) [eightCombo] [eightCandidate] scaled reshaped groups out :=
  (round_placement linearPolicy (freshPlacement 8) (searched_eight le_rfl)).mpr
    (.inr (.inl (by simp [freshPlacement, gpuTotal, eightCombo])))

/-- On sixteen the request is doubled, and the round fails. -/
theorem round_fails_on_sixteen : ¬ ∃ scaled reshaped groups out, PlacedInFull linearPolicy
    (freshPlacement 16) [eightCombo] [eightCandidate] scaled reshaped groups out := by
  rintro ⟨scaled, reshaped, groups, out, hplaced⟩
  have hfast : FasterOn16 linearPolicy eightCandidate := by
    norm_num [FasterOn16, linearPolicy, eightCandidate]
  have hsome : ¬ NoneDoubled linearPolicy (freshPlacement 16).freeRanks.card [eightCandidate]
      (largestFirst [eightCombo]) := by
    rintro (hh100 | hfull | hslow)
    · cases hh100
    · simp [freshPlacement, largestFirst, gpuTotal, eightCombo] at hfull
    · exact hslow eightCombo (by simp [largestFirst]) rfl eightCandidate rfl hfast
  cases (scaleUp_error (searched_eight (by omega)).largestFirst (largestFirst_sorted _)
    hsome).symm.trans hplaced.scaled_up

end Tetriserve

end GfDit
