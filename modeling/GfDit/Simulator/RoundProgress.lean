import GfDit.Simulator.RoundSearch
import GfDit.Simulator.ShapeLaws

/-!
# A round with a candidate schedules one

The length of a round is enough for some steps of every candidate on the GPUs
its shape uses, and a candidate that runs finishes no later than one that is
skipped for the round. So leaving everything idle is never worth as much as
running one candidate, and the round search runs some.
-/

namespace GfDit

namespace Tetriserve

variable {policy : RoundPolicy} {nowMs roundDuration : ℚ} {capacity world : Nat} {cand : Candidate}

-- ---------------------------------------------------------------------------
-- What the candidates are like
-- ---------------------------------------------------------------------------

structure Fitting (world : Nat) (cand : Candidate) : Prop where
  nonneg : ∀ gi, 0 ≤ cand.shape gi
  fits : ∀ gi, cand.shape gi ≠ 0 → gpuCount gi ≤ world
  some : ∃ gi, 0 < cand.shape gi

theorem stairs_shapes (cands : List Enumerated) (stairs : Stairs) :
    ∀ shape ∈ (cands.foldl Stairs.step stairs).shapes,
      shape ∈ stairs.shapes ∨ ∃ c ∈ cands, c.shape = shape := by
  induction cands generalizing stairs with
  | nil => exact fun shape hshape => .inl hshape
  | cons cand cands ih =>
    intro shape hshape
    rcases ih (stairs.step cand) shape hshape with hmem | ⟨c, hc, rfl⟩
    · have hstep : shape ∈ stairs.shapes ∨ shape = cand.shape := by
        unfold Stairs.step at hmem
        split at hmem
        · split at hmem
          · rcases List.mem_append.mp hmem with hmem | hmem
            · exact .inl (List.dropLast_subset _ hmem)
            · exact .inr (List.mem_singleton.mp hmem)
          · rcases List.mem_append.mp hmem with hmem | hmem
            · exact .inl hmem
            · exact .inr (List.mem_singleton.mp hmem)
        · exact .inl hmem
      rcases hstep with hmem | rfl
      · exact .inl hmem
      · exact .inr ⟨cand, List.mem_cons_self .., rfl⟩
    · exact .inr ⟨c, List.mem_cons_of_mem _ hc, rfl⟩

theorem offered_fits {cost : Fin 4 → ℚ} {gi : Fin 4}
    (h : gi ∈ allowedConfigs (offered cost world)) : gpuCount gi ≤ world := by
  by_contra hfit
  have hoffered : offered cost world gi = -1 := if_neg hfit
  simp only [allowedConfigs, List.mem_filter, hoffered, decide_eq_true_eq] at h
  norm_num at h

/-- Every answer of a frontier spreads steps over configs that fit. -/
theorem answer_fits (cost : Fin 4 → ℚ) (steps : Nat) (budget : Option ℚ) (gi : Fin 4)
    (h : (frontierOf (offered cost world) steps).answer budget gi ≠ 0) : gpuCount gi ≤ world := by
  have henum : ∀ c ∈ sortedCands (offered cost world) steps, c.shape gi ≠ 0 →
      gpuCount gi ≤ world := by
    intro c hc hne
    simp only [sortedCands, List.mem_mergeSort, List.mem_map] at hc
    obtain ⟨shape, hshape, rfl⟩ := hc
    by_cases hnone : allowedConfigs (offered cost world) = []
    · simp [hnone, allocations] at hshape
    · have hnodup : (allowedConfigs (offered cost world)).Nodup :=
        (List.nodup_finRange 4).filter _
      obtain ⟨hother, -⟩ := (mem_allocations hnone hnodup).mp hshape
      by_contra hfit
      exact hne (hother gi fun hallowed => hfit (offered_fits hallowed))
  unfold frontierOf at h
  split at h
  · exact absurd rfl h
  · simp only [Frontier.answer] at h
    split at h
    · exact absurd rfl h
    · generalize bisectRight _ budget = count at h
      cases count with
      | zero =>
        simp only at h
        cases hhead : (sortedCands (offered cost world) steps).head? with
        | none => simp [hhead] at h
        | some first =>
          refine henum first (List.mem_of_mem_head? (by simp [hhead])) ?_
          simpa [hhead] using h
      | succ idx =>
        simp only at h
        cases hget : ((sortedCands (offered cost world) steps).foldl Stairs.step
            ⟨[], [], none⟩).shapes[idx]? with
        | none => simp [hget] at h
        | some shape =>
          rcases stairs_shapes _ _ shape (List.mem_of_getElem? hget) with hmem | ⟨c, hc, rfl⟩
          · simp at hmem
          · exact henum c hc (by simpa [hget] using h)

theorem stateM_bind {σ α β : Type} (run : StateM σ α) (next : α → StateM σ β) (s : σ) :
    (run >>= next) s = next (run s).1 (run s).2 := rfl

theorem candidatesOf_fitting {state : PlannerState} (pending : List String) (caches : ShapeCaches)
    (hc : Consistent policy.estimate caches) :
    ∀ cand ∈ (candidatesOf policy state world pending caches).1, Fitting world cand := by
  induction pending generalizing caches with
  | nil => exact fun cand hcand => (nomatch hcand)
  | cons requestId rest ih =>
    unfold candidatesOf
    cases hmeta : state.requestMeta.get? requestId with
    | none => exact ih caches hc
    | some info =>
      simp only
      by_cases hrem : remainingSteps state requestId = 0
      · rw [if_pos hrem]
        exact ih caches hc
      · rw [if_neg hrem]
        obtain ⟨hshape, hc'⟩ := yields_optimalShape info.latentSeqLen
          (remainingSteps state requestId) world (budgetMs state info) caches hc
        rw [stateM_bind, hshape]
        by_cases hsum : ∑ i, (freshFrontier policy.estimate info.latentSeqLen
            (remainingSteps state requestId) world).answer (budgetMs state info) i = 0
        · rw [if_pos hsum]
          exact ih _ hc'
        · rw [if_neg hsum, stateM_bind]
          intro cand hcand
          rcases List.mem_cons.mp hcand with rfl | hcand
          · refine ⟨fun gi => Int.natCast_nonneg _, fun gi hgi => ?_, ?_⟩
            · exact answer_fits _ _ _ gi fun hzero => hgi (Int.natCast_eq_zero.mpr hzero)
            · by_contra hnone
              refine hsum (Finset.sum_eq_zero fun gi _ => ?_)
              by_contra hgi
              exact hnone ⟨gi, Int.natCast_pos.mpr (Nat.pos_of_ne_zero hgi)⟩
          · exact ih _ hc' cand hcand

-- ---------------------------------------------------------------------------
-- The round is long enough
-- ---------------------------------------------------------------------------

theorem foldl_max_le (f : Fin 4 → ℚ) (p : Fin 4 → Bool) (configs : List (Fin 4)) (start : ℚ) :
    start ≤ configs.foldl (fun best gi => if p gi then max best (f gi) else best) start ∧
      ∀ gi ∈ configs, p gi →
        f gi ≤ configs.foldl (fun best gi => if p gi then max best (f gi) else best) start := by
  induction configs generalizing start with
  | nil => exact ⟨le_rfl, fun gi hgi => (nomatch hgi)⟩
  | cons config configs ih =>
    obtain ⟨hstart, hall⟩ := ih (if p config then max start (f config) else start)
    rw [List.foldl_cons]
    constructor
    · refine le_trans ?_ hstart
      split
      · exact le_max_left ..
      · exact le_rfl
    · intro gi hgi hp
      rcases List.mem_cons.mp hgi with rfl | hgi
      · refine le_trans ?_ hstart
        rw [if_pos hp]
        exact le_max_right ..
      · exact hall gi hgi hp

theorem le_roundDuration (cands : List Candidate) (start : ℚ) :
    start ≤ cands.foldl (fun best cand =>
      (List.finRange 4).foldl (fun best gi =>
        if 0 < cand.shape gi then
          max best (stepCost policy cand gi * roundStepGranularity policy cand.pixels)
        else best) best) start ∧
    ∀ cand ∈ cands, ∀ gi, 0 < cand.shape gi →
      stepCost policy cand gi * roundStepGranularity policy cand.pixels ≤
        cands.foldl (fun best cand =>
          (List.finRange 4).foldl (fun best gi =>
            if 0 < cand.shape gi then
              max best (stepCost policy cand gi * roundStepGranularity policy cand.pixels)
            else best) best) start := by
  induction cands generalizing start with
  | nil => exact ⟨le_rfl, fun cand hcand => (nomatch hcand)⟩
  | cons first rest ih =>
    obtain ⟨hle, hmem⟩ := foldl_max_le
      (fun gi => stepCost policy first gi * roundStepGranularity policy first.pixels)
      (fun gi => decide (0 < first.shape gi)) (List.finRange 4) start
    simp only [decide_eq_true_eq] at hle hmem
    obtain ⟨hstart, hall⟩ := ih ((List.finRange 4).foldl (fun best gi =>
      if 0 < first.shape gi then
        max best (stepCost policy first gi * roundStepGranularity policy first.pixels)
      else best) start)
    rw [List.foldl_cons]
    refine ⟨hle.trans hstart, fun cand hcand gi hgi => ?_⟩
    rcases List.mem_cons.mp hcand with rfl | hcand
    · exact (hmem gi (List.mem_finRange gi) hgi).trans hstart
    · exact hall cand hcand gi hgi

/-- A round is as long as one step of any candidate on GPUs its shape uses. -/
theorem stepCost_le_round (hcost : ∀ latentSeqLen gpus, 0 < policy.estimate latentSeqLen gpus)
    {cands : List Candidate} (hcand : cand ∈ cands) {gi : Fin 4} (hgi : 0 < cand.shape gi) :
    stepCost policy cand gi ≤ roundDurationMs policy cands := by
  refine le_trans ?_ ((le_roundDuration cands 0).2 cand hcand gi hgi)
  have hone : (1 : ℚ) ≤ roundStepGranularity policy cand.pixels := by
    unfold roundStepGranularity
    split <;> split <;> norm_num
  exact le_mul_of_one_le_right (hcost ..).le hone

-- ---------------------------------------------------------------------------
-- Running is no worse than waiting
-- ---------------------------------------------------------------------------

theorem survives_mono {a b : ℚ} (h : a ≤ b) (hb : survives policy cand b) :
    survives policy cand a := by
  unfold survives at *
  cases hd : cand.deadlineMs with
  | none => rfl
  | some deadline =>
    simp only [hd] at hb ⊢
    by_cases ha : a ≤ deadline
    · rw [if_pos ha]
    · have hlate : ¬ b ≤ deadline := fun hle => ha (h.trans hle)
      rw [if_neg ha]
      rw [if_neg hlate] at hb
      split at hb
      · cases hb
      · rename_i hthreshold
        rw [if_neg hthreshold]
        simp only [decide_eq_true_eq] at hb ⊢
        refine le_trans ?_ hb
        have hpos : 0 < deadline - cand.arrivalMs := not_le.mp hthreshold
        rw [abs_of_pos (sub_pos.mpr (not_le.mp ha)), abs_of_pos (sub_pos.mpr (not_le.mp hlate))]
        exact div_le_div_of_nonneg_right (sub_le_sub_right h _) hpos.le

theorem shapeTimeMs_eq {shape : Fin 4 → Int} (h : ∀ gi, 0 ≤ shape gi) :
    shapeTimeMs policy cand shape = ∑ gi, stepCost policy cand gi * shape gi := by
  refine sum_filter _ _ fun gi hgi => ?_
  have hzero : shape gi = 0 := le_antisymm (not_lt.mp (by simpa using hgi)) (h gi)
  simp [hzero]

theorem shapeTimeMs_update (h : ∀ gi, 0 ≤ cand.shape gi) {gi : Fin 4} {steps : Int}
    (hsteps : steps ≤ cand.shape gi) :
    stepCost policy cand gi * steps +
        shapeTimeMs policy cand (Function.update cand.shape gi (cand.shape gi - steps)) =
      shapeTimeMs policy cand cand.shape := by
  have hafter : ∀ j, 0 ≤ Function.update cand.shape gi (cand.shape gi - steps) j := by
    intro j
    by_cases hj : j = gi
    · subst hj
      rw [Function.update_self]
      omega
    · rw [Function.update_of_ne hj]
      exact h j
  rw [shapeTimeMs_eq h, shapeTimeMs_eq hafter]
  rw [← Finset.add_sum_erase _ _ (Finset.mem_univ gi),
    ← Finset.add_sum_erase _ (fun j => stepCost policy cand j * (cand.shape j : ℚ))
      (Finset.mem_univ gi), Function.update_self, ← add_assoc]
  congr 1
  · push_cast
    ring
  · refine Finset.sum_congr rfl fun j hj => ?_
    rw [Function.update_of_ne (Finset.ne_of_mem_erase hj)]

theorem surv_le (h : ∀ gi, 0 ≤ cand.shape gi) (hround : 0 ≤ roundDuration) {gi : Fin 4}
    {steps : Int} (hsteps : steps ≤ cand.shape gi) :
    (skipOption policy nowMs roundDuration cand).surv ≤
      (scheduleOption policy nowMs cand gi steps).surv := by
  have hmono : survives policy cand (nowMs + roundDuration + shapeTimeMs policy cand cand.shape) →
      survives policy cand (nowMs + stepCost policy cand gi * steps + shapeTimeMs policy cand
        (Function.update cand.shape gi (cand.shape gi - steps))) := by
    refine survives_mono ?_
    rw [add_assoc, shapeTimeMs_update h hsteps]
    linarith
  simp only [skipOption, scheduleOption]
  split
  · rename_i hskip
    rw [if_pos (hmono hskip)]
  · exact Nat.zero_le _

theorem mem_scheduleOptions (nowMs : ℚ)
    (hcost : ∀ latentSeqLen gpus, 0 < policy.estimate latentSeqLen gpus)
    (hfit : Fitting capacity cand) {gi : Fin 4} (hgi : 0 < cand.shape gi)
    (hround : stepCost policy cand gi ≤ roundDuration) (configs : List (Fin 4))
    (hmem : gi ∈ configs) :
    ∃ steps ≤ cand.shape gi, scheduleOption policy nowMs cand gi steps ∈
      scheduleOptions policy nowMs roundDuration capacity cand configs := by
  induction configs with
  | nil => cases hmem
  | cons config configs ih =>
    unfold scheduleOptions
    by_cases hzero : cand.shape config = 0
    · rw [if_pos hzero]
      refine ih ((List.mem_cons.mp hmem).resolve_left ?_)
      rintro rfl
      omega
    have hcapacity : ¬ capacity < gpuCount config := not_lt.mpr (hfit.fits config hzero)
    have hpos : ¬ stepCost policy cand config ≤ 0 := not_le.mpr (hcost ..)
    rw [if_neg hzero, if_neg hcapacity, if_neg hpos]
    simp only
    by_cases hsame : gi = config
    · subst hsame
      have hfloor : 1 ≤ ⌊roundDuration / stepCost policy cand gi⌋ := by
        rw [Int.le_floor, Int.cast_one]
        exact (one_le_div (hcost ..)).mpr hround
      have hsteps : ¬ min (cand.shape gi) ⌊roundDuration / stepCost policy cand gi⌋ ≤ 0 := by
        omega
      rw [if_neg hsteps]
      exact ⟨_, min_le_left .., List.mem_cons_self ..⟩
    · obtain ⟨steps, hle, hin⟩ := ih ((List.mem_cons.mp hmem).resolve_left hsame)
      refine ⟨steps, hle, ?_⟩
      split
      · exact hin
      · exact List.mem_cons_of_mem _ hin

-- ---------------------------------------------------------------------------
-- Something runs
-- ---------------------------------------------------------------------------

theorem sched_of_mem {configs : List (Fin 4)} {option : ComboOption}
    (h : option ∈ scheduleOptions policy nowMs roundDuration capacity cand configs) :
    option.sched = 1 := by
  induction configs with
  | nil => cases h
  | cons config configs ih =>
    unfold scheduleOptions at h
    split at h
    · exact ih h
    · split at h
      · cases h
      · split at h
        · exact ih h
        · simp only at h
          split at h
          · exact ih h
          · rcases List.mem_cons.mp h with rfl | h
            · rfl
            · exact ih h

theorem eq_skip {option : ComboOption}
    (h : option ∈ comboOptions policy nowMs roundDuration capacity cand) (hs : option.sched = 0) :
    option = skipOption policy nowMs roundDuration cand := by
  rcases List.mem_cons.mp h with rfl | h
  · rfl
  · rw [sched_of_mem h] at hs
    cases hs

theorem picks_eq_skip {cands : List Candidate} {picks : List ComboOption}
    (h : List.Forall₂ (fun cand option =>
      option ∈ comboOptions policy nowMs roundDuration capacity cand) cands picks)
    (hidle : ∀ option ∈ picks, option.sched = 0) :
    picks = cands.map (skipOption policy nowMs roundDuration) := by
  induction h with
  | nil => rfl
  | cons hmem _ ih =>
    rw [List.map_cons, eq_skip hmem (hidle _ (List.mem_cons_self ..)),
      ih fun option hoption => hidle option (List.mem_cons_of_mem _ hoption)]

theorem sched_of_combosOf {picks : List ComboOption} (h : combosOf picks = []) :
    ∀ option ∈ picks, option.sched = 0 := by
  induction picks using List.reverseRecOn with
  | nil => exact fun option hoption => (nomatch hoption)
  | append_singleton picks last ih =>
    rw [combosOf_append, List.append_eq_nil_iff] at h
    obtain ⟨hpicks, hlast⟩ := h
    intro option hoption
    rcases List.mem_append.mp hoption with hoption | hoption
    · exact ih hpicks option hoption
    · obtain rfl := List.mem_singleton.mp hoption
      by_contra hne
      simp [hne] at hlast

theorem worth_lt {a b : List ComboOption} (hsurv : (a.map (·.surv)).sum ≤ (b.map (·.surv)).sum)
    (hsched : (a.map (·.sched)).sum < (b.map (·.sched)).sum) : worth a < worth b := by
  rcases hsurv.lt_or_eq with hlt | heq
  · exact Prod.Lex.toLex_lt_toLex.mpr (.inl hlt)
  · exact Prod.Lex.toLex_lt_toLex.mpr (.inr ⟨heq, Prod.Lex.toLex_lt_toLex.mpr (.inl hsched)⟩)

theorem dpComboSearch_ne_nil
    (hcost : ∀ latentSeqLen gpus, 0 < policy.estimate latentSeqLen gpus) {cands : List Candidate}
    (hfit : ∀ cand ∈ cands, Fitting capacity cand) (hne : cands ≠ []) :
    dpComboSearch policy nowMs cands (roundDurationMs policy cands) capacity ≠ [] := by
  intro hnone
  obtain ⟨picks, hpicks, hcombos, -, hbest⟩ :=
    dpComboSearch_best policy nowMs cands (roundDurationMs policy cands) capacity
  let skip := skipOption policy nowMs (roundDurationMs policy cands)
  have hidle := sched_of_combosOf (hcombos.symm.trans hnone)
  have hskip : picks = cands.map skip := picks_eq_skip hpicks hidle
  obtain ⟨first, rest, rfl⟩ := List.exists_cons_of_ne_nil hne
  have hfirst := hfit first (List.mem_cons_self ..)
  obtain ⟨gi, hgi⟩ := hfirst.some
  have hround : stepCost policy first gi ≤ roundDurationMs policy (first :: rest) :=
    stepCost_le_round hcost (List.mem_cons_self ..) hgi
  obtain ⟨steps, hsteps, hmem⟩ := mem_scheduleOptions nowMs hcost hfirst hgi hround
    (List.finRange 4) (List.mem_finRange gi)
  -- The first candidate runs, all others wait.
  let other := scheduleOption policy nowMs first gi steps :: rest.map skip
  have hsum : ((rest.map skip).map (·.gpus)).sum = 0 := by
    refine List.sum_eq_zero fun gpus hgpus => ?_
    simp only [List.map_map, List.mem_map] at hgpus
    obtain ⟨cand, -, rfl⟩ := hgpus
    rfl
  have hother := hbest other ?_ ?_
  · refine absurd hother (not_le.mpr ?_)
    rw [hskip]
    refine worth_lt ?_ ?_
    · rw [List.map_cons, List.map_cons, List.sum_cons, List.map_cons, List.sum_cons]
      refine Nat.add_le_add_right (surv_le hfirst.nonneg ?_ hsteps) _
      exact ((hcost _ _).le.trans hround)
    · rw [List.map_cons, List.map_cons, List.sum_cons, List.map_cons, List.sum_cons]
      exact Nat.add_lt_add_right Nat.one_pos _
  · refine .cons (List.mem_cons_of_mem _ hmem) ?_
    rw [List.forall₂_map_right_iff, List.forall₂_same]
    exact fun cand _ => List.mem_cons_self ..
  · rw [gpusOf, List.map_cons, List.sum_cons, hsum, Nat.add_zero]
    exact hfirst.fits gi (ne_of_gt hgi)

/-- The combos of a round are a best choice within the free GPUs, and a round
that has a candidate schedules one. -/
theorem round_planning (policy : RoundPolicy)
    (hcost : ∀ latentSeqLen gpus, 0 < policy.estimate latentSeqLen gpus) :
    (∀ (nowMs : ℚ) (cands : List Candidate) (roundDuration : ℚ) (capacity : Nat),
      ∃ picks : List ComboOption,
        List.Forall₂ (fun cand option =>
          option ∈ comboOptions policy nowMs roundDuration capacity cand) cands picks ∧
        dpComboSearch policy nowMs cands roundDuration capacity = combosOf picks ∧
        gpusOf picks ≤ capacity ∧
        ∀ other, List.Forall₂ (fun cand option =>
            option ∈ comboOptions policy nowMs roundDuration capacity cand) cands other →
          gpusOf other ≤ capacity → worth other ≤ worth picks) ∧
    ∀ (state : PlannerState) (pending : List String) (world : Nat) (caches : ShapeCaches),
      Reached policy.estimate caches →
      let cands := (candidates policy state pending world caches).1
      cands ≠ [] →
        dpComboSearch policy state.nowMs cands (roundDurationMs policy cands) world ≠ [] := by
  refine ⟨dpComboSearch_best policy, fun state pending world caches hreach hne => ?_⟩
  exact dpComboSearch_ne_nil hcost (candidatesOf_fitting _ caches hreach.consistent) hne

def flatPolicy : RoundPolicy := ⟨flatEstimate, false, 7 / 100, true, false, false⟩

def pairState : PlannerState where
  nowMs := 0
  requestMeta := ((∅ : Dict String RequestMeta).set "a" ⟨none, 0, 0, 1, 64, 1⟩).set "b"
    ⟨none, 0, 0, 2, 64, 1⟩
  readyByRequest := ∅
  completedSteps := ∅
  inflightTask := ∅
  pixels := ∅

theorem flat_candidates {state : PlannerState} {pending : List String} {caches : ShapeCaches}
    (hc : Consistent flatEstimate caches)
    (h : ∀ requestId ∈ pending, remainingSteps state requestId = 1 ∧
      ∃ info, state.requestMeta.get? requestId = some info ∧ info.deadlineMs = none ∧
        info.latentSeqLen = 64) :
    (candidatesOf flatPolicy state 1 pending caches).1.length = pending.length := by
  induction pending generalizing caches with
  | nil => rfl
  | cons requestId rest ih =>
    obtain ⟨⟨hrem, info, hmeta, hdeadline, hlen⟩, hrest⟩ := List.forall_mem_cons.mp h
    have hyields : Yields flatEstimate (optimalShape flatEstimate 64 1 1 none)
        ((freshFrontier flatEstimate 64 1 1).answer none) := yields_optimalShape 64 1 1 none
    obtain ⟨hshape, hc'⟩ := hyields caches hc
    have hbest : BestShape (fun i => flatEstimate 64 (gpuCount i)) 1 1 none
        ((freshFrontier flatEstimate 64 1 1).answer none) :=
      frontierOf_best (fun _ => ⟨2, Nat.two_pos, rfl⟩) Nat.one_pos Nat.one_pos none
    have hsum : ¬ ∑ i, (optimalShape flatEstimate 64 1 1 none caches).1 i = 0 := by
      rw [hshape, hbest.allocates.total]
      exact Nat.one_ne_zero
    unfold candidatesOf
    rw [hmeta]
    simp only [hrem, if_neg Nat.one_ne_zero, budgetMs, hdeadline, hlen, Option.map_none]
    rw [stateM_bind, show flatPolicy.estimate = flatEstimate from rfl, if_neg hsum, stateM_bind]
    exact congrArg (· + 1) (ih hc' hrest)

/-- Two requests compete for one GPU. -/
theorem round_planning_pair :
    let cands := (candidates flatPolicy pairState ["a", "b"] 1 .empty).1
    let combos := dpComboSearch flatPolicy 0 cands (roundDurationMs flatPolicy cands) 1
    cands.length = 2 ∧ combos ≠ [] ∧ ∃ picks : List ComboOption, combos = combosOf picks ∧
      gpusOf picks ≤ 1 := by
  intro cands combos
  have hcost : ∀ latentSeqLen gpus, 0 < flatPolicy.estimate latentSeqLen gpus := fun _ _ => by
    norm_num [flatPolicy, flatEstimate]
  have hperm : (orderedPending flatPolicy pairState ["a", "b"] 1).Perm ["a", "b"] :=
    List.mergeSort_perm _ _
  have hlength : cands.length = 2 := by
    refine (flat_candidates Reached.empty.consistent fun requestId hm => ?_).trans hperm.length_eq
    rcases List.mem_pair.mp (hperm.mem_iff.mp hm) with rfl | rfl
    · exact ⟨rfl, _, rfl, rfl, rfl⟩
    · exact ⟨rfl, _, rfl, rfl, rfl⟩
  obtain ⟨hbest, hsome⟩ := round_planning flatPolicy hcost
  obtain ⟨picks, -, hpicks, hfits, -⟩ := hbest 0 cands (roundDurationMs flatPolicy cands) 1
  refine ⟨hlength, hsome pairState ["a", "b"] 1 .empty .empty fun hnil => ?_, picks, hpicks, hfits⟩
  exact absurd (hlength.symm.trans (congrArg List.length hnil)) (by decide)

end Tetriserve

end GfDit
