import GfDit.Simulator.RoundProgress
import GfDit.Simulator.TetriRanks
import GfDit.Lib.Except
import GfDit.Lib.Forall2
import Mathlib.Data.List.Perm.Subperm

/-!
# Every scheduled request gets its ranks

Scaling up keeps the shapes and stays within the free ranks, and the free
ranks are enough for all. One kind of round fails: scaling stops at 4 GPUs on
the way up, but a request that has 8 already is doubled to 16, a count its
shape has no entry for.
-/

namespace GfDit

namespace Tetriserve

variable {policy : RoundPolicy} {world rankUsed : Nat} {combos : List Combo}
  {cands : List Candidate}

-- ---------------------------------------------------------------------------
-- What a round starts from
-- ---------------------------------------------------------------------------

/-- A combo on a GPU count its candidate has enough steps for. -/
def Placeable (cands : List Candidate) (combo : Combo) : Prop :=
  0 < combo.steps ∧ ∃ cand, cands[combo.idx]? = some cand ∧
    ∃ gi : Fin 4, combo.gi = gi ∧ combo.gpus = gpuCount gi ∧ combo.steps ≤ cand.shape gi

structure Searched (cands : List Candidate) (world : Nat) (combos : List Combo) : Prop where
  distinct : (combos.map (·.idx)).Nodup
  placeable : ∀ combo ∈ combos, Placeable cands combo
  nonneg : ∀ cand ∈ cands, ∀ gi, 0 ≤ cand.shape gi
  fits : gpuTotal combos ≤ world

/-- Sixteen GPUs would be faster than eight. -/
def FasterOn16 (policy : RoundPolicy) (cand : Candidate) : Prop :=
  0 < policy.estimate cand.latentSeqLen 16 ∧
    policy.estimate cand.latentSeqLen 16 < policy.estimate cand.latentSeqLen 8

/-- No request that has 8 GPUs is doubled. -/
def NoneDoubled (policy : RoundPolicy) (world : Nat) (cands : List Candidate)
    (combos : List Combo) : Prop :=
  policy.gpuIsH100 = true ∨ world < gpuTotal combos + 8 ∨
    ∀ combo ∈ combos, combo.gpus = 8 → ∀ cand, cands[combo.idx]? = some cand →
      ¬ FasterOn16 policy cand

-- ---------------------------------------------------------------------------
-- Scaling up
-- ---------------------------------------------------------------------------

/-- What scaling up may do to a combo. -/
def Rescaled (combo out : Combo) : Prop :=
  out.idx = combo.idx ∧ out.steps = combo.steps ∧
    ∃ gi : Fin 4, out.gi = gi ∧ out.gpus = gpuCount gi

/-- What scaling up may do to a candidate: it moves steps in the shape. -/
structure Reshaped (cand out : Candidate) : Prop where
  same : out = { cand with shape := out.shape }
  total : ∑ gi, out.shape gi = ∑ gi, cand.shape gi
  nonneg : (∀ gi, 0 ≤ cand.shape gi) → ∀ gi, 0 ≤ out.shape gi

theorem Reshaped.refl (cand : Candidate) : Reshaped cand cand := ⟨rfl, rfl, id⟩

theorem Reshaped.trans {a b c : Candidate} (hab : Reshaped a b) (hbc : Reshaped b c) :
    Reshaped a c := by
  refine ⟨?_, hbc.total.trans hab.total, fun h => hbc.nonneg (hab.nonneg h)⟩
  rw [hbc.same, hab.same]

theorem gpuCount_doubled :
    ∀ gi : Fin 4, gi ≤ 2 → gpuCount gi * 2 ≠ 8 → ∃ dest ≤ (2 : Fin 4), gpuCount gi * 2 = gpuCount dest := by
  decide

theorem log2_gpuCount (gi : Fin 4) : Nat.log2 (gpuCount gi) = gi := by
  revert gi
  decide

/-- Below eight GPUs the doubling ends at one of the smaller counts. -/
theorem scaledGpus_small {cost : Nat → ℚ} {original needed : Nat} (gi : Fin 4) (hgi : gi ≤ 2)
    (hneeded : needed = gpuCount gi) (hfit : rankUsed + needed ≤ world + original) :
    ∃ dest : Fin 4, scaledGpus cost world rankUsed original needed = gpuCount dest ∧
      rankUsed + gpuCount dest ≤ world + original := by
  fun_induction scaledGpus cost world rankUsed original needed generalizing gi with
  | case1 | case2 | case4 => exact ⟨gi, hneeded, hneeded ▸ hfit⟩
  | case3 needed hroom _ hne ih =>
    subst hneeded
    obtain ⟨dest, hdest, heq⟩ := gpuCount_doubled gi hgi hne
    exact ih dest hdest heq hroom

theorem le_scaledGpus {cost : Nat → ℚ} {original needed : Nat} :
    needed ≤ scaledGpus cost world rankUsed original needed := by
  fun_induction scaledGpus cost world rankUsed original needed with
  | case1 | case2 | case4 => exact le_rfl
  | case3 needed _ _ _ ih => omega

theorem scaledGpus_eight {cand : Candidate}
    (h : world < rankUsed + 8 ∨ ¬ FasterOn16 policy cand) :
    scaledGpus (policy.estimate cand.latentSeqLen) world rankUsed 8 8 = 8 := by
  rw [scaledGpus]
  rcases h with h | h
  · exact if_neg (by omega)
  · have hslow : policy.estimate cand.latentSeqLen (8 * 2) ≤ 0 ∨
        policy.estimate cand.latentSeqLen 8 ≤ policy.estimate cand.latentSeqLen (8 * 2) := by
      by_contra hfast
      push Not at hfast
      exact h hfast
    simp [hslow]

/-- Eight GPUs become sixteen at least. -/
theorem sixteen_le_scaledGpus {cand : Candidate} (hroom : rankUsed + 8 ≤ world)
    (h : FasterOn16 policy cand) :
    16 ≤ scaledGpus (policy.estimate cand.latentSeqLen) world rankUsed 8 8 := by
  rw [scaledGpus, if_pos (by omega), dif_neg (not_or.mpr ⟨not_le.mpr h.1, not_le.mpr h.2⟩),
    if_neg (by decide)]
  exact le_scaledGpus

theorem addSteps_fin (shape : Fin 4 → Int) (gi : Fin 4) (steps : Int) :
    addSteps shape gi steps = .ok (Function.update shape gi (shape gi + steps)) := by
  simp [addSteps, pure, Except.pure]

theorem reshaped_moved (cand : Candidate) {gi dest : Fin 4} {steps : Int} (hpos : 0 ≤ steps)
    (hle : steps ≤ cand.shape gi) :
    Reshaped cand { cand with
      shape := Function.update (Function.update cand.shape gi (cand.shape gi + -steps)) dest
        (Function.update cand.shape gi (cand.shape gi + -steps) dest + steps) } := by
  generalize hshape : Function.update cand.shape gi (cand.shape gi + -steps) = shape
  have htaken : ∑ gi, shape gi = ∑ gi, cand.shape gi - steps := by
    rw [← hshape, Finset.sum_update_of_mem (Finset.mem_univ gi),
      ← Finset.add_sum_erase _ _ (Finset.mem_univ gi), Finset.sdiff_singleton_eq_erase]
    ring
  refine ⟨rfl, ?_, fun hnonneg i => ?_⟩
  · have hgiven : ∑ i, Function.update shape dest (shape dest + steps) i = ∑ i, shape i + steps := by
      rw [Finset.sum_update_of_mem (Finset.mem_univ dest),
        ← Finset.add_sum_erase _ _ (Finset.mem_univ dest), Finset.sdiff_singleton_eq_erase]
      ring
    simp only [hgiven, htaken]
    ring
  · have hleft : ∀ i, 0 ≤ shape i := by
      intro i
      rw [← hshape, Function.update_apply]
      split
      · omega
      · exact hnonneg i
    simp only [Function.update_apply]
    split
    · exact add_nonneg (hleft dest) hpos
    · exact hleft i

theorem candidateAt_ok {idx : Nat} {cand : Candidate} (h : cands[idx]? = some cand) :
    candidateAt cands idx = .ok cand := by
  rw [candidateAt, h]
  rfl

theorem reshaped_set {idx : Nat} {cand out : Candidate} (h : cands[idx]? = some cand)
    (hout : Reshaped cand out) : List.Forall₂ Reshaped cands (cands.set idx out) := by
  induction cands generalizing idx with
  | nil => cases h
  | cons first rest ih =>
    cases idx with
    | zero =>
      obtain rfl : first = cand := by simpa using h
      exact .cons hout (List.forall₂_same.mpr fun cand _ => .refl cand)
    | succ idx => exact .cons (.refl first) (ih (by simpa using h))

theorem Placeable.of_set {combo : Combo} {idx : Nat} {out : Candidate}
    (h : Placeable cands combo) (hne : idx ≠ combo.idx) : Placeable (cands.set idx out) combo := by
  obtain ⟨hpos, cand, hcand, hgi⟩ := h
  exact ⟨hpos, cand, by rw [List.getElem?_set_ne hne, hcand], hgi⟩

/-- A run over combos none of which goes from eight GPUs to more. -/
theorem scaleCombos_ok (hdistinct : (combos.map (·.idx)).Nodup)
    (hplace : ∀ combo ∈ combos, Placeable cands combo) (hworld : rankUsed ≤ world)
    (hcalm : ∀ combo ∈ combos, combo.gpus = 8 → ∀ cand, cands[combo.idx]? = some cand →
      world < rankUsed + 8 ∨ ¬ FasterOn16 policy cand) :
    ∃ out cands', scaleCombos policy world rankUsed combos cands = .ok (out, cands') ∧
      List.Forall₂ Rescaled combos out ∧ List.Forall₂ Reshaped cands cands' ∧
      rankUsed + gpuTotal out ≤ world + gpuTotal combos := by
  induction combos generalizing rankUsed cands with
  | nil => exact ⟨[], cands, rfl, .nil, List.forall₂_same.mpr fun cand _ => .refl cand, by omega⟩
  | cons combo rest ih =>
    obtain ⟨hfresh, hdistinct⟩ := List.nodup_cons.mp hdistinct
    have hplaceRest := fun other hmem => hplace other (List.mem_cons_of_mem _ hmem)
    obtain ⟨hpos, cand, hcand, gi, hgi, hgpus, hle⟩ := hplace combo (List.mem_cons_self ..)
    have hneeded : ∃ dest : Fin 4,
        scaledGpus (policy.estimate cand.latentSeqLen) world rankUsed combo.gpus combo.gpus =
          gpuCount dest ∧ rankUsed + gpuCount dest ≤ world + combo.gpus := by
      by_cases hsmall : gi ≤ 2
      · exact scaledGpus_small gi hsmall hgpus (by omega)
      · obtain rfl : gi = 3 := by omega
        rw [show combo.gpus = 8 from hgpus,
          scaledGpus_eight (hcalm combo (List.mem_cons_self ..) hgpus cand hcand)]
        exact ⟨3, rfl, by change rankUsed + 8 ≤ world + 8; omega⟩
    obtain ⟨dest, hdest, hfit⟩ := hneeded
    rw [scaleCombos, candidateAt_ok hcand, Except.ok_bind, hdest]
    by_cases hsame : gpuCount dest = combo.gpus
    · obtain ⟨out, cands', hok, hscaled, hshaped, htotal⟩ := ih hdistinct hplaceRest hworld
        fun other hmem => hcalm other (List.mem_cons_of_mem _ hmem)
      refine ⟨combo :: out, cands', ?_, .cons ⟨rfl, rfl, gi, hgi, hgpus⟩ hscaled, hshaped, ?_⟩
      · rw [if_pos hsame, hok]
        rfl
      · simp only [gpuTotal, List.map_cons, List.sum_cons] at htotal ⊢
        omega
    · have hgrown : combo.gpus ≤ gpuCount dest := hdest ▸ le_scaledGpus
      have hmoved := @reshaped_moved cand gi dest combo.steps hpos.le hle
      have hother : ∀ other ∈ rest, combo.idx ≠ other.idx := fun other hmem heq =>
        hfresh (List.mem_map.mpr ⟨other, hmem, heq.symm⟩)
      rw [if_neg hsame, hgi, addSteps_fin, Except.ok_bind]
      simp only [log2_gpuCount, addSteps_fin, Except.ok_bind]
      have hbound : rankUsed + gpuCount dest - combo.gpus ≤ world := by omega
      have hcalmRest : ∀ moved, ∀ other ∈ rest, other.gpus = 8 → ∀ cand',
          (cands.set combo.idx moved)[other.idx]? = some cand' →
            world < rankUsed + gpuCount dest - combo.gpus + 8 ∨ ¬ FasterOn16 policy cand' := by
        intro moved other hmem height cand' hcand'
        rw [List.getElem?_set_ne (hother other hmem)] at hcand'
        refine (hcalm other (List.mem_cons_of_mem _ hmem) height cand' hcand').imp_left fun hlt => ?_
        omega
      obtain ⟨out, cands', hok, hscaled, hshaped, htotal⟩ := ih hdistinct
        (fun other hmem => (hplaceRest other hmem).of_set (hother other hmem)) hbound (hcalmRest _)
      rw [hok]
      refine ⟨_, cands', rfl, .cons ⟨rfl, rfl, dest, rfl, rfl⟩ hscaled,
        forall₂_comp (reshaped_set hcand hmoved) hshaped fun _ _ _ => .trans, ?_⟩
      simp only [gpuTotal, List.map_cons, List.sum_cons] at htotal ⊢
      omega

/-- A run over combos in falling order one of which would go on from eight GPUs. -/
theorem scaleCombos_error (hsorted : combos.Pairwise fun a b => b.gpus ≤ a.gpus)
    (hplace : ∀ combo ∈ combos, Placeable cands combo) (hroom : rankUsed + 8 ≤ world)
    (hbad : ∃ combo ∈ combos, combo.gpus = 8 ∧ ∃ cand, cands[combo.idx]? = some cand ∧
      FasterOn16 policy cand) :
    scaleCombos policy world rankUsed combos cands =
      .error (.indexError "list index out of range") := by
  induction combos with
  | nil =>
    obtain ⟨_, hmem, -⟩ := hbad
    cases hmem
  | cons combo rest ih =>
    obtain ⟨hfirst, hsorted⟩ := List.pairwise_cons.mp hsorted
    obtain ⟨hpos, cand, hcand, gi, hgi, hgpus, hle⟩ := hplace combo (List.mem_cons_self ..)
    have hmost : ∀ gi, gpuCount gi ≤ 8 := by decide
    have height : combo.gpus = 8 := by
      have hupper := hmost gi
      obtain ⟨bad, hmem, heq, -⟩ := hbad
      rcases List.mem_cons.mp hmem with rfl | hmem
      · exact heq
      · have := hfirst bad hmem
        omega
    rw [scaleCombos, candidateAt_ok hcand, Except.ok_bind, height]
    by_cases hfast : FasterOn16 policy cand
    · have hmore := sixteen_le_scaledGpus hroom hfast
      generalize scaledGpus (policy.estimate cand.latentSeqLen) world rankUsed 8 8 = needed
        at hmore ⊢
      have hbeyond : ¬ needed.log2 < 4 :=
        not_lt.mpr ((Nat.le_log2 (by omega)).mpr (by norm_num; omega))
      rw [if_neg (by omega), hgi, addSteps_fin, Except.ok_bind]
      simp only [addSteps, dif_neg hbeyond]
      rfl
    · obtain ⟨bad, hmem, hbad⟩ := hbad
      have hrest : bad ∈ rest := by
        rcases List.mem_cons.mp hmem with rfl | hmem
        · obtain ⟨-, cand', hcand', hfast'⟩ := hbad
          cases hcand.symm.trans hcand'
          exact absurd hfast' hfast
        · exact hmem
      rw [scaledGpus_eight (.inr hfast), if_pos rfl,
        ih hsorted (fun other hmem => hplace other (List.mem_cons_of_mem _ hmem))
          ⟨bad, hrest, hbad⟩]
      rfl

-- ---------------------------------------------------------------------------
-- Reserving ranks
-- ---------------------------------------------------------------------------

theorem takeRanks_eq {eligible : Rank → Bool} {free : List Rank} (hn : free.Nodup) (need : Nat)
    (reserved : List Rank) :
    takeRanks eligible free need reserved =
      (free.filter fun rank => eligible rank && decide (rank ∉ reserved)).take need := by
  induction free generalizing need reserved with
  | nil => simp [takeRanks]
  | cons rank rest ih =>
    obtain ⟨hrank, hn⟩ := List.nodup_cons.mp hn
    cases need with
    | zero => simp [takeRanks]
    | succ need =>
      -- Among the later ranks, reserving this one changes nothing.
      have hlater : (rest.filter fun other => eligible other && decide (other ∉ rank :: reserved)) =
          rest.filter fun other => eligible other && decide (other ∉ reserved) := by
        refine List.filter_congr fun other hmem => ?_
        have hne : other ≠ rank := fun heq => hrank (heq ▸ hmem)
        simp [hne]
      rw [takeRanks, List.filter_cons]
      by_cases htake : eligible rank ∧ rank ∉ reserved
      · rw [if_pos htake, if_pos (by simpa using htake), List.take_succ_cons, ih hn, hlater]
      · rw [if_neg htake, if_neg (by simpa using htake), ih hn]

variable {free reserved : List Rank} {eligible : Placing → Rank → Bool} {placings : List Placing}

def Sound (free reserved : List Rank) : Prop := reserved.Nodup ∧ ∀ rank ∈ reserved, rank ∈ free

theorem Sound.append_take (h : Sound free reserved) (hn : free.Nodup) (eligible : Rank → Bool)
    (need : Nat) : Sound free (reserved ++ takeRanks eligible free need reserved) := by
  rw [takeRanks_eq hn]
  have hmem : ∀ rank ∈ (free.filter fun rank => eligible rank && decide (rank ∉ reserved)).take need,
      rank ∈ free ∧ rank ∉ reserved := by
    intro rank hrank
    obtain ⟨hfree, hother⟩ := List.mem_filter.mp (List.mem_of_mem_take hrank)
    simp only [Bool.and_eq_true, decide_eq_true_eq] at hother
    exact ⟨hfree, hother.2⟩
  refine ⟨List.Nodup.append h.1 ((hn.filter _).sublist (List.take_sublist ..)) ?_, ?_⟩
  · exact fun rank hrank htaken => (hmem rank htaken).2 hrank
  · intro rank hrank
    exact (List.mem_append.mp hrank).elim (h.2 rank) fun htaken => (hmem rank htaken).1

theorem Sound.length_left (h : Sound free reserved) (hn : free.Nodup) :
    (free.filter fun rank => decide (rank ∉ reserved)).length + reserved.length = free.length := by
  have hperm : (free.filter fun rank => decide (rank ∈ reserved)).Perm reserved := by
    refine (List.perm_ext_iff_of_nodup (hn.filter _) h.1).mpr fun rank => ?_
    simpa using h.2 rank
  have hsplit := List.length_eq_length_filter_add (l := free) fun rank => decide (rank ∈ reserved)
  rw [hperm.length_eq] at hsplit
  rw [hsplit, Nat.add_comm]
  simp

theorem Sound.reserve (h : Sound free reserved) (hn : free.Nodup) (placings : List Placing) :
    Sound free (reserve eligible free placings reserved).2 := by
  induction placings generalizing reserved with
  | nil => exact h
  | cons placing rest ih => exact ih (h.append_take hn _ _)

theorem reserve_perm {before : List Rank}
    (h : reserved.Perm (before ++ placings.flatMap (·.ranks))) :
    (reserve eligible free placings reserved).2.Perm
      (before ++ (reserve eligible free placings reserved).1.flatMap (·.ranks)) := by
  induction placings generalizing before reserved with
  | nil => exact h
  | cons placing rest ih =>
    simp only [reserve, List.flatMap_cons] at h ⊢
    rw [← List.append_assoc]
    refine ih ?_
    refine (h.append_right _).trans ?_
    simp only [List.append_assoc]
    exact List.Perm.append_left _ (List.Perm.append_left _ List.perm_append_comm)

theorem reserve_within (hn : free.Nodup)
    (h : ∀ placing ∈ placings, placing.ranks.length ≤ placing.gpus) :
    List.Forall₂ (fun placing out => out.gpus = placing.gpus ∧ out.ranks.length ≤ out.gpus)
      placings (reserve eligible free placings reserved).1 := by
  induction placings generalizing reserved with
  | nil => exact .nil
  | cons placing rest ih =>
    have hfirst := h placing (List.mem_cons_self ..)
    refine .cons ⟨rfl, ?_⟩ (ih fun other hmem => h other (List.mem_cons_of_mem _ hmem))
    have htaken : (takeRanks (eligible placing) free (placing.gpus - placing.ranks.length)
        reserved).length ≤ placing.gpus - placing.ranks.length := by
      rw [takeRanks_eq hn]
      exact List.length_take_le ..
    simp only [List.length_append]
    omega

theorem reserve_spec (eligible : Placing → Rank → Bool) (hn : free.Nodup)
    (hsound : Sound free reserved) (hperm : reserved.Perm (placings.flatMap (·.ranks)))
    (h : ∀ placing ∈ placings, placing.ranks.length ≤ placing.gpus) :
    Sound free (reserve eligible free placings reserved).2 ∧
      (reserve eligible free placings reserved).2.Perm
        ((reserve eligible free placings reserved).1.flatMap (·.ranks)) ∧
      List.Forall₂ (fun placing out => out.gpus = placing.gpus ∧ out.ranks.length ≤ out.gpus)
        placings (reserve eligible free placings reserved).1 :=
  ⟨hsound.reserve hn placings, @reserve_perm free reserved eligible placings [] hperm,
    reserve_within hn h⟩

def missing (placing : Placing) : Nat := placing.gpus - placing.ranks.length

/-- With every rank eligible and enough of them, each combo gets all it needs. -/
theorem reserve_full (hn : free.Nodup) (hsound : Sound free reserved)
    (h : ∀ placing ∈ placings, placing.ranks.length ≤ placing.gpus)
    (henough : reserved.length + (placings.map missing).sum ≤ free.length) :
    List.Forall₂ (fun placing out => out.gpus = placing.gpus ∧ out.ranks.length = out.gpus)
      placings (reserve (fun _ _ => true) free placings reserved).1 := by
  induction placings generalizing reserved with
  | nil => exact .nil
  | cons placing rest ih =>
    have hfirst := h placing (List.mem_cons_self ..)
    have hleft := hsound.length_left hn
    simp only [List.map_cons, List.sum_cons] at henough
    have htaken : (takeRanks (fun _ => true) free (placing.gpus - placing.ranks.length)
        reserved).length = missing placing := by
      rw [takeRanks_eq hn, List.length_take]
      simp only [Bool.true_and, missing] at henough ⊢
      omega
    refine .cons ⟨rfl, ?_⟩ (ih (hsound.append_take hn _ _)
      (fun other hmem => h other (List.mem_cons_of_mem _ hmem)) ?_)
    · simp only [List.length_append, htaken, missing]
      omega
    · rw [List.length_append, htaken]
      omega

theorem heldRanks_ok (policy : RoundPolicy) (placement : Placement) {combo : Combo}
    (h : ∃ cand, cands[combo.idx]? = some cand) :
    ∃ held, heldRanks policy placement cands combo = .ok held := by
  obtain ⟨cand, hcand⟩ := h
  unfold heldRanks
  split
  · exact ⟨_, by rw [candidateAt_ok hcand, Except.ok_bind]; rfl⟩
  · exact ⟨[], rfl⟩

/-- Enough free ranks are assigned without overlap, whatever is held. -/
theorem assignRanks_spec (placement : Placement)
    (hidx : ∀ combo ∈ combos, ∃ cand, cands[combo.idx]? = some cand)
    (hfit : gpuTotal combos ≤ placement.freeRanks.card) :
    ∃ groups, assignRanks policy placement combos cands = .ok groups ∧
      List.Forall₂ (fun combo ranks => ranks.length = combo.gpus) combos groups ∧
      groups.flatten.Nodup ∧ ∀ rank ∈ groups.flatten, rank ∈ placement.freeRanks := by
  let start := fun combo : Combo =>
    Placing.mk combo.gpus ((heldRanks policy placement cands combo).toOption.getD []) []
  have hstart : (combos.mapM fun combo => do
      pure (Placing.mk combo.gpus (← heldRanks policy placement cands combo) [])) =
        .ok (combos.map start) := by
    refine Except.mapM_ok fun combo hmem => ?_
    obtain ⟨held, hheld⟩ := heldRanks_ok policy placement (hidx combo hmem)
    simp only [start, hheld]
    rfl
  have hn : placement.freeRanks.sort.Nodup := Finset.sort_nodup ..
  have hnone : Sound placement.freeRanks.sort [] := ⟨List.nodup_nil, by simp⟩
  unfold assignRanks
  rw [hstart, Except.ok_bind]
  obtain ⟨hsound, hperm, hwithin⟩ := reserve_spec (fun placing rank => rank ∈ placing.held) hn hnone
    (show List.Perm [] ((combos.map start).flatMap (·.ranks)) by simp [start, List.flatMap])
    (by simp [start])
  generalize reserve (fun placing rank => decide (rank ∈ placing.held))
    placement.freeRanks.sort (combos.map start) [] = phase at hsound hperm hwithin
  rw [List.forall₂_map_left_iff] at hwithin
  -- What is held and what is missing make up what the combos ask for.
  have hcount : (phase.1.flatMap (·.ranks)).length + (phase.1.map missing).sum =
      gpuTotal combos := by
    generalize phase.1 = placings at hwithin
    clear hsound hperm hstart hidx hfit
    induction hwithin with
    | nil => rfl
    | cons hhead _ ih =>
      obtain ⟨hgpus, hle⟩ := hhead
      simp only [List.flatMap_cons, List.length_append, List.map_cons, List.sum_cons, gpuTotal,
        missing, start] at ih hgpus hle ⊢
      omega
  have hle : ∀ placing ∈ phase.1, placing.ranks.length ≤ placing.gpus := by
    intro placing hmem
    obtain ⟨_, -, hgpus, hle⟩ := forall₂_mem_right hwithin hmem
    exact hle
  have hfull := reserve_full hn hsound hle
    (by rw [hperm.length_eq, hcount, Finset.length_sort]; exact hfit)
  obtain ⟨hsound', hperm', -⟩ := reserve_spec (fun _ _ => true) hn hsound hperm hle
  refine ⟨_, rfl, ?_, ?_, ?_⟩
  · rw [List.forall₂_map_right_iff]
    refine forall₂_comp hwithin hfull fun combo placing out hplacing hout => ?_
    rw [hout.2, hout.1, hplacing.1]
  · rw [← List.flatMap_def]
    exact hperm'.nodup_iff.mp hsound'.1
  · intro rank hmem
    rw [← List.flatMap_def] at hmem
    simpa using hsound'.2 rank (hperm'.mem_iff.mpr hmem)

-- ---------------------------------------------------------------------------
-- The combos of the search
-- ---------------------------------------------------------------------------

theorem of_mem_scheduleOptions {nowMs roundDuration : ℚ} {capacity : Nat} {cand : Candidate}
    {option : ComboOption} (configs : List (Fin 4))
    (h : option ∈ scheduleOptions policy nowMs roundDuration capacity cand configs) :
    0 < option.steps ∧ ∃ gi, option.gpus = gpuCount gi ∧ option.steps ≤ cand.shape gi := by
  induction configs with
  | nil => cases h
  | cons gi rest ih =>
    simp only [scheduleOptions] at h
    split_ifs at h with hnone hlarge hslow hfew
    · exact ih h
    · cases h
    · exact ih h
    · exact ih h
    · rcases List.mem_cons.mp h with rfl | h
      · exact ⟨not_le.mp hfew, gi, rfl, min_le_left ..⟩
      · exact ih h

theorem combosOf_distinct (picks : List ComboOption) :
    ((combosOf picks).map (·.idx)).Nodup ∧ ∀ combo ∈ combosOf picks, combo.idx < picks.length := by
  induction picks using List.reverseRecOn with
  | nil => exact ⟨List.nodup_nil, by simp [combosOf]⟩
  | append_singleton picks option ih =>
    obtain ⟨hn, hlt⟩ := ih
    rw [combosOf_append, List.length_append, List.length_singleton]
    split
    · exact ⟨by simpa using hn, fun combo hmem => Nat.lt_succ_of_lt (hlt combo (by simpa using hmem))⟩
    · refine ⟨?_, fun combo hmem => ?_⟩
      · rw [List.map_append, List.map_singleton, List.nodup_append]
        refine ⟨hn, List.nodup_singleton _, fun idx hidx other hother => ?_⟩
        obtain ⟨combo, hmem, rfl⟩ := List.mem_map.mp hidx
        rw [List.mem_singleton.mp hother]
        exact (hlt combo hmem).ne
      · rcases List.mem_append.mp hmem with hmem | hmem
        · exact Nat.lt_succ_of_lt (hlt combo hmem)
        · rw [List.mem_singleton.mp hmem]
          exact Nat.lt_succ_self _

theorem gpuTotal_combosOf (picks : List ComboOption) : gpuTotal (combosOf picks) ≤ gpusOf picks := by
  induction picks using List.reverseRecOn with
  | nil => exact le_rfl
  | append_singleton picks option ih =>
    rw [combosOf_append, gpusOf_append]
    split
    · rw [List.append_nil]
      omega
    · simp only [gpuTotal, List.map_append, List.sum_append, List.map_singleton,
        List.sum_singleton, comboOf] at ih ⊢
      omega

theorem of_mem_combosOf {picks : List ComboOption} {combo : Combo} (h : combo ∈ combosOf picks) :
    ∃ option, picks[combo.idx]? = some option ∧ option.sched ≠ 0 ∧
      combo = comboOf combo.idx option := by
  obtain ⟨⟨option, idx⟩, hmem, hcombo⟩ := List.mem_filterMap.mp h
  rw [List.mem_zipIdx_iff_getElem?] at hmem
  simp only at hcombo
  split at hcombo
  · cases hcombo
  · next hsched =>
    cases hcombo
    exact ⟨option, hmem, hsched, rfl⟩

/-- The search returns combos the assignment can start from. -/
theorem searched_dpComboSearch (policy : RoundPolicy) (nowMs roundDuration : ℚ) (capacity : Nat)
    (hnonneg : ∀ cand ∈ cands, ∀ gi, 0 ≤ cand.shape gi) :
    Searched cands capacity (dpComboSearch policy nowMs cands roundDuration capacity) := by
  obtain ⟨picks, hpicks, hcombos, hfits, -⟩ :=
    dpComboSearch_best policy nowMs cands roundDuration capacity
  rw [hcombos]
  refine ⟨(combosOf_distinct picks).1, fun combo hmem => ?_, hnonneg,
    (gpuTotal_combosOf picks).trans hfits⟩
  obtain ⟨option, hget, hsched, hcombo⟩ := of_mem_combosOf hmem
  obtain ⟨hlt, rfl⟩ := List.getElem?_eq_some_iff.mp hget
  have hlen := hpicks.length_eq
  have hoption := hpicks.get (by omega) hlt
  simp only [List.get_eq_getElem] at hoption
  rcases List.mem_cons.mp hoption with hskip | hoption
  · rw [hskip] at hsched
    exact absurd rfl hsched
  · obtain ⟨hpos, gi, hgpus, hle⟩ := of_mem_scheduleOptions _ hoption
    rw [hcombo]
    refine ⟨hpos, cands[combo.idx], List.getElem?_eq_getElem (hlen ▸ hlt), gi, ?_, hgpus, hle⟩
    rw [comboOf, hgpus, log2_gpuCount]

end Tetriserve

end GfDit
