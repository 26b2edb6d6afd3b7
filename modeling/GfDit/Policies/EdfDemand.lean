import GfDit.Policies.EdfFit
import GfDit.Policies.Exclusion

/-!
# Groups on demand in every run

From a stocked topology no run of the EDF policies ever finds the name of a
group taken: every request for a group is served, and what a call can still
raise comes from the task it was given or from the estimator.
-/

namespace GfDit

open Prog

namespace Edf

-- ---------------------------------------------------------------------------
-- What a call can raise
-- ---------------------------------------------------------------------------

/-- The errors that have nothing to do with groups made on demand. -/
inductive Refused (w : World Edf) : PyError → Prop
  -- a task pinned to a group that is not known, does not take it or is too wide
  | unknownGroup (groupId : String) : Refused w (.keyError groupId)
  | wrongKind (task : InferenceTask) (groupId : String) : Refused w (.valueError <|
      s!"task {task.taskId} kind={task.kind.value} is not supported by group " ++ quoted groupId)
  | manyRanks (task : InferenceTask) (groupId : String) (ranks : List Rank) :
    Refused w (pinnedRanksError task groupId ranks)
  -- a kind the policies do not place
  | unsupported (task : InferenceTask) (hk : task.kind = .reshard) : Refused w (.valueError <|
      "edf_greedy does not support task kind " ++ quoted task.kind.value)
  -- an estimate, for the greedy variant
  | estimate (he : w.policy.taskRuntimeEstimator = some estimator)
    (hr : estimator spec seqLen stage = .error e) : Refused w e
  -- a number of the request's metadata that is no integer
  | infinite : Refused w (.overflowError "cannot convert float infinity to integer")

-- ---------------------------------------------------------------------------
-- The sizes the greedy variant tries
-- ---------------------------------------------------------------------------

theorem costKey_ok (h : costKey estimator seqLen stage sp = .ok key) : (ofLex key).2 = sp := by
  obtain ⟨spec, -, h⟩ := Except.bind_eq_ok.mp h
  obtain ⟨cost, -, h⟩ := Except.bind_eq_ok.mp h
  obtain rfl := Except.pure_eq_ok.mp h
  rfl

theorem costKey_error (hs : 0 < sp) (h : costKey estimator seqLen stage sp = .error e) :
    ∃ spec, estimator spec seqLen stage = .error e := by
  rcases Except.bind_eq_error.mp h with h | ⟨spec, -, h⟩
  · unfold ParallelSpec.make at h
    simp only [Nat.lt_irrefl, dite_false] at h
    split at h
    · omega
    · cases h
  · rcases Except.bind_eq_error.mp h with h | ⟨cost, -, h⟩
    · exact ⟨spec, h⟩
    · cases h

/-- Some of the sizes that fit are tried, unless an estimate fails. -/
theorem candidateOrder_ok {p : Edf} {task : InferenceTask} (hf : fitting ≠ [])
    (h : p.candidateOrder task fitting = .ok sizes) :
    sizes ≠ [] ∧ ∀ size ∈ sizes, size ∈ fitting := by
  unfold candidateOrder at h
  split at h
  · obtain ⟨keys, hkeys, h⟩ := Except.bind_eq_ok.mp h
    obtain rfl := Except.pure_eq_ok.mp h
    constructor
    · refine List.ne_nil_of_length_pos ?_
      rw [List.length_map, List.length_insertionSort, Except.length_mapM hkeys]
      exact List.length_pos_of_ne_nil hf
    · intro size hm
      obtain ⟨key, hkey, rfl⟩ := List.mem_map.mp hm
      obtain ⟨sp, hsp, hcost⟩ :=
        Except.exists_of_mem_mapM hkeys ((List.perm_insertionSort ..).mem_iff.mp hkey)
      exact costKey_ok hcost ▸ hsp
  · obtain rfl := Except.pure_eq_ok.mp h
    constructor
    · refine List.ne_nil_of_length_pos ?_
      rw [List.length_insertionSort]
      exact List.length_pos_of_ne_nil hf
    · exact fun size hm => (List.perm_insertionSort ..).mem_iff.mp hm

theorem candidateOrder_error {p : Edf} {task : InferenceTask} (hpos : ∀ size ∈ fitting, 0 < size)
    (h : p.candidateOrder task fitting = .error e) :
    ∃ estimator spec seqLen stage, p.taskRuntimeEstimator = some estimator ∧
      estimator spec seqLen stage = .error e := by
  unfold candidateOrder at h
  split at h
  · rename_i estimator plan hest hplan
    rcases Except.bind_eq_error.mp h with h | ⟨keys, -, h⟩
    · obtain ⟨sp, hsp, hcost⟩ := Except.exists_of_mapM_error h
      obtain ⟨spec, hspec⟩ := costKey_error (hpos sp hsp) hcost
      exact ⟨estimator, spec, _, _, hest, hspec⟩
    · cases h
  · cases h

-- ---------------------------------------------------------------------------
-- Placement
-- ---------------------------------------------------------------------------

inductive Found (free : List Rank) (w : World Edf) (task : InferenceTask) :
    Option (String × List Rank) → World Edf → Prop
  | none (h : w.tasks.groupId task ≠ none ∨ free = []) : Found free w task none w
  | some (h : ∀ requestId, Placed free w ⟨requestId, task, groupId, ranks⟩ w') :
    Found free w task (some (groupId, ranks)) w'

/-- Why a search for a place raises. -/
inductive Misplaced (w : World Edf) (task : InferenceTask) (e : PyError) : Prop
  | pinned (h : w.tasks.groupId task ≠ none) (hr : Refused w e)
  | unsupported (h : task.kind ∉ standardTaskKinds) (hr : Refused w e)
  | estimate (he : w.policy.taskRuntimeEstimator = some estimator)
    (hr : estimator spec seqLen stage = .error e)
  | collision (h : Collision w e)

theorem Misplaced.refused (h : Misplaced w task e) (hst : Stocked w.topology) : Refused w e := by
  cases h with
  | pinned _ hr => exact hr
  | unsupported _ hr => exact hr
  | estimate he hr => exact .estimate he hr
  | collision hc => exact absurd hc hst.no_collision

theorem selectSingleRankGroup_found {w : World Edf} (hk : task.kind ∈ singleRankTaskKinds)
    (hw : ∀ rank ∈ free, rank ∈ w.topology.workers) :
    wp (selectSingleRankGroup task free) (Found free w task)
      (fun e w' => w' = w ∧ Misplaced w task e) w := by
  unfold selectSingleRankGroup
  have hin : ∀ rank ∈ free.insertionSort (· ≤ ·), rank ∈ free := fun rank hm =>
    (List.perm_insertionSort ..).mem_iff.mp hm
  have hlen : (free.insertionSort (· ≤ ·)).length = free.length := List.length_insertionSort ..
  generalize free.insertionSort (· ≤ ·) = sorted at hin hlen
  cases sorted with
  | nil => exact .none (.inr (List.length_eq_zero_iff.mp hlen.symm))
  | cons rank rest =>
    -- the group of the first rank takes every kind, so the search ends there
    simp only [selectSingleRank, wp_bind, wp_ite, wp_pure]
    refine wp_mono (ensureGroupForRanks_placed "" (.single rank)
      (List.mem_append_left ditTaskKinds hk) (fun r hr => hin r (by simp_all)) hw
      (.inl (List.nodup_singleton rank))) (fun group w' hp => ?_)
      fun e w' he => ⟨he.1, .collision he.2⟩
    rw [if_pos hp.2]
    exact .some fun requestId => hp.1.rename requestId

theorem selectDitGroup_found {w : World Edf} (hs : SizesOk w.policy.allowedSpSizes)
    (hk : task.kind ∈ ditTaskKinds) (hf : free.Nodup)
    (hw : ∀ rank ∈ free, rank ∈ w.topology.workers) :
    wp (selectDitGroup task free) (Found free w task)
      (fun e w' => w' = w ∧ Misplaced w task e) w := by
  have hfit : ∀ size ∈ w.policy.allowedSpSizes.filter (· ≤ free.length),
      0 < size ∧ size ≤ free.length := fun size hm => by
    obtain ⟨hm, hle⟩ := List.mem_filter.mp hm
    exact ⟨hs.pos size hm, by simpa using hle⟩
  simp only [selectDitGroup, wp_bind, wp_get, wp_ite, wp_pure]
  split
  · rename_i hnone
    refine .none (.inr (hnone.elim id fun hempty => ?_))
    by_contra hfree
    have hone : 1 ∈ w.policy.allowedSpSizes.filter (· ≤ free.length) :=
      List.mem_filter.mpr ⟨hs.one, decide_eq_true (List.length_pos_of_ne_nil hfree)⟩
    rw [hempty] at hone
    cases hone
  · rename_i hsome
    rw [not_or] at hsome
    refine wp_check (fun sizes hsizes => ?_) fun e he => ?_
    · obtain ⟨hne, hsub⟩ := candidateOrder_ok hsome.2 hsizes
      cases sizes with
      | nil => exact absurd rfl hne
      | cons size rest =>
        obtain ⟨hpos, hle⟩ := hfit size (hsub size (List.mem_cons_self ..))
        have hlen := pickRanksForRequest_length w task.requestId hle
        have hranks : pickRanksForRequest w task.requestId size free ≠ [] :=
          List.ne_nil_of_length_pos (hlen.symm ▸ hpos)
        -- the group of the first size takes the task, so the search ends there
        simp only [selectSize, wp_bind, wp_get, wp_ite, wp_pure]
        refine wp_mono (ensureGroupForRanks_placed "" (.dit hranks) hk
          (pickRanksForRequest_inside w _ _ free) hw (pickRanksForRequest_drawn hf))
          (fun group w' hp => ?_) fun e w' he => ⟨he.1, .collision he.2⟩
        rw [if_pos hp.2]
        exact .some fun requestId => hp.1.rename requestId
    · obtain ⟨estimator, spec, seqLen, stage, hest, hr⟩ :=
        candidateOrder_error (fun size hm => (hfit size hm).1) he
      exact ⟨rfl, .estimate hest hr⟩

theorem selectPlacement_found {w : World Edf} (hs : SizesOk w.policy.allowedSpSizes)
    (hf : free.Nodup) (hw : ∀ rank ∈ free, rank ∈ w.topology.workers) :
    wp (selectPlacement task free) (Found free w task)
      (fun e w' => w' = w ∧ Misplaced w task e) w := by
  simp only [selectPlacement, wp_bind, wp_get]
  split
  · rename_i groupId hg
    have hpinned : w.tasks.groupId task ≠ none := by simp [hg]
    simp only [World.getGroup, wp_bind, wp_get, wp_ite, wp_pure, wp_throw]
    refine wp_check (fun group hgroup => ?_) fun e he => ?_
    · have hfind := RuntimeTopology.getGroup_eq_ok.mp hgroup
      split
      · exact ⟨rfl, .pinned hpinned (.manyRanks ..)⟩
      · split
        · rename_i hin
          have hid := (RuntimeTopology.find_eq_some.mp hfind).2
          exact .some fun requestId => .pinned (by rwa [hid]) rfl hin
        · exact .none (.inl hpinned)
    · unfold RuntimeTopology.getGroup at he
      split at he
      · cases he
      · cases he
        exact ⟨rfl, .pinned hpinned (.unknownGroup groupId)⟩
  · simp only [wp_ite, wp_throw]
    split
    · rename_i hsingle
      exact selectSingleRankGroup_found hsingle hw
    · split
      · rename_i hdit
        exact selectDitGroup_found hs hdit hf hw
      · rename_i hsingle hdit
        have hk : task.kind ∉ standardTaskKinds := fun hm =>
          (standard_cases hm).elim hsingle hdit
        refine ⟨trivial, .unsupported hk (.unsupported task ?_)⟩
        revert hk
        cases task.kind <;> decide

-- ---------------------------------------------------------------------------
-- Ticks
-- ---------------------------------------------------------------------------

inductive Turns : List Rank → World Edf → List (String × InferenceTask) → List Grant →
    World Edf → Prop
  | nil : Turns free w [] [] w
  | skip (h : w.tasks.groupId task ≠ none ∨ free = []) (ht : Turns free w ready grants w') :
    Turns free w ((requestId, task) :: ready) grants w'
  | serve (hp : Placed free w ⟨requestId, task, groupId, ranks⟩ w₁)
    (hq : w₁.policy.readyByRequest.get? requestId = some (task :: rest))
    (ht : Turns (withoutRanks free ranks) (dispatched w₁ ⟨requestId, task, groupId, ranks⟩) ready
      grants w') :
    Turns free w ((requestId, task) :: ready) (⟨requestId, task, groupId, ranks⟩ :: grants) w'

theorem Turns.granted (h : Turns free w ready grants w') : Granted free w grants w' := by
  induction h with
  | nil => exact .nil
  | skip _ _ ih => exact ih
  | serve hp hq _ ih => exact .cons hp hq ih

def Grant.item (grant : Grant) : String × InferenceTask := (grant.requestId, grant.task)

/-- A tick raised after some grants, at a name that is taken or at a task. -/
def Stopped (free : List Rank) (w : World Edf) (ready : List (String × InferenceTask))
    (e : PyError) (w' : World Edf) : Prop :=
  ∃ grants, Granted free w grants w' ∧ (Collision w' e ∨
    ∃ item, (grants.map Grant.item ++ [item]).Sublist ready ∧ Misplaced w' item.2 e)

theorem Stopped.at (h : Misplaced w task e) : Stopped free w ((requestId, task) :: ready) e w :=
  ⟨[], .nil, .inr ⟨(requestId, task), (List.nil_sublist ready).cons_cons _, h⟩⟩

theorem Stopped.skip (h : Stopped free w ready e w') : Stopped free w (item :: ready) e w' := by
  obtain ⟨grants, hg, he⟩ := h
  exact ⟨grants, hg, he.imp_right fun ⟨other, hs, he⟩ => ⟨other, hs.cons _, he⟩⟩

theorem Stopped.cons (hp : Placed free w grant w₁)
    (hq : w₁.policy.readyByRequest.get? grant.requestId = some (grant.task :: rest))
    (h : Stopped (withoutRanks free grant.ranks) (dispatched w₁ grant) ready e w') :
    Stopped free w (grant.item :: ready) e w' := by
  obtain ⟨grants, hg, he⟩ := h
  exact ⟨grant :: grants, .cons hp hq hg,
    he.imp_right fun ⟨other, hs, he⟩ => ⟨other, hs.cons_cons _, he⟩⟩

theorem placeInTurn_turns {w : World Edf} (hs : SizesOk w.policy.allowedSpSizes) (hf : free.Nodup)
    (hw : ∀ rank ∈ free, rank ∈ w.topology.workers) (hh : Heads w.policy ready) :
    wp (placeInTurn free ready) (fun out w' =>
      ∃ grants, out = grants.map Grant.task ∧ Turns free w ready grants w')
      (Stopped free w ready) w := by
  induction ready generalizing w free with
  | nil => exact ⟨[], rfl, .nil⟩
  | cons item ready ih =>
    obtain ⟨requestId, task⟩ := item
    simp only [placeInTurn, wp_bind]
    refine wp_mono (selectPlacement_found hs hf hw) (fun placement w₁ hfound => ?_)
      fun e w' he => ?_
    · cases hfound with
      | none hskip =>
        refine wp_mono (ih hs hf hw (hh.of_sublist (List.sublist_cons_self ..)))
          (fun out w' ho => ?_) fun e w' he => ?_
        · obtain ⟨grants, hout, ht⟩ := ho
          exact ⟨grants, hout, .skip hskip ht⟩
        · exact he.skip
      | @some groupId ranks _ hplaced =>
        have hp := hplaced requestId
        obtain ⟨rest, hq⟩ := hh.2 (requestId, task) (List.mem_cons_self ..)
        have hq₁ := hq
        rw [← hp.rest.2.2] at hq₁
        have hs₁ : SizesOk w₁.policy.allowedSpSizes := hp.rest.2.2 ▸ hs
        simp only [wp_bind, wp_pure]
        refine wp_dispatchTask ⟨requestId, task, groupId, ranks⟩ hq₁ ?_
        refine wp_mono (ih (by simpa using hs₁) (hf.sublist List.filter_sublist)
          (hp.free_known hw) (hh.dispatched hp)) (fun out w' ho => ?_) fun e w' he => ?_
        · obtain ⟨grants, rfl, ht⟩ := ho
          exact ⟨_ :: grants, rfl, .serve hp hq₁ ht⟩
        · exact he.cons hp hq₁
    · obtain ⟨rfl, he⟩ := he
      exact .at he

theorem placePinned_granted {w : World Edf} (hs : SizesOk w.policy.allowedSpSizes) (hf : free.Nodup)
    (hw : ∀ rank ∈ free, rank ∈ w.topology.workers) (hh : Heads w.policy ready) :
    wp (placePinned free ready) (fun result w' => ∃ grants, result.1 = grants.map Grant.task ∧
      Granted free w grants w' ∧ result.2.1 = leftFree free grants ∧
      (∀ grant ∈ grants, grant.requestId ∈ ready.map Prod.fst) ∧
      result.2.2.Sublist ready ∧ Heads w'.policy result.2.2)
      (Stopped free w ready) w := by
  induction ready generalizing w free with
  | nil => exact ⟨[], rfl, .nil, rfl, by simp, .slnil, hh⟩
  | cons item ready ih =>
    obtain ⟨requestId, task⟩ := item
    have hrest := hh.of_sublist (List.sublist_cons_self ..)
    have hnew := (List.nodup_cons.mp hh.1).1
    obtain ⟨rest, hq⟩ := hh.2 (requestId, task) (List.mem_cons_self ..)
    simp only [placePinned, wp_bind, wp_get, wp_ite]
    split
    · refine wp_mono (ih hs hf hw hrest) (fun result w' hr => ?_) fun e w' he => he.skip
      obtain ⟨grants, hout, hg, hleft, hids, hwait, hheads⟩ := hr
      refine ⟨grants, hout, hg, hleft, fun grant hm => List.mem_cons_of_mem _ (hids grant hm),
        hwait.cons_cons _, ?_, ?_⟩
      · exact List.nodup_cons.mpr ⟨fun hm => hnew ((hwait.map _).subset hm), hheads.1⟩
      · intro item hm
        rcases List.mem_cons.mp hm with rfl | hm
        · refine ⟨rest, (hg.queue_ne fun hm => hnew ?_).trans hq⟩
          obtain ⟨grant, hgrant, heq⟩ := List.mem_map.mp hm
          exact heq ▸ hids grant hgrant
        · exact hheads.2 item hm
    · refine wp_mono (selectPlacement_found hs hf hw) (fun placement w₁ hfound => ?_)
        fun e w' he => ?_
      · cases hfound with
        | none hskip =>
          refine wp_mono (ih hs hf hw hrest) (fun result w' hr => ?_) fun e w' he => he.skip
          obtain ⟨grants, hout, hg, hleft, hids, hwait, hheads⟩ := hr
          exact ⟨grants, hout, hg, hleft, fun grant hm => List.mem_cons_of_mem _ (hids grant hm),
            hwait.cons _, hheads⟩
        | @some groupId ranks _ hplaced =>
          have hp := hplaced requestId
          have hq₁ := hq
          rw [← hp.rest.2.2] at hq₁
          have hs₁ : SizesOk w₁.policy.allowedSpSizes := hp.rest.2.2 ▸ hs
          simp only [wp_bind, wp_pure]
          refine wp_dispatchTask ⟨requestId, task, groupId, ranks⟩ hq₁ ?_
          refine wp_mono (ih (by simpa using hs₁) (hf.sublist List.filter_sublist)
            (hp.free_known hw) (hh.dispatched hp)) (fun result w' hr => ?_) fun e w' he => ?_
          · obtain ⟨grants, hout, hg, hleft, hids, hwait, hheads⟩ := hr
            refine ⟨⟨requestId, task, groupId, ranks⟩ :: grants, by rw [List.map_cons, ← hout],
              .cons hp hq₁ hg, hleft, ?_, hwait.cons _, hheads⟩
            exact List.forall_mem_cons.mpr ⟨List.mem_cons_self .., fun grant hm =>
              List.mem_cons_of_mem _ (hids grant hm)⟩
          · exact he.cons hp hq₁
      · obtain ⟨rfl, he⟩ := he
        exact .at he

theorem leftFree_sublist (free : List Rank) (grants : List Grant) :
    (leftFree free grants).Sublist free := by
  induction grants generalizing free with
  | nil => exact List.Sublist.refl _
  | cons grant grants ih => exact (ih _).trans List.filter_sublist

theorem bestFitSp_some (hs : SizesOk w.policy.allowedSpSizes)
    (h : bestFitSp w requestId task budget = some size) :
    Meetable ⟨requestId, task, size⟩ ∧ size ≤ budget := by
  have hk : task.kind ∈ standardTaskKinds := List.mem_append.mpr (bestFitSp_kind h)
  have hb : 0 < budget := by
    rcases Nat.eq_zero_or_pos budget with rfl | hb
    · simp [bestFitSp] at h
    · exact hb
  obtain ⟨size', hsize, hfits⟩ := bestFitSp_fits requestId hs hb hk
  cases h.symm.trans hsize
  exact ⟨⟨hk, hs.pos size hfits.allowed, hfits.single⟩, hfits.within⟩

theorem fitSizes_meetable (budget : Nat) (hs : SizesOk w.policy.allowedSpSizes)
    (ready : List (String × InferenceTask)) :
    (∀ entry ∈ (fitSizes w budget ready).1, Meetable entry) ∧
      totalSize (fitSizes w budget ready).1 + (fitSizes w budget ready).2 = budget := by
  induction ready generalizing budget with
  | nil => exact ⟨by simp [fitSizes], Nat.zero_add budget⟩
  | cons item ready ih =>
    obtain ⟨requestId, task⟩ := item
    simp only [fitSizes]
    split
    · exact ih budget
    · rename_i size hsize
      obtain ⟨hmeet, hle⟩ := bestFitSp_some hs hsize
      obtain ⟨hrest, htotal⟩ := ih (budget - size)
      refine ⟨List.forall_mem_cons.mpr ⟨hmeet, hrest⟩, ?_⟩
      simp only [totalSize, List.map_cons, List.sum_cons] at htotal ⊢
      omega

theorem Meetable.widens (h : Meetable entry) (hw : Widens w entry entry') : Meetable entry' := by
  obtain ⟨-, htask⟩ := Prod.mk.inj hw.item
  rcases hw.size with hsame | ⟨hdit, hlt, -, -⟩
  · exact ⟨htask ▸ h.kind, hsame ▸ h.pos, fun hk => hsame ▸ h.single (htask ▸ hk)⟩
  · refine ⟨htask ▸ h.kind, h.pos.trans hlt, fun hk => ?_⟩
    exact absurd hdit (not_dit_of_single (htask ▸ hk))

theorem forall_meetable_of_widens (h : List.Forall₂ (Widens w) entries sizes)
    (hm : ∀ entry ∈ entries, Meetable entry) : ∀ entry ∈ sizes, Meetable entry := by
  induction h with
  | nil => simp
  | cons hab _ ih =>
    obtain ⟨hmeet, hm⟩ := List.forall_mem_cons.mp hm
    exact List.forall_mem_cons.mpr ⟨hmeet.widens hab, ih hm⟩

/-- What a tick does: it hands out grants, or stops. -/
def Hands (take : PolicyM Edf (List InferenceTask)) : Prop :=
  ∀ {w}, SizesOk w.policy.allowedSpSizes →
    wp take (fun out w' => ∃ grants, out = grants.map Grant.task ∧
      Granted (freeRankSet w) w grants w') (Stopped (freeRankSet w) w w.policy.readyList) w

theorem freeRankSet_known (w : World Edf) : ∀ rank ∈ freeRankSet w, rank ∈ w.topology.workers :=
  fun _ hm => List.mem_of_mem_filter hm

theorem takeDispatchableTasks_hands : Hands takeDispatchableTasks := by
  intro w hs
  simp only [takeDispatchableTasks, wp_bind, wp_get]
  refine wp_mono (placeInTurn_turns hs (freeRankSet_free w).1 (freeRankSet_known w)
    (readyList_heads w.policy)) (fun out w' ho => ?_) fun _ _ he => he
  obtain ⟨grants, hout, ht⟩ := ho
  exact ⟨grants, hout, ht.granted⟩

theorem bestFitTake_hands : Hands bestFitTake := by
  intro w hs
  simp only [bestFitTake, wp_bind, wp_get, wp_pure]
  refine wp_mono (placePinned_granted hs (freeRankSet_free w).1 (freeRankSet_known w)
    (readyList_heads w.policy)) (fun result w₁ hr => ?_) fun _ _ he => he
  obtain ⟨grants, hout, hg, hleft, -, -, hheads⟩ := hr
  have hs₁ : SizesOk w₁.policy.allowedSpSizes := hg.allowedSpSizes ▸ hs
  obtain ⟨hmeet, htotal⟩ := fitSizes_meetable result.2.1.length hs₁ result.2.2
  obtain ⟨hwiden, left, hsum, -⟩ := redistribute_widens w₁ le_rfl
    (fitSizes w₁ result.2.1.length result.2.2).1
  have hsub := leftFree_sublist (freeRankSet w) grants
  rw [← hleft] at hsub
  refine wp_mono (materialize_granted ((freeRankSet_free w).1.sublist hsub) (fun rank hm => ?_) ?_
    (forall_meetable_of_widens hwiden hmeet) (Nat.le.intro (hsum.trans htotal)))
    (fun out w' ho => ?_) fun e w' he => ?_
  · rw [hg.workers]
    exact freeRankSet_known w rank (hsub.subset hm)
  · rw [items_of_widens hwiden]
    exact hheads.of_sublist (fitSizes_items ..).1
  · obtain ⟨rfl, rest, hsized, hrest⟩ := ho
    refine ⟨grants ++ rest, ?_, hg.append (hleft ▸ hrest)⟩
    rw [hout, List.map_append, tasks_of_sized hsized]
  · obtain ⟨hc, part, rest, -, -, hrest⟩ := he
    exact ⟨grants ++ rest, hg.append (hleft ▸ hrest), .inl hc⟩

-- ---------------------------------------------------------------------------
-- Calls
-- ---------------------------------------------------------------------------

def noteEvent (p : Edf) (event : WorkerEvent) : Edf :=
  let p := { p with nowMs := max p.nowMs (event.timestampNs / 1000000) }
  let p := if event.kind.endsTask then p.releaseDispatchedTask event else p
  if event.kind.endsRequest then p.dropRequest event.requestId else p

inductive Variant
  | greedy | bestFit

namespace Variant

def policy : Variant → SchedulerPolicy Edf
  | greedy => edfGreedyPolicy
  | bestFit => edfBestFitPolicy

def take : Variant → PolicyM Edf (List InferenceTask)
  | greedy => takeDispatchableTasks
  | bestFit => bestFitTake

theorem hands : (v : Variant) → Hands v.take
  | greedy => takeDispatchableTasks_hands
  | bestFit => bestFitTake_hands

def metaOf : Variant → RequestExecutionPlan → Nat → PolicyM Edf EdfRequestMeta
  | greedy => metaFromPlan
  | bestFit => bestFitMetaFromPlan

/-- The tasks of a request, which only the best-fit variant keeps. -/
def noteTasks : Variant → RequestExecutionPlan → PolicyM Edf Unit
  | greedy, _ => pure ()
  | bestFit, plan => modifyPolicy fun p => { p with
      requestTasks := p.requestTasks.set plan.requestId plan.tasks.values }

def note (v : Variant) : PolicyCall → PolicyM Edf Unit
  | .submitted plan => do
    v.noteTasks plan
    modifyPolicy fun p => { p with requestSeq := p.requestSeq + 1 }
    let info ← v.metaOf plan (← get).policy.requestSeq
    modifyPolicy fun p => { p with
      requestMeta := p.requestMeta.set plan.requestId info
      plans := p.plans.set plan.requestId plan
      taskIndex := p.taskIndex.insertAll (plan.tasks.values.map fun task => (task.taskId, task)) }
    plan.rootTasks.forM enqueueRunnable
  | .runnable tasks => tasks.forM enqueueRunnable
  | .event event => modifyPolicy fun p => p.noteEvent event
  | .acquire ranks => acquireMigrationHold ranks
  | .release ranks => releaseMigrationHold ranks
  | .status task s => modify fun w => w.setStatus task s
  | .clock clockNs => modify fun w => { w with clockNs }

def ticking : PolicyCall → Bool
  | .submitted _ | .runnable _ | .event _ => true
  | .acquire _ | .release _ | .status _ _ | .clock _ => false

def answer (v : Variant) : PolicyCall → PolicyM Edf (List InferenceTask)
  | .submitted plan => v.policy.onRequestSubmitted plan
  | .runnable tasks => v.policy.onTasksRunnable tasks
  | .event e => v.policy.onWorkerEvent e
  | .acquire ranks => (fun _ => []) <$> v.policy.acquireMigrationHold ranks
  | .release ranks => (fun _ => []) <$> v.policy.releaseMigrationHold ranks
  | .status task s => (fun _ => []) <$> modify fun w => w.setStatus task s
  | .clock clockNs => (fun _ => []) <$> modify fun w => { w with clockNs }

theorem run_eq_answer (v : Variant) (call : PolicyCall) :
    call.run v.policy = (fun _ => ()) <$> v.answer call := by
  cases call with
  | submitted plan | runnable tasks | event e => rfl
  | acquire ranks | release ranks | status task s | clock clockNs => cases v <;> rfl

/-- A call notes what it was told, and then takes what can go. -/
theorem answer_eq (v : Variant) (call : PolicyCall) :
    v.answer call = (v.note call >>= fun _ => if ticking call then v.take else pure []) := by
  cases call with
  | submitted plan =>
    cases v with
    | greedy =>
      simp only [answer, policy, edfGreedyPolicy, onRequestSubmittedWith, note, noteTasks,
        metaOf, onTasksRunnableWith, ticking, if_true, take, bind_assoc, pure_bind]
    | bestFit =>
      simp only [answer, policy, edfBestFitPolicy, bestFitOnRequestSubmitted,
        onRequestSubmittedWith, note, noteTasks, metaOf, onTasksRunnableWith, ticking, if_true, take,
        bind_assoc]
  | runnable tasks =>
    cases v <;> simp only [answer, policy, edfGreedyPolicy, edfBestFitPolicy, note,
      onTasksRunnableWith, ticking, if_true, take]
  | event e =>
    cases v <;> simp only [answer, policy, edfGreedyPolicy, edfBestFitPolicy, note,
      onWorkerEventWith, noteEvent, ticking, if_true, take] <;>
      split <;> split <;> rfl
  | acquire ranks | release ranks | status task s | clock clockNs => cases v <;> rfl

theorem wp_run (v : Variant) (call : PolicyCall) (I : World Edf → Prop)
    (E : PyError → World Edf → Prop) :
    wp (call.run v.policy) (fun _ => I) E w ↔ wp (v.answer call) (fun _ => I) E w := by
  rw [v.run_eq_answer, wp_map]

end Variant

-- ---------------------------------------------------------------------------
-- Notes change no group
-- ---------------------------------------------------------------------------

structure Kept (w w' : World Edf) : Prop where
  topology : w'.topology = w.topology
  sizes : w'.policy.allowedSpSizes = w.policy.allowedSpSizes
  estimator : w'.policy.taskRuntimeEstimator = w.policy.taskRuntimeEstimator

theorem Kept.refl (w : World Edf) : Kept w w := ⟨rfl, rfl, rfl⟩

theorem Kept.trans (h : Kept w w') (h' : Kept w' w'') : Kept w w'' :=
  ⟨h'.topology.trans h.topology, h'.sizes.trans h.sizes, h'.estimator.trans h.estimator⟩

def Noted (w : World Edf) (e : PyError) (w' : World Edf) : Prop := Kept w w' ∧ Refused w' e

theorem Noted.after (h : Kept w w') (hn : Noted w' e w'') : Noted w e w'' :=
  ⟨h.trans hn.1, hn.2⟩

theorem toInt_error {value : Ms} (h : value.toInt = .error e) :
    e = .overflowError "cannot convert float infinity to integer" := by
  cases value with
  | fin => cases h
  | negInf | inf =>
    cases h
    rfl

/-- Reading a plan's metadata moves the clock on at most. -/
def Clocked (w w' : World Edf) : Prop :=
  ∃ nowMs, w' = { w with policy := { w.policy with nowMs } }

theorem Clocked.kept (h : Clocked w w') : Kept w w' := by
  obtain ⟨now, rfl⟩ := h
  exact ⟨rfl, rfl, rfl⟩

def Unread (w : World Edf) (e : PyError) (w' : World Edf) : Prop :=
  Clocked w w' ∧ e = .overflowError "cannot convert float infinity to integer"

theorem metaFromPlan_clocked (w : World Edf) :
    wp (metaFromPlan plan order) (fun _ => Clocked w) (Unread w) w := by
  simp only [metaFromPlan, modifyPolicy, wp_bind, wp_get, wp_modify, wp_pure]
  exact wp_check (fun _ _ => ⟨_, rfl⟩) fun e he => ⟨⟨_, rfl⟩, toInt_error he⟩

theorem intOf_error (h : intOf value = .error e) :
    e = .overflowError "cannot convert float infinity to integer" := by
  cases value with
  | infinite =>
    cases h
    rfl
  | int | float | none | text => cases h

theorem metadataInt_error (h : metadataInt metadata names = .error e) :
    e = .overflowError "cannot convert float infinity to integer" := by
  induction names with
  | nil => cases h
  | cons name names ih =>
    simp only [metadataInt] at h
    split at h
    · exact ih h
    · rcases Except.bind_eq_error.mp h with h | ⟨value, -, h⟩
      · exact intOf_error h
      · split at h
        · cases h
        · exact ih h

theorem lookupInt_error {fallback : Int} (h : lookupInt plan names fallback = .error e) :
    e = .overflowError "cannot convert float infinity to integer" := by
  rcases Except.bind_eq_error.mp h with h | ⟨value, -, h⟩
  · exact metadataInt_error h
  · split at h
    · cases h
    · split at h
      · exact toInt_error h
      · cases h

theorem bestFitMetaFromPlan_clocked (w : World Edf) :
    wp (bestFitMetaFromPlan plan order) (fun _ => Clocked w) (Unread w) w := by
  simp only [bestFitMetaFromPlan, wp_bind, wp_pure]
  refine wp_mono (metaFromPlan_clocked w) (fun _ w₁ hk => ?_) fun _ _ he => he
  iterate 5 refine wp_check (fun _ _ => ?_) fun _ he => ⟨hk, lookupInt_error he⟩
  exact hk

theorem enqueueRunnable_kept (w : World Edf) (task : InferenceTask) :
    wp (enqueueRunnable task) (fun _ => Kept w) (Noted w) w := by
  simp only [enqueueRunnable, modifyPolicy, wp_bind, wp_get, wp_modify]
  split
  · rename_i groupId _
    simp only [wp_bind, wp_get, wp_modify]
    refine wp_check (fun _ _ => ⟨rfl, rfl, rfl⟩) fun e he => ⟨⟨rfl, rfl, rfl⟩, ?_⟩
    rcases Except.bind_eq_error.mp he with he | ⟨group, -, he⟩
    · unfold RuntimeTopology.getGroup at he
      split at he
      · cases he
      · cases he
        exact .unknownGroup groupId
    · split at he
      · cases he
      · cases he
        exact .wrongKind task groupId
  · exact ⟨rfl, rfl, rfl⟩

theorem forM_enqueueRunnable_kept (w : World Edf) (tasks : List InferenceTask) :
    wp (tasks.forM enqueueRunnable) (fun _ => Kept w) (Noted w) w :=
  wp_forM (I := Kept w) (fun task _ w₁ hk => wp_mono (enqueueRunnable_kept w₁ task)
    (fun _ _ hk' => hk.trans hk') fun _ _ he => he.after hk) (.refl w)

theorem noteEvent_kept (p : Edf) (event : WorkerEvent) :
    (p.noteEvent event).allowedSpSizes = p.allowedSpSizes ∧
      (p.noteEvent event).taskRuntimeEstimator = p.taskRuntimeEstimator := by
  simp only [noteEvent]
  split <;> split <;> exact ⟨rfl, rfl⟩

theorem Variant.metaOf_clocked (w : World Edf) :
    (v : Variant) → wp (v.metaOf plan order) (fun _ => Clocked w) (Unread w) w
  | greedy => metaFromPlan_clocked w
  | bestFit => bestFitMetaFromPlan_clocked w

def recorded (w : World Edf) (plan : RequestExecutionPlan) (info : EdfRequestMeta) : World Edf :=
  { w with policy := { w.policy with
    requestMeta := w.policy.requestMeta.set plan.requestId info
    plans := w.policy.plans.set plan.requestId plan
    taskIndex := w.policy.taskIndex.insertAll
      (plan.tasks.values.map fun task => (task.taskId, task)) } }

theorem Variant.note_kept (v : Variant) (call : PolicyCall) (w : World Edf) :
    wp (v.note call) (fun _ => Kept w) (Noted w) w := by
  cases call with
  | submitted plan =>
    have htasks : wp (v.noteTasks plan) (fun _ => Kept w) (Noted w) w := by
      cases v with
      | greedy => exact .refl w
      | bestFit => exact ⟨rfl, rfl, rfl⟩
    simp only [note, wp_bind]
    refine wp_mono htasks (fun _ w₁ hk₁ => ?_) fun _ _ he => he
    simp only [modifyPolicy, wp_modify, wp_get]
    have hseq : Kept w { w₁ with policy := { w₁.policy with
      requestSeq := w₁.policy.requestSeq + 1 } } := hk₁.trans ⟨rfl, rfl, rfl⟩
    refine wp_mono (v.metaOf_clocked _) (fun info w₂ hk₂ => ?_) fun _ _ he => ?_
    · have hk : Kept w (recorded w₂ plan info) := (hseq.trans hk₂.kept).trans ⟨rfl, rfl, rfl⟩
      exact wp_mono (forM_enqueueRunnable_kept _ plan.rootTasks) (fun _ w₃ hk₃ => hk.trans hk₃)
        fun _ _ he => he.after hk
    · obtain ⟨hk₂, rfl⟩ := he
      exact ⟨hseq.trans hk₂.kept, .infinite⟩
  | runnable tasks => exact forM_enqueueRunnable_kept w tasks
  | event event => exact ⟨rfl, (noteEvent_kept ..).1, (noteEvent_kept ..).2⟩
  | acquire ranks | release ranks | status task s | clock clockNs => exact ⟨rfl, rfl, rfl⟩

-- ---------------------------------------------------------------------------
-- Runs
-- ---------------------------------------------------------------------------

/-- The states of a policy over a topology, along calls that are allowed. A call
that raises leaves the state it has reached. -/
inductive Run (v : Variant) (allows : World Edf → PolicyCall → Prop) (topology : RuntimeTopology) :
    World Edf → Prop
  | start (hn : normalizeAllowedSpSizes topology.workers allowed = .ok sizes) :
    Run v allows topology ⟨topology, ∅, clockNs, .init estimator sizes⟩
  | call (h : Run v allows topology w) (ha : allows w call) :
    Run v allows topology (after (call.run v.policy) w)

/-- What every state of such a run keeps. -/
structure Supplies (w : World Edf) : Prop where
  stocked : Stocked w.topology
  sizes : SizesOk w.policy.allowedSpSizes

theorem Supplies.kept (h : Supplies w) (hk : Kept w w') : Supplies w' :=
  ⟨hk.topology ▸ h.stocked, hk.sizes ▸ h.sizes⟩

theorem Supplies.granted (h : Supplies w) (hg : Granted (freeRankSet w) w grants w') :
    Supplies w' :=
  ⟨hg.stocked h.stocked (freeRankSet_known w), hg.allowedSpSizes ▸ h.sizes⟩

theorem Supplies.tick (h : Supplies w) (v : Variant) :
    wp v.take (fun _ => Supplies) (fun e w' => Supplies w' ∧ Refused w' e) w := by
  refine wp_mono (v.hands h.sizes) (fun out w' ho => ?_) fun e w' he => ?_
  · obtain ⟨grants, -, hg⟩ := ho
    exact h.granted hg
  · obtain ⟨grants, hg, he⟩ := he
    have hw' := h.granted hg
    refine ⟨hw', ?_⟩
    rcases he with hc | ⟨item, -, he⟩
    · exact absurd hc hw'.stocked.no_collision
    · exact he.refused hw'.stocked

theorem Supplies.call (h : Supplies w) (v : Variant) (call : PolicyCall) :
    wp (call.run v.policy) (fun _ => Supplies) (fun e w' => Supplies w' ∧ Refused w' e) w := by
  rw [v.wp_run, v.answer_eq, wp_bind]
  refine wp_mono (v.note_kept call w) (fun _ w₁ hk => ?_) fun e w' he => ⟨h.kept he.1, he.2⟩
  rw [wp_ite]
  split
  · exact (h.kept hk).tick v
  · exact h.kept hk

theorem Run.supplies (hst : Stocked topology) (h : Run v allows topology w) : Supplies w := by
  induction h with
  | start hn => exact ⟨hst, normalizeAllowedSpSizes_ok hn⟩
  | @call w call _ _ ih =>
    exact after_of_wp (wp_mono (ih.call v call) (fun _ _ hs => hs) fun _ _ he => he.1)

/-- From a stocked topology every request for a group is served, in every state
of every run and inside every tick; and no call raises because the name of a
group is taken. -/
theorem groups_on_demand (v : Variant) (topology : RuntimeTopology) (hst : Stocked topology)
    (w : World Edf) (h : Run v (fun _ _ => True) topology w) (call : PolicyCall) :
    (∀ grants u, Granted (freeRankSet (after (v.note call) w)) (after (v.note call) w) grants u →
      ∀ ranks kinds, Asked ranks kinds → (∀ rank ∈ ranks, rank ∈ u.topology.workers) →
        wp (ensureGroupForRanks ranks kinds) (fun group _ => Serves ranks kinds group)
          (fun _ _ => False) u) ∧
    wp (call.run v.policy) (fun _ _ => True) (fun e w' => Refused w' e) w := by
  have hs := h.supplies hst
  refine ⟨fun grants u hg ranks kinds ha hw => ?_, ?_⟩
  · have hnoted : Supplies (after (v.note call) w) :=
      after_of_wp (wp_mono (v.note_kept call w) (fun _ _ hk => hs.kept hk) fun _ _ he => hs.kept he.1)
    exact wp_mono (ensureGroupForRanks_served (hnoted.granted hg).stocked ha hw)
      (fun _ _ hsup => hsup.1.serves) fun _ _ he => he
  · exact wp_mono (hs.call v call) (fun _ _ _ => trivial) fun _ _ he => he.2

def raised (x : PolicyM Edf Unit) (w : World Edf) : Option PyError :=
  match x w with
  | .ok _ _ => none
  | .error e _ => some e

theorem not_wp_of_raised {x : PolicyM Edf Unit} (h : raised x w = some e) :
    ¬ wp x (fun _ _ => True) (fun e' _ => e' ≠ e) w := by
  unfold raised at h
  unfold wp
  cases hx : x w with
  | ok a w' => simp [hx] at h
  | error e' w' => simpa [hx] using h

def runCalls (v : Variant) (calls : List PolicyCall) (w : World Edf) : World Edf :=
  calls.foldl (fun w call => after (call.run v.policy) w) w

theorem Run.calls (h : Run v allows topology w) (calls : List PolicyCall)
    (ha : ∀ call ∈ calls, ∀ w, allows w call) : Run v allows topology (runCalls v calls w) := by
  induction calls generalizing w with
  | nil => exact h
  | cons call calls ih =>
    obtain ⟨hcall, hcalls⟩ := List.forall_mem_cons.mp ha
    exact ih (.call h (hcall w)) hcalls

-- Two workers. Request a: a text task, then two DiT tasks; requests b and c: a
-- text task each.

def demandTask (taskId requestId : String) (kind : TaskKind) (dependencies : List String) :
    InferenceTask :=
  ⟨taskId, requestId, kind, none, .pending, 0, dependencies, [], [], none, ∅⟩

def demandText (requestId : String) : InferenceTask :=
  demandTask (requestId ++ "-text") requestId .textEncode []

def demandDit (k : Nat) : InferenceTask := demandTask s!"a-dit{k}" "a" .ditStepChunk ["a-text"]

def demandPlan (requestId : String) (tasks : List InferenceTask) : RequestExecutionPlan :=
  ⟨requestId, Dict.insertAll ∅ (tasks.map fun task => (task.taskId, task)), [], [], ∅⟩

def demandEnd (task : InferenceTask) (groupId : String) : PolicyCall :=
  .event ⟨task.taskId, task.requestId, groupId, .taskExecEnd, 0, "", []⟩

def demandCallsIn (pairId : String) : List PolicyCall :=
  [.submitted (demandPlan "a" [demandText "a", demandDit 0, demandDit 1]),
   demandEnd (demandText "a") "edf_sp1_r0", .runnable [demandDit 0],
   .submitted (demandPlan "b" [demandText "b"]), demandEnd (demandDit 0) pairId,
   .runnable [demandDit 1], demandEnd (demandDit 1) "edf_sp1_r1"]

-- Without a group of both ranks one is made.
def demandCalls : List PolicyCall := demandCallsIn "edf_sp2_r0_1"

def demandNext : PolicyCall := .submitted (demandPlan "c" [demandText "c"])

def demandStart (topology : RuntimeTopology) : World Edf := ⟨topology, ∅, 0, .init none [2, 1]⟩

/-- `runtime_v2_groups_json` with one group: `ranks` 0 and 1, `tp` 1 and
`ulysses_degree` 2. -/
def sequenceTopology : RuntimeTopology :=
  ⟨[0, 1], [sequenceSpec "g0" 0 [1] standardTaskKinds], two_workers, by decide, by decide⟩

theorem pair_sizes (topology : RuntimeTopology) (h : topology.workers = [0, 1]) :
    normalizeAllowedSpSizes topology.workers none = .ok [2, 1] := by
  rw [h]
  rfl

theorem pairTopology_stocked : Stocked pairTopology := by
  refine .of_plain (fun rank hm => ?_) (by decide)
  refine ⟨pairGroup s!"g_sp1_r{rank}" rank, ?_, rfl, rfl, rfl, rfl,
    fun kind hm => List.mem_append_right _ hm⟩
  revert rank
  decide

theorem demandStart_run (v : Variant) (topology : RuntimeTopology)
    (h : topology.workers = [0, 1]) : Run v allows topology (demandStart topology) :=
  .start (pair_sizes topology h)

/-- With a group for each rank the run goes on: c's text task gets rank 1. -/
theorem groups_on_demand_pair :
    (runCalls .greedy (demandCalls ++ [demandNext])
      (demandStart pairTopology)).policy.accounts.dispatchedRanksByTask.get? "c-text" = some [1] ∧
    wp (demandNext.run Variant.greedy.policy) (fun _ _ => True) (fun e w' => Refused w' e)
      (runCalls .greedy demandCalls (demandStart pairTopology)) :=
  ⟨by decide +kernel,
    (groups_on_demand .greedy pairTopology pairTopology_stocked
      (runCalls .greedy demandCalls (demandStart pairTopology))
      ((demandStart_run .greedy pairTopology rfl).calls demandCalls fun _ _ _ => trivial)
      demandNext).2⟩

/-- Where no rank has a group of its own, a DiT task that was alone on a rank has
made one for DiT tasks only, and the next text task there finds its name taken. -/
theorem text_after_dit_collides :
    ¬ ∀ (v : Variant) (topology : RuntimeTopology) (w : World Edf),
      Run v (fun _ _ => True) topology w → ∀ (call : PolicyCall) (groupId : String),
        wp (call.run v.policy) (fun _ _ => True) (fun e _ => e ≠ differentSpec groupId) w := by
  intro h
  have hwp := h .greedy sequenceTopology
    (runCalls .greedy (demandCallsIn "g0") (demandStart sequenceTopology))
    ((demandStart_run .greedy sequenceTopology rfl).calls (demandCallsIn "g0")
      fun _ _ _ => trivial) demandNext "edf_sp1_r1"
  have hraised : raised (demandNext.run Variant.greedy.policy)
      (runCalls .greedy (demandCallsIn "g0") (demandStart sequenceTopology)) =
        some (differentSpec "edf_sp1_r1") := by decide +kernel
  exact not_wp_of_raised hraised hwp

end Edf

end GfDit
