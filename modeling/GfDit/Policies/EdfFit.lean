import Mathlib.Data.List.Forall2
import Mathlib.Data.List.TakeWhile
import GfDit.Policies.EdfGrants

/-!
# The three passes of the best-fit tick

Pass one gives sizes out of a budget, as many ranks as are free; pass two only
makes sizes larger, out of what is left of the budget; pass three takes the
ranks. The sizes never sum to more than the ranks that are still free, so
pass three finds as many as it was promised.
-/

namespace GfDit

open Prog

namespace Edf

-- ---------------------------------------------------------------------------
-- Allowed sizes
-- ---------------------------------------------------------------------------

structure SizesOk (sizes : List Nat) : Prop where
  one : 1 ∈ sizes
  pos : ∀ size ∈ sizes, 0 < size

theorem sizesOk_sorted {raw : List Nat} (h : 1 ∈ raw) (maxSize : Nat) (hm : 1 ≤ maxSize) :
    SizesOk ((raw.filter fun size => 1 ≤ size ∧ size ≤ maxSize).dedup.insertionSort (· ≥ ·)) := by
  constructor
  · rw [(List.perm_insertionSort ..).mem_iff, List.mem_dedup, List.mem_filter]
    exact ⟨h, by simpa using hm⟩
  · intro size hmem
    rw [(List.perm_insertionSort ..).mem_iff, List.mem_dedup, List.mem_filter] at hmem
    simp only [decide_eq_true_eq] at hmem
    exact hmem.2.1

theorem normalizeAllowedSpSizes_ok {workers : List Rank}
    (h : normalizeAllowedSpSizes workers allowed = .ok sizes) : SizesOk sizes := by
  unfold normalizeAllowedSpSizes at h
  cases allowed with
  | none =>
    simp only at h
    split at h
    · cases h
    · obtain rfl := Except.pure_eq_ok.mp h
      exact sizesOk_sorted (List.mem_cons_self ..) _ (le_max_left ..)
  | some given =>
    simp only at h
    split at h
    · cases h
    · obtain rfl := Except.pure_eq_ok.mp h
      exact sizesOk_sorted (List.mem_append_right _ (List.mem_singleton_self 1)) _
        (le_max_left ..)

-- ---------------------------------------------------------------------------
-- Pass one
-- ---------------------------------------------------------------------------

/-- What a size for a task is in pass one. With a finite deadline a DiT task
gets the smallest size that meets it or, when none does, one that finishes
first. -/
structure Fits (w : World Edf) (budget : Nat) (requestId : String) (task : InferenceTask)
    (size : Nat) : Prop where
  allowed : size ∈ w.policy.allowedSpSizes
  within : size ≤ budget
  single : task.kind ∈ singleRankTaskKinds → size = 1
  deadline : task.kind ∈ ditTaskKinds → ∀ info (deadline : ℚ),
    w.policy.requestMeta.get? requestId = some info → info.deadlineMs = .fin deadline →
    (estimateFinishMs w requestId size ≤ (deadline : WithTop ℚ) ∧
      ∀ other ∈ w.policy.allowedSpSizes, other ≤ budget →
        estimateFinishMs w requestId other ≤ (deadline : WithTop ℚ) → size ≤ other) ∨
    ((∀ other ∈ w.policy.allowedSpSizes, other ≤ budget →
        ¬ estimateFinishMs w requestId other ≤ (deadline : WithTop ℚ)) ∧
      ∀ other ∈ w.policy.allowedSpSizes, other ≤ budget →
        estimateFinishMs w requestId size ≤ estimateFinishMs w requestId other)

theorem find?_le {sizes : List Nat} (hs : sizes.Pairwise (· ≤ ·))
    (h : sizes.find? p = some size) (hm : other ∈ sizes) (hp : p other = true) : size ≤ other := by
  obtain ⟨-, before, after, rfl, hbefore⟩ := List.find?_eq_some_iff_append.mp h
  rcases List.mem_append.mp hm with hm | hm
  · have := hbefore other hm
    simp [hp] at this
  · rcases List.mem_cons.mp hm with rfl | hm
    · exact le_rfl
    · exact List.rel_of_pairwise_cons (List.pairwise_append.mp hs).2.1 hm

theorem estimateFinishMs_none {w : World Edf} (h : w.policy.taskRuntimeEstimator = none)
    (requestId : String) (size : Nat) : estimateFinishMs w requestId size = ⊤ := by
  unfold estimateFinishMs
  rw [h]
  split
  · rename_i hs
    cases hs
  · rfl

theorem not_dit_of_single : kind ∈ singleRankTaskKinds → kind ∉ ditTaskKinds := by
  cases kind <;> decide

theorem mem_candidates {sizes : List Nat} :
    size ∈ (sizes.filter (· ≤ budget)).insertionSort (· ≤ ·) ↔ size ∈ sizes ∧ size ≤ budget := by
  rw [(List.perm_insertionSort ..).mem_iff, List.mem_filter, decide_eq_true_eq]

theorem bestFitSp_fits (requestId : String) (hs : SizesOk w.policy.allowedSpSizes) (hb : 0 < budget)
    (hk : task.kind ∈ standardTaskKinds) :
    ∃ size, bestFitSp w requestId task budget = some size ∧ Fits w budget requestId task size := by
  unfold bestFitSp
  simp only [hb.ne', if_false]
  split
  · -- one rank
    rename_i hsingle
    refine ⟨1, ?_, hs.one, hb, fun _ => rfl, fun hdit => absurd hdit (not_dit_of_single hsingle)⟩
    rw [if_pos hs.one, if_pos (Nat.succ_le_of_lt hb)]
  · rename_i hsingle
    have hdit : task.kind ∈ ditTaskKinds := (List.mem_append.mp hk).resolve_left hsingle
    rw [if_neg (not_not_intro hdit)]
    have hcand : ∀ {size}, size ∈
        (w.policy.allowedSpSizes.filter (· ≤ budget)).insertionSort (· ≤ ·) ↔
        size ∈ w.policy.allowedSpSizes ∧ size ≤ budget := mem_candidates
    have hsorted := List.pairwise_insertionSort (r := (· ≤ ·))
      (w.policy.allowedSpSizes.filter (· ≤ budget))
    generalize (w.policy.allowedSpSizes.filter (· ≤ budget)).insertionSort (· ≤ ·) = candidates
      at hcand hsorted
    have hne : candidates ≠ [] := List.ne_nil_of_mem (hcand.mpr ⟨hs.one, hb⟩)
    split
    · rename_i deadline _ _ _ _ _ _ _ _ _ hmeta hest
      split
      · rename_i size hfind
        obtain ⟨hallowed, hwithin⟩ := hcand.mp (List.mem_of_find?_eq_some hfind)
        refine ⟨size, rfl, hallowed, hwithin, fun hk => absurd hk hsingle, ?_⟩
        intro _ info deadline' hinfo hfin
        cases hmeta.symm.trans hinfo
        cases hfin
        refine .inl ⟨by simpa using List.find?_some hfind, fun other ho hle hmeets => ?_⟩
        exact find?_le hsorted hfind (hcand.mpr ⟨ho, hle⟩) (by simpa using hmeets)
      · rename_i hfind
        obtain ⟨size, hsize⟩ := Option.ne_none_iff_exists'.mp
          (mt List.argmin_eq_none.mp hne :
            candidates.argmin (estimateFinishMs w requestId) ≠ none)
        obtain ⟨hallowed, hwithin⟩ := hcand.mp (List.argmin_mem hsize)
        refine ⟨size, hsize, hallowed, hwithin, fun hk => absurd hk hsingle, ?_⟩
        intro _ info deadline' hinfo hfin
        cases hmeta.symm.trans hinfo
        cases hfin
        refine .inr ⟨fun other ho hle => ?_, fun other ho hle => ?_⟩
        · simpa using List.find?_eq_none.mp hfind other (hcand.mpr ⟨ho, hle⟩)
        · exact List.le_of_mem_argmin (hcand.mpr ⟨ho, hle⟩) hsize
    · rename_i hother
      obtain ⟨size, hsize⟩ := Option.isSome_iff_exists.mp (List.getLast?_isSome.mpr hne)
      obtain ⟨hallowed, hwithin⟩ := hcand.mp (List.mem_of_getLast? hsize)
      refine ⟨size, hsize, hallowed, hwithin, fun hk => absurd hk hsingle, ?_⟩
      intro _ info deadline hmeta hfin
      -- a finite deadline comes here without an estimator only
      have hnone : w.policy.taskRuntimeEstimator = none := by
        cases hest : w.policy.taskRuntimeEstimator with
        | none => rfl
        | some estimator =>
          cases info with
          | mk deadlineMs priority arrivalMs order latentSeqLen voxels textSeqLen numSteps
              chunkSteps =>
            cases hfin
            exact (hother _ _ _ _ _ _ _ _ _ _ hmeta hest).elim
      simp only [estimateFinishMs_none hnone]
      exact .inr ⟨by simp, fun _ _ _ => le_rfl⟩

inductive Fitted (w : World Edf) : Nat → List (String × InferenceTask) → List FitEntry → Prop
  | done : Fitted w budget [] []
  | spent : Fitted w 0 ready []
  | fit (hb : 0 < budget) (hf : Fits w budget requestId task size)
    (hr : Fitted w (budget - size) ready entries) :
    Fitted w budget ((requestId, task) :: ready) (⟨requestId, task, size⟩ :: entries)

def totalSize (entries : List FitEntry) : Nat := (entries.map FitEntry.spSize).sum

theorem fitSizes_spent (w : World Edf) (ready : List (String × InferenceTask)) :
    fitSizes w 0 ready = ([], 0) := by
  induction ready with
  | nil => rfl
  | cons item ready ih =>
    simp only [fitSizes, bestFitSp, if_true]
    exact ih

/-- Pass one, and what it leaves of the budget. -/
theorem fitSizes_fitted (budget : Nat) (hs : SizesOk w.policy.allowedSpSizes)
    (hk : ∀ item ∈ ready, item.2.kind ∈ standardTaskKinds) :
    Fitted w budget ready (fitSizes w budget ready).1 ∧
      totalSize (fitSizes w budget ready).1 + (fitSizes w budget ready).2 = budget := by
  induction ready generalizing budget with
  | nil => exact ⟨.done, Nat.zero_add budget⟩
  | cons item ready ih =>
    obtain ⟨requestId, task⟩ := item
    obtain ⟨hkind, hk⟩ := List.forall_mem_cons.mp hk
    rcases Nat.eq_zero_or_pos budget with rfl | hb
    · rw [fitSizes_spent]
      exact ⟨.spent, rfl⟩
    · obtain ⟨size, hsize, hfits⟩ := bestFitSp_fits requestId hs hb hkind
      obtain ⟨hfitted, htotal⟩ := ih (budget - size) hk
      have hwithin := hfits.within
      simp only [fitSizes, hsize]
      refine ⟨.fit hb hfits hfitted, ?_⟩
      simp only [totalSize, List.map_cons, List.sum_cons] at htotal ⊢
      omega

theorem Fitted.items (h : Fitted w budget ready entries) :
    (entries.map FitEntry.item) <+: ready := by
  induction h with
  | done => exact List.prefix_rfl
  | spent => exact List.nil_prefix
  | fit _ _ _ ih => exact (List.prefix_cons_inj _).mpr ih

theorem Fitted.spent_or_all (h : Fitted w budget ready entries) :
    totalSize entries = budget ∨ entries.map FitEntry.item = ready := by
  induction h with
  | done => exact .inr rfl
  | spent => exact .inl rfl
  | fit hb hf _ ih =>
    have hwithin := hf.within
    rcases ih with ih | ih
    · left
      simp only [totalSize, List.map_cons, List.sum_cons] at ih ⊢
      omega
    · exact .inr (by rw [List.map_cons, ih, FitEntry.item])

-- ---------------------------------------------------------------------------
-- Pass two
-- ---------------------------------------------------------------------------

structure Widens (w : World Edf) (before after : FitEntry) : Prop where
  item : after.item = before.item
  size : after.spSize = before.spSize ∨
    (before.task.kind ∈ ditTaskKinds ∧ before.spSize < after.spSize ∧
      after.spSize ∈ w.policy.allowedSpSizes ∧
      estimateFinishMs w before.requestId after.spSize <
        estimateFinishMs w before.requestId before.spSize)

theorem Widens.refl (w : World Edf) (entry : FitEntry) : Widens w entry entry := ⟨rfl, .inl rfl⟩

theorem Widens.trans (h : Widens w a b) (h' : Widens w b c) : Widens w a c := by
  refine ⟨h'.item.trans h.item, ?_⟩
  obtain ⟨hid, htask⟩ := Prod.mk.inj h.item
  have hlater := h'.size
  rw [hid, htask] at hlater
  rcases h.size with hs | ⟨hk, hlt, ha, hest⟩
  · rw [hs] at hlater
    exact hlater
  · rcases hlater with hs' | ⟨_, hlt', ha', hest'⟩
    · rw [hs']
      exact .inr ⟨hk, hlt, ha, hest⟩
    · exact .inr ⟨hk, hlt.trans hlt', ha', hest'.trans hest⟩

theorem widens_trans (h : List.Forall₂ (Widens w) entries entries')
    (h' : List.Forall₂ (Widens w) entries' entries'') :
    List.Forall₂ (Widens w) entries entries'' := by
  induction h generalizing entries'' with
  | nil => exact h'
  | cons hab _ ih =>
    cases h' with
    | cons hbc hrest => exact .cons (hab.trans hbc) (ih hrest)

theorem totalSize_le (h : List.Forall₂ (Widens w) entries entries') :
    totalSize entries ≤ totalSize entries' := by
  induction h with
  | nil => exact le_rfl
  | cons hab _ ih =>
    have hle := hab.size.elim (fun hs => hs.ge) fun hs => hs.2.1.le
    simp only [totalSize, List.map_cons, List.sum_cons] at ih ⊢
    omega

theorem items_of_widens (h : List.Forall₂ (Widens w) entries entries') :
    entries'.map FitEntry.item = entries.map FitEntry.item := by
  induction h with
  | nil => rfl
  | cons hab _ ih => rw [List.map_cons, List.map_cons, hab.item, ih]

theorem widerSize_widens (h : widerSize w budget entry = some size) :
    Widens w entry { entry with spSize := size } ∧ entry.spSize < size ∧
      size - entry.spSize ≤ budget := by
  unfold widerSize at h
  split at h
  · cases h
  · rename_i hk
    have hmem := List.mem_of_find?_eq_some h
    have hest := List.find?_some h
    have hbudget := List.mem_takeWhile_imp hmem
    have hbigger := (List.takeWhile_sublist _).subset hmem
    rw [List.mem_filter, (List.perm_insertionSort ..).mem_iff] at hbigger
    simp only [decide_eq_true_eq] at hest hbudget hbigger
    exact ⟨⟨rfl, .inr ⟨not_not.mp hk, hbigger.2, hbigger.1, hest⟩⟩, hbigger.2, hbudget⟩

theorem widenFirst_widens (h : widenFirst w budget entries = some (entries', left)) :
    List.Forall₂ (Widens w) entries entries' ∧
      totalSize entries' + left = totalSize entries + budget := by
  induction entries generalizing entries' left with
  | nil => cases h
  | cons entry entries ih =>
    simp only [widenFirst] at h
    split at h
    · rename_i size hsize
      cases h
      obtain ⟨hw, hlt, hle⟩ := widerSize_widens hsize
      refine ⟨.cons hw (List.forall₂_same.mpr fun other _ => .refl w other), ?_⟩
      simp only [totalSize, List.map_cons, List.sum_cons]
      omega
    · split at h
      · rename_i hrest
        cases h
        obtain ⟨hw, htotal⟩ := ih hrest
        refine ⟨.cons (.refl w entry) hw, ?_⟩
        simp only [totalSize, List.map_cons, List.sum_cons] at htotal ⊢
        omega
      · cases h

theorem widenFirst_less (h : widenFirst w budget entries = some (entries', left)) :
    left < budget := by
  induction entries generalizing entries' left with
  | nil => cases h
  | cons entry entries ih =>
    simp only [widenFirst] at h
    split at h
    · rename_i size hsize
      cases h
      obtain ⟨-, hlt, hle⟩ := widerSize_widens hsize
      omega
    · split at h
      · rename_i hrest
        cases h
        exact ih hrest
      · cases h

/-- Pass two ends with the budget used up or no entry to widen: the rounds it
is given are enough. -/
theorem redistribute_widens (w : World Edf) (h : budget ≤ rounds) (entries : List FitEntry) :
    List.Forall₂ (Widens w) entries (redistribute w rounds budget entries) ∧
      ∃ left, totalSize (redistribute w rounds budget entries) + left =
          totalSize entries + budget ∧
        (left = 0 ∨ widenFirst w left (redistribute w rounds budget entries) = none) := by
  have hsame : List.Forall₂ (Widens w) entries entries :=
    List.forall₂_same.mpr fun entry _ => .refl w entry
  induction rounds generalizing budget entries with
  | zero => exact ⟨hsame, budget, rfl, .inl (Nat.le_zero.mp h)⟩
  | succ rounds ih =>
    simp only [redistribute]
    split
    · rename_i hb
      exact ⟨hsame, budget, rfl, .inl hb⟩
    · split
      · rename_i wider left hw
        obtain ⟨hwiden, htotal⟩ := widenFirst_widens hw
        have hless := widenFirst_less hw
        have hrounds : left ≤ rounds := by omega
        obtain ⟨hrest, left', hleft, hend⟩ := ih hrounds wider
          (List.forall₂_same.mpr fun entry _ => .refl w entry)
        exact ⟨widens_trans hwiden hrest, left', by omega, hend⟩
      · rename_i hw
        exact ⟨hsame, budget, rfl, .inr hw⟩

-- ---------------------------------------------------------------------------
-- Pass three
-- ---------------------------------------------------------------------------

/-- The entry got as many ranks as its size. -/
structure Sized (entry : FitEntry) (grant : Grant) : Prop where
  requestId : grant.requestId = entry.requestId
  task : grant.task = entry.task
  ranks : grant.ranks.length = entry.spSize

theorem tasks_of_sized (h : List.Forall₂ Sized entries grants) :
    grants.map Grant.task = entries.map FitEntry.task := by
  induction h with
  | nil => rfl
  | cons hs _ ih => rw [List.map_cons, List.map_cons, hs.task, ih]

structure Meetable (entry : FitEntry) : Prop where
  kind : entry.task.kind ∈ standardTaskKinds
  pos : 0 < entry.spSize
  single : entry.task.kind ∈ singleRankTaskKinds → entry.spSize = 1

theorem materializeEntry_placed {w : World Edf} (hf : free.Nodup)
    (hw : ∀ rank ∈ free, rank ∈ w.topology.workers) (he : Meetable entry)
    (hle : entry.spSize ≤ free.length) :
    wp (materializeEntry free entry) (fun result w' =>
      Placed free w ⟨entry.requestId, entry.task, result.1.groupId, result.2⟩ w' ∧
        result.2.length = entry.spSize)
      (fun e w' => w' = w ∧ Collision w e) w := by
  simp only [materializeEntry, wp_bind, wp_ite, wp_get, wp_pure]
  split
  · rename_i hsingle
    split
    · rename_i hnone
      rw [List.min?_eq_none_iff] at hnone
      rw [hnone, List.length_nil] at hle
      exact absurd he.pos (Nat.not_lt.mpr hle)
    · rename_i rank hmin
      simp only [wp_bind, wp_pure]
      refine wp_mono (ensureGroupForRanks_placed entry.requestId (.single rank) he.kind
        (fun r hr => ?_) hw (.inl (List.nodup_singleton rank)))
        (fun group w' hp => ⟨hp.1, (he.single hsingle).symm⟩) fun _ _ he => he
      rw [List.mem_singleton.mp hr]
      exact List.min?_mem hmin
  · rename_i hsingle
    have hlen := pickRanksForRequest_length w entry.requestId hle
    have hne : pickRanksForRequest w entry.requestId entry.spSize free ≠ [] := by
      refine List.ne_nil_of_length_pos ?_
      rw [hlen]
      exact he.pos
    exact wp_mono (ensureGroupForRanks_placed entry.requestId (.dit hne)
      ((standard_cases he.kind).resolve_left hsingle) (pickRanksForRequest_inside w _ _ free) hw
      (pickRanksForRequest_drawn hf)) (fun group w' hp => ⟨hp.1, hlen⟩) fun _ _ he => he

theorem length_withoutRanks {free : List Rank} (hf : free.Nodup) (ranks : List Rank) :
    free.length ≤ ranks.length + (withoutRanks free ranks).length := by
  have hsplit := List.length_eq_countP_add_countP (fun rank => decide (rank ∈ ranks)) (l := free)
  have htaken : free.countP (fun rank => decide (rank ∈ ranks)) ≤ ranks.length := by
    rw [List.countP_eq_length_filter]
    refine (List.subperm_of_subset (hf.sublist List.filter_sublist) fun rank hm => ?_).length_le
    simpa using List.of_mem_filter hm
  have hleft : free.countP (fun rank => decide ¬ decide (rank ∈ ranks) = true) =
      (withoutRanks free ranks).length := by
    rw [List.countP_eq_length_filter, withoutRanks]
    simp only [decide_eq_true_eq]
  omega

/-- Pass three hands out what was promised, unless a name is taken. -/
theorem materialize_granted {w : World Edf} (hf : free.Nodup)
    (hw : ∀ rank ∈ free, rank ∈ w.topology.workers)
    (hh : Heads w.policy (entries.map FitEntry.item)) (he : ∀ entry ∈ entries, Meetable entry)
    (hle : totalSize entries ≤ free.length) :
    wp (materialize free entries) (fun out w' => out = entries.map FitEntry.task ∧
      ∃ grants, List.Forall₂ Sized entries grants ∧ Granted free w grants w')
      (fun e w' => Collision w' e ∧ ∃ part grants, part <+: entries ∧
        List.Forall₂ Sized part grants ∧ Granted free w grants w') w := by
  induction entries generalizing w free with
  | nil => exact ⟨rfl, [], .nil, .nil⟩
  | cons entry entries ih =>
    obtain ⟨he, hes⟩ := List.forall_mem_cons.mp he
    simp only [totalSize, List.map_cons, List.sum_cons] at hle
    simp only [materialize, wp_bind, wp_pure]
    refine wp_mono (materializeEntry_placed hf hw he (by omega)) (fun result w₁ hp => ?_)
      fun e w' herr => ?_
    · obtain ⟨hp, hlen⟩ := hp
      obtain ⟨rest, hq⟩ := hh.2 (entry.requestId, entry.task) (List.mem_cons_self ..)
      have hq₁ := hq
      rw [← hp.rest.2.2] at hq₁
      refine wp_dispatchTask ⟨entry.requestId, entry.task, result.1.groupId, result.2⟩ hq₁ ?_
      have htaken := length_withoutRanks hf result.2
      refine wp_mono (ih (hf.sublist List.filter_sublist) (hp.free_known hw) (hh.dispatched hp) hes
        (by simp only [totalSize]; omega)) (fun out w' hr => ?_) fun e w' herr => ?_
      · obtain ⟨rfl, grants, hsized, hg⟩ := hr
        exact ⟨rfl, _ :: grants, .cons ⟨rfl, rfl, hlen⟩ hsized, .cons hp hq₁ hg⟩
      · obtain ⟨hc, part, grants, hpart, hsized, hg⟩ := herr
        exact ⟨hc, entry :: part, _ :: grants, (List.prefix_cons_inj _).mpr hpart,
          .cons ⟨rfl, rfl, hlen⟩ hsized, .cons hp hq₁ hg⟩
    · obtain ⟨rfl, herr⟩ := herr
      exact ⟨herr, [], [], List.nil_prefix, .nil, .nil⟩

theorem Fitted.meetable (h : Fitted w budget ready entries) (hs : SizesOk w.policy.allowedSpSizes)
    (hk : ∀ item ∈ ready, item.2.kind ∈ standardTaskKinds) :
    ∀ entry ∈ entries, Meetable entry ∧ entry.spSize ∈ w.policy.allowedSpSizes := by
  induction h with
  | done => simp
  | spent => simp
  | fit _ hf _ ih =>
    obtain ⟨hkind, hk⟩ := List.forall_mem_cons.mp hk
    exact List.forall_mem_cons.mpr ⟨⟨⟨hkind, hs.pos _ hf.allowed, hf.single⟩, hf.allowed⟩, ih hk⟩

theorem meetable_of_widens (h : List.Forall₂ (Widens w) entries sizes)
    (hm : ∀ entry ∈ entries, Meetable entry ∧ entry.spSize ∈ w.policy.allowedSpSizes) :
    ∀ entry ∈ sizes, Meetable entry ∧ entry.spSize ∈ w.policy.allowedSpSizes := by
  induction h with
  | nil => simp
  | cons hab _ ih =>
    obtain ⟨⟨hmeet, hallowed⟩, hm⟩ := List.forall_mem_cons.mp hm
    refine List.forall_mem_cons.mpr ⟨?_, ih hm⟩
    obtain ⟨-, htask⟩ := Prod.mk.inj hab.item
    rcases hab.size with hsame | ⟨hdit, hlt, ha, -⟩
    · exact ⟨⟨htask ▸ hmeet.kind, hsame ▸ hmeet.pos, fun hk => hsame ▸ hmeet.single (htask ▸ hk)⟩,
        hsame ▸ hallowed⟩
    · refine ⟨⟨htask ▸ hmeet.kind, hmeet.pos.trans hlt, fun hk => ?_⟩, ha⟩
      exact absurd hdit (not_dit_of_single (htask ▸ hk))

theorem placePinned_unpinned {w : World Edf}
    (h : ∀ item ∈ ready, w.tasks.groupId item.2 = none) (free : List Rank) :
    placePinned free ready w = .ok ([], free, ready) w := by
  induction ready with
  | nil => rfl
  | cons item ready ih =>
    obtain ⟨requestId, task⟩ := item
    obtain ⟨hn, hrest⟩ := List.forall_mem_cons.mp h
    simp only [placePinned]
    rw [get_bind, if_pos hn, bind_ok (ih hrest)]
    rfl

-- ---------------------------------------------------------------------------
-- The tick
-- ---------------------------------------------------------------------------

/-- The entries got their ranks: each as many as its size, an allowed one and
one for a single-rank task, all different, free before, and of no other. -/
def Handed (w : World Edf) (sizes : List FitEntry) (w' : World Edf) : Prop :=
  ∃ grants, List.Forall₂ Sized sizes grants ∧
    w'.policy.accounts = grants.foldl Grant.claim w.policy.accounts ∧
    (∀ grant ∈ grants, grant.ranks.Nodup ∧ (∀ rank ∈ grant.ranks, rank ∈ freeRankSet w) ∧
      grant.ranks.length ∈ w.policy.allowedSpSizes ∧
      (grant.task.kind ∈ singleRankTaskKinds → grant.ranks.length = 1) ∧
      ∃ group ∈ w'.topology.groups, group.groupId = grant.groupId ∧ group.ranks = grant.ranks) ∧
    grants.Pairwise fun a b => a.ranks.Disjoint b.ranks

theorem exists_sized (h : List.Forall₂ Sized sizes grants) :
    ∀ grant ∈ grants, ∃ entry ∈ sizes, Sized entry grant := by
  induction h with
  | nil => simp
  | cons hs _ ih =>
    refine List.forall_mem_cons.mpr ⟨⟨_, List.mem_cons_self .., hs⟩, fun grant hm => ?_⟩
    obtain ⟨entry, he, hs⟩ := ih grant hm
    exact ⟨entry, List.mem_cons_of_mem _ he, hs⟩

theorem Handed.of_granted (hd : ∀ group ∈ w.topology.groups, group.ranks.Nodup)
    (hm : ∀ entry ∈ sizes, Meetable entry ∧ entry.spSize ∈ w.policy.allowedSpSizes)
    (hsized : List.Forall₂ Sized sizes grants) (hg : Granted (freeRankSet w) w grants w') :
    Handed w sizes w' := by
  refine ⟨grants, hsized, hg.accounts_eq, fun grant hgrant => ?_, hg.disjoint⟩
  obtain ⟨entry, hentry, hs⟩ := exists_sized hsized grant hgrant
  obtain ⟨hmeet, hallowed⟩ := hm entry hentry
  refine ⟨(hg.distinct hd).1 grant hgrant, hg.inside grant hgrant, hs.ranks ▸ hallowed,
    fun hk => ?_, hg.known grant hgrant⟩
  rw [hs.ranks]
  exact hmeet.single (hs.task ▸ hk)

/-- The best-fit tick over ready tasks that are unpinned and of the supported
kinds, for any estimator, any free ranks and any allowed sizes. -/
theorem best_fit_tick (w : World Edf) (allowed : Option (List Int))
    (hs : normalizeAllowedSpSizes w.topology.workers allowed = .ok w.policy.allowedSpSizes)
    (hd : ∀ group ∈ w.topology.groups, group.ranks.Nodup)
    (hready : ∀ item ∈ w.policy.readyList,
      w.tasks.groupId item.2 = none ∧ item.2.kind ∈ standardTaskKinds) :
    w.policy.readyList.Pairwise
      (fun a b => w.policy.requestSortKey a.1 ≤ w.policy.requestSortKey b.1) ∧
    ∃ entries sizes left, Fitted w (freeRankSet w).length w.policy.readyList entries ∧
      List.Forall₂ (Widens w) entries sizes ∧
      totalSize sizes + left = (freeRankSet w).length ∧
      (left = 0 ∨ widenFirst w left sizes = none) ∧
      wp bestFitTake (fun out w' => out = sizes.map FitEntry.task ∧ Handed w sizes w')
        (fun e w' => (∃ groupId, e = differentSpec groupId) ∧
          ∃ part, part <+: sizes ∧ Handed w part w') w := by
  have hok := normalizeAllowedSpSizes_ok hs
  refine ⟨readyList_sorted w.policy, ?_⟩
  obtain ⟨hfitted, htotal⟩ := fitSizes_fitted (freeRankSet w).length hok fun item hm =>
    (hready item hm).2
  obtain ⟨hwiden, left, hleft, hend⟩ := redistribute_widens w le_rfl
    (fitSizes w (freeRankSet w).length w.policy.readyList).1
  have hmeet := meetable_of_widens hwiden (hfitted.meetable hok fun item hm => (hready item hm).2)
  refine ⟨_, _, left, hfitted, hwiden, hleft.trans htotal, hend, ?_⟩
  have hheads := (readyList_heads w.policy).of_sublist hfitted.items.sublist
  rw [← items_of_widens hwiden] at hheads
  simp only [bestFitTake, wp_bind, wp_get, wp_pure]
  refine wp_of_ok (placePinned_unpinned (fun item hm => (hready item hm).1) _) ?_
  refine wp_mono (materialize_granted (freeRankSet_free w).1
    (fun rank hm => List.mem_of_mem_filter hm) hheads (fun entry hm => (hmeet entry hm).1)
    (Nat.le.intro (hleft.trans htotal))) (fun out w' hr => ?_) fun e w' herr => ?_
  · obtain ⟨rfl, grants, hsized, hg⟩ := hr
    exact ⟨List.nil_append _, .of_granted hd hmeet hsized hg⟩
  · obtain ⟨⟨ranks, kinds, -, -, -, rfl⟩, part, grants, hpart, hsized, hg⟩ := herr
    exact ⟨⟨_, rfl⟩, part, hpart,
      .of_granted hd (fun entry hm => hmeet entry (hpart.subset hm)) hsized hg⟩

-- Two workers; a DiT task that only two ranks finish in time, and a text task.

def pairGroup (groupId : String) (rank : Rank) : ExecutionGroupSpec :=
  soloSpec groupId rank standardTaskKinds

def pairTopology : RuntimeTopology :=
  ⟨[0, 1], [pairGroup "g_sp1_r0" 0, pairGroup "g_sp1_r1" 1], two_workers, by decide, by decide⟩

def pairTask (requestId : String) (kind : TaskKind) : InferenceTask :=
  ⟨requestId ++ "-task", requestId, kind, none, .ready, 0, [], [], [], none, ∅⟩

def pairEstimator : TaskRuntimeEstimator := fun spec _ _ => .ok (if spec.sp = 1 then 100 else 60)

def pairWorld : World Edf :=
  ⟨pairTopology, ∅, 0, { Edf.init (some pairEstimator) [2, 1] with
    readyByRequest := Dict.set (Dict.set ∅ "a" [pairTask "a" .textEncode]) "b"
      [pairTask "b" .ditPrepare]
    requestTasks := Dict.set ∅ "b" [pairTask "b" .ditPrepare]
    requestMeta := Dict.set (Dict.set ∅ "a" ⟨.inf, 0, .fin 0, 1, 0, 0, 0, 0, 1⟩) "b"
      ⟨.fin 80, 0, .fin 0, 2, 0, 0, 0, 0, 1⟩ }⟩

/-- The tick takes the DiT task first, on both ranks. -/
theorem best_fit_tick_pair :
    (freeRankSet pairWorld = [0, 1] ∧ pairWorld.policy.readyList.map Prod.fst = ["b", "a"] ∧
      bestFitSp pairWorld "b" (pairTask "b" .ditPrepare) 2 = some 2) ∧
    ∃ entries sizes left, Fitted pairWorld 2 pairWorld.policy.readyList entries ∧
      List.Forall₂ (Widens pairWorld) entries sizes ∧ totalSize sizes + left = 2 ∧
      (left = 0 ∨ widenFirst pairWorld left sizes = none) ∧
      wp bestFitTake (fun out w' => out = sizes.map FitEntry.task ∧ Handed pairWorld sizes w')
        (fun e w' => (∃ groupId, e = differentSpec groupId) ∧
          ∃ part, part <+: sizes ∧ Handed pairWorld part w') pairWorld :=
  ⟨by decide +kernel, (best_fit_tick pairWorld none rfl (by decide) (by decide +kernel)).2⟩

end Edf

end GfDit
