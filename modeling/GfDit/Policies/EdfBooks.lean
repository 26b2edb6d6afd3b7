import GfDit.Policies.EdfBestFit
import GfDit.Policies.Ledger
import GfDit.Lib.Unique

/-!
# The books of the EDF policies

Both variants keep one invariant: the accounts balance, only ordinary tasks
hold claims, and a ready task waits in its own request's queue. A tick walks
the ready requests with a set of ranks that stay free in the accounts; a
placement it finds lies inside that set and on a known group.
-/

namespace GfDit

open Prog

theorem Settled.assign {known : String → InferenceTask} {heap : TaskHeap} {task : InferenceTask}
    (hk : known task.taskId = task)
    (hg : heap.groupId task = none ∨ heap.groupId task = some groupId) :
    Settled known heap (heap.setGroupId task (some groupId)) := by
  rcases hg with hg | hg
  · exact .setGroupId hk hg _
  · intro other groupId' ho hg'
    by_cases hid : task.taskId = other.taskId
    · obtain rfl : task = other := by rw [← hk, hid, ho]
      rw [TaskHeap.groupId_setGroupId, ← hg', hg]
    · rwa [TaskHeap.groupId_setGroupId_ne _ _ hid]

theorem ExecutionGroupSpec.make_ok {group : ExecutionGroupSpec} {id : String} {members : List Rank}
    (h : ExecutionGroupSpec.make id members spec kinds ulysses ring = .ok group) :
    group.groupId = id ∧ group.ranks = members := by
  unfold ExecutionGroupSpec.make at h
  split at h
  · cases h
  · split at h
    · cases h
    · split at h
      · cases h
      · simp only at h
        -- the degrees, then the check on them
        split at h
        all_goals
          split at h
          · cases h
            exact ⟨rfl, rfl⟩
          · cases h

namespace Edf

variable {known : String → InferenceTask} {w : World Edf}

structure Sound (known : String → InferenceTask) (w : World Edf) : Prop where
  booked : Booked known w.topology w.tasks w.policy.accounts
  ordinary : ∀ c ∈ claims w.policy.accounts.log, c.ordinary = true
  queued : ∀ requestId queue, w.policy.readyByRequest.get? requestId = some queue →
    ∀ task ∈ queue, known task.taskId = task ∧ task.requestId = requestId
  -- the scheduler refuses a RESHARD with a group, and no handler gives it one
  unplaced : ∀ task, known task.taskId = task → task.kind = .reshard → w.tasks.groupId task = none

theorem Sound.init (hd : ∀ group ∈ w.topology.groups, group.ranks.Nodup)
    (hr : ∀ task, known task.taskId = task → task.kind = .reshard → w.tasks.groupId task = none)
    (hp : w.policy = .init estimator sizes) : Sound known w where
  booked := hp ▸ Booked.init hd
  ordinary := by simp [hp, Edf.init, RankAccounts.init, claims]
  queued := by simp [hp, Edf.init]
  unplaced := hr

theorem Sound.retouch (h : Sound known w) {p : Edf} (ha : p.accounts = w.policy.accounts)
    (hq : ∀ requestId queue, p.readyByRequest.get? requestId = some queue →
      w.policy.readyByRequest.get? requestId = some queue) :
    Ticks known (Sound known) accounts w [] { w with policy := p } := by
  refine ⟨⟨⟨ha ▸ h.booked, ha ▸ h.ordinary, fun requestId queue hget => ?_, h.unplaced⟩, .refl,
    fun _ hm => hm⟩, ?_⟩
  · exact h.queued requestId queue (hq requestId queue hget)
  · simp only [ha]
    exact .refl _

theorem Sound.setGroupId (h : Sound known w) (hk : known task.taskId = task)
    (ho : task.kind ≠ .reshard)
    (hg : w.tasks.groupId task = none ∨ w.tasks.groupId task = some groupId) :
    Sound known (w.setGroupId task (some groupId)) where
  booked := h.booked.settle (.assign hk hg)
  ordinary := h.ordinary
  queued := h.queued
  unplaced := fun other hko hr => by
    have hne : task.taskId ≠ other.taskId := by
      intro hid
      have heq : task = other := by rw [← hk, hid, hko]
      exact ho (heq ▸ hr)
    rw [World.setGroupId, TaskHeap.groupId_setGroupId_ne _ _ hne]
    exact h.unplaced other hko hr

theorem Sound.setStatus (h : Sound known w) (hk : known task.taskId = task) (status : TaskStatus) :
    Sound known (w.setStatus task status) where
  booked := h.booked.settle (.setStatus hk status)
  ordinary := h.ordinary
  queued := h.queued
  unplaced := fun other hko hr => by
    rw [World.setStatus, TaskHeap.groupId_setStatus _ _ fun hid => by rw [← hk, hid, hko]]
    exact h.unplaced other hko hr

-- ---------------------------------------------------------------------------
-- Groups on demand
-- ---------------------------------------------------------------------------

theorem ensureGroupForRanks_ticks (h : Sound known w) (hn : ranks.Nodup) :
    wp (ensureGroupForRanks ranks kinds) (fun group w' =>
      Ticks known (Sound known) accounts w [] w' ∧ w'.tasks = w.tasks ∧ w'.policy = w.policy ∧
      w'.topology.find group.groupId = some group ∧ group.ranks = ranks)
      (fun _ => Keeps known (Sound known) w) w := by
  simp only [ensureGroupForRanks, World.ensureGroup, wp_bind, wp_get]
  split
  · rename_i group hfind
    have hp := List.find?_some hfind
    have hm := List.mem_of_find?_eq_some hfind
    simp only [decide_eq_true_eq] at hp
    exact ⟨.refl h, rfl, rfl, RuntimeTopology.find_eq_some.mpr ⟨hm, rfl⟩, hp.1⟩
  · simp only [wp_bind, wp_get, wp_modify, wp_pure]
    refine wp_check (fun spec _ => ?_) fun _ _ => .refl h
    refine wp_check (fun group hg => ?_) fun _ _ => .refl h
    refine wp_check (fun result hr => ?_) fun _ _ => .refl h
    obtain ⟨result, topology⟩ := result
    obtain ⟨rfl, hfind, -, hgroups⟩ := RuntimeTopology.ensureGroup_ok hr
    obtain ⟨-, hranks⟩ := ExecutionGroupSpec.make_ok hg
    have hgrow : ∀ g ∈ w.topology.groups, g ∈ topology.groups := fun g hm =>
      (hgroups g).mpr (.inl hm)
    have hbooked : Booked known topology w.tasks w.policy.accounts := by
      refine h.booked.grow hgrow fun g hm => ?_
      rcases (hgroups g).mp hm with hm | rfl
      · exact h.booked.distinct g hm
      · exact hranks ▸ hn
    exact ⟨⟨⟨⟨hbooked, h.ordinary, h.queued, h.unplaced⟩, .refl, hgrow⟩, .refl _⟩, rfl, rfl, hfind,
      hranks⟩

-- ---------------------------------------------------------------------------
-- Placement
-- ---------------------------------------------------------------------------

structure Placement (w : World Edf) (free : List Rank) (task : InferenceTask) (groupId : String)
    (ranks : List Rank) : Prop where
  group : ∃ group, w.topology.find groupId = some group ∧ group.ranks = ranks
  inside : ∀ rank ∈ ranks, rank ∈ free
  ordinary : task.kind ≠ .reshard
  assigned : w.tasks.groupId task = none ∨ w.tasks.groupId task = some groupId

def Places (known : String → InferenceTask) (w : World Edf) (free : List Rank)
    (task : InferenceTask) (placement : Option (String × List Rank)) (w' : World Edf) : Prop :=
  Ticks known (Sound known) accounts w [] w' ∧ w'.tasks = w.tasks ∧ w'.policy = w.policy ∧
    ∀ groupId ranks, placement = some (groupId, ranks) → Placement w' free task groupId ranks

theorem Places.none (h : Sound known w) : Places known w free task none w :=
  ⟨.refl h, rfl, rfl, by simp⟩

theorem Places.trans (ht : Ticks known (Sound known) accounts w [] w₁)
    (htasks : w₁.tasks = w.tasks) (hpolicy : w₁.policy = w.policy)
    (h : Places known w₁ free task placement w₂) : Places known w free task placement w₂ :=
  ⟨ht.trans h.1, h.2.1.trans htasks, h.2.2.1.trans hpolicy, h.2.2.2⟩

theorem kind_ne_reshard (h : kind ∈ singleRankTaskKinds ∨ kind ∈ ditTaskKinds) :
    kind ≠ .reshard := by
  rintro rfl
  simp [singleRankTaskKinds, ditTaskKinds] at h

theorem selectSingleRank_places (h : Sound known w) (hn : w.tasks.groupId task = none)
    (ho : task.kind ≠ .reshard) (hin : ∀ rank ∈ ranks, rank ∈ free) :
    wp (selectSingleRank task ranks) (Places known w free task)
      (fun _ => Keeps known (Sound known) w) w := by
  induction ranks generalizing w with
  | nil => exact Places.none h
  | cons rank ranks ih =>
    simp only [selectSingleRank, wp_bind, wp_ite, wp_pure]
    refine wp_mono (ensureGroupForRanks_ticks h (List.nodup_singleton rank))
      (fun group w₁ hg => ?_) fun _ _ he => he
    obtain ⟨ht, htasks, hpolicy, hfind, hranks⟩ := hg
    split
    · refine ⟨ht, htasks, hpolicy, fun groupId ranks' heq => ?_⟩
      cases heq
      exact ⟨⟨group, hfind, hranks⟩, fun r hr => hin r (by simp_all), ho, .inl (htasks ▸ hn)⟩
    · refine wp_mono (ih ht.sound (htasks ▸ hn) fun r hr => hin r (List.mem_cons_of_mem _ hr))
        (fun _ _ hp => Places.trans ht htasks hpolicy hp) fun _ _ he => ht.toKeeps.trans he

theorem pickRanksForRequest_inside (w : World Edf) (requestId : String) (spSize : Nat)
    (free : List Rank) : ∀ rank ∈ pickRanksForRequest w requestId spSize free, rank ∈ free := by
  have hlow : ∀ rank ∈ (free.insertionSort (· ≤ ·)).take spSize, rank ∈ free := fun rank hm =>
    (List.perm_insertionSort ..).mem_iff.mp (List.mem_of_mem_take hm)
  simp only [pickRanksForRequest]
  split
  · exact hlow
  · split
    · exact hlow
    · split
      · rename_i hc
        exact hc.2
      · exact hlow

theorem pickRanksForRequest_nodup (h : Sound known w) (hf : free.Nodup) (requestId : String)
    (spSize : Nat) : (pickRanksForRequest w requestId spSize free).Nodup := by
  have hlow : ((free.insertionSort (· ≤ ·)).take spSize).Nodup :=
    ((List.perm_insertionSort ..).nodup_iff.mpr hf).sublist (List.take_sublist ..)
  simp only [pickRanksForRequest]
  split
  · exact hlow
  · split
    · exact hlow
    · rename_i group hfind
      split
      · exact h.booked.distinct group (RuntimeTopology.find_eq_some.mp hfind).1
      · exact hlow

theorem selectSize_places (h : Sound known w) (hn : w.tasks.groupId task = none)
    (ho : task.kind ≠ .reshard) (hf : free.Nodup) :
    wp (selectSize task free sizes) (Places known w free task)
      (fun _ => Keeps known (Sound known) w) w := by
  induction sizes generalizing w with
  | nil => exact Places.none h
  | cons spSize sizes ih =>
    simp only [selectSize, wp_bind, wp_get, wp_ite, wp_pure]
    refine wp_mono (ensureGroupForRanks_ticks h (pickRanksForRequest_nodup h hf ..))
      (fun group w₁ hg => ?_) fun _ _ he => he
    obtain ⟨ht, htasks, hpolicy, hfind, hranks⟩ := hg
    split
    · refine ⟨ht, htasks, hpolicy, fun groupId ranks heq => ?_⟩
      cases heq
      exact ⟨⟨group, hfind, hranks⟩, pickRanksForRequest_inside w task.requestId spSize free, ho,
        .inl (htasks ▸ hn)⟩
    · exact wp_mono (ih ht.sound (htasks ▸ hn))
        (fun _ _ hp => Places.trans ht htasks hpolicy hp) fun _ _ he => ht.toKeeps.trans he

theorem selectPlacement_places (h : Sound known w) (hk : known task.taskId = task)
    (hf : free.Nodup) :
    wp (selectPlacement task free) (Places known w free task)
      (fun _ => Keeps known (Sound known) w) w := by
  simp only [selectPlacement, wp_bind, wp_get]
  split
  · rename_i groupId hg
    simp only [wp_bind, wp_ite, wp_pure, wp_throw]
    refine World.wp_getGroup (fun group hfind => ?_) fun _ => .refl h
    split
    · exact .refl h
    · split
      · rename_i hin
        refine ⟨.refl h, rfl, rfl, fun groupId' ranks heq => ?_⟩
        cases heq
        obtain rfl := (RuntimeTopology.find_eq_some.mp hfind).2
        refine ⟨⟨group, hfind, rfl⟩, hin, fun hr => ?_, .inr hg⟩
        rw [h.unplaced task hk hr] at hg
        cases hg
      · exact Places.none h
  · rename_i hn
    simp only [wp_ite, wp_throw]
    split
    · rename_i hs
      exact selectSingleRank_places h hn (kind_ne_reshard (.inl hs)) fun rank hm =>
        (List.perm_insertionSort ..).mem_iff.mp hm
    · split
      · rename_i hd
        simp only [selectDitGroup, wp_bind, wp_get, wp_ite, wp_pure]
        split
        · exact Places.none h
        · refine wp_check (fun sizes _ => ?_) fun _ _ => .refl h
          exact selectSize_places h hn (kind_ne_reshard (.inr hd)) hf
      · exact .refl h

-- ---------------------------------------------------------------------------
-- Dispatch
-- ---------------------------------------------------------------------------

def FreeRanks (a : RankAccounts) (free : List Rank) : Prop :=
  free.Nodup ∧ ∀ rank ∈ free,
    Counter.count a.outstandingPerRank rank = 0 ∧ Counter.count a.reshardHoldsByRank rank = 0

theorem freeRankSet_free (w : World Edf) : FreeRanks w.policy.accounts (freeRankSet w) := by
  refine ⟨w.topology.workers_nodup.sublist List.filter_sublist, fun rank hm => ?_⟩
  have hp := List.of_mem_filter hm
  exact Booked.canDispatchRanks_iff.mp hp rank (List.mem_singleton_self rank)

theorem FreeRanks.without (h : FreeRanks a free) (task : InferenceTask) (groupId : String)
    (ranks : List Rank) :
    FreeRanks (a.dispatch task groupId ranks) (withoutRanks free ranks) := by
  refine ⟨h.1.sublist List.filter_sublist, fun rank hm => ?_⟩
  obtain ⟨hm, hout⟩ := List.mem_filter.mp hm
  have hout : rank ∉ ranks := by simpa using hout
  obtain ⟨ho, hh⟩ := h.2 rank hm
  refine ⟨?_, hh⟩
  simp only [RankAccounts.dispatch, Counter.count_raiseAll, ho, List.count_eq_zero_of_not_mem hout]

/-- Requests, none twice, each with the head of its queue. -/
def Heads (p : Edf) (ready : List (String × InferenceTask)) : Prop :=
  (ready.map Prod.fst).Nodup ∧
    ∀ item ∈ ready, ∃ rest, p.readyByRequest.get? item.1 = some (item.2 :: rest)

theorem readyList_heads (p : Edf) : Heads p p.readyList := by
  have hperm : p.readyList.Perm (p.readyByRequest.entries.filterMap _) :=
    List.perm_insertionSort (fun a b : String × InferenceTask =>
      p.requestSortKey a.1 ≤ p.requestSortKey b.1) _
  constructor
  · refine (hperm.map Prod.fst).nodup_iff.mpr ?_
    refine p.readyByRequest.nodup.sublist (List.map_filterMap_sublist (fun entry item h => ?_) _)
    obtain ⟨requestId, queue⟩ := entry
    cases queue with
    | nil => cases h
    | cons task rest =>
      simp only at h
      split at h
      · cases h
      · cases h
        rfl
  · intro item hm
    obtain ⟨⟨requestId, queue⟩, hmem, heq⟩ := List.mem_filterMap.mp (hperm.mem_iff.mp hm)
    cases queue with
    | nil => cases heq
    | cons task rest =>
      simp only at heq
      split at heq
      · cases heq
      · cases heq
        exact ⟨rest, p.readyByRequest.get?_eq_some.mpr hmem⟩

theorem Heads.of_sublist (h : Heads p ready) (hs : List.Sublist part ready) : Heads p part :=
  ⟨h.1.sublist (hs.map _), fun item hm => h.2 item (hs.subset hm)⟩

structure Frame (ready : List (String × InferenceTask)) (w w' : World Edf) : Prop where
  queues : ∀ requestId ∉ ready.map Prod.fst,
    w'.policy.readyByRequest.get? requestId = w.policy.readyByRequest.get? requestId
  groups : ∀ task, (∀ item ∈ ready, item.2.taskId ≠ task.taskId) →
    w'.tasks.groupId task = w.tasks.groupId task

theorem Frame.refl : Frame ready w w := ⟨fun _ _ => rfl, fun _ _ => rfl⟩

theorem Frame.weaken (h : Frame part w w') (hs : ∀ item ∈ part, item ∈ ready) : Frame ready w w' where
  queues := fun requestId hn => h.queues requestId fun hm => by
    obtain ⟨item, hi, rfl⟩ := List.mem_map.mp hm
    exact hn (List.mem_map_of_mem (hs item hi))
  groups := fun task ht => h.groups task fun item hm => ht item (hs item hm)

theorem Frame.trans (h : Frame ready w w') (h' : Frame ready w' w'') : Frame ready w w'' where
  queues := fun requestId hn => (h'.queues requestId hn).trans (h.queues requestId hn)
  groups := fun task ht => (h'.groups task ht).trans (h.groups task ht)

theorem Heads.frame (h : Heads w.policy rest) (hf : Frame ready w w')
    (hd : ∀ item ∈ rest, item.1 ∉ ready.map Prod.fst) : Heads w'.policy rest := by
  refine ⟨h.1, fun item hm => ?_⟩
  rw [hf.queues item.1 (hd item hm)]
  exact h.2 item hm

theorem Sound.ids_ne (h : Sound known w) (hh : Heads w.policy (item :: ready))
    (hm : other ∈ ready) : item.2.taskId ≠ other.2.taskId := by
  intro hid
  obtain ⟨rest, hget⟩ := hh.2 item (List.mem_cons_self ..)
  obtain ⟨rest', hget'⟩ := hh.2 other (List.mem_cons_of_mem _ hm)
  obtain ⟨hk, hr⟩ := h.queued _ _ hget item.2 (List.mem_cons_self ..)
  obtain ⟨hk', hr'⟩ := h.queued _ _ hget' other.2 (List.mem_cons_self ..)
  have htask : item.2 = other.2 := by rw [← hk, hid, hk']
  have hreq : item.1 = other.1 := by rw [← hr, htask, hr']
  exact (List.nodup_cons.mp hh.1).1 (hreq ▸ List.mem_map_of_mem hm)

theorem Heads.head_ne (hh : Heads p (item :: ready)) (hm : other ∈ ready) : other.1 ≠ item.1 :=
  fun heq => (List.nodup_cons.mp hh.1).1 (heq ▸ List.mem_map_of_mem hm)

theorem Sound.popReady (h : Sound known w)
    (hq : w.policy.readyByRequest.get? requestId = some (task :: rest)) :
    Sound known { w with policy := w.policy.popReady requestId rest } ∧
      (w.policy.popReady requestId rest).accounts = w.policy.accounts ∧
      ∀ other, other ≠ requestId → (w.policy.popReady requestId rest).readyByRequest.get? other =
        w.policy.readyByRequest.get? other := by
  unfold Edf.popReady
  split
  · refine ⟨{ h with queued := fun other queue hget => ?_ }, rfl, fun other hne => ?_⟩
    · rw [Dict.get?_erase] at hget
      split at hget
      · cases hget
      · exact h.queued other queue hget
    · exact Dict.get?_erase_ne _ (Ne.symm hne)
  · refine ⟨{ h with queued := fun other queue hget => ?_ }, rfl, fun other hne => ?_⟩
    · rw [Dict.get?_set] at hget
      split at hget
      · rename_i heq
        subst heq
        cases hget
        exact fun t hm => h.queued _ _ hq t (List.mem_cons_of_mem _ hm)
      · exact h.queued other queue hget
    · exact Dict.get?_set_ne _ (Ne.symm hne) _

theorem dispatchTask_ticks (h : Sound known w) (hh : Heads w.policy ((requestId, task) :: ready))
    (hf : FreeRanks w.policy.accounts free) (hp : Placement w free task groupId ranks) :
    wp (dispatchTask task requestId groupId ranks) (fun _ w' =>
      Ticks known (Sound known) accounts w [task] w' ∧
      FreeRanks w'.policy.accounts (withoutRanks free ranks) ∧
      Frame [(requestId, task)] w w') (fun _ _ => False) w := by
  obtain ⟨rest, hq⟩ := hh.2 (requestId, task) (List.mem_cons_self ..)
  obtain ⟨hk, -⟩ := h.queued _ _ hq task (List.mem_cons_self ..)
  obtain ⟨group, hfind, rfl⟩ := hp.group
  obtain rfl := (RuntimeTopology.find_eq_some.mp hfind).2
  obtain ⟨hpop, hacc, hother⟩ := h.popReady hq
  simp only [dispatchTask, modifyPolicy, wp_bind, wp_get, hq, ne_eq, not_true_eq_false, if_false,
    wp_modify]
  have hs := Settled.assign hk hp.assigned
  have h₁ := (hpop.setGroupId hk hp.ordinary hp.assigned).setStatus hk .dispatched
  have hs₁ : Settled known w.tasks ((w.tasks.setGroupId task (some group.groupId)).setStatus task
      .dispatched) := hs.trans (.setStatus hk .dispatched)
  have hg : ((w.tasks.setGroupId task (some group.groupId)).setStatus task .dispatched).groupId
      task = some group.groupId := by
    rw [TaskHeap.groupId_setStatus _ _ fun _ => rfl, TaskHeap.groupId_setGroupId]
  have hfree : (w.policy.popReady requestId rest).accounts.canDispatchRanks group.ranks = true := by
    rw [hacc]
    exact Booked.canDispatchRanks_iff.mpr fun rank hm => hf.2 rank (hp.inside rank hm)
  have hbooked := h₁.booked.dispatch hk hp.ordinary hg hfind hfree
  refine ⟨⟨⟨⟨hbooked, ?_, h₁.queued, h₁.unplaced⟩, hs₁, fun _ hm => hm⟩, ?_⟩, ?_, ?_, ?_⟩
  · intro c hc
    rcases List.mem_cons.mp hc with rfl | hc
    · simpa [Claim.ordinary] using hp.ordinary
    · exact h₁.ordinary c hc
  · show Issued w.policy.accounts.log [task] (_ :: (w.policy.popReady requestId rest).accounts.log)
    rw [hacc]
    exact .dispatched ..
  · show FreeRanks ((w.policy.popReady requestId rest).accounts.dispatch ..) _
    rw [hacc]
    exact hf.without task group.groupId group.ranks
  · intro other hn
    exact hother other (by simpa using hn)
  · intro other hn
    have hne : task.taskId ≠ other.taskId := hn (requestId, task) (List.mem_singleton_self _)
    simp only [World.setStatus, World.setGroupId, TaskHeap.groupId, TaskHeap.setStatus,
      TaskHeap.setGroupId, TaskHeap.fields_set_ne _ _ hne]

/-- A walk over ready requests that place their own heads. -/
theorem placeInTurn_ticks (h : Sound known w) (hf : FreeRanks w.policy.accounts free)
    (hh : Heads w.policy ready) :
    wp (placeInTurn free ready) (Ticks known (Sound known) accounts w)
      (fun _ => Keeps known (Sound known) w) w := by
  induction ready generalizing w free with
  | nil => exact .refl h
  | cons item ready ih =>
    obtain ⟨requestId, task⟩ := item
    have hrest := hh.of_sublist (List.sublist_cons_self ..)
    obtain ⟨rest, hq⟩ := hh.2 (requestId, task) (List.mem_cons_self ..)
    obtain ⟨hk, -⟩ := h.queued _ _ hq task (List.mem_cons_self ..)
    simp only [placeInTurn, wp_bind]
    refine wp_mono (selectPlacement_places h hk hf.1) (fun placement w₁ hp => ?_) fun _ _ he => he
    obtain ⟨ht, htasks, hpolicy, hplace⟩ := hp
    rw [← hpolicy] at hf hh hrest
    cases placement with
    | none =>
      exact wp_mono (ih ht.sound hf hrest) (fun _ _ hr => ht.trans hr)
        fun _ _ he => ht.toKeeps.trans he
    | some placement =>
      obtain ⟨groupId, ranks⟩ := placement
      simp only [wp_bind, wp_pure]
      refine wp_mono (dispatchTask_ticks ht.sound hh hf (hplace groupId ranks rfl))
        (fun _ w₂ hd => ?_) fun _ _ he => he.elim
      obtain ⟨hd, hfree, hframe⟩ := hd
      have ht₂ := ht.trans hd
      refine wp_mono (ih hd.sound hfree (hrest.frame hframe fun other hm => ?_))
        (fun _ _ hr => ht₂.trans hr) fun _ _ he => ht₂.toKeeps.trans he
      simpa using hh.head_ne hm

theorem takeDispatchableTasks_ticks (h : Sound known w) :
    wp takeDispatchableTasks (Ticks known (Sound known) accounts w)
      (fun _ => Keeps known (Sound known) w) w := by
  simp only [takeDispatchableTasks, wp_bind, wp_get]
  exact placeInTurn_ticks h (freeRankSet_free w) (readyList_heads w.policy)

-- ---------------------------------------------------------------------------
-- Best fit
-- ---------------------------------------------------------------------------

/-- The pinned tasks are placed; the others still wait, without a group. -/
theorem placePinned_ticks (h : Sound known w) (hf : FreeRanks w.policy.accounts free)
    (hh : Heads w.policy ready) :
    wp (placePinned free ready) (fun result w' =>
      Ticks known (Sound known) accounts w result.1 w' ∧
      FreeRanks w'.policy.accounts result.2.1 ∧ Heads w'.policy result.2.2 ∧
      (∀ item ∈ result.2.2, item ∈ ready ∧ w'.tasks.groupId item.2 = none) ∧ Frame ready w w')
      (fun _ => Keeps known (Sound known) w) w := by
  induction ready generalizing w free with
  | nil => exact ⟨.refl h, hf, hh, by simp, .refl⟩
  | cons item ready ih =>
    obtain ⟨requestId, task⟩ := item
    have hrest := hh.of_sublist (List.sublist_cons_self ..)
    have hnew := (List.nodup_cons.mp hh.1).1
    obtain ⟨rest, hq⟩ := hh.2 (requestId, task) (List.mem_cons_self ..)
    obtain ⟨hk, -⟩ := h.queued _ _ hq task (List.mem_cons_self ..)
    have hlater : ∀ item ∈ ready, item ∈ (requestId, task) :: ready := fun item hm =>
      List.mem_cons_of_mem _ hm
    simp only [placePinned, wp_bind, wp_get, wp_ite]
    split
    · rename_i hn
      refine wp_mono (ih h hf hrest) (fun result w' hr => ?_) fun _ _ he => he
      obtain ⟨ht, hfree, hheads, hwaiting, hframe⟩ := hr
      refine ⟨ht, hfree, ⟨?_, ?_⟩, ?_, hframe.weaken hlater⟩
      · refine List.nodup_cons.mpr ⟨fun hm => hnew ?_, hheads.1⟩
        obtain ⟨other, ho, heq⟩ := List.mem_map.mp hm
        exact heq ▸ List.mem_map_of_mem (hwaiting other ho).1
      · intro item hm
        rcases List.mem_cons.mp hm with rfl | hm
        · exact ⟨rest, (hframe.queues requestId hnew).trans hq⟩
        · exact hheads.2 item hm
      · intro item hm
        rcases List.mem_cons.mp hm with rfl | hm
        · refine ⟨List.mem_cons_self .., (hframe.groups task fun other ho => ?_).trans hn⟩
          exact (h.ids_ne hh ho).symm
        · exact ⟨hlater item (hwaiting item hm).1, (hwaiting item hm).2⟩
    · refine wp_mono (selectPlacement_places h hk hf.1) (fun placement w₁ hp => ?_) fun _ _ he => he
      obtain ⟨ht, htasks, hpolicy, hplace⟩ := hp
      have hsame : Frame ((requestId, task) :: ready) w w₁ :=
        ⟨fun _ _ => by rw [hpolicy], fun _ _ => by rw [htasks]⟩
      rw [← hpolicy] at hf hh hrest
      cases placement with
      | none =>
        refine wp_mono (ih ht.sound hf hrest) (fun result w' hr => ?_)
          fun _ _ he => ht.toKeeps.trans he
        obtain ⟨hr, hfree, hheads, hwaiting, hframe⟩ := hr
        exact ⟨ht.trans hr, hfree, hheads, fun item hm =>
          ⟨hlater item (hwaiting item hm).1, (hwaiting item hm).2⟩,
          hsame.trans (hframe.weaken hlater)⟩
      | some placement =>
        obtain ⟨groupId, ranks⟩ := placement
        simp only [wp_bind, wp_pure]
        refine wp_mono (dispatchTask_ticks ht.sound hh hf (hplace groupId ranks rfl))
          (fun _ w₂ hd => ?_) fun _ _ he => he.elim
        obtain ⟨hd, hfree, hframe⟩ := hd
        have ht₂ := ht.trans hd
        refine wp_mono (ih hd.sound hfree (hrest.frame hframe fun other hm => ?_))
          (fun result w' hr => ?_) fun _ _ he => ht₂.toKeeps.trans he
        · simpa using hh.head_ne hm
        · obtain ⟨hr, hfree, hheads, hwaiting, hframe'⟩ := hr
          refine ⟨ht₂.trans hr, hfree, hheads, fun item hm =>
            ⟨hlater item (hwaiting item hm).1, (hwaiting item hm).2⟩, ?_⟩
          exact (hsame.trans (hframe.weaken (by simp))).trans (hframe'.weaken hlater)

def FitEntry.item (entry : FitEntry) : String × InferenceTask := (entry.requestId, entry.task)

theorem bestFitSp_kind (h : bestFitSp w requestId task budget = some sp) :
    task.kind ∈ singleRankTaskKinds ∨ task.kind ∈ ditTaskKinds := by
  simp only [bestFitSp] at h
  split at h
  · cases h
  · split at h
    · rename_i hs
      exact .inl hs
    · split at h
      · cases h
      · rename_i hd
        exact .inr (by simpa using hd)

theorem fitSizes_items (w : World Edf) (budget : Nat) (ready : List (String × InferenceTask)) :
    ((fitSizes w budget ready).1.map FitEntry.item).Sublist ready ∧
      ∀ entry ∈ (fitSizes w budget ready).1,
        entry.task.kind ∈ singleRankTaskKinds ∨ entry.task.kind ∈ ditTaskKinds := by
  induction ready generalizing budget with
  | nil => exact ⟨.slnil, by simp [fitSizes]⟩
  | cons item ready ih =>
    obtain ⟨requestId, task⟩ := item
    simp only [fitSizes]
    split
    · exact ⟨(ih budget).1.cons _, (ih budget).2⟩
    · rename_i sp hsp
      refine ⟨(ih (budget - sp)).1.cons_cons _, fun entry hm => ?_⟩
      rcases List.mem_cons.mp hm with rfl | hm
      · exact bestFitSp_kind hsp
      · exact (ih (budget - sp)).2 entry hm

theorem widenFirst_items (h : widenFirst w budget entries = some (entries', left)) :
    entries'.map FitEntry.item = entries.map FitEntry.item := by
  induction entries generalizing entries' left with
  | nil => cases h
  | cons entry entries ih =>
    simp only [widenFirst] at h
    split at h
    · cases h
      rfl
    · split at h
      · rename_i hrest
        cases h
        rw [List.map_cons, List.map_cons, ih hrest]
      · cases h

theorem redistribute_items (w : World Edf) (rounds budget : Nat) (entries : List FitEntry) :
    (redistribute w rounds budget entries).map FitEntry.item = entries.map FitEntry.item := by
  induction rounds generalizing budget entries with
  | zero => rfl
  | succ rounds ih =>
    simp only [redistribute]
    split
    · rfl
    · split
      · rename_i hw
        rw [ih, widenFirst_items hw]
      · rfl

theorem materializeEntry_places (h : Sound known w) (hf : free.Nodup)
    (hn : w.tasks.groupId entry.task = none)
    (hkind : entry.task.kind ∈ singleRankTaskKinds ∨ entry.task.kind ∈ ditTaskKinds) :
    wp (materializeEntry free entry) (fun result w' =>
      Places known w free entry.task (some (result.1.groupId, result.2)) w')
      (fun _ => Keeps known (Sound known) w) w := by
  have ho := kind_ne_reshard hkind
  simp only [materializeEntry, wp_bind, wp_ite, wp_get, wp_pure]
  split
  · split
    · exact .refl h
    · rename_i rank hmin
      simp only [wp_bind, wp_pure]
      refine wp_mono (ensureGroupForRanks_ticks h (List.nodup_singleton rank))
        (fun group w₁ hg => ?_) fun _ _ he => he
      obtain ⟨ht, htasks, hpolicy, hfind, hranks⟩ := hg
      refine ⟨ht, htasks, hpolicy, fun groupId ranks heq => ?_⟩
      cases heq
      refine ⟨⟨group, hfind, hranks⟩, fun r hr => ?_, ho, .inl (htasks ▸ hn)⟩
      rw [List.mem_singleton.mp hr]
      exact List.min?_mem hmin
  · refine wp_mono (ensureGroupForRanks_ticks h (pickRanksForRequest_nodup h hf ..))
      (fun group w₁ hg => ?_) fun _ _ he => he
    obtain ⟨ht, htasks, hpolicy, hfind, hranks⟩ := hg
    refine ⟨ht, htasks, hpolicy, fun groupId ranks heq => ?_⟩
    cases heq
    exact ⟨⟨group, hfind, hranks⟩, pickRanksForRequest_inside w entry.requestId entry.spSize free,
      ho, .inl (htasks ▸ hn)⟩

theorem materialize_ticks (h : Sound known w) (hf : FreeRanks w.policy.accounts free)
    (hh : Heads w.policy (entries.map FitEntry.item))
    (hn : ∀ entry ∈ entries, w.tasks.groupId entry.task = none)
    (hkind : ∀ entry ∈ entries,
      entry.task.kind ∈ singleRankTaskKinds ∨ entry.task.kind ∈ ditTaskKinds) :
    wp (materialize free entries) (Ticks known (Sound known) accounts w)
      (fun _ => Keeps known (Sound known) w) w := by
  induction entries generalizing w free with
  | nil => exact .refl h
  | cons entry entries ih =>
    have hrest : Heads w.policy (entries.map FitEntry.item) :=
      hh.of_sublist (List.sublist_cons_self ..)
    have hmore : ∀ e ∈ entries, e ∈ entry :: entries := fun e hm => List.mem_cons_of_mem _ hm
    simp only [materialize, wp_bind, wp_pure]
    refine wp_mono (materializeEntry_places h hf.1 (hn entry (List.mem_cons_self ..))
      (hkind entry (List.mem_cons_self ..))) (fun result w₁ hp => ?_) fun _ _ he => he
    obtain ⟨ht, htasks, hpolicy, hplace⟩ := hp
    rw [← hpolicy] at hf hh hrest
    refine wp_mono (dispatchTask_ticks ht.sound hh hf (hplace _ _ rfl))
      (fun _ w₂ hd => ?_) fun _ _ he => he.elim
    obtain ⟨hd, hfree, hframe⟩ := hd
    have ht₂ := ht.trans hd
    refine wp_mono (ih hd.sound hfree (hrest.frame hframe fun other hm => ?_) (fun e hm => ?_)
      fun e hm => hkind e (hmore e hm)) (fun _ _ hr => ht₂.trans hr) fun _ _ he => ht₂.toKeeps.trans he
    · simpa [FitEntry.item] using hh.head_ne hm
    · have hne : entry.task.taskId ≠ e.task.taskId :=
        ht.sound.ids_ne hh (List.mem_map_of_mem hm)
      rw [hframe.groups e.task (by simpa [FitEntry.item] using hne), htasks]
      exact hn e (hmore e hm)

theorem bestFitTake_ticks (h : Sound known w) :
    wp bestFitTake (Ticks known (Sound known) accounts w)
      (fun _ => Keeps known (Sound known) w) w := by
  simp only [bestFitTake, wp_bind, wp_get, wp_pure]
  refine wp_mono (placePinned_ticks h (freeRankSet_free w) (readyList_heads w.policy))
    (fun result w₁ hr => ?_) fun _ _ he => he
  obtain ⟨ht, hfree, hheads, hwaiting, -⟩ := hr
  obtain ⟨hsub, hkinds⟩ := fitSizes_items w₁ result.2.1.length result.2.2
  have hitems := redistribute_items w₁ (fitSizes w₁ result.2.1.length result.2.2).2
    (fitSizes w₁ result.2.1.length result.2.2).2 (fitSizes w₁ result.2.1.length result.2.2).1
  have hof : ∀ entry ∈ redistribute w₁ (fitSizes w₁ result.2.1.length result.2.2).2
      (fitSizes w₁ result.2.1.length result.2.2).2 (fitSizes w₁ result.2.1.length result.2.2).1,
      ∃ before ∈ (fitSizes w₁ result.2.1.length result.2.2).1, before.item = entry.item := by
    intro entry hm
    have := hitems ▸ List.mem_map_of_mem (f := FitEntry.item) hm
    obtain ⟨before, hb, heq⟩ := List.mem_map.mp this
    exact ⟨before, hb, heq⟩
  refine wp_mono (materialize_ticks ht.sound hfree (hitems ▸ hheads.of_sublist hsub) ?_ ?_)
    (fun _ _ hr => ht.trans hr) fun _ _ he => ht.toKeeps.trans he
  · intro entry hm
    obtain ⟨before, hb, heq⟩ := hof entry hm
    have htask : before.task = entry.task := congrArg Prod.snd heq
    rw [← htask]
    exact (hwaiting before.item (hsub.subset (List.mem_map_of_mem hb))).2
  · intro entry hm
    obtain ⟨before, hb, heq⟩ := hof entry hm
    have htask : before.task = entry.task := congrArg Prod.snd heq
    rw [← htask]
    exact hkinds before hb

-- ---------------------------------------------------------------------------
-- Handlers
-- ---------------------------------------------------------------------------

theorem metaFromPlan_ticks (h : Sound known w) :
    wp (metaFromPlan plan order) (fun _ => Ticks known (Sound known) accounts w [])
      (fun _ => Keeps known (Sound known) w) w := by
  simp only [metaFromPlan, modifyPolicy, wp_bind, wp_get, wp_modify, wp_pure]
  refine wp_check (fun _ _ => ?_) fun _ _ => .refl h
  exact h.retouch rfl fun _ _ hget => hget

theorem bestFitMetaFromPlan_ticks (h : Sound known w) :
    wp (bestFitMetaFromPlan plan order) (fun _ => Ticks known (Sound known) accounts w [])
      (fun _ => Keeps known (Sound known) w) w := by
  simp only [bestFitMetaFromPlan, wp_bind, wp_pure]
  refine wp_mono (metaFromPlan_ticks h) (fun _ w₁ ht => ?_) fun _ _ he => he
  iterate 5 refine wp_check (fun _ _ => ?_) fun _ _ => ht.toKeeps
  exact ht

theorem Sound.enqueueReady (h : Sound known w) (hk : known task.taskId = task) :
    Sound known { w with policy := w.policy.enqueueReady task } := by
  refine { h with queued := fun requestId queue hget t hm => ?_ }
  simp only [Edf.enqueueReady, Dict.get?_set] at hget
  split at hget
  · rename_i heq
    subst heq
    cases hget
    rcases List.mem_append.mp hm with hm | hm
    · unfold Dict.getD at hm
      cases hold : w.policy.readyByRequest.get? task.requestId with
      | none => simp [hold] at hm
      | some before => exact h.queued _ before hold t (by simpa [hold] using hm)
    · rw [List.mem_singleton.mp hm]
      exact ⟨hk, rfl⟩
  · exact h.queued requestId queue hget t hm

theorem enqueueRunnable_ticks (h : Sound known w) (hk : known task.taskId = task) :
    wp (enqueueRunnable task) (fun _ => Ticks known (Sound known) accounts w [])
      (fun _ => Keeps known (Sound known) w) w := by
  have hs : Settled known w.tasks (w.tasks.setStatus task .ready) := .setStatus hk .ready
  have h₁ := ((h.setStatus hk .ready).retouch (p := { w.policy with
    taskIndex := w.policy.taskIndex.set task.taskId task }) rfl fun _ _ hget => hget).sound
  have hkeep : Keeps known (Sound known) w _ := ⟨h₁, hs, fun _ hm => hm⟩
  have ht : Ticks known (Sound known) accounts w [] _ :=
    ⟨⟨h₁.enqueueReady hk, hs, fun _ hm => hm⟩, .refl _⟩
  simp only [enqueueRunnable, modifyPolicy, wp_bind, wp_get, wp_modify]
  split
  · simp only [wp_bind, wp_get, wp_modify]
    refine wp_check (fun _ _ => ?_) fun _ _ => ?_
    · exact ht
    · exact hkeep
  · exact ht

section

variable {take : PolicyM Edf (List InferenceTask)}
  {metaOf : RequestExecutionPlan → Nat → PolicyM Edf EdfRequestMeta}

theorem onTasksRunnableWith_ticks
    (htake : ∀ {w}, Sound known w → wp take (Ticks known (Sound known) accounts w)
      (fun _ => Keeps known (Sound known) w) w)
    (h : Sound known w) (hk : ∀ task ∈ tasks, known task.taskId = task) :
    wp (onTasksRunnableWith take tasks) (Ticks known (Sound known) accounts w)
      (fun _ => Keeps known (Sound known) w) w := by
  simp only [onTasksRunnableWith, wp_bind]
  refine wp_mono (wp_forM (I := Ticks known (Sound known) accounts w []) (fun task hm w₁ ht => ?_)
    (.refl h)) (fun _ w₁ ht => ?_) fun _ _ he => he
  · exact wp_mono (enqueueRunnable_ticks ht.sound (hk task hm)) (fun _ _ ht' => ht.trans ht')
      fun _ _ he => ht.toKeeps.trans he
  · exact wp_mono (htake ht.sound) (fun _ _ ht' => ht.trans ht') fun _ _ he => ht.toKeeps.trans he

theorem onRequestSubmittedWith_ticks
    (htake : ∀ {w}, Sound known w → wp take (Ticks known (Sound known) accounts w)
      (fun _ => Keeps known (Sound known) w) w)
    (hmeta : ∀ {w order}, Sound known w → wp (metaOf plan order)
      (fun _ => Ticks known (Sound known) accounts w []) (fun _ => Keeps known (Sound known) w) w)
    (h : Sound known w) (hk : ∀ task ∈ plan.rootTasks, known task.taskId = task) :
    wp (onRequestSubmittedWith take metaOf plan) (Ticks known (Sound known) accounts w)
      (fun _ => Keeps known (Sound known) w) w := by
  have hseq := h.retouch (p := { w.policy with requestSeq := w.policy.requestSeq + 1 }) rfl
    fun _ _ hget => hget
  simp only [onRequestSubmittedWith, modifyPolicy, wp_bind, wp_get, wp_modify]
  refine wp_mono (hmeta hseq.sound) (fun info w₁ ht => ?_) fun _ _ he => hseq.toKeeps.trans he
  have hm := (hseq.trans ht).trans (ht.sound.retouch (p := { w₁.policy with
    requestMeta := w₁.policy.requestMeta.set plan.requestId info
    plans := w₁.policy.plans.set plan.requestId plan
    taskIndex := w₁.policy.taskIndex.insertAll
      (plan.tasks.values.map fun task => (task.taskId, task)) }) rfl fun _ _ hget => hget)
  exact wp_mono (onTasksRunnableWith_ticks htake hm.sound hk) (fun _ _ hr => hm.trans hr)
    fun _ _ he => hm.toKeeps.trans he

theorem Sound.releaseDispatchedTask (h : Sound known w) (event : WorkerEvent) :
    Sound known { w with policy := w.policy.releaseDispatchedTask event } := by
  refine ⟨h.booked.releaseDispatchedTask h.ordinary event.taskId, fun c hc => ?_, h.queued,
    h.unplaced⟩
  simp only [Edf.releaseDispatchedTask, RankAccounts.releaseDispatchedTask_log] at hc
  exact h.ordinary c (Booked.mem_ended hc)

theorem Sound.dropRequest (h : Sound known w) (requestId : String) :
    Ticks known (Sound known) accounts w [] { w with policy := w.policy.dropRequest requestId } := by
  refine h.retouch rfl fun other queue hget => ?_
  simp only [Edf.dropRequest, Dict.get?_erase] at hget
  split at hget
  · cases hget
  · exact hget

theorem onWorkerEventWith_answers
    (htake : ∀ {w}, Sound known w → wp take (Ticks known (Sound known) accounts w)
      (fun _ => Keeps known (Sound known) w) w)
    (h : Sound known w) (event : WorkerEvent) :
    wp (onWorkerEventWith take event) (Answers known (Sound known) accounts event w)
      (fun _ => Keeps known (Sound known) w) w := by
  have hnow := h.retouch (p := { w.policy with
    nowMs := max w.policy.nowMs (event.timestampNs / 1000000) }) rfl fun _ _ hget => hget
  have hreleased := hnow.sound.releaseDispatchedTask event
  have hlog := w.policy.accounts.releaseDispatchedTask_log event.taskId
  simp only [onWorkerEventWith, modifyPolicy, wp_bind, wp_ite, wp_modify]
  split
  · rename_i he
    have hlog := WorkerEvent.entered_ended he hlog
    have hk : Keeps known (Sound known) w _ := ⟨hreleased, .refl, fun _ hm => hm⟩
    split
    · exact wp_answers htake (hk.trans (hreleased.dropRequest event.requestId).toKeeps) hlog
    · exact wp_answers htake hk hlog
  · rename_i he
    have hsame := WorkerEvent.entered_other he w.policy.accounts.log
    split
    · exact wp_answers htake
        (hnow.toKeeps.trans (hnow.sound.dropRequest event.requestId).toKeeps) hsame
    · exact wp_answers htake hnow.toKeeps hsame

end

theorem bestFitOnRequestSubmitted_ticks (h : Sound known w)
    (hk : ∀ task ∈ plan.rootTasks, known task.taskId = task) :
    wp (bestFitOnRequestSubmitted plan) (Ticks known (Sound known) accounts w)
      (fun _ => Keeps known (Sound known) w) w := by
  have ht := h.retouch (p := { w.policy with
    requestTasks := w.policy.requestTasks.set plan.requestId plan.tasks.values }) rfl
    fun _ _ hget => hget
  simp only [bestFitOnRequestSubmitted, modifyPolicy, wp_bind, wp_modify]
  exact wp_mono (onRequestSubmittedWith_ticks bestFitTake_ticks bestFitMetaFromPlan_ticks ht.sound hk)
    (fun _ _ hr => ht.trans hr) fun _ _ he => ht.toKeeps.trans he

end Edf

end GfDit
