import GfDit.Lib.Unique
import GfDit.Policies.Accounts

/-!
# What the accounts stand for

The log says which tasks are dispatched and not released and which holds are
out. `Booked` ties every counter of the accounts to them: each is the number
of claims or holds it stands for, no rank carries two ordinary tasks, and
every dispatch found its ranks free. Each accounting operation keeps it.
-/

namespace GfDit

-- ---------------------------------------------------------------------------
-- Claims and holds of a log
-- ---------------------------------------------------------------------------

/-- A task dispatched and not released, with what it was entered under. -/
structure Claim where
  task : InferenceTask
  target : String
  ranks : List Rank

def Claim.ordinary (c : Claim) : Bool := c.task.kind ≠ .reshard

def Claim.ordinaryOn (rank : Rank) (c : Claim) : Bool := c.ordinary ∧ rank ∈ c.ranks

def Claim.reshardOn (rank : Rank) (c : Claim) : Bool := ¬ c.ordinary ∧ rank ∈ c.ranks

def claims : List AccountEntry → List Claim
  | [] => []
  | .dispatched task target ranks _ _ :: log => ⟨task, target, ranks⟩ :: claims log
  | .ended taskId :: log => (claims log).filter fun c => c.task.taskId ≠ taskId
  | .held _ :: log | .unheld _ :: log => claims log

def holds : List AccountEntry → List (List Rank)
  | [] => []
  | .held ranks :: log => ranks :: holds log
  | .unheld ranks :: log => (holds log).erase ranks
  | .dispatched .. :: log | .ended _ :: log => holds log

def claimOf (log : List AccountEntry) (taskId : String) : Option Claim :=
  (claims log).find? fun c => c.task.taskId = taskId

theorem claimOf_eq_some (h : claimOf log taskId = some c) :
    c ∈ claims log ∧ c.task.taskId = taskId :=
  ⟨List.mem_of_find?_eq_some h, by simpa using List.find?_some h⟩

theorem claimOf_of_mem (hn : ((claims log).map (·.task.taskId)).Nodup) (hm : c ∈ claims log) :
    claimOf log c.task.taskId = some c := by
  cases hc : claimOf log c.task.taskId with
  | none =>
    have hne := List.find?_eq_none.mp hc c hm
    simp at hne
  | some d =>
    obtain ⟨hd, hid⟩ := claimOf_eq_some hc
    rw [List.inj_on_of_nodup_map hn hd hm hid]

theorem claimOf_dispatched (task : InferenceTask) (target : String) (ranks : List Rank)
    (outstanding held : Dict Rank Nat) (log : List AccountEntry) (taskId : String) :
    claimOf (.dispatched task target ranks outstanding held :: log) taskId =
      if task.taskId = taskId then some ⟨task, target, ranks⟩ else claimOf log taskId := by
  by_cases h : task.taskId = taskId <;> simp [claimOf, claims, h]

theorem claimOf_ended (ended taskId : String) (log : List AccountEntry) :
    claimOf (.ended ended :: log) taskId =
      if ended = taskId then none else claimOf log taskId := by
  unfold claimOf
  rw [claims, List.find?_filter]
  split
  · rename_i h
    subst h
    exact List.find?_eq_none.mpr fun c _ => by simp
  · rename_i h
    congr 1
    funext c
    by_cases hc : c.task.taskId = taskId
    · simp [hc, Ne.symm h]
    · simp [hc]

/-- The end of a task that holds no claim changes no claim. -/
theorem claims_ended_of_none (h : claimOf log taskId = none) :
    claims (.ended taskId :: log) = claims log := by
  refine List.filter_eq_self.mpr fun c hc => ?_
  simpa using List.find?_eq_none.mp h c hc

/-- Every dispatch of the log found its ranks free. -/
def FreeBefore (log : List AccountEntry) : Prop :=
  ∀ task target ranks outstanding held,
    AccountEntry.dispatched task target ranks outstanding held ∈ log →
      ∀ rank ∈ ranks, Counter.count outstanding rank = 0 ∧ Counter.count held rank = 0

theorem FreeBefore.cons (h : FreeBefore log) {entry : AccountEntry}
    (he : ∀ task target ranks outstanding held,
      entry ≠ .dispatched task target ranks outstanding held) : FreeBefore (entry :: log) := by
  intro task target ranks outstanding held hm
  rcases List.mem_cons.mp hm with rfl | hm
  · exact absurd rfl (he task target ranks outstanding held)
  · exact h _ _ _ _ _ hm

-- ---------------------------------------------------------------------------
-- Groups once assigned
-- ---------------------------------------------------------------------------

/-- Every group assigned before is still assigned. `known` is the task an id
names. -/
def Settled (known : String → InferenceTask) (heap heap' : TaskHeap) : Prop :=
  ∀ task groupId, known task.taskId = task → heap.groupId task = some groupId →
    heap'.groupId task = some groupId

namespace Settled

variable {known : String → InferenceTask} {heap : TaskHeap} {task : InferenceTask}

theorem refl : Settled known heap heap := fun _ _ _ h => h

theorem trans (h : Settled known heap heap') (h' : Settled known heap' heap'') :
    Settled known heap heap'' := fun task groupId hk hg => h' task groupId hk (h task groupId hk hg)

theorem setStatus (hk : known task.taskId = task) (status : TaskStatus) :
    Settled known heap (heap.setStatus task status) := by
  intro other groupId ho hg
  rwa [TaskHeap.groupId_setStatus _ _ fun hid => by rw [← hk, hid, ho]]

theorem setGroupId (hk : known task.taskId = task) (hn : heap.groupId task = none)
    (groupId : Option String) : Settled known heap (heap.setGroupId task groupId) := by
  intro other groupId' ho hg
  have hne : task.taskId ≠ other.taskId := by
    intro hid
    have heq : task = other := by rw [← hk, hid, ho]
    rw [← heq, hn] at hg
    cases hg
  rwa [TaskHeap.groupId_setGroupId_ne _ _ hne]

end Settled

-- ---------------------------------------------------------------------------
-- Books that balance
-- ---------------------------------------------------------------------------

/-- Every counter is the number of what it stands for. -/
structure Booked (known : String → InferenceTask) (topology : RuntimeTopology) (heap : TaskHeap)
    (a : RankAccounts) : Prop where
  distinct : ∀ group ∈ topology.groups, group.ranks.Nodup
  known : ∀ c ∈ claims a.log, known c.task.taskId = c.task
  ids : ((claims a.log).map (·.task.taskId)).Nodup
  ranksNodup : ∀ c ∈ claims a.log, c.ranks.Nodup
  placed : ∀ c ∈ claims a.log, c.ordinary = true → heap.groupId c.task = some c.target ∧
    ∃ group, topology.find c.target = some group ∧ group.ranks = c.ranks
  target : ∀ c ∈ claims a.log, c.ordinary = false → c.target = reshardTarget
  kinds : ∀ taskId, a.dispatchedKind.get? taskId = (claimOf a.log taskId).map Claim.target
  ranksBy : ∀ taskId, a.dispatchedRanksByTask.get? taskId = (claimOf a.log taskId).map Claim.ranks
  perRank : ∀ rank, Counter.count a.outstandingPerRank rank =
    (claims a.log).countP (Claim.ordinaryOn rank)
  once : ∀ rank, Counter.count a.outstandingPerRank rank ≤ 1
  held : ∀ rank, Counter.count a.reshardHoldsByRank rank =
    (claims a.log).countP (Claim.reshardOn rank) + (holds a.log).countP (rank ∈ ·)
  holdsNodup : ∀ ranks ∈ holds a.log, ranks.Nodup
  perGroup : ∀ groupId, Counter.count a.outstandingPerGroup groupId =
    (claims a.log).countP fun c => c.ordinary ∧ c.target = groupId
  reshards : a.outstandingReshards = (claims a.log).countP fun c => ¬ c.ordinary
  positive : Counter.Positive a.outstandingPerRank ∧ Counter.Positive a.outstandingPerGroup ∧
    Counter.Positive a.reshardHoldsByRank
  free : FreeBefore a.log

namespace Booked

variable {known : String → InferenceTask} {topology topology' : RuntimeTopology}
  {heap heap' : TaskHeap} {a : RankAccounts} {task : InferenceTask} {ranks : List Rank}

theorem init (h : ∀ group ∈ topology.groups, group.ranks.Nodup) :
    Booked known topology heap .init where
  distinct := h
  known := by simp [RankAccounts.init, claims]
  ids := by simp [RankAccounts.init, claims]
  ranksNodup := by simp [RankAccounts.init, claims]
  placed := by simp [RankAccounts.init, claims]
  target := by simp [RankAccounts.init, claims]
  kinds := by simp [RankAccounts.init, claimOf, claims]
  ranksBy := by simp [RankAccounts.init, claimOf, claims]
  perRank := by simp [RankAccounts.init, claims]
  once := by simp [RankAccounts.init]
  held := by simp [RankAccounts.init, claims, holds]
  holdsNodup := by simp [RankAccounts.init, holds]
  perGroup := by simp [RankAccounts.init, claims]
  reshards := by simp [RankAccounts.init, claims]
  positive := ⟨.empty, .empty, .empty⟩
  free := fun _ _ _ _ _ h => by cases h

-- ---------------------------------------------------------------------------
-- Changes outside the accounts
-- ---------------------------------------------------------------------------

/-- Claims survive where no group assigned before is lost. -/
theorem settle (h : Booked known topology heap a) (hs : Settled known heap heap') :
    Booked known topology heap' a :=
  { h with
    placed := fun c hc ho => by
      obtain ⟨hgc, hgroup⟩ := h.placed c hc ho
      exact ⟨hs c.task c.target (h.known c hc) hgc, hgroup⟩ }

theorem grow (h : Booked known topology heap a)
    (hg : ∀ group ∈ topology.groups, group ∈ topology'.groups)
    (hd : ∀ group ∈ topology'.groups, group.ranks.Nodup) : Booked known topology' heap a :=
  { h with
    distinct := hd
    placed := fun c hc ho => by
      obtain ⟨hgc, group, hfind, hranks⟩ := h.placed c hc ho
      obtain ⟨hm, hid⟩ := RuntimeTopology.find_eq_some.mp hfind
      exact ⟨hgc, group, RuntimeTopology.find_eq_some.mpr ⟨hg group hm, hid⟩, hranks⟩ }

-- ---------------------------------------------------------------------------
-- Dispatch
-- ---------------------------------------------------------------------------

theorem canDispatchRanks_iff :
    a.canDispatchRanks ranks = true ↔ ∀ rank ∈ ranks,
      Counter.count a.outstandingPerRank rank = 0 ∧ Counter.count a.reshardHoldsByRank rank = 0 := by
  simp [RankAccounts.canDispatchRanks]

theorem freeBefore_dispatched (h : Booked known topology heap a)
    (hfree : a.canDispatchRanks ranks = true) (task : InferenceTask) (target : String) :
    FreeBefore (.dispatched task target ranks a.outstandingPerRank a.reshardHoldsByRank ::
      a.log) := by
  intro task' target' ranks' outstanding held hm
  rcases List.mem_cons.mp hm with heq | hm
  · cases heq
    exact canDispatchRanks_iff.mp hfree
  · exact h.free _ _ _ _ _ hm

/-- A task whose group is free is not dispatched already: its claim would be
on the ranks of the same group. -/
theorem fresh_of_free (h : Booked known topology heap a) (hk : known task.taskId = task)
    (ho : task.kind ≠ .reshard) (hg : heap.groupId task = some group.groupId)
    (hf : topology.find group.groupId = some group)
    (hfree : a.canDispatchRanks group.ranks = true) : claimOf a.log task.taskId = none := by
  cases hc : claimOf a.log task.taskId with
  | none => rfl
  | some c =>
    obtain ⟨hm, hid⟩ := claimOf_eq_some hc
    obtain rfl : c.task = task := by rw [← h.known c hm, hid, hk]
    have hord : c.ordinary = true := by simpa [Claim.ordinary] using ho
    obtain ⟨hgc, group', hfind, hranks⟩ := h.placed c hm hord
    have htarget : group.groupId = c.target := Option.some.inj (hg.symm.trans hgc)
    rw [← htarget, hf] at hfind
    cases hfind
    have hz := (canDispatchRanks_iff.mp hfree group.leader group.leader_mem).1
    rw [h.perRank, List.countP_eq_zero] at hz
    exact absurd (by simp [Claim.ordinaryOn, hord, ← hranks, group.leader_mem]) (hz c hm)

theorem ids_dispatched (h : Booked known topology heap a) (target : String)
    (outstanding held : Dict Rank Nat) (hn : claimOf a.log task.taskId = none) :
    ((claims (.dispatched task target ranks outstanding held :: a.log)).map
      (·.task.taskId)).Nodup := by
  refine List.nodup_cons.mpr ⟨fun hm => ?_, h.ids⟩
  obtain ⟨c, hc, hid⟩ := List.mem_map.mp hm
  have hid : c.task.taskId = task.taskId := hid
  rw [← hid, claimOf_of_mem h.ids hc] at hn
  cases hn

theorem count_nodup {ks : List Rank} (hn : ks.Nodup) (rank : Rank) :
    ks.count rank = if rank ∈ ks then 1 else 0 := by
  split
  · rename_i hm
    exact List.count_eq_one_of_mem hn hm
  · rename_i hm
    exact List.count_eq_zero_of_not_mem hm

theorem dispatch (h : Booked known topology heap a) (hk : known task.taskId = task)
    (ho : task.kind ≠ .reshard) (hg : heap.groupId task = some group.groupId)
    (hf : topology.find group.groupId = some group)
    (hfree : a.canDispatchRanks group.ranks = true) :
    Booked known topology heap (a.dispatch task group.groupId group.ranks) := by
  have hn := h.fresh_of_free hk ho hg hf hfree
  have hnodup := h.distinct group (RuntimeTopology.find_eq_some.mp hf).1
  have hord : (Claim.mk task group.groupId group.ranks).ordinary = true := by
    simpa [Claim.ordinary] using ho
  constructor
  · exact h.distinct
  · simpa [RankAccounts.dispatch, claims] using ⟨hk, h.known⟩
  · exact h.ids_dispatched _ _ _ hn
  · simpa [RankAccounts.dispatch, claims] using ⟨hnodup, h.ranksNodup⟩
  · intro c hc
    rcases List.mem_cons.mp hc with rfl | hc
    · exact fun _ => ⟨hg, group, hf, rfl⟩
    · exact h.placed c hc
  · intro c hc
    rcases List.mem_cons.mp hc with rfl | hc
    · simp [hord]
    · exact h.target c hc
  · intro taskId
    simp only [RankAccounts.dispatch, Dict.get?_set, claimOf_dispatched, h.kinds]
    split <;> rfl
  · intro taskId
    simp only [RankAccounts.dispatch, Dict.get?_set, claimOf_dispatched, h.ranksBy]
    split <;> rfl
  · intro rank
    simp only [RankAccounts.dispatch, Counter.count_raiseAll, h.perRank, claims, List.countP_cons,
      count_nodup hnodup]
    simp [Claim.ordinaryOn, hord]
  · intro rank
    have hone := h.once rank
    simp only [RankAccounts.dispatch, Counter.count_raiseAll, count_nodup hnodup]
    split
    · rename_i hm
      have := (canDispatchRanks_iff.mp hfree rank hm).1
      omega
    · omega
  · intro rank
    simp only [RankAccounts.dispatch, h.held, claims, holds, List.countP_cons]
    simp [Claim.reshardOn, hord]
  · exact h.holdsNodup
  · intro groupId
    simp only [RankAccounts.dispatch, Counter.count_raise, h.perGroup, claims, List.countP_cons]
    simp [hord]
  · simp only [RankAccounts.dispatch, h.reshards, claims, List.countP_cons]
    simp [hord]
  · exact ⟨h.positive.1.raiseAll _, h.positive.2.1.raise _, h.positive.2.2⟩
  · exact h.freeBefore_dispatched hfree task group.groupId

theorem dispatchReshard (h : Booked known topology heap a) (hk : known task.taskId = task)
    (ho : task.kind = .reshard) (hnodup : ranks.Nodup)
    (hslot : a.outstandingReshards < maxConcurrentReshards)
    (hfree : a.canDispatchRanks ranks = true) (src dst : String) :
    Booked known topology heap (a.dispatchReshard task src dst ranks) := by
  have hord : (Claim.mk task reshardTarget ranks).ordinary = false := by simp [Claim.ordinary, ho]
  have hnone : ∀ c ∈ claims a.log, c.ordinary = true := by
    have hz : (claims a.log).countP (fun c => ¬ c.ordinary) = 0 := by
      rw [← h.reshards]
      unfold maxConcurrentReshards at hslot
      omega
    intro c hc
    simpa using List.countP_eq_zero.mp hz c hc
  have hn : claimOf a.log task.taskId = none := by
    cases hc : claimOf a.log task.taskId with
    | none => rfl
    | some c =>
      obtain ⟨hm, hid⟩ := claimOf_eq_some hc
      have heq : c.task = task := by rw [← h.known c hm, hid, hk]
      have := hnone c hm
      simp [Claim.ordinary, heq, ho] at this
  constructor
  · exact h.distinct
  · simpa [RankAccounts.dispatchReshard, claims] using ⟨hk, h.known⟩
  · exact h.ids_dispatched _ _ _ hn
  · simpa [RankAccounts.dispatchReshard, claims] using ⟨hnodup, h.ranksNodup⟩
  · intro c hc
    rcases List.mem_cons.mp hc with rfl | hc
    · simp [hord]
    · exact h.placed c hc
  · intro c hc
    rcases List.mem_cons.mp hc with rfl | hc
    · exact fun _ => rfl
    · exact h.target c hc
  · intro taskId
    simp only [RankAccounts.dispatchReshard, Dict.get?_set, claimOf_dispatched, h.kinds]
    split <;> rfl
  · intro taskId
    simp only [RankAccounts.dispatchReshard, Dict.get?_set, claimOf_dispatched, h.ranksBy]
    split <;> rfl
  · intro rank
    simp only [RankAccounts.dispatchReshard, h.perRank, claims, List.countP_cons]
    simp [Claim.ordinaryOn, hord]
  · exact h.once
  · intro rank
    simp only [RankAccounts.dispatchReshard, Counter.count_raiseAll, h.held, claims, holds,
      List.countP_cons, count_nodup hnodup]
    simp only [Claim.reshardOn, hord]
    simp
    omega
  · exact h.holdsNodup
  · intro groupId
    simp only [RankAccounts.dispatchReshard, h.perGroup, claims, List.countP_cons]
    simp [hord]
  · simp only [RankAccounts.dispatchReshard, h.reshards, claims, List.countP_cons]
    simp [hord]
  · exact ⟨h.positive.1, h.positive.2.1, h.positive.2.2.raiseAll _⟩
  · exact h.freeBefore_dispatched hfree task reshardTarget

-- ---------------------------------------------------------------------------
-- Release
-- ---------------------------------------------------------------------------

theorem countP_ended (h : Booked known topology heap a) (hc : claimOf a.log taskId = some c)
    (p : Claim → Bool) :
    (claims (.ended taskId :: a.log)).countP p + (if p c = true then 1 else 0) =
      (claims a.log).countP p := by
  obtain ⟨hm, rfl⟩ := claimOf_eq_some hc
  exact List.countP_filter_ne_key h.ids hm p

theorem mem_ended (hm : c ∈ claims (.ended taskId :: log)) : c ∈ claims log :=
  List.mem_of_mem_filter hm

theorem ids_ended (h : Booked known topology heap a) (taskId : String) :
    ((claims (.ended taskId :: a.log)).map (·.task.taskId)).Nodup :=
  h.ids.sublist (List.filter_sublist.map _)

theorem freeBefore_ended (h : Booked known topology heap a) (taskId : String) :
    FreeBefore (.ended taskId :: a.log) := h.free.cons (by simp)

theorem ended_none (h : Booked known topology heap a) (hn : claimOf a.log taskId = none) :
    Booked known topology heap { a with log := .ended taskId :: a.log } := by
  have hcl := claims_ended_of_none hn
  have hof : ∀ other, claimOf (.ended taskId :: a.log) other = claimOf a.log other := fun other => by
    unfold claimOf
    rw [hcl]
  constructor
  · exact h.distinct
  · simpa only [hcl] using h.known
  · simpa only [hcl] using h.ids
  · simpa only [hcl] using h.ranksNodup
  · simpa only [hcl] using h.placed
  · simpa only [hcl] using h.target
  · simpa only [hof] using h.kinds
  · simpa only [hof] using h.ranksBy
  · simpa only [hcl] using h.perRank
  · exact h.once
  · simpa only [hcl, holds] using h.held
  · exact h.holdsNodup
  · simpa only [hcl] using h.perGroup
  · simpa only [hcl] using h.reshards
  · exact h.positive
  · exact h.freeBefore_ended taskId

theorem releaseOrdinary (h : Booked known topology heap a) (hc : claimOf a.log taskId = some c)
    (ho : c.ordinary = true) : Booked known topology heap (a.releaseOrdinary taskId c.target) := by
  have hm := (claimOf_eq_some hc).1
  have hcount := h.countP_ended hc
  have hranks : a.dispatchedRanksByTask.getD taskId [] = c.ranks := by
    simp [Dict.getD, h.ranksBy, hc]
  constructor
  · exact h.distinct
  · exact fun d hd => h.known d (mem_ended hd)
  · exact h.ids_ended taskId
  · exact fun d hd => h.ranksNodup d (mem_ended hd)
  · exact fun d hd => h.placed d (mem_ended hd)
  · exact fun d hd => h.target d (mem_ended hd)
  · intro other
    simp only [RankAccounts.releaseOrdinary, Dict.get?_erase, claimOf_ended, h.kinds]
    split <;> rfl
  · intro other
    simp only [RankAccounts.releaseOrdinary, Dict.get?_erase, claimOf_ended, h.ranksBy]
    split <;> rfl
  · intro rank
    have := hcount (Claim.ordinaryOn rank)
    simp only [RankAccounts.releaseOrdinary, hranks, Counter.count_dropAll, h.perRank,
      count_nodup (h.ranksNodup c hm)]
    simp only [Claim.ordinaryOn, ho, true_and, decide_eq_true_eq] at this ⊢
    omega
  · intro rank
    have := h.once rank
    simp only [RankAccounts.releaseOrdinary, Counter.count_dropAll]
    omega
  · intro rank
    have := hcount (Claim.reshardOn rank)
    simp only [RankAccounts.releaseOrdinary, h.held, holds]
    simp only [Claim.reshardOn, ho, not_true_eq_false, false_and, decide_false] at this ⊢
    simpa using this.symm
  · exact h.holdsNodup
  · intro groupId
    have := hcount fun d => d.ordinary ∧ d.target = groupId
    simp only [RankAccounts.releaseOrdinary, Counter.count_drop, h.perGroup]
    simp only [ho, true_and, decide_eq_true_eq] at this ⊢
    omega
  · have := hcount fun d => ¬ d.ordinary
    simp only [RankAccounts.releaseOrdinary, h.reshards]
    simp only [ho, not_true_eq_false, decide_false] at this ⊢
    simpa using this.symm
  · exact ⟨h.positive.1.dropAll _, h.positive.2.1.drop _, h.positive.2.2⟩
  · exact h.freeBefore_ended taskId

/-- `_release_task` where no group goes by the name of the RESHARD entry. -/
theorem releaseTask (h : Booked known topology heap a) (hs : topology.find reshardTarget = none)
    (taskId : String) : Booked known topology heap (a.releaseTask taskId) := by
  unfold RankAccounts.releaseTask
  rw [h.kinds]
  cases hc : claimOf a.log taskId with
  | none => exact h.ended_none hc
  | some c =>
    have hm := (claimOf_eq_some hc).1
    simp only [Option.map_some]
    by_cases ho : c.ordinary = true
    · obtain ⟨-, group, hfind, -⟩ := h.placed c hm ho
      rw [if_neg fun heq => by rw [heq, hs] at hfind; cases hfind]
      exact h.releaseOrdinary hc ho
    · have ho : c.ordinary = false := by simpa using ho
      rw [if_pos (h.target c hm ho)]
      have hcount := h.countP_ended hc
      have hranks : a.dispatchedRanksByTask.getD taskId [] = c.ranks := by
        simp [Dict.getD, h.ranksBy, hc]
      constructor
      · exact h.distinct
      · exact fun d hd => h.known d (mem_ended hd)
      · exact h.ids_ended taskId
      · exact fun d hd => h.ranksNodup d (mem_ended hd)
      · exact fun d hd => h.placed d (mem_ended hd)
      · exact fun d hd => h.target d (mem_ended hd)
      · intro other
        simp only [Dict.get?_erase, claimOf_ended, h.kinds]
        split <;> rfl
      · intro other
        simp only [Dict.get?_erase, claimOf_ended, h.ranksBy]
        split <;> rfl
      · intro rank
        have := hcount (Claim.ordinaryOn rank)
        simp only [h.perRank]
        simp only [Claim.ordinaryOn, ho] at this ⊢
        simpa using this.symm
      · exact h.once
      · intro rank
        have := hcount (Claim.reshardOn rank)
        simp only [hranks, Counter.count_dropAll, h.held, holds,
          count_nodup (h.ranksNodup c hm)]
        simp only [Claim.reshardOn, ho] at this ⊢
        simp only [Bool.false_eq_true, not_false_eq_true, true_and, decide_eq_true_eq] at this ⊢
        omega
      · exact h.holdsNodup
      · intro groupId
        have := hcount fun d => d.ordinary ∧ d.target = groupId
        simp only [h.perGroup]
        simp only [ho] at this ⊢
        simpa using this.symm
      · have := hcount fun d => ¬ d.ordinary
        simp only [h.reshards]
        simp only [ho, Bool.false_eq_true, not_false_eq_true, decide_true, if_true] at this
        omega
      · exact ⟨h.positive.1, h.positive.2.1, h.positive.2.2.dropAll _⟩
      · exact h.freeBefore_ended taskId

/-- The EDF release, where only ordinary tasks are dispatched. -/
theorem releaseDispatchedTask (h : Booked known topology heap a)
    (ho : ∀ c ∈ claims a.log, c.ordinary = true) (taskId : String) :
    Booked known topology heap (a.releaseDispatchedTask taskId) := by
  unfold RankAccounts.releaseDispatchedTask
  rw [h.kinds]
  cases hc : claimOf a.log taskId with
  | none =>
    have he := h.ended_none hc
    refine { he with ranksBy := fun other => ?_ }
    show (a.dispatchedRanksByTask.erase taskId).get? other = _
    rw [Dict.get?_erase, show a.dispatchedRanksByTask.get? other = _ from he.ranksBy other]
    split
    · rename_i heq
      subst heq
      simp [claimOf_ended]
    · rfl
  | some c => exact h.releaseOrdinary hc (ho c (claimOf_eq_some hc).1)

-- ---------------------------------------------------------------------------
-- Holds
-- ---------------------------------------------------------------------------

theorem acquireMigrationHold (h : Booked known topology heap a) (hnodup : ranks.Nodup) :
    Booked known topology heap (a.acquireMigrationHold ranks) := by
  refine { h with held := fun rank => ?_, holdsNodup := ?_, positive := ?_, free := ?_ }
  · simp only [RankAccounts.acquireMigrationHold, Counter.count_raiseAll, h.held, claims, holds,
      List.countP_cons, count_nodup hnodup, decide_eq_true_eq]
    omega
  · simpa [RankAccounts.acquireMigrationHold, holds] using ⟨hnodup, h.holdsNodup⟩
  · exact ⟨h.positive.1, h.positive.2.1, h.positive.2.2.raiseAll _⟩
  · exact h.free.cons (by simp)

theorem releaseMigrationHold (h : Booked known topology heap a) (hm : ranks ∈ holds a.log) :
    Booked known topology heap (a.releaseMigrationHold ranks) := by
  refine { h with held := fun rank => ?_, holdsNodup := ?_, positive := ?_, free := ?_ }
  · have hperm := (List.perm_cons_erase hm).countP_eq (rank ∈ ·)
    rw [List.countP_cons] at hperm
    simp only [RankAccounts.releaseMigrationHold, Counter.count_dropAll, h.held, claims, holds,
      count_nodup (h.holdsNodup ranks hm)]
    simp only [decide_eq_true_eq] at hperm
    omega
  · exact fun other ho => h.holdsNodup other (List.mem_of_mem_erase ho)
  · exact ⟨h.positive.1, h.positive.2.1, h.positive.2.2.dropAll _⟩
  · exact h.free.cons (by simp)

end Booked

-- ---------------------------------------------------------------------------
-- What a call dispatched
-- ---------------------------------------------------------------------------

/-- The claims of `log'` are those of `log` and one for each task returned. -/
def Issued (log : List AccountEntry) (out : List InferenceTask) (log' : List AccountEntry) : Prop :=
  ((claims log').map Claim.task).Perm (out ++ (claims log).map Claim.task) ∧
    holds log' = holds log

namespace Issued

theorem refl (log : List AccountEntry) : Issued log [] log := ⟨.refl _, rfl⟩

theorem dispatched (log : List AccountEntry) (task : InferenceTask) (target : String)
    (ranks : List Rank) (outstanding held : Dict Rank Nat) :
    Issued log [task] (.dispatched task target ranks outstanding held :: log) := ⟨.refl _, rfl⟩

theorem trans (h : Issued log out log') (h' : Issued log' out' log'') :
    Issued log (out ++ out') log'' := by
  refine ⟨(h'.1.trans (h.1.append_left out')).trans ?_, h'.2.trans h.2⟩
  rw [← List.append_assoc]
  exact List.perm_append_comm.append_right _

end Issued

structure Keeps (known : String → InferenceTask) (sound : World σ → Prop) (w w' : World σ) :
    Prop where
  sound : sound w'
  settled : Settled known w.tasks w'.tasks
  grows : ∀ group ∈ w.topology.groups, group ∈ w'.topology.groups

/-- A handler that returns has dispatched the tasks it returns. -/
structure Ticks (known : String → InferenceTask) (sound : World σ → Prop)
    (accounts : σ → RankAccounts) (w : World σ) (out : List InferenceTask) (w' : World σ) : Prop
    extends Keeps known sound w w' where
  issued : Issued (accounts w.policy).log out (accounts w'.policy).log

def WorkerEvent.entered (event : WorkerEvent) (log : List AccountEntry) : List AccountEntry :=
  if event.kind.endsTask then .ended event.taskId :: log else log

structure Answers (known : String → InferenceTask) (sound : World σ → Prop)
    (accounts : σ → RankAccounts) (event : WorkerEvent) (w : World σ) (out : List InferenceTask)
    (w' : World σ) : Prop extends Keeps known sound w w' where
  issued : Issued (event.entered (accounts w.policy).log) out (accounts w'.policy).log

section

variable {σ : Type} {known : String → InferenceTask} {sound : World σ → Prop}
  {accounts : σ → RankAccounts} {w w' w'' : World σ}

theorem Keeps.refl (h : sound w) : Keeps known sound w w := ⟨h, .refl, fun _ hm => hm⟩

theorem Keeps.trans (h : Keeps known sound w w') (h' : Keeps known sound w' w'') :
    Keeps known sound w w'' :=
  ⟨h'.sound, h.settled.trans h'.settled, fun group hm => h'.grows group (h.grows group hm)⟩

theorem Ticks.refl (h : sound w) : Ticks known sound accounts w [] w := ⟨.refl h, .refl _⟩

theorem Ticks.trans (h : Ticks known sound accounts w out w')
    (h' : Ticks known sound accounts w' out' w'') :
    Ticks known sound accounts w (out ++ out') w'' :=
  ⟨h.toKeeps.trans h'.toKeeps, h.issued.trans h'.issued⟩

theorem wp_answers {take : PolicyM σ (List InferenceTask)}
    (ht : ∀ {w}, sound w →
      Prog.wp take (Ticks known sound accounts w) (fun _ => Keeps known sound w) w)
    (hk : Keeps known sound w w')
    (he : Issued (event.entered (accounts w.policy).log) [] (accounts w'.policy).log) :
    Prog.wp take (Answers known sound accounts event w) (fun _ => Keeps known sound w) w' :=
  Prog.wp_mono (ht hk.sound) (fun _ _ h => ⟨hk.trans h.toKeeps, he.trans h.issued⟩)
    fun _ _ h => hk.trans h

end

theorem WorkerEvent.entered_ended {event : WorkerEvent} (h : event.kind.endsTask = true)
    (hlog : log' = .ended event.taskId :: log) : Issued (event.entered log) [] log' := by
  rw [WorkerEvent.entered, if_pos h, hlog]
  exact .refl _

theorem WorkerEvent.entered_other {event : WorkerEvent} (h : ¬ event.kind.endsTask = true)
    (log : List AccountEntry) : Issued (event.entered log) [] log := by
  rw [WorkerEvent.entered, if_neg h]
  exact .refl _

theorem RankAccounts.releaseTask_log (a : RankAccounts) (taskId : String) :
    (a.releaseTask taskId).log = .ended taskId :: a.log := by
  unfold RankAccounts.releaseTask
  split
  · rfl
  · split <;> rfl

theorem RankAccounts.releaseDispatchedTask_log (a : RankAccounts) (taskId : String) :
    (a.releaseDispatchedTask taskId).log = .ended taskId :: a.log := by
  unfold RankAccounts.releaseDispatchedTask
  split <;> rfl

end GfDit
