import GfDit.Policies.EdfGroups

/-!
# What a tick of the EDF policies hands out

A tick grants ranks to the heads of some queues, one after the other. A grant
is on a group that was pinned or asked for, inside the ranks that were still
free; each takes its ranks out of the free ones. What the counters, the queues
and the topology are after a tick follows from its grants.
-/

namespace GfDit

open Prog

namespace Edf

-- ---------------------------------------------------------------------------
-- One grant
-- ---------------------------------------------------------------------------

structure Grant where
  requestId : String
  task : InferenceTask
  groupId : String
  ranks : List Rank

def dispatched (w : World Edf) (grant : Grant) : World Edf :=
  { (w.setGroupId grant.task (some grant.groupId)).setStatus grant.task .dispatched with
    policy := { w.policy.popReady grant.requestId
        (w.policy.readyByRequest.getD grant.requestId []).tail with
      accounts := w.policy.accounts.dispatch grant.task grant.groupId grant.ranks
      requestInflight := Counter.raise w.policy.requestInflight grant.requestId } }

theorem popReady_accounts (p : Edf) (requestId : String) (rest : List InferenceTask) :
    (p.popReady requestId rest).accounts = p.accounts ∧
      (p.popReady requestId rest).requestInflight = p.requestInflight := by
  unfold popReady
  split <;> exact ⟨rfl, rfl⟩

theorem dispatchTask_run {w : World Edf}
    (hq : w.policy.readyByRequest.get? grant.requestId = some (grant.task :: rest)) :
    dispatchTask grant.task grant.requestId grant.groupId grant.ranks w =
      .ok () (dispatched w grant) := by
  obtain ⟨ha, hi⟩ := popReady_accounts w.policy grant.requestId rest
  have hrest : (w.policy.readyByRequest.getD grant.requestId []).tail = rest := by
    rw [Dict.getD_of_get? hq, List.tail_cons]
  unfold dispatchTask
  rw [get_bind, hq]
  simp only [ne_eq, not_true_eq_false, if_false, dispatched, hrest, ← ha, ← hi]
  rfl

theorem wp_dispatchTask {w : World Edf} {Q : Unit → World Edf → Prop} {E : PyError → World Edf → Prop}
    (grant : Grant)
    (hq : w.policy.readyByRequest.get? grant.requestId = some (grant.task :: rest))
    (h : Q () (dispatched w grant)) :
    wp (dispatchTask grant.task grant.requestId grant.groupId grant.ranks) Q E w :=
  wp_of_ok (dispatchTask_run hq) h

section

variable (w : World Edf) (grant : Grant)

@[simp] theorem dispatched_topology : (dispatched w grant).topology = w.topology := rfl

@[simp] theorem dispatched_clockNs : (dispatched w grant).clockNs = w.clockNs := rfl

@[simp] theorem dispatched_accounts : (dispatched w grant).policy.accounts =
    w.policy.accounts.dispatch grant.task grant.groupId grant.ranks := rfl

@[simp] theorem dispatched_requestInflight : (dispatched w grant).policy.requestInflight =
    Counter.raise w.policy.requestInflight grant.requestId := rfl

@[simp] theorem dispatched_requestMeta :
    (dispatched w grant).policy.requestMeta = w.policy.requestMeta := by
  simp only [dispatched, popReady]
  split <;> rfl

@[simp] theorem dispatched_allowedSpSizes :
    (dispatched w grant).policy.allowedSpSizes = w.policy.allowedSpSizes := by
  simp only [dispatched, popReady]
  split <;> rfl

@[simp] theorem dispatched_taskRuntimeEstimator :
    (dispatched w grant).policy.taskRuntimeEstimator = w.policy.taskRuntimeEstimator := by
  simp only [dispatched, popReady]
  split <;> rfl

theorem dispatched_groupId :
    (dispatched w grant).tasks.groupId grant.task = some grant.groupId := by
  show ((w.tasks.setGroupId grant.task (some grant.groupId)).setStatus grant.task
    .dispatched).groupId grant.task = _
  rw [TaskHeap.groupId_setStatus _ _ fun _ => rfl, TaskHeap.groupId_setGroupId]

theorem dispatched_groupId_ne (h : grant.task.taskId ≠ other.taskId) :
    (dispatched w grant).tasks.groupId other = w.tasks.groupId other := by
  show ((w.tasks.setGroupId grant.task (some grant.groupId)).setStatus grant.task
    .dispatched).groupId other = _
  rw [TaskHeap.groupId_setStatus _ _ fun hid => absurd hid h, TaskHeap.groupId_setGroupId_ne _ _ h]

theorem dispatched_queue_ne (h : grant.requestId ≠ other) :
    (dispatched w grant).policy.readyByRequest.get? other =
      w.policy.readyByRequest.get? other := by
  simp only [dispatched, popReady]
  split
  · exact Dict.get?_erase_ne _ h
  · exact Dict.get?_set_ne _ h _

theorem dispatched_queue {rest : List InferenceTask}
    (hq : w.policy.readyByRequest.get? grant.requestId = some (grant.task :: rest)) :
    (dispatched w grant).policy.readyByRequest.getD grant.requestId [] = rest := by
  have hrest : (w.policy.readyByRequest.getD grant.requestId []).tail = rest := by
    rw [Dict.getD_of_get? hq, List.tail_cons]
  simp only [dispatched, popReady, hrest]
  split
  · rename_i hnil
    simp [Dict.getD_erase, hnil]
  · simp [Dict.getD_set]

theorem freeRankSet_dispatched :
    freeRankSet (dispatched w grant) = withoutRanks (freeRankSet w) grant.ranks := by
  simp only [freeRankSet, withoutRanks, dispatched_topology, List.filter_filter]
  refine List.filter_congr fun rank _ => ?_
  rw [Bool.eq_iff_iff, Bool.and_eq_true, decide_eq_true_eq, Booked.canDispatchRanks_iff,
    Booked.canDispatchRanks_iff]
  simp only [List.mem_singleton, forall_eq, dispatched_accounts, RankAccounts.dispatch,
    Counter.count_raiseAll, Nat.add_eq_zero_iff, List.count_eq_zero]
  tauto

end

inductive Placed (free : List Rank) (w : World Edf) (grant : Grant) : World Edf → Prop
  | pinned (hf : w.topology.find grant.groupId = some group) (hr : group.ranks = grant.ranks)
    (hin : ∀ rank ∈ grant.ranks, rank ∈ free) : Placed free w grant w
  | asked (ha : Asked grant.ranks kinds) (hk : grant.task.kind ∈ kinds)
    (hin : ∀ rank ∈ grant.ranks, rank ∈ free)
    -- ranks picked among the free ones, or those of the request's last group
    (hd : grant.ranks.Nodup ∨ ∃ known ∈ w.topology.groups, known.ranks = grant.ranks)
    (hs : Supplied grant.ranks kinds w group w') (hid : group.groupId = grant.groupId) :
    Placed free w grant w'

namespace Placed

theorem inside (h : Placed free w grant w') : ∀ rank ∈ grant.ranks, rank ∈ free := by
  cases h with
  | pinned _ _ hin => exact hin
  | asked _ _ hin => exact hin

/-- The place does not depend on the name the request goes by. -/
theorem rename (h : Placed free w grant w') (requestId : String) :
    Placed free w { grant with requestId } w' := by
  cases h with
  | pinned hf hr hin => exact .pinned hf hr hin
  | asked ha hk hin hd hs hid => exact .asked ha hk hin hd hs hid

theorem rest (h : Placed free w grant w') :
    w'.tasks = w.tasks ∧ w'.clockNs = w.clockNs ∧ w'.policy = w.policy := by
  cases h with
  | pinned => exact ⟨rfl, rfl, rfl⟩
  | asked _ _ _ _ hs _ => exact hs.rest

theorem workers (h : Placed free w grant w') : w'.topology.workers = w.topology.workers := by
  cases h with
  | pinned => rfl
  | asked _ _ _ _ hs _ => exact hs.workers

theorem grows (h : Placed free w grant w') :
    ∀ group ∈ w.topology.groups, group ∈ w'.topology.groups := by
  cases h with
  | pinned => exact fun _ hm => hm
  | asked _ _ _ _ hs _ => exact hs.grows

theorem known (h : Placed free w grant w') :
    ∃ group ∈ w'.topology.groups, group.groupId = grant.groupId ∧ group.ranks = grant.ranks := by
  cases h with
  | pinned hf hr _ =>
    obtain ⟨hm, hid⟩ := RuntimeTopology.find_eq_some.mp hf
    exact ⟨_, hm, hid, hr⟩
  | asked _ _ _ _ hs hid =>
    exact ⟨_, (RuntimeTopology.find_eq_some.mp hs.known).1, hid, hs.serves.exact⟩

theorem distinct (h : Placed free w grant w')
    (hd : ∀ group ∈ w.topology.groups, group.ranks.Nodup) :
    grant.ranks.Nodup ∧ ∀ group ∈ w'.topology.groups, group.ranks.Nodup := by
  cases h with
  | pinned hf hr _ =>
    exact ⟨hr ▸ hd _ (RuntimeTopology.find_eq_some.mp hf).1, hd⟩
  | asked _ _ _ hn hs _ =>
    have hnodup : grant.ranks.Nodup := by
      rcases hn with hn | ⟨known, hm, hr⟩
      · exact hn
      · exact hr ▸ hd known hm
    exact ⟨hnodup, hs.distinct hd hnodup⟩

theorem stocked (h : Placed free w grant w') (hst : Stocked w.topology)
    (hw : ∀ rank ∈ free, rank ∈ w.topology.workers) : Stocked w'.topology := by
  cases h with
  | pinned => exact hst
  | asked ha _ hin _ hs _ => exact hst.supplied ha (fun rank hm => hw rank (hin rank hm)) hs

end Placed

theorem Heads.dispatched (hh : Heads w.policy ((grant.requestId, grant.task) :: ready))
    (hp : Placed free w grant w₁) : Heads (Edf.dispatched w₁ grant).policy ready := by
  refine ⟨(hh.of_sublist (List.sublist_cons_self ..)).1, fun item hm => ?_⟩
  rw [dispatched_queue_ne _ _ (hh.head_ne hm).symm, hp.rest.2.2]
  exact hh.2 item (List.mem_cons_of_mem _ hm)

theorem Placed.free_known (h : Placed free w grant w₁)
    (hw : ∀ rank ∈ free, rank ∈ w.topology.workers) :
    ∀ rank ∈ withoutRanks free grant.ranks, rank ∈ (Edf.dispatched w₁ grant).topology.workers := by
  intro rank hm
  rw [dispatched_topology, h.workers]
  exact hw rank (List.mem_of_mem_filter hm)

theorem readyList_sorted (p : Edf) :
    p.readyList.Pairwise fun a b => p.requestSortKey a.1 ≤ p.requestSortKey b.1 := by
  have : Std.Total fun a b : String × InferenceTask => p.requestSortKey a.1 ≤ p.requestSortKey b.1 :=
    ⟨fun a b => le_total _ _⟩
  have : IsTrans _ fun a b : String × InferenceTask => p.requestSortKey a.1 ≤ p.requestSortKey b.1 :=
    ⟨fun a b c => le_trans⟩
  exact List.pairwise_insertionSort _ _

-- ---------------------------------------------------------------------------
-- Ranks to ask for
-- ---------------------------------------------------------------------------

theorem pickRanksForRequest_length (w : World Edf) (requestId : String)
    (h : spSize ≤ free.length) :
    (pickRanksForRequest w requestId spSize free).length = spSize := by
  have hlow : ((free.insertionSort (· ≤ ·)).take spSize).length = spSize := by
    rw [List.length_take, List.length_insertionSort]
    exact Nat.min_eq_left h
  simp only [pickRanksForRequest]
  split
  · exact hlow
  · split
    · exact hlow
    · split
      · rename_i hc
        exact hc.1
      · exact hlow

theorem pickRanksForRequest_drawn (hf : free.Nodup) :
    (pickRanksForRequest w requestId spSize free).Nodup ∨
      ∃ known ∈ w.topology.groups, known.ranks = pickRanksForRequest w requestId spSize free := by
  have hlow : ((free.insertionSort (· ≤ ·)).take spSize).Nodup :=
    ((List.perm_insertionSort ..).nodup_iff.mpr hf).sublist (List.take_sublist ..)
  simp only [pickRanksForRequest]
  split
  · exact .inl hlow
  · split
    · exact .inl hlow
    · rename_i group hfind
      split
      · exact .inr ⟨group, (RuntimeTopology.find_eq_some.mp hfind).1, rfl⟩
      · exact .inl hlow

/-- A request for a group that found the name taken. -/
def Collision (w : World Edf) (e : PyError) : Prop :=
  ∃ ranks kinds, Asked ranks kinds ∧ (∀ rank ∈ ranks, rank ∈ w.topology.workers) ∧
    Collides w.topology ranks kinds ∧ e = differentSpec (groupIdFor ranks)

theorem Stocked.no_collision (h : Stocked w.topology) : ¬ Collision w e := by
  rintro ⟨ranks, kinds, ha, hw, hc, -⟩
  exact h.not_collides ha hw hc

theorem ensureGroupForRanks_placed {w : World Edf} {free ranks : List Rank}
    {task : InferenceTask} (requestId : String) (ha : Asked ranks kinds)
    (hk : task.kind ∈ kinds) (hin : ∀ rank ∈ ranks, rank ∈ free)
    (hw : ∀ rank ∈ free, rank ∈ w.topology.workers)
    (hd : ranks.Nodup ∨ ∃ known ∈ w.topology.groups, known.ranks = ranks) :
    wp (ensureGroupForRanks ranks kinds) (fun group w' =>
      Placed free w ⟨requestId, task, group.groupId, ranks⟩ w' ∧
        task.kind ∈ group.supportedTaskKinds)
      (fun e w' => w' = w ∧ Collision w e) w := by
  have hworkers : ∀ rank ∈ ranks, rank ∈ w.topology.workers := fun rank hm => hw rank (hin rank hm)
  refine wp_mono (ensureGroupForRanks_supplied ha.ne_nil hworkers) (fun group w' hs => ?_)
    fun e w' he => ⟨he.1, ranks, kinds, ha, hworkers, he.2⟩
  exact ⟨.asked ha hk hin hd hs rfl, hs.serves.supports task.kind hk⟩

theorem standard_cases (h : kind ∈ standardTaskKinds) :
    kind ∈ singleRankTaskKinds ∨ kind ∈ ditTaskKinds := List.mem_append.mp h

-- ---------------------------------------------------------------------------
-- The grants of a tick
-- ---------------------------------------------------------------------------

/-- The grants, in turn, each on what the ones before it left free. -/
inductive Granted : List Rank → World Edf → List Grant → World Edf → Prop
  | nil : Granted free w [] w
  | cons (hp : Placed free w grant w₁)
    (hq : w₁.policy.readyByRequest.get? grant.requestId = some (grant.task :: rest))
    (hg : Granted (withoutRanks free grant.ranks) (dispatched w₁ grant) grants w') :
    Granted free w (grant :: grants) w'

def leftFree (free : List Rank) (grants : List Grant) : List Rank :=
  grants.foldl (fun free grant => withoutRanks free grant.ranks) free

def Grant.claim (a : RankAccounts) (grant : Grant) : RankAccounts :=
  a.dispatch grant.task grant.groupId grant.ranks

namespace Granted

theorem append (h : Granted free w grants w₁) (h' : Granted (leftFree free grants) w₁ rest w') :
    Granted free w (grants ++ rest) w' := by
  induction h with
  | nil => exact h'
  | cons hp hq _ ih => exact .cons hp hq (ih h')

theorem inside (h : Granted free w grants w') :
    ∀ grant ∈ grants, ∀ rank ∈ grant.ranks, rank ∈ free := by
  induction h with
  | nil => simp
  | cons hp _ _ ih =>
    refine List.forall_mem_cons.mpr ⟨hp.inside, fun grant hm rank hr => ?_⟩
    exact List.mem_of_mem_filter (ih grant hm rank hr)

/-- No rank is granted twice. -/
theorem disjoint (h : Granted free w grants w') :
    grants.Pairwise fun a b => a.ranks.Disjoint b.ranks := by
  induction h with
  | nil => exact .nil
  | cons hp _ hg ih =>
    refine List.pairwise_cons.mpr ⟨fun other hm rank hr hr' => ?_, ih⟩
    have hleft := List.of_mem_filter (hg.inside other hm rank hr')
    simp only [decide_eq_true_eq] at hleft
    exact hleft hr

theorem accounts_eq (h : Granted free w grants w') :
    w'.policy.accounts = grants.foldl Grant.claim w.policy.accounts := by
  induction h with
  | nil => rfl
  | cons hp _ _ ih => rw [ih, dispatched_accounts, hp.rest.2.2, List.foldl_cons, Grant.claim]

theorem workers (h : Granted free w grants w') : w'.topology.workers = w.topology.workers := by
  induction h with
  | nil => rfl
  | cons hp _ _ ih => rw [ih, dispatched_topology, hp.workers]

theorem allowedSpSizes (h : Granted free w grants w') :
    w'.policy.allowedSpSizes = w.policy.allowedSpSizes := by
  induction h with
  | nil => rfl
  | cons hp _ _ ih => rw [ih, dispatched_allowedSpSizes, hp.rest.2.2]

theorem taskRuntimeEstimator (h : Granted free w grants w') :
    w'.policy.taskRuntimeEstimator = w.policy.taskRuntimeEstimator := by
  induction h with
  | nil => rfl
  | cons hp _ _ ih => rw [ih, dispatched_taskRuntimeEstimator, hp.rest.2.2]

theorem grows (h : Granted free w grants w') :
    ∀ group ∈ w.topology.groups, group ∈ w'.topology.groups := by
  induction h with
  | nil => exact fun _ hm => hm
  | cons hp _ _ ih => exact fun group hm => ih group (hp.grows group hm)

theorem known (h : Granted free w grants w') : ∀ grant ∈ grants,
    ∃ group ∈ w'.topology.groups, group.groupId = grant.groupId ∧ group.ranks = grant.ranks := by
  induction h with
  | nil => simp
  | cons hp _ hg ih =>
    refine List.forall_mem_cons.mpr ⟨?_, ih⟩
    obtain ⟨group, hm, hid, hr⟩ := hp.known
    exact ⟨group, hg.grows group hm, hid, hr⟩

theorem distinct (h : Granted free w grants w')
    (hd : ∀ group ∈ w.topology.groups, group.ranks.Nodup) :
    (∀ grant ∈ grants, grant.ranks.Nodup) ∧ ∀ group ∈ w'.topology.groups, group.ranks.Nodup := by
  induction h with
  | nil => exact ⟨by simp, hd⟩
  | cons hp _ _ ih =>
    obtain ⟨hn, hd⟩ := hp.distinct hd
    exact ⟨List.forall_mem_cons.mpr ⟨hn, (ih hd).1⟩, (ih hd).2⟩

theorem stocked (h : Granted free w grants w') (hst : Stocked w.topology)
    (hw : ∀ rank ∈ free, rank ∈ w.topology.workers) : Stocked w'.topology := by
  induction h with
  | nil => exact hst
  | cons hp _ _ ih =>
    refine ih (hp.stocked hst hw) fun rank hm => ?_
    rw [dispatched_topology, hp.workers]
    exact hw rank (List.mem_of_mem_filter hm)

theorem queue_ne (h : Granted free w grants w') (hr : requestId ∉ grants.map Grant.requestId) :
    w'.policy.readyByRequest.get? requestId = w.policy.readyByRequest.get? requestId := by
  induction h with
  | nil => rfl
  | cons hp _ _ ih =>
    rw [List.map_cons, List.mem_cons, not_or] at hr
    rw [ih hr.2, dispatched_queue_ne _ _ (Ne.symm hr.1), hp.rest.2.2]

theorem freeRankSet_eq (h : Granted (freeRankSet w) w grants w') :
    freeRankSet w' = leftFree (freeRankSet w) grants := by
  generalize hf : freeRankSet w = free at h
  induction h with
  | nil => exact hf
  | cons hp _ _ ih =>
    refine ih ?_
    rw [freeRankSet_dispatched, ← hf]
    simp only [freeRankSet, hp.workers, hp.rest.2.2]

end Granted

end Edf

end GfDit
