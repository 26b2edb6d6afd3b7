import GfDit.Policies.EdfDemand

/-!
# The order of the EDF policies

A tick serves the most urgent of the requests that wait and goes on as long as
a rank is free. While the topology is stocked, tasks are reported once and end
once, and a request is not ended with a task in flight, every tick is of this
kind and no request has two tasks in flight: the policy's own count of them is
right in every state.
-/

namespace GfDit

open Prog

namespace Edf

variable {catalog : String → InferenceTask} {w w' w₁ : World Edf}

-- ---------------------------------------------------------------------------
-- Counts and queues
-- ---------------------------------------------------------------------------

/-- The tasks of a request that are dispatched and have not ended. -/
def inFlight (w : World Edf) (requestId : String) : Nat :=
  (claims w.policy.accounts.log).countP (·.task.requestId = requestId)

structure Unplaced (catalog : String → InferenceTask) (w : World Edf) (requestId : String)
    (task : InferenceTask) : Prop where
  known : catalog task.taskId = task
  owner : task.requestId = requestId
  kind : task.kind ∈ standardTaskKinds
  group : w.tasks.groupId task = none

structure Level (catalog : String → InferenceTask) (w : World Edf) : Prop where
  queued : ∀ requestId queue, w.policy.readyByRequest.get? requestId = some queue →
    queue.Nodup ∧ ∀ task ∈ queue, Unplaced catalog w requestId task
  claimed : ∀ c ∈ claims w.policy.accounts.log,
    catalog c.task.taskId = c.task ∧ w.tasks.groupId c.task ≠ none
  ids : ((claims w.policy.accounts.log).map (·.task.taskId)).Nodup
  counted : ∀ requestId, Counter.count w.policy.requestInflight requestId = inFlight w requestId
  once : ∀ requestId, inFlight w requestId ≤ 1

theorem Level.init : Level catalog ⟨topology, ∅, clockNs, .init estimator sizes⟩ where
  queued := by simp [Edf.init]
  claimed := by simp [Edf.init, RankAccounts.init, claims]
  ids := by simp [Edf.init, RankAccounts.init, claims]
  counted := by simp [Edf.init, inFlight, RankAccounts.init, claims]
  once := by simp [Edf.init, inFlight, RankAccounts.init, claims]

theorem Level.congr (h : Level catalog w) (ht : w'.tasks = w.tasks)
    (hq : w'.policy.readyByRequest = w.policy.readyByRequest)
    (ha : claims w'.policy.accounts.log = claims w.policy.accounts.log)
    (hi : w'.policy.requestInflight = w.policy.requestInflight) : Level catalog w' where
  queued := fun requestId queue hget => by
    obtain ⟨hn, hu⟩ := h.queued requestId queue (hq ▸ hget)
    exact ⟨hn, fun task hm => { hu task hm with group := ht ▸ (hu task hm).group }⟩
  claimed := by rw [ha, ht]; exact h.claimed
  ids := ha ▸ h.ids
  counted := by
    intro requestId
    rw [hi, h.counted, inFlight, inFlight, ha]
  once := by
    intro requestId
    rw [inFlight, ha]
    exact h.once requestId

theorem Level.dispatched (h : Level catalog w) (grant : Grant)
    (hq : w.policy.readyByRequest.get? grant.requestId = some (grant.task :: rest))
    (h0 : Counter.count w.policy.requestInflight grant.requestId = 0) :
    Level catalog (Edf.dispatched w grant) := by
  obtain ⟨hnodup, hwait⟩ := h.queued _ _ hq
  have hu := hwait grant.task (List.mem_cons_self ..)
  have hlog : claims (Edf.dispatched w grant).policy.accounts.log =
      ⟨grant.task, grant.groupId, grant.ranks⟩ :: claims w.policy.accounts.log := rfl
  -- a task with a group, or another that waits, has another id
  have hne : ∀ task, catalog task.taskId = task → task ≠ grant.task →
      grant.task.taskId ≠ task.taskId := by
    intro task hk hne hid
    exact hne (by rw [← hk, ← hid, hu.known])
  have hcount : ∀ requestId, inFlight (Edf.dispatched w grant) requestId =
      inFlight w requestId + if grant.requestId = requestId then 1 else 0 := by
    intro requestId
    simp only [inFlight, hlog, List.countP_cons, hu.owner, decide_eq_true_eq]
  refine ⟨fun requestId queue hget => ?_, fun c hc => ?_, ?_, fun requestId => ?_,
    fun requestId => ?_⟩
  · -- what waits is what waited, less the head
    have hold : ∃ before, w.policy.readyByRequest.get? requestId = some before ∧
        queue.Nodup ∧ ∀ task ∈ queue, task ∈ before ∧ task ≠ grant.task := by
      by_cases hid : grant.requestId = requestId
      · subst hid
        have hrest := dispatched_queue w grant hq
        rw [Dict.getD_of_get? hget] at hrest
        subst hrest
        obtain ⟨hhead, htail⟩ := List.nodup_cons.mp hnodup
        exact ⟨_, hq, htail, fun task hm =>
          ⟨List.mem_cons_of_mem _ hm, fun heq => hhead (heq ▸ hm)⟩⟩
      · rw [dispatched_queue_ne w grant hid] at hget
        obtain ⟨hn, hall⟩ := h.queued _ _ hget
        refine ⟨queue, hget, hn, fun task hm => ⟨hm, fun heq => hid ?_⟩⟩
        rw [← hu.owner, ← heq, (hall task hm).owner]
    obtain ⟨before, hbefore, hn, hsub⟩ := hold
    refine ⟨hn, fun task hm => ?_⟩
    have hold := (h.queued _ _ hbefore).2 task (hsub task hm).1
    refine { hold with group := ?_ }
    rw [dispatched_groupId_ne w grant (hne task hold.known (hsub task hm).2)]
    exact hold.group
  · rw [hlog] at hc
    rcases List.mem_cons.mp hc with rfl | hc
    · exact ⟨hu.known, by simp [dispatched_groupId]⟩
    · obtain ⟨hk, hg⟩ := h.claimed c hc
      have hdiff : c.task ≠ grant.task := fun heq => hg (heq ▸ hu.group)
      exact ⟨hk, by rwa [dispatched_groupId_ne w grant (hne c.task hk hdiff)]⟩
  · rw [hlog, List.map_cons, List.nodup_cons]
    refine ⟨fun hm => ?_, h.ids⟩
    obtain ⟨c, hc, hid⟩ := List.mem_map.mp hm
    obtain ⟨hk, hg⟩ := h.claimed c hc
    have hdiff : c.task ≠ grant.task := fun heq => hg (heq ▸ hu.group)
    exact hne c.task hk hdiff hid.symm
  · rw [dispatched_requestInflight, Counter.count_raise, h.counted, hcount]
  · rw [hcount]
    split
    · rename_i hid
      rw [← hid, ← h.counted, h0]
    · exact h.once requestId

theorem Level.placed (h : Level catalog w) (hp : Placed free w grant w₁) : Level catalog w₁ := by
  obtain ⟨ht, -, hpol⟩ := hp.rest
  exact h.congr ht (by rw [hpol]) (by rw [hpol]) (by rw [hpol])

theorem Level.granted (h : Level catalog w) (hg : Granted free w grants w')
    (hn : (grants.map Grant.requestId).Nodup)
    (h0 : ∀ grant ∈ grants, Counter.count w.policy.requestInflight grant.requestId = 0) :
    Level catalog w' := by
  induction hg with
  | nil => exact h
  | @cons _ _ grant w₁ _ grants _ hp hq _ ih =>
    rw [List.map_cons, List.nodup_cons] at hn
    obtain ⟨hzero, hzeros⟩ := List.forall_mem_cons.mp h0
    refine ih ((h.placed hp).dispatched grant hq ?_) hn.2 fun other hm => ?_
    · rw [hp.rest.2.2]
      exact hzero
    · have hne : grant.requestId ≠ other.requestId := fun heq =>
        hn.1 (heq ▸ List.mem_map_of_mem hm)
      rw [dispatched_requestInflight, Counter.count_raise, hp.rest.2.2, if_neg hne]
      exact hzeros other hm

-- ---------------------------------------------------------------------------
-- The requests that wait
-- ---------------------------------------------------------------------------

/-- The request has a ready task, the head of its queue, and none in flight. -/
def Waits (w : World Edf) (item : String × InferenceTask) : Prop :=
  (∃ rest, w.policy.readyByRequest.get? item.1 = some (item.2 :: rest)) ∧ inFlight w item.1 = 0

theorem mem_readyList {p : Edf} :
    item ∈ p.readyList ↔ (∃ rest, p.readyByRequest.get? item.1 = some (item.2 :: rest)) ∧
      Counter.count p.requestInflight item.1 = 0 := by
  unfold readyList
  rw [(List.perm_insertionSort ..).mem_iff, List.mem_filterMap]
  constructor
  · rintro ⟨⟨requestId, queue⟩, hmem, heq⟩
    cases queue with
    | nil => cases heq
    | cons task rest =>
      simp only at heq
      split at heq
      · cases heq
      · rename_i hzero
        cases heq
        exact ⟨⟨rest, p.readyByRequest.get?_eq_some.mpr hmem⟩, Nat.eq_zero_of_not_pos hzero⟩
  · rintro ⟨⟨rest, hget⟩, hzero⟩
    refine ⟨(item.1, item.2 :: rest), p.readyByRequest.get?_eq_some.mp hget, ?_⟩
    simp [hzero]

theorem Level.mem_readyList (h : Level catalog w) : item ∈ w.policy.readyList ↔ Waits w item := by
  rw [Edf.mem_readyList, h.counted]
  rfl

/-- The tick serves a prefix of the requests that wait, the most urgent first,
and leaves no rank free or none waiting. -/
def OrderedTick (w : World Edf) (out : List InferenceTask) (w' : World Edf) : Prop :=
  ∃ served left : List (String × InferenceTask), (served ++ left).Pairwise
      (fun a b => w.policy.requestSortKey a.1 ≤ w.policy.requestSortKey b.1) ∧
    ((served ++ left).map Prod.fst).Nodup ∧
    (∀ item, item ∈ served ++ left ↔ Waits w item) ∧
    out = served.map Prod.snd ∧
    (freeRankSet w' = [] ∨ ∀ item, ¬ Waits w' item)

theorem Granted.claims_eq (h : Granted free w grants w') :
    claims w'.policy.accounts.log =
      (grants.map fun grant => ⟨grant.task, grant.groupId, grant.ranks⟩).reverse ++
        claims w.policy.accounts.log := by
  induction h with
  | nil => rfl
  | cons hp _ _ ih =>
    rw [ih, List.map_cons, List.reverse_cons, List.append_assoc, ← hp.rest.2.2]
    rfl

theorem orderedTick_of_granted (hl : Level catalog w)
    (hg : Granted (freeRankSet w) w grants w') (hpre : grants.map Grant.item <+: w.policy.readyList)
    (hend : leftFree (freeRankSet w) grants = [] ∨ grants.map Grant.item = w.policy.readyList) :
    Level catalog w' ∧ OrderedTick w (grants.map Grant.task) w' := by
  obtain ⟨hnodup, hheads⟩ := readyList_heads w.policy
  have hitem : ∀ grant ∈ grants, grant.item ∈ w.policy.readyList := fun grant hm =>
    hpre.subset (List.mem_map_of_mem hm)
  have hids : (grants.map Grant.requestId).Nodup := by
    have hsub := (hpre.sublist.map Prod.fst).nodup hnodup
    rwa [List.map_map] at hsub
  have hlevel := hl.granted hg hids fun grant hm => (Edf.mem_readyList.mp (hitem grant hm)).2
  refine ⟨hlevel, ?_⟩
  obtain ⟨left, hsplit⟩ := hpre
  refine ⟨grants.map Grant.item, left, hsplit ▸ readyList_sorted w.policy, hsplit ▸ hnodup,
    fun item => by rw [hsplit, hl.mem_readyList], by rw [List.map_map]; rfl, ?_⟩
  rcases hend with hend | hend
  · exact .inl (hg.freeRankSet_eq.trans hend)
  · right
    rintro item ⟨⟨rest, hget⟩, hzero⟩
    by_cases hserved : item.1 ∈ grants.map Grant.requestId
    · -- the request was served, so it has a task in flight
      obtain ⟨grant, hm, hid⟩ := List.mem_map.mp hserved
      obtain ⟨⟨_, hq⟩, -⟩ := Edf.mem_readyList.mp (hitem grant hm)
      have howner := ((hl.queued _ _ hq).2 grant.task (List.mem_cons_self ..)).owner
      rw [inFlight, hg.claims_eq, List.countP_append, Nat.add_eq_zero_iff,
        List.countP_eq_zero] at hzero
      refine hzero.1 _ (List.mem_reverse.mpr (List.mem_map_of_mem hm)) ?_
      simpa using howner.trans hid
    · -- nothing of it has changed, so it was in the list and served
      rw [hg.queue_ne hserved] at hget
      rw [inFlight, hg.claims_eq, List.countP_append, Nat.add_eq_zero_iff] at hzero
      have hwait := hl.mem_readyList.mpr ⟨⟨rest, hget⟩, hzero.2⟩
      rw [← hend] at hwait
      obtain ⟨grant, hm, rfl⟩ := List.mem_map.mp hwait
      exact hserved (List.mem_map_of_mem hm)

-- ---------------------------------------------------------------------------
-- The greedy tick
-- ---------------------------------------------------------------------------

theorem Placed.free_ne (h : Placed free w grant w') : free ≠ [] := by
  obtain ⟨group, -, -, hr⟩ := h.known
  obtain ⟨rank, hm⟩ := List.exists_mem_of_ne_nil _ (hr ▸ group.ranks_ne)
  exact List.ne_nil_of_mem (h.inside rank hm)

theorem Turns.none_free (h : Turns free w ready grants w') (hf : free = []) : grants = [] := by
  induction h with
  | nil => rfl
  | skip _ _ ih => exact ih hf
  | serve hp => exact absurd hf hp.free_ne

/-- Requests whose heads wait without a group are served in turn, until no rank
is free. -/
theorem Turns.serves (h : Turns free w ready grants w') (hl : Level catalog w)
    (hh : Heads w.policy ready)
    (h0 : ∀ item ∈ ready, Counter.count w.policy.requestInflight item.1 = 0) :
    grants.map Grant.item <+: ready ∧
      (leftFree free grants = [] ∨ grants.map Grant.item = ready) := by
  induction h with
  | nil => exact ⟨List.prefix_rfl, .inr rfl⟩
  | skip hskip ht _ =>
    obtain ⟨rest, hq⟩ := hh.2 _ (List.mem_cons_self ..)
    have hgroup := ((hl.queued _ _ hq).2 _ (List.mem_cons_self ..)).group
    have hfree := hskip.resolve_left (not_not_intro hgroup)
    obtain rfl := ht.none_free hfree
    exact ⟨List.nil_prefix, .inl hfree⟩
  | serve hp hq _ ih =>
    obtain ⟨hzero, hzeros⟩ := List.forall_mem_cons.mp h0
    have hzero₁ := hzero
    rw [← hp.rest.2.2] at hzero₁
    obtain ⟨hpre, hend⟩ := ih ((hl.placed hp).dispatched _ hq hzero₁) (Heads.dispatched hh hp)
      fun item hm => by
        rw [dispatched_requestInflight, Counter.count_raise, hp.rest.2.2,
          if_neg (hh.head_ne hm).symm]
        exact hzeros item hm
    exact ⟨(List.prefix_cons_inj _).mpr hpre, hend.imp_right fun heq => by
      rw [List.map_cons, heq]; rfl⟩

def Steady (estimator : Option TaskRuntimeEstimator) : Prop :=
  ∀ estimate, estimator = some estimate → ∀ spec seqLen stage e,
    estimate spec seqLen stage ≠ .error e

/-- Over tasks that can wait nothing stops a tick. -/
theorem Level.not_stopped (hl : Level catalog w) (hs : Supplies w)
    (hest : Steady w.policy.taskRuntimeEstimator) :
    ¬ Stopped (freeRankSet w) w w.policy.readyList e w' := by
  rintro ⟨grants, hg, hc | ⟨item, hsub, he⟩⟩
  · exact (hs.granted hg).stocked.no_collision hc
  · obtain ⟨hnodup, -⟩ := readyList_heads w.policy
    have hids := (hsub.map Prod.fst).nodup hnodup
    rw [List.map_append, List.map_map, List.nodup_append] at hids
    have hready : ∀ other ∈ grants.map Grant.item ++ [item], other ∈ w.policy.readyList :=
      fun other hm => hsub.subset hm
    have hl' := hl.granted hg hids.1 fun grant hm => (Edf.mem_readyList.mp
      (hready grant.item (List.mem_append_left _ (List.mem_map_of_mem hm)))).2
    obtain ⟨⟨rest, hq⟩, -⟩ := Edf.mem_readyList.mp
      (hready item (List.mem_append_right _ (List.mem_singleton_self item)))
    have hnew : item.1 ∉ grants.map Grant.requestId := fun hm =>
      hids.2.2 item.1 hm item.1 (by simp) rfl
    rw [← hg.queue_ne hnew] at hq
    have hu := (hl'.queued _ _ hq).2 item.2 (List.mem_cons_self ..)
    cases he with
    | pinned hp _ => exact hp hu.group
    | unsupported hk _ => exact hk hu.kind
    | estimate hsome hr => exact hest _ (hg.taskRuntimeEstimator ▸ hsome) _ _ _ _ hr
    | collision hc => exact (hs.granted hg).stocked.no_collision hc

theorem greedy_orderedTick (hl : Level catalog w) (hs : Supplies w)
    (hest : Steady w.policy.taskRuntimeEstimator) :
    wp takeDispatchableTasks (fun out w' => Level catalog w' ∧ OrderedTick w out w' ∧
      ∃ grants, Granted (freeRankSet w) w grants w') (fun _ _ => False) w := by
  have hheads := readyList_heads w.policy
  simp only [takeDispatchableTasks, wp_bind, wp_get]
  refine wp_mono (placeInTurn_turns hs.sizes (freeRankSet_free w).1 (freeRankSet_known w) hheads)
    (fun out w' ho => ?_) fun _ _ he => hl.not_stopped hs hest he
  obtain ⟨grants, rfl, ht⟩ := ho
  obtain ⟨hpre, hend⟩ := ht.serves hl hheads fun item hm => (Edf.mem_readyList.mp hm).2
  obtain ⟨hlevel, htick⟩ := orderedTick_of_granted hl ht.granted hpre hend
  exact ⟨hlevel, htick, grants, ht.granted⟩

-- ---------------------------------------------------------------------------
-- The best-fit tick
-- ---------------------------------------------------------------------------

def totalRanks (grants : List Grant) : Nat := (grants.map (·.ranks.length)).sum

theorem length_withoutRanks_eq {free ranks : List Rank} (hf : free.Nodup) (hr : ranks.Nodup)
    (hin : ∀ rank ∈ ranks, rank ∈ free) :
    ranks.length + (withoutRanks free ranks).length = free.length := by
  have hperm : List.Perm (ranks ++ withoutRanks free ranks) free := by
    refine (List.perm_ext_iff_of_nodup ?_ hf).mpr fun rank => ?_
    · refine List.nodup_append.mpr ⟨hr, hf.sublist List.filter_sublist, fun a ha b hb heq => ?_⟩
      subst heq
      simpa [ha] using List.of_mem_filter hb
    · simp only [List.mem_append, withoutRanks, List.mem_filter, decide_eq_true_eq]
      constructor
      · rintro (hm | hm)
        · exact hin rank hm
        · exact hm.1
      · intro hm
        by_cases hr : rank ∈ ranks
        · exact .inl hr
        · exact .inr ⟨hm, hr⟩
  rw [← List.length_append, hperm.length_eq]

theorem length_leftFree (hg : Granted free w grants w') (hf : free.Nodup)
    (hd : ∀ group ∈ w.topology.groups, group.ranks.Nodup) :
    totalRanks grants + (leftFree free grants).length = free.length := by
  induction hg with
  | nil => exact Nat.zero_add _
  | @cons free w grant w₁ _ grants _ hp _ _ ih =>
    obtain ⟨hn, hd⟩ := hp.distinct hd
    have hlen := length_withoutRanks_eq hf hn hp.inside
    have hrest := ih (hf.sublist List.filter_sublist) hd
    simp only [totalRanks, List.map_cons, List.sum_cons] at hrest ⊢
    rw [leftFree, List.foldl_cons]
    rw [leftFree] at hrest
    omega

theorem totalRanks_of_sized (h : List.Forall₂ Sized sizes grants) :
    totalRanks grants = totalSize sizes ∧ grants.map Grant.item = sizes.map FitEntry.item := by
  induction h with
  | nil => exact ⟨rfl, rfl⟩
  | cons hs _ ih =>
    obtain ⟨htotal, hitems⟩ := ih
    simp only [totalRanks, totalSize, List.map_cons, List.sum_cons] at htotal ⊢
    refine ⟨by rw [hs.ranks, htotal], ?_⟩
    rw [hitems, Grant.item, FitEntry.item, hs.requestId, hs.task]

theorem bestFit_orderedTick (hl : Level catalog w) (hs : Supplies w)
    (hd : ∀ group ∈ w.topology.groups, group.ranks.Nodup) :
    wp bestFitTake (fun out w' => Level catalog w' ∧ OrderedTick w out w' ∧
      ∃ grants, Granted (freeRankSet w) w grants w') (fun _ _ => False) w := by
  have hready : ∀ item ∈ w.policy.readyList,
      w.tasks.groupId item.2 = none ∧ item.2.kind ∈ standardTaskKinds := fun item hm => by
    obtain ⟨⟨rest, hq⟩, -⟩ := Edf.mem_readyList.mp hm
    have hu := (hl.queued _ _ hq).2 item.2 (List.mem_cons_self ..)
    exact ⟨hu.group, hu.kind⟩
  obtain ⟨hfitted, htotal⟩ := fitSizes_fitted (freeRankSet w).length hs.sizes fun item hm =>
    (hready item hm).2
  obtain ⟨hwiden, left, hleft, -⟩ := redistribute_widens w le_rfl
    (fitSizes w (freeRankSet w).length w.policy.readyList).1
  have hmeet := forall_meetable_of_widens hwiden fun entry hm =>
    (hfitted.meetable hs.sizes (fun item hm => (hready item hm).2) entry hm).1
  have hitems := items_of_widens hwiden
  have hheads := (readyList_heads w.policy).of_sublist hfitted.items.sublist
  rw [← hitems] at hheads
  simp only [bestFitTake, wp_bind, wp_get, wp_pure]
  refine wp_of_ok (placePinned_unpinned (fun item hm => (hready item hm).1) _) ?_
  dsimp only
  refine wp_mono (materialize_granted (freeRankSet_free w).1 (freeRankSet_known w) hheads hmeet
    (Nat.le.intro (hleft.trans htotal))) (fun out w' ho => ?_) fun e w' he => ?_
  · obtain ⟨rfl, grants, hsized, hg⟩ := ho
    obtain ⟨hranks, hgrants⟩ := totalRanks_of_sized hsized
    have hpre : grants.map Grant.item <+: w.policy.readyList := by
      rw [hgrants, hitems]
      exact hfitted.items
    have hend : leftFree (freeRankSet w) grants = [] ∨
        grants.map Grant.item = w.policy.readyList := by
      rcases hfitted.spent_or_all with hspent | hall
      · -- the budget is spent on sizes that pass two does not make smaller
        left
        have hlen := length_leftFree hg (freeRankSet_free w).1 hd
        have hmore := totalSize_le hwiden
        refine List.length_eq_zero_iff.mp ?_
        rw [hranks] at hlen
        omega
      · exact .inr (by rw [hgrants, hitems, hall])
    obtain ⟨hlevel, htick⟩ := orderedTick_of_granted hl hg hpre hend
    rw [tasks_of_sized hsized] at htick
    exact ⟨hlevel, htick, grants, hg⟩
  · obtain ⟨hc, part, grants, -, -, hg⟩ := he
    exact (hs.granted hg).stocked.no_collision hc

-- ---------------------------------------------------------------------------
-- Calls
-- ---------------------------------------------------------------------------

/-- A task that can be reported: it can wait, and does not wait yet. -/
structure Reportable (catalog : String → InferenceTask) (w : World Edf) (task : InferenceTask) :
    Prop extends Unplaced catalog w task.requestId task where
  fresh : task ∉ w.policy.readyByRequest.getD task.requestId []

def reported : PolicyCall → List InferenceTask
  | .submitted plan => plan.rootTasks
  | .runnable tasks => tasks
  | .event _ | .acquire _ | .release _ | .status _ _ | .clock _ => []

def EndsWell (catalog : String → InferenceTask) (w : World Edf) : PolicyCall → Prop
  | .event e =>
    (e.kind.endsTask = true → ∃ c ∈ claims w.policy.accounts.log,
      c.task.taskId = e.taskId ∧ c.task.requestId = e.requestId) ∧
    (e.kind.endsRequest = true → inFlight w e.requestId = 0)
  | .status task _ => catalog task.taskId = task
  | .submitted _ | .runnable _ | .acquire _ | .release _ | .clock _ => True

/-- What the order of the ticks rests on. -/
structure Orderly (v : Variant) (catalog : String → InferenceTask) (w : World Edf)
    (call : PolicyCall) : Prop where
  steady : v = .greedy → Steady w.policy.taskRuntimeEstimator
  distinct : (reported call).Nodup
  reportable : ∀ task ∈ reported call, Reportable catalog w task
  ends : EndsWell catalog w call

theorem Level.setStatus (h : Level catalog w) (hk : catalog task.taskId = task)
    (status : TaskStatus) : Level catalog (w.setStatus task status) := by
  have hsame : ∀ other, catalog other.taskId = other →
      (w.setStatus task status).tasks.groupId other = w.tasks.groupId other := fun other ho =>
    TaskHeap.groupId_setStatus _ _ fun hid => by rw [← hk, hid, ho]
  refine { h with queued := fun requestId queue hget => ?_, claimed := fun c hc => ?_ }
  · obtain ⟨hn, hu⟩ := h.queued requestId queue hget
    refine ⟨hn, fun other hm => { hu other hm with group := ?_ }⟩
    rw [hsame other (hu other hm).known]
    exact (hu other hm).group
  · obtain ⟨hk, hg⟩ := h.claimed c hc
    exact ⟨hk, by rwa [hsame c.task hk]⟩

theorem Reportable.setStatus (h : Reportable catalog w other) (hk : catalog task.taskId = task)
    (status : TaskStatus) : Reportable catalog (w.setStatus task status) other := by
  refine { h with group := ?_ }
  rw [World.setStatus, TaskHeap.groupId_setStatus _ _ fun hid => by rw [← hk, hid, h.known]]
  exact h.group

theorem Level.enqueueReady (h : Level catalog w) (hr : Reportable catalog w task) :
    Level catalog { w with policy := w.policy.enqueueReady task } := by
  refine { h with queued := fun requestId queue hget => ?_ }
  simp only [Edf.enqueueReady, Dict.get?_set] at hget
  split at hget
  · rename_i heq
    subst heq
    cases hget
    have hold : (w.policy.readyByRequest.getD task.requestId []).Nodup ∧
        ∀ other ∈ w.policy.readyByRequest.getD task.requestId [],
          Unplaced catalog w task.requestId other := by
      cases hq : w.policy.readyByRequest.get? task.requestId with
      | none => simp [Dict.getD_of_none hq]
      | some before =>
        rw [Dict.getD_of_get? hq]
        exact h.queued _ before hq
    constructor
    · refine List.nodup_append.mpr ⟨hold.1, List.nodup_singleton _, fun a ha b hb heq => ?_⟩
      rw [heq, List.mem_singleton.mp hb] at ha
      exact hr.fresh ha
    · intro other hm
      rcases List.mem_append.mp hm with hm | hm
      · exact { hold.2 other hm with }
      · rw [List.mem_singleton.mp hm]
        exact { hr.toUnplaced with }
  · obtain ⟨hn, hu⟩ := h.queued requestId queue hget
    exact ⟨hn, fun other hm => { hu other hm with }⟩

theorem Reportable.enqueueReady (h : Reportable catalog w other) (hne : other ≠ task) :
    Reportable catalog { w with policy := w.policy.enqueueReady task } other := by
  refine { h with fresh := fun hm => ?_ }
  simp only [Edf.enqueueReady, Dict.getD_set] at hm
  split at hm
  · rename_i heq
    rcases List.mem_append.mp hm with hm | hm
    · exact h.fresh (heq ▸ hm)
    · exact hne (List.mem_singleton.mp hm)
  · exact h.fresh hm

def indexed (w : World Edf) (task : InferenceTask) : World Edf :=
  { w.setStatus task .ready with policy := { w.policy with
      taskIndex := w.policy.taskIndex.set task.taskId task } }

theorem Reportable.indexed (h : Reportable catalog w other) (hk : catalog task.taskId = task) :
    Reportable catalog (Edf.indexed w task) other := { h.setStatus hk .ready with }

theorem forM_enqueueRunnable_level {tasks : List InferenceTask} (h : Level catalog w)
    (hn : tasks.Nodup)
    (hr : ∀ task ∈ tasks, Reportable catalog w task) :
    wp (tasks.forM enqueueRunnable) (fun _ => Level catalog) (fun _ _ => False) w := by
  induction tasks generalizing w with
  | nil => exact h
  | cons task tasks ih =>
    obtain ⟨hhead, htail⟩ := List.nodup_cons.mp hn
    obtain ⟨hr, hrs⟩ := List.forall_mem_cons.mp hr
    have hk := hr.known
    have hnone : (w.setStatus task .ready).tasks.groupId task = none :=
      (hr.setStatus hk .ready).group
    show wp (enqueueRunnable task >>= fun _ => tasks.forM enqueueRunnable) _ _ w
    simp only [enqueueRunnable, modifyPolicy, wp_bind, wp_get, wp_modify, hnone]
    have hindexed : Level catalog (indexed w task) := (h.setStatus hk .ready).congr rfl rfl rfl rfl
    refine ih (hindexed.enqueueReady (hr.indexed hk)) htail fun other hm => ?_
    have hne : other ≠ task := fun heq => hhead (heq ▸ hm)
    exact ((hrs other hm).indexed hk).enqueueReady hne

theorem Level.released (h : Level catalog w) {e : WorkerEvent} (hc : c ∈ claims w.policy.accounts.log)
    (hid : c.task.taskId = e.taskId) (hr : c.task.requestId = e.requestId) :
    Level catalog { w with policy := w.policy.releaseDispatchedTask e } := by
  have hlog : claims (w.policy.releaseDispatchedTask e).accounts.log =
      (claims w.policy.accounts.log).filter fun d => d.task.taskId ≠ c.task.taskId := by
    simp only [Edf.releaseDispatchedTask, RankAccounts.releaseDispatchedTask_log, claims, hid]
  have hcount : ∀ requestId, inFlight { w with policy := w.policy.releaseDispatchedTask e }
      requestId + (if c.task.requestId = requestId then 1 else 0) = inFlight w requestId := by
    intro requestId
    rw [inFlight, hlog, inFlight]
    simpa using List.countP_filter_ne_key h.ids hc fun d => d.task.requestId = requestId
  refine ⟨fun requestId queue hget => ?_, fun d hd => ?_, ?_, fun requestId => ?_,
    fun requestId => ?_⟩
  · obtain ⟨hn, hu⟩ := h.queued requestId queue hget
    exact ⟨hn, fun task hm => { hu task hm with }⟩
  · rw [hlog] at hd
    exact h.claimed d (List.mem_of_mem_filter hd)
  · rw [hlog]
    exact h.ids.sublist (List.filter_sublist.map _)
  · have hone := hcount requestId
    simp only [Edf.releaseDispatchedTask, Counter.count_drop, h.counted, ← hr]
    simp only [Edf.releaseDispatchedTask, ← hr] at hone
    omega
  · have hone := hcount requestId
    have := h.once requestId
    omega

theorem Level.dropped (h : Level catalog w) (h0 : inFlight w requestId = 0) :
    Level catalog { w with policy := w.policy.dropRequest requestId } := by
  refine { h with queued := fun other queue hget => ?_, counted := fun other => ?_ }
  · simp only [Edf.dropRequest, Dict.get?_erase] at hget
    split at hget
    · cases hget
    · obtain ⟨hn, hu⟩ := h.queued other queue hget
      exact ⟨hn, fun task hm => { hu task hm with }⟩
  · show Counter.count (w.policy.requestInflight.erase requestId) other = inFlight w other
    rw [Counter.count, Dict.getD_erase]
    split
    · rename_i heq
      rw [← heq, h0]
    · exact h.counted other

theorem not_endsRequest {kind : WorkerEventKind} (h : kind.endsTask = true) :
    kind.endsRequest = false := by
  revert h
  cases kind <;> decide

theorem Level.noteEvent (h : Level catalog w) {e : WorkerEvent} (he : EndsWell catalog w (.event e)) :
    Level catalog { w with policy := w.policy.noteEvent e } := by
  have hnow : Level catalog { w with policy := { w.policy with
      nowMs := max w.policy.nowMs (e.timestampNs / 1000000) } } := h.congr rfl rfl rfl rfl
  unfold Edf.noteEvent
  simp only
  by_cases htask : e.kind.endsTask = true
  · obtain ⟨c, hc, hid, hr⟩ := he.1 htask
    rw [if_pos htask, if_neg (by simp [not_endsRequest htask])]
    exact hnow.released hc hid hr
  · rw [if_neg htask]
    split
    · rename_i hreq
      exact hnow.dropped (he.2 hreq)
    · exact hnow

theorem Variant.note_level (v : Variant) (h : Level catalog w) (ho : Orderly v catalog w call) :
    wp (v.note call) (fun _ => Level catalog) (fun _ => Level catalog) w := by
  cases call with
  | submitted plan =>
    have haside : ∀ w₁ : World Edf, w₁.tasks = w.tasks →
        w₁.policy.readyByRequest = w.policy.readyByRequest →
        w₁.policy.accounts = w.policy.accounts →
        w₁.policy.requestInflight = w.policy.requestInflight →
        Level catalog w₁ ∧ ∀ task ∈ plan.rootTasks, Reportable catalog w₁ task := by
      intro w₁ ht hq ha hi
      refine ⟨h.congr ht hq (by rw [ha]) hi, fun task hm => ?_⟩
      have hr := ho.reportable task hm
      exact { hr with group := ht ▸ hr.group, fresh := hq ▸ hr.fresh }
    have htasks : wp (v.noteTasks plan) (fun _ w₁ => w₁.tasks = w.tasks ∧
        w₁.policy.readyByRequest = w.policy.readyByRequest ∧
        w₁.policy.accounts = w.policy.accounts ∧
        w₁.policy.requestInflight = w.policy.requestInflight) (fun _ _ => False) w := by
      cases v <;> exact ⟨rfl, rfl, rfl, rfl⟩
    simp only [note, wp_bind]
    refine wp_mono htasks (fun _ w₁ hsame => ?_) fun _ _ he => he.elim
    obtain ⟨ht, hq, ha, hi⟩ := hsame
    simp only [modifyPolicy, wp_modify, wp_get]
    refine wp_mono (v.metaOf_clocked _) (fun info w₂ hclock => ?_) fun _ w₂ he => ?_
    · have hsame : w₂.tasks = w.tasks ∧ w₂.policy.readyByRequest = w.policy.readyByRequest ∧
          w₂.policy.accounts = w.policy.accounts ∧
          w₂.policy.requestInflight = w.policy.requestInflight := by
        obtain ⟨now, rfl⟩ := hclock
        exact ⟨ht, hq, ha, hi⟩
      obtain ⟨ht, hq, ha, hi⟩ := hsame
      obtain ⟨hl, hr⟩ := haside (recorded w₂ plan info) ht hq ha hi
      exact wp_mono (forM_enqueueRunnable_level hl ho.distinct hr) (fun _ _ hl => hl)
        fun _ _ he => he.elim
    · obtain ⟨⟨now, rfl⟩, -⟩ := he
      exact h.congr ht hq (congrArg (claims ·.log) ha) hi
  | runnable tasks =>
    exact wp_mono (forM_enqueueRunnable_level h ho.distinct ho.reportable) (fun _ _ hl => hl)
      fun _ _ he => he.elim
  | event e => exact h.noteEvent ho.ends
  | acquire ranks => exact h.congr rfl rfl rfl rfl
  | release ranks => exact h.congr rfl rfl rfl rfl
  | status task s => exact h.setStatus ho.ends s
  | clock clockNs => exact h.congr rfl rfl rfl rfl

-- ---------------------------------------------------------------------------
-- Runs
-- ---------------------------------------------------------------------------

/-- What every state of an orderly run keeps. -/
structure Ordered (catalog : String → InferenceTask) (w : World Edf) : Prop extends
    Level catalog w, Supplies w where
  distinct : ∀ group ∈ w.topology.groups, group.ranks.Nodup

theorem Ordered.tick (h : Ordered catalog w) (v : Variant)
    (hest : v = .greedy → Steady w.policy.taskRuntimeEstimator) :
    wp v.take (fun out w' => Ordered catalog w' ∧ OrderedTick w out w') (fun _ _ => False) w := by
  have htick : wp v.take (fun out w' => Level catalog w' ∧ OrderedTick w out w' ∧
      ∃ grants, Granted (freeRankSet w) w grants w') (fun _ _ => False) w := by
    cases v with
    | greedy => exact greedy_orderedTick h.toLevel h.toSupplies (hest rfl)
    | bestFit => exact bestFit_orderedTick h.toLevel h.toSupplies h.distinct
  refine wp_mono htick (fun out w' ho => ?_) fun _ _ he => he
  obtain ⟨hl, horder, grants, hg⟩ := ho
  exact ⟨⟨hl, h.toSupplies.granted hg, (hg.distinct h.distinct).2⟩, horder⟩

def TicksInOrder (v : Variant) (w : World Edf) (call : PolicyCall) : Prop :=
  wp (v.answer call) (fun out w' => Variant.ticking call = true →
      OrderedTick (after (v.note call) w) out w')
    (fun e w' => v.note call w = .error e w') w

theorem Ordered.noted (h : Ordered catalog w) (v : Variant) (ho : Orderly v catalog w call) :
    wp (v.note call) (fun _ w₁ => Ordered catalog w₁ ∧
        w₁.policy.taskRuntimeEstimator = w.policy.taskRuntimeEstimator ∧
        v.note call w = .ok () w₁)
      (fun e w₁ => Ordered catalog w₁ ∧ v.note call w = .error e w₁) w := by
  have hl := v.note_level h.toLevel ho
  have hk := v.note_kept call w
  unfold wp at hl hk ⊢
  cases hx : v.note call w with
  | ok a w₁ =>
    rw [hx] at hl hk
    exact ⟨⟨hl, h.toSupplies.kept hk, hk.topology ▸ h.distinct⟩, hk.estimator, rfl⟩
  | error e w₁ =>
    rw [hx] at hl hk
    exact ⟨⟨hl, h.toSupplies.kept hk.1, hk.1.topology ▸ h.distinct⟩, rfl⟩

theorem Ordered.answer (h : Ordered catalog w) (v : Variant) (ho : Orderly v catalog w call) :
    wp (v.answer call) (fun out w' => Ordered catalog w' ∧ (Variant.ticking call = true →
        OrderedTick (after (v.note call) w) out w'))
      (fun e w' => Ordered catalog w' ∧ v.note call w = .error e w') w := by
  rw [v.answer_eq, wp_bind]
  refine wp_mono (h.noted v ho) (fun _ w₁ hn => ?_) fun _ _ he => he
  obtain ⟨h₁, hest, heq⟩ := hn
  have hafter : after (v.note call) w = w₁ := by rw [after, heq]
  rw [wp_ite]
  split
  · refine wp_mono (h₁.tick v fun hv => hest ▸ ho.steady hv) (fun out w' ht => ?_)
      fun _ _ he => he.elim
    exact ⟨ht.1, fun _ => hafter ▸ ht.2⟩
  · rename_i hno
    exact ⟨h₁, fun hyes => absurd hyes hno⟩

theorem Run.ordered (hst : Stocked topology) (hd : ∀ group ∈ topology.groups, group.ranks.Nodup)
    (h : Run v (Orderly v catalog) topology w) : Ordered catalog w := by
  induction h with
  | start hn => exact ⟨.init, ⟨hst, normalizeAllowedSpSizes_ok hn⟩, hd⟩
  | @call w call _ ho ih =>
    refine after_of_wp ((v.wp_run ..).mpr ?_)
    exact wp_mono (ih.answer v ho) (fun _ _ hs => hs.1) fun _ _ he => he.1

/-- In every orderly run over a stocked topology whose groups have distinct
ranks, no request has two tasks in flight and every tick serves the requests
that wait in order and leaves no rank idle while one waits. -/
theorem ticks_in_order (v : Variant) (catalog : String → InferenceTask) (topology : RuntimeTopology)
    (hst : Stocked topology) (hd : ∀ group ∈ topology.groups, group.ranks.Nodup)
    (w : World Edf) (h : Run v (Orderly v catalog) topology w) :
    (∀ requestId, inFlight w requestId ≤ 1) ∧
      ∀ call, Orderly v catalog w call → TicksInOrder v w call := by
  have hw := h.ordered hst hd
  refine ⟨hw.once, fun call ho => ?_⟩
  exact wp_mono (hw.answer v ho) (fun _ _ hs => hs.2) fun _ _ he => he.2

def turnsCatalog (taskId : String) : InferenceTask :=
  if taskId = "b-text" then demandText "b" else demandText "c"

def turnsCall (requestId : String) : PolicyCall :=
  .submitted (demandPlan requestId [demandText requestId])

theorem turnsCall_orderly (hest : w.policy.taskRuntimeEstimator = none)
    (hr : (turnsCall requestId |> reported) = [demandText requestId])
    (hk : turnsCatalog (demandText requestId).taskId = demandText requestId)
    (hg : w.tasks.groupId (demandText requestId) = none)
    (hf : demandText requestId ∉ w.policy.readyByRequest.getD requestId []) :
    Orderly v turnsCatalog w (turnsCall requestId) where
  steady := fun _ => by simp [Steady, hest]
  distinct := hr ▸ List.nodup_singleton _
  reportable := by
    rw [hr]
    intro task hm
    rw [List.mem_singleton.mp hm]
    exact ⟨⟨hk, rfl, List.mem_cons_self .., hg⟩, hf⟩
  ends := trivial

/-- b came and has rank 0; c comes and gets rank 1. -/
theorem ticks_in_order_pair :
    (runCalls .greedy [turnsCall "b", turnsCall "c"]
      (demandStart pairTopology)).policy.accounts.dispatchedRanksByTask.get? "c-text" = some [1] ∧
    TicksInOrder .greedy (runCalls .greedy [turnsCall "b"] (demandStart pairTopology))
      (turnsCall "c") := by
  refine ⟨by decide +kernel, ?_⟩
  have hb : Orderly .greedy turnsCatalog (demandStart pairTopology) (turnsCall "b") :=
    turnsCall_orderly rfl (by decide +kernel) rfl rfl (by decide)
  refine (ticks_in_order .greedy turnsCatalog pairTopology pairTopology_stocked (by decide) _
    (.call (demandStart_run .greedy pairTopology rfl) hb)).2 (turnsCall "c") ?_
  exact turnsCall_orderly (by decide +kernel) (by decide +kernel) rfl (by decide +kernel)
    (by decide +kernel)

def Unpinned : PolicyCall → Prop
  | .submitted plan => ∀ task ∈ plan.tasks.values, task.groupId = none
  | .runnable tasks => ∀ task ∈ tasks, task.groupId = none
  | .event _ | .acquire _ | .release _ | .status _ _ | .clock _ => True

instance : DecidablePred Unpinned
  | .submitted plan => inferInstanceAs (Decidable (∀ task ∈ plan.tasks.values, task.groupId = none))
  | .runnable tasks => inferInstanceAs (Decidable (∀ task ∈ tasks, task.groupId = none))
  | .event _ | .acquire _ | .release _ | .status _ _ | .clock _ => inferInstanceAs (Decidable True)

/-- The tick that finds the name of its group taken raises, with rank 1 free and
c waiting. -/
theorem tick_stops_early :
    ¬ ∀ (v : Variant) (topology : RuntimeTopology) (w : World Edf),
      Run v (fun _ call => Unpinned call) topology w → ∀ call, Unpinned call →
        TicksInOrder v w call := by
  intro h
  have hticks := h .greedy sequenceTopology
    (runCalls .greedy (demandCallsIn "g0") (demandStart sequenceTopology))
    ((demandStart_run .greedy sequenceTopology rfl).calls (demandCallsIn "g0")
      fun call hm _ => ?_) demandNext (by decide +kernel)
  · have hnote : raised (Variant.greedy.note demandNext)
        (runCalls .greedy (demandCallsIn "g0") (demandStart sequenceTopology)) = none := by
      decide +kernel
    have hraised : raised (demandNext.run Variant.greedy.policy)
        (runCalls .greedy (demandCallsIn "g0") (demandStart sequenceTopology)) =
          some (differentSpec "edf_sp1_r1") := by decide +kernel
    refine not_wp_of_raised hraised ((Variant.wp_run ..).mpr ?_)
    refine wp_mono hticks (fun _ _ _ => trivial) fun e w' he => ?_
    simp [raised, he] at hnote
  · revert call
    decide +kernel

end Edf

end GfDit
