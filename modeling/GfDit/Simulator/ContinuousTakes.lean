import GfDit.Simulator.ContinuousTarget

/-!
# What the continuous policy gives out

On a topology with a one-rank group for every worker, and no group that has a
name made on demand without serving its ranks, taking tasks always succeeds:
what is given out are heads of different queues on ranks that were free, each
rank once, and every group is known from then on.
-/

namespace GfDit

namespace Continuous

open Edf (Serves withoutRanks)

variable {settings : Settings} {state state' : State} {free : List Rank}

-- ---------------------------------------------------------------------------
-- Topologies on which groups are always to be had
-- ---------------------------------------------------------------------------

/-- Every worker has a one-rank group for all kinds of tasks, and a name made
on demand is not taken unless its ranks are served. -/
structure Equipped (topology : RuntimeTopology) : Prop where
  single : ∀ rank ∈ topology.workers,
    ∃ group ∈ topology.groups, Serves [rank] standardTaskKinds group
  named : OnDemand.Named "edf" topology

inductive Asked : List Rank → List TaskKind → Prop
  | single (rank : Rank) : Asked [rank] standardTaskKinds
  | dit (ranks : List Rank) : Asked ranks ditTaskKinds

structure Grown (topology topology' : RuntimeTopology) : Prop where
  workers : topology'.workers = topology.workers
  groups : ∀ group ∈ topology.groups, group ∈ topology'.groups

theorem Grown.refl (topology : RuntimeTopology) : Grown topology topology := ⟨rfl, fun _ h => h⟩

theorem Grown.trans {a b c : RuntimeTopology} (h : Grown a b) (h' : Grown b c) : Grown a c :=
  ⟨h'.workers.trans h.workers, fun group hm => h'.groups group (h.groups group hm)⟩

theorem Grown.find {topology topology' : RuntimeTopology} (h : Grown topology topology')
    {groupId : String} {group : ExecutionGroupSpec} (hfind : topology.find groupId = some group) :
    topology'.find groupId = some group := by
  obtain ⟨hmem, hid⟩ := RuntimeTopology.find_eq_some.mp hfind
  exact RuntimeTopology.find_eq_some.mpr ⟨h.groups group hmem, hid⟩

theorem Equipped.ensure {topology : RuntimeTopology} (h : Equipped topology) {ranks : List Rank}
    {kinds : List TaskKind} (hasked : Asked ranks kinds) (hr : ranks ≠ [])
    (hw : ∀ rank ∈ ranks, rank ∈ topology.workers) :
    ∃ group topology', OnDemand.ensureGroupForRanks "edf" topology ranks kinds =
        .ok (group, topology') ∧ group.ranks = ranks ∧
      topology'.find group.groupId = some group ∧ Grown topology topology' ∧
      Equipped topology' := by
  have hmore : ∀ kind ∈ ditTaskKinds, kind ∈ kinds := by
    cases hasked with
    | single => exact fun kind hmem => List.mem_append_right _ hmem
    | dit => exact fun kind hmem => hmem
  have hok : ∃ group topology', OnDemand.ensureGroupForRanks "edf" topology ranks kinds =
      .ok (group, topology') := by
    cases hasked with
    | single rank =>
      obtain ⟨group, hmem, hserves⟩ := h.single rank (hw rank (List.mem_singleton_self rank))
      cases hfind : Edf.findExistingGroup topology [rank] standardTaskKinds with
      | none => exact absurd hserves (Edf.not_serves_of_none hfind hmem)
      | some found => exact ⟨found, topology, by rw [OnDemand.ensureGroupForRanks, hfind]; rfl⟩
    | dit =>
      obtain ⟨group, topology', hok, -⟩ := h.named.ensure hr hw
      exact ⟨group, topology', hok⟩
  obtain ⟨group, topology', hok⟩ := hok
  have hsupplied := OnDemand.ensureGroupForRanks_ok hr hok
  refine ⟨group, topology', hok, hsupplied.serves.exact, hsupplied.found,
    ⟨hsupplied.workers, hsupplied.grows⟩, ⟨fun rank hmem => ?_, h.named.supplied hr hmore hsupplied⟩⟩
  obtain ⟨other, hother, hserves⟩ := h.single rank (hsupplied.workers ▸ hmem)
  exact ⟨other, hsupplied.grows other hother, hserves⟩

-- ---------------------------------------------------------------------------
-- What is given out
-- ---------------------------------------------------------------------------

def givenOut (state : State) (placed : List Assignment) (topology : RuntimeTopology) : State :=
  { placed.foldl dispatch state with topology }

theorem foldl_dispatch (placed : List Assignment) (state : State) :
    placed.foldl dispatch state =
      { state with
        queues := placed.foldl RequestQueues.dispatch state.queues
        inflightTask := placed.foldl (fun tasks p => tasks.set p.requestId p.task)
          state.inflightTask } := by
  induction placed generalizing state with
  | nil => rfl
  | cons p placed ih =>
    rw [List.foldl_cons, ih]
    rfl

theorem foldl_dispatch_withTopology (placed : List Assignment) (state : State)
    (topology : RuntimeTopology) :
    placed.foldl dispatch { state with topology } =
      { placed.foldl dispatch state with topology } := by
  rw [foldl_dispatch, foldl_dispatch]

/-- Tasks given to ranks that were free, each rank once, in known groups;
`left` is still free. -/
structure Handed (state : State) (free : List Rank) (placed : List Assignment) (state' : State)
    (left : List Rank) : Prop where
  state_eq : state' = givenOut state placed state'.topology
  grown : Grown state.topology state'.topology
  equipped : Equipped state'.topology
  grouped : ∀ p ∈ placed, ∃ group, state'.topology.find p.groupId = some group ∧
    group.ranks = p.ranks
  drawn : (placed.flatMap (·.ranks) ++ left).Perm free

theorem Handed.nil (h : Equipped state.topology) : Handed state free [] state free :=
  ⟨rfl, .refl _, h, fun _ hmem => absurd hmem List.not_mem_nil, .refl _⟩

theorem Handed.cons {p : Assignment} {placed : List Assignment} {state₁ : State}
    {free₁ left : List Rank} (h : Handed state free [p] state₁ free₁)
    (h' : Handed state₁ free₁ placed state' left) : Handed state free (p :: placed) state' left := by
  refine ⟨?_, h.grown.trans h'.grown, h'.equipped, fun q hmem => ?_, ?_⟩
  · rw [h'.state_eq, h.state_eq]
    simp only [givenOut, List.foldl_cons, List.foldl_nil, foldl_dispatch_withTopology]
  · rcases List.mem_cons.mp hmem with rfl | hmem
    · obtain ⟨group, hfind, hranks⟩ := h.grouped q (List.mem_singleton_self q)
      exact ⟨group, h'.grown.find hfind, hranks⟩
    · exact h'.grouped q hmem
  · have hdrawn := (h'.drawn.append_left p.ranks).trans (by simpa using h.drawn)
    simpa [List.flatMap_cons, List.append_assoc] using hdrawn

theorem Handed.append {placed more : List Assignment} {state₁ : State} {free₁ left : List Rank}
    (h : Handed state free placed state₁ free₁) (h' : Handed state₁ free₁ more state' left) :
    Handed state free (placed ++ more) state' left := by
  refine ⟨?_, h.grown.trans h'.grown, h'.equipped, fun q hmem => ?_, ?_⟩
  · rw [h'.state_eq, h.state_eq]
    simp only [givenOut, List.foldl_append, foldl_dispatch_withTopology]
  · rcases List.mem_append.mp hmem with hmem | hmem
    · obtain ⟨group, hfind, hranks⟩ := h.grouped q hmem
      exact ⟨group, h'.grown.find hfind, hranks⟩
    · exact h'.grouped q hmem
  · have hdrawn := (h'.drawn.append_left (placed.flatMap (·.ranks))).trans h.drawn
    simpa [List.flatMap_append, List.append_assoc] using hdrawn

theorem perm_withoutRanks {ranks : List Rank} (hfree : free.Nodup) (hranks : ranks.Nodup)
    (hsub : ∀ rank ∈ ranks, rank ∈ free) : (ranks ++ withoutRanks free ranks).Perm free := by
  refine (List.perm_ext_iff_of_nodup ?_ hfree).mpr fun rank => ?_
  · refine hranks.append (hfree.sublist List.filter_sublist) fun rank hmem hleft => ?_
    simpa [hmem] using List.of_mem_filter hleft
  · rw [withoutRanks, List.mem_append, List.mem_filter, decide_eq_true_eq]
    constructor
    · rintro (hmem | ⟨hmem, -⟩)
      · exact hsub rank hmem
      · exact hmem
    · intro hmem
      by_cases hin : rank ∈ ranks
      · exact .inl hin
      · exact .inr ⟨hmem, hin⟩

/-- The ranks that can be given out: each once, all of them workers. -/
structure Drawable (state : State) (free : List Rank) : Prop where
  nodup : free.Nodup
  workers : ∀ rank ∈ free, rank ∈ state.topology.workers

theorem Handed.drawable {placed : List Assignment} {left : List Rank}
    (h : Handed state free placed state' left) (hfree : Drawable state free) :
    Drawable state' left := by
  have hnodup := h.drawn.nodup_iff.mpr hfree.nodup
  refine ⟨(List.nodup_append.mp hnodup).2.1, fun rank hmem => ?_⟩
  rw [h.grown.workers]
  exact hfree.workers rank (h.drawn.mem_iff.mp (List.mem_append_right _ hmem))

theorem ensureGroup_handed (h : Equipped state.topology) (hfree : Drawable state free)
    {ranks : List Rank} {kinds : List TaskKind} (hasked : Asked ranks kinds) (hne : ranks ≠ [])
    (hnodup : ranks.Nodup) (hsub : ∀ rank ∈ ranks, rank ∈ free) (task : InferenceTask)
    (requestId : String) :
    ∃ groupId state₁, ensureGroup state ranks kinds = .ok (groupId, state₁) ∧
      Handed state free [⟨task, requestId, groupId, ranks⟩]
        (dispatch state₁ ⟨task, requestId, groupId, ranks⟩) (withoutRanks free ranks) := by
  obtain ⟨group, topology', hok, hranks, hfound, hgrown, hequipped⟩ :=
    h.ensure hasked hne fun rank hmem => hfree.workers rank (hsub rank hmem)
  refine ⟨group.groupId, { state with topology := topology' }, ?_, ?_⟩
  · rw [ensureGroup, hok]
    rfl
  · refine ⟨rfl, hgrown, hequipped, fun p hmem => ?_, ?_⟩
    · rw [List.mem_singleton.mp hmem]
      exact ⟨group, hfound, hranks⟩
    · simpa using perm_withoutRanks hfree.nodup hnodup hsub

-- ---------------------------------------------------------------------------
-- Picking ranks
-- ---------------------------------------------------------------------------

theorem lowest_spec (hfree : free.Nodup) (sp : Nat) :
    ((free.insertionSort (· ≤ ·)).take sp).Nodup ∧
      (∀ rank ∈ (free.insertionSort (· ≤ ·)).take sp, rank ∈ free) ∧
      ((free.insertionSort (· ≤ ·)).take sp).length = min sp free.length := by
  have hperm := List.perm_insertionSort (· ≤ ·) free
  refine ⟨(hperm.nodup_iff.mpr hfree).sublist (List.take_sublist ..), fun rank hmem => ?_, ?_⟩
  · exact hperm.mem_iff.mp (List.mem_of_mem_take hmem)
  · rw [List.length_take, hperm.length_eq]

def LastDistinct (state : State) : Prop :=
  ∀ requestId groupId, state.queues.requestLastGroup.get? requestId = some groupId →
    ∃ group, state.topology.find groupId = some group ∧ group.ranks.Nodup

theorem pickRanks_spec (hlast : LastDistinct state) (hfree : free.Nodup) (requestId : String)
    (sp : Nat) :
    (pickRanksForRequest state requestId sp free).Nodup ∧
      (∀ rank ∈ pickRanksForRequest state requestId sp free, rank ∈ free) ∧
      (sp ≤ free.length → (pickRanksForRequest state requestId sp free).length = sp) := by
  obtain ⟨hnodup, hsub, hlength⟩ := lowest_spec hfree sp
  have hlowest : sp ≤ free.length → ((free.insertionSort (· ≤ ·)).take sp).length = sp :=
    fun hle => hlength.trans (Nat.min_eq_left hle)
  simp only [pickRanksForRequest]
  split
  · exact ⟨hnodup, hsub, hlowest⟩
  · next group hgroup =>
    obtain ⟨groupId, hget, hfind⟩ := Option.bind_eq_some_iff.mp hgroup
    split
    · next hfits =>
      obtain ⟨known, hknown, hdistinct⟩ := hlast requestId groupId hget
      cases hknown.symm.trans hfind
      exact ⟨hdistinct, hfits.2, fun _ => hfits.1⟩
    · exact ⟨hnodup, hsub, hlowest⟩

theorem requestLastGroup_dispatched (placed : List Assignment) (queues : RequestQueues) :
    (placed.foldl RequestQueues.dispatch queues).requestLastGroup = queues.requestLastGroup := by
  induction placed generalizing queues with
  | nil => rfl
  | cons p placed ih =>
    rw [List.foldl_cons, ih]
    unfold RequestQueues.dispatch
    split
    · rfl
    · split <;> rfl

theorem Handed.lastDistinct {placed : List Assignment} {left : List Rank}
    (h : Handed state free placed state' left) (hlast : LastDistinct state) :
    LastDistinct state' := by
  intro requestId groupId hget
  rw [h.state_eq, givenOut, foldl_dispatch] at hget
  obtain ⟨group, hfind, hnodup⟩ := hlast requestId groupId
    ((congrArg (·.get? requestId) (requestLastGroup_dispatched placed state.queues)).symm.trans hget)
  exact ⟨group, h.grown.find hfind, hnodup⟩

-- ---------------------------------------------------------------------------
-- Auxiliary tasks
-- ---------------------------------------------------------------------------

def itemOf (placed : Assignment) : String × InferenceTask := (placed.requestId, placed.task)

theorem takeAux_ok (h : Equipped state.topology) (hfree : Drawable state free)
    (ready : List (String × InferenceTask)) :
    ∃ out state' left, takeAux state free ready = .ok (out, state', left) ∧
      Handed state free out state' left ∧ (out.map itemOf).Sublist ready ∧
      (free ≠ [] → ready ≠ [] → out ≠ []) := by
  induction ready generalizing state free with
  | nil => exact ⟨[], state, free, rfl, .nil h, .refl _, fun _ hne => absurd rfl hne⟩
  | cons entry rest ih =>
    obtain ⟨requestId, task⟩ := entry
    unfold takeAux
    split
    · next hnone =>
      exact ⟨[], state, free, rfl, .nil h, List.nil_sublist _,
        fun hne => absurd (List.min?_eq_none_iff.mp hnone) hne⟩
    · next rank hrank =>
      have hsub : ∀ r ∈ [rank], r ∈ free := by
        intro r hmem
        rw [List.mem_singleton.mp hmem]
        exact List.min?_mem hrank
      obtain ⟨groupId, state₁, hensure, hhanded⟩ := ensureGroup_handed h hfree (.single rank)
        (List.cons_ne_nil rank []) (List.nodup_singleton rank) hsub task requestId
      obtain ⟨out, state', left, hok, hrest, hitems, -⟩ :=
        ih hhanded.equipped (hhanded.drawable hfree)
      refine ⟨⟨task, requestId, groupId, [rank]⟩ :: out, state', left, ?_, hhanded.cons hrest,
        hitems.cons_cons _, fun _ _ => List.cons_ne_nil _ _⟩
      simp only [hensure, Except.ok_bind, hok]
      rfl

-- ---------------------------------------------------------------------------
-- DiT tasks
-- ---------------------------------------------------------------------------

theorem takeDit_ok (target : Dict String Nat) (h : Equipped state.topology)
    (hlast : LastDistinct state) (hfree : Drawable state free) (held : List Rank)
    (ready : List (String × InferenceTask)) :
    ∃ out state' left, takeDit target state free held ready = .ok (out, state') ∧
      Handed state free out state' left ∧ (out.map itemOf).Sublist ready ∧
      (held = [] → (∀ entry ∈ ready, target.getD entry.1 0 ≤ free.length) →
        (∃ entry ∈ ready, 0 < target.getD entry.1 0) → out ≠ []) := by
  induction ready generalizing state free held with
  | nil => exact ⟨[], state, free, rfl, .nil h, .refl _, fun _ _ hsome => by simp at hsome⟩
  | cons entry rest ih =>
    obtain ⟨requestId, task⟩ := entry
    unfold takeDit
    dsimp only
    split
    · next hzero =>
      obtain ⟨out, state', left, hok, hhanded, hitems, hsome⟩ := ih h hlast hfree held
      refine ⟨out, state', left, hok, hhanded, hitems.cons _, fun hheld hfits hpos => ?_⟩
      refine hsome hheld (fun entry hmem => hfits entry (List.mem_cons_of_mem _ hmem)) ?_
      obtain ⟨entry, hmem, hpos⟩ := hpos
      rcases List.mem_cons.mp hmem with rfl | hmem
      · exact absurd hzero hpos.ne'
      · exact ⟨entry, hmem, hpos⟩
    · next hpos =>
      split
      · next hfits =>
        obtain ⟨hlength, havail⟩ := hfits
        have havailable : (withoutRanks free held).Nodup := hfree.nodup.sublist List.filter_sublist
        have hnodup := (pickRanks_spec hlast havailable requestId (target.getD requestId 0)).1
        have hne : (pickRanksForRequest state requestId (target.getD requestId 0)
            (withoutRanks free held)).take (target.getD requestId 0) ≠ [] := by
          refine List.ne_nil_of_length_pos ?_
          rw [List.length_take, Nat.min_eq_left hlength]
          exact Nat.pos_of_ne_zero hpos
        obtain ⟨groupId, state₁, hensure, hhanded⟩ := ensureGroup_handed h hfree (.dit _) hne
          (hnodup.sublist (List.take_sublist ..))
          (fun rank hmem => List.mem_of_mem_filter (havail rank (List.mem_of_mem_take hmem)))
          task requestId
        obtain ⟨out, state', left, hok, hrest, hitems, -⟩ :=
          ih hhanded.equipped (hhanded.lastDistinct hlast) (hhanded.drawable hfree) held
        refine ⟨_ :: out, state', left, ?_, hhanded.cons hrest, hitems.cons_cons _,
          fun _ _ _ => List.cons_ne_nil _ _⟩
        simp only [hensure, Except.ok_bind, hok]
        rfl
      · next hheld =>
        obtain ⟨out, state', left, hok, hhanded, hitems, -⟩ := ih h hlast hfree
          (held ++ ((withoutRanks free held).insertionSort (· ≤ ·)).take (target.getD requestId 0))
        refine ⟨out, state', left, hok, hhanded, hitems.cons _, fun hnone hfits _ => ?_⟩
        subst hnone
        have havail : withoutRanks free [] = free := by simp [withoutRanks]
        obtain ⟨-, hsub, hlength⟩ := pickRanks_spec hlast hfree.nodup requestId
          (target.getD requestId 0)
        rw [havail] at hheld
        exact absurd ⟨(hlength (hfits _ (List.mem_cons_self ..))).ge, hsub⟩ hheld

-- ---------------------------------------------------------------------------
-- The best-fit passes
-- ---------------------------------------------------------------------------

def totalSize (entries : List FitEntry) : Nat := (entries.map fun entry => entry.2.2).sum

def fitItem (entry : FitEntry) : String × InferenceTask := (entry.1, entry.2.1)

/-- Every entry has a size, and a single-rank task has one rank. -/
def Sized (entries : List FitEntry) : Prop :=
  ∀ entry ∈ entries, 0 < entry.2.2 ∧ (entry.2.1.kind ∈ singleRankTaskKinds → entry.2.2 = 1)

theorem bestFitSp_sized {requestId : String} {task : InferenceTask} {budget sp : Nat}
    (h : bestFitSp settings state requestId task budget = some sp) :
    0 < sp ∧ sp ≤ budget ∧ (task.kind ∈ singleRankTaskKinds → sp = 1) := by
  have hone := settings.sizes.one
  simp only [bestFitSp, hone, if_true] at h
  split at h
  · cases h
  · split at h
    · split at h
      · cases h
        exact ⟨Nat.one_pos, by assumption, fun _ => rfl⟩
      · cases h
    · next hdit =>
      split at h
      · cases h
      · have hmem : sp ∈ (settings.allowedSpSizes.filter (· ≤ budget)).insertionSort (· ≤ ·) := by
          split at h
          · split at h
            · next hfind =>
              cases h
              exact List.mem_of_find?_eq_some hfind
            · exact List.argmin_mem h
          · exact List.mem_of_getLast? h
        obtain ⟨hallowed, hle⟩ := Edf.mem_candidates.mp hmem
        exact ⟨settings.sizes.pos sp hallowed, hle, fun hsingle => absurd hsingle hdit⟩

theorem bestFitSp_isSome (settings : Settings) (state : State) (requestId : String)
    {task : InferenceTask} {budget : Nat} (hbudget : 0 < budget) (hkind : task.kind ∈ standardTaskKinds) :
    ∃ sp, bestFitSp settings state requestId task budget = some sp := by
  have hone := settings.sizes.one
  have hcand : 1 ∈ (settings.allowedSpSizes.filter (· ≤ budget)).insertionSort (· ≤ ·) :=
    Edf.mem_candidates.mpr ⟨hone, hbudget⟩
  simp only [bestFitSp, hone, if_true, hbudget.ne', if_false]
  split
  · exact ⟨1, if_pos hbudget⟩
  · next hsingle =>
    have hdit := (List.mem_append.mp hkind).resolve_left hsingle
    simp only [hdit, not_true_eq_false, if_false]
    split
    · split
      · next sp _ => exact ⟨sp, rfl⟩
      · refine Option.ne_none_iff_exists'.mp fun hnone => ?_
        rw [List.argmin_eq_none.mp hnone] at hcand
        cases hcand
    · exact ⟨_, List.getLast?_eq_some_getLast (List.ne_nil_of_mem hcand)⟩

theorem fitSizes_spec (state : State) (budget : Nat) (ready : List (String × InferenceTask)) :
    ((fitSizes settings state budget ready).1.map fitItem).Sublist ready ∧
      Sized (fitSizes settings state budget ready).1 ∧
      totalSize (fitSizes settings state budget ready).1 +
        (fitSizes settings state budget ready).2 = budget ∧
      (0 < budget → ready ≠ [] → (∀ entry ∈ ready, entry.2.kind ∈ standardTaskKinds) →
        (fitSizes settings state budget ready).1 ≠ []) := by
  induction ready generalizing budget with
  | nil => exact ⟨.refl _, fun _ hmem => absurd hmem List.not_mem_nil, by simp [fitSizes, totalSize],
      fun _ hne => absurd rfl hne⟩
  | cons entry rest ih =>
    obtain ⟨requestId, task⟩ := entry
    simp only [fitSizes]
    split
    · next hnone =>
      obtain ⟨hitems, hsized, htotal, -⟩ := ih budget
      refine ⟨hitems.cons _, hsized, htotal, fun hbudget _ hkinds => ?_⟩
      obtain ⟨sp, hsome⟩ := bestFitSp_isSome settings state requestId hbudget
        (hkinds _ (List.mem_cons_self ..))
      cases hnone.symm.trans hsome
    · next sp hsome =>
      obtain ⟨hpos, hle, hsingle⟩ := bestFitSp_sized hsome
      obtain ⟨hitems, hsized, htotal, -⟩ := ih (budget - sp)
      refine ⟨hitems.cons_cons _, List.forall_mem_cons.mpr ⟨⟨hpos, hsingle⟩, hsized⟩, ?_,
        fun _ _ _ => List.cons_ne_nil _ _⟩
      simp only [totalSize, List.map_cons, List.sum_cons] at htotal ⊢
      omega

theorem widenFirst_spec {budget left : Nat} {entries entries' : List FitEntry}
    (h : widenFirst settings state budget entries = some (entries', left)) :
    entries'.map fitItem = entries.map fitItem ∧ (Sized entries → Sized entries') ∧
      totalSize entries' + left = totalSize entries + budget := by
  induction entries generalizing entries' left with
  | nil => cases h
  | cons entry rest ih =>
    obtain ⟨requestId, task, cur⟩ := entry
    simp only [widenFirst] at h
    split at h
    · next chosen hwider =>
      cases h
      simp only [widerSize] at hwider
      split at hwider
      · cases hwider
      · next hdit =>
        have hmem := List.mem_of_find?_eq_some hwider
        have hbudget := List.mem_takeWhile_imp hmem
        have hbigger := (List.takeWhile_sublist _).subset hmem
        rw [List.mem_filter, decide_eq_true_eq] at hbigger
        simp only [decide_eq_true_eq] at hbudget
        refine ⟨rfl, fun hsized => ?_, ?_⟩
        · obtain ⟨hfirst, hrest⟩ := List.forall_mem_cons.mp hsized
          refine List.forall_mem_cons.mpr ⟨⟨Nat.lt_of_le_of_lt (Nat.zero_le cur) hbigger.2, ?_⟩, hrest⟩
          exact fun hsingle => absurd (not_not.mp hdit) (Edf.not_dit_of_single hsingle)
        · simp only [totalSize, List.map_cons, List.sum_cons]
          omega
    · obtain ⟨⟨later, rest'⟩, hlater, heq⟩ := Option.map_eq_some_iff.mp h
      cases heq
      obtain ⟨hitems, hsized, htotal⟩ := ih hlater
      refine ⟨by simp [hitems], fun h => ?_, ?_⟩
      · obtain ⟨hfirst, hrest⟩ := List.forall_mem_cons.mp h
        exact List.forall_mem_cons.mpr ⟨hfirst, hsized hrest⟩
      · simp only [totalSize, List.map_cons, List.sum_cons] at htotal ⊢
        omega

theorem redistribute_spec (rounds budget : Nat) (entries : List FitEntry) :
    (redistribute settings state rounds budget entries).map fitItem = entries.map fitItem ∧
      (Sized entries → Sized (redistribute settings state rounds budget entries)) ∧
      totalSize (redistribute settings state rounds budget entries) ≤
        totalSize entries + budget := by
  induction rounds generalizing budget entries with
  | zero => exact ⟨rfl, id, Nat.le_add_right ..⟩
  | succ rounds ih =>
    simp only [redistribute]
    split
    · exact ⟨rfl, id, Nat.le_add_right ..⟩
    · split
      · next wider left hwiden =>
        obtain ⟨hitems, hsized, htotal⟩ := widenFirst_spec hwiden
        obtain ⟨hitems', hsized', htotal'⟩ := ih left wider
        exact ⟨hitems'.trans hitems, fun h => hsized' (hsized h), by omega⟩
      · exact ⟨rfl, id, Nat.le_add_right ..⟩

theorem materialize_ok (h : Equipped state.topology) (hlast : LastDistinct state)
    (hfree : Drawable state free) {entries : List FitEntry} (hsized : Sized entries)
    (hle : totalSize entries ≤ free.length) :
    ∃ out state' left, materialize state free entries = .ok (out, state') ∧
      Handed state free out state' left ∧ out.map itemOf = entries.map fitItem := by
  induction entries generalizing state free with
  | nil => exact ⟨[], state, free, rfl, .nil h, rfl⟩
  | cons entry rest ih =>
    obtain ⟨requestId, task, sp⟩ := entry
    obtain ⟨⟨hpos, hsingle⟩, hrest⟩ := List.forall_mem_cons.mp hsized
    simp only [totalSize, List.map_cons, List.sum_cons] at hle
    have hrank : ∃ ranks kinds, Asked ranks kinds ∧ ranks.Nodup ∧ (∀ rank ∈ ranks, rank ∈ free) ∧
        ranks.length = sp ∧
        (if decide (task.kind ∈ singleRankTaskKinds) = true then lowestRank free
          else pure (pickRanksForRequest state requestId sp free)) = .ok ranks ∧
        kinds = (if decide (task.kind ∈ singleRankTaskKinds) = true then standardTaskKinds
          else ditTaskKinds) := by
      by_cases hkind : task.kind ∈ singleRankTaskKinds
      · have hsp : sp = 1 := hsingle hkind
        cases hmin : free.min? with
        | none =>
          rw [List.min?_eq_none_iff.mp hmin] at hle
          simp only [List.length_nil] at hle
          omega
        | some rank =>
          refine ⟨[rank], standardTaskKinds, .single rank, List.nodup_singleton rank, ?_, hsp.symm,
            ?_, ?_⟩
          · intro r hmem
            rw [List.mem_singleton.mp hmem]
            exact List.min?_mem hmin
          · simp only [hkind, decide_true, if_true, lowestRank, hmin]
            rfl
          · simp [hkind]
      · obtain ⟨hnodup, hsub, hlength⟩ := pickRanks_spec hlast hfree.nodup requestId sp
        refine ⟨_, ditTaskKinds, .dit _, hnodup, hsub, hlength (by omega), ?_, ?_⟩
        · simp only [hkind, decide_false, Bool.false_eq_true, if_false]
          rfl
        · simp [hkind]
    obtain ⟨ranks, kinds, hasked, hnodup, hsub, hlength, hranks, hkinds⟩ := hrank
    have hne : ranks ≠ [] := List.ne_nil_of_length_pos (hlength ▸ hpos)
    obtain ⟨groupId, state₁, hensure, hhanded⟩ :=
      ensureGroup_handed h hfree hasked hne hnodup hsub task requestId
    have hleft := Edf.length_withoutRanks hfree.nodup ranks
    obtain ⟨out, state', left, hok, hmore, hitems⟩ := ih hhanded.equipped
      (hhanded.lastDistinct hlast) (hhanded.drawable hfree) hrest
      (by simp only [totalSize]; omega)
    refine ⟨_ :: out, state', left, ?_, hhanded.cons hmore, ?_⟩
    · simp only [materialize, ← hkinds]
      split
      · next hkind =>
        rw [if_pos hkind] at hranks
        simp only [hranks, Except.ok_bind, hensure, hok]
        rfl
      · next hkind =>
        rw [if_neg hkind] at hranks
        simp only [hranks, Except.ok_bind, hensure, hok]
        rfl
    · simp only [List.map_cons, hitems]
      rfl

-- ---------------------------------------------------------------------------
-- Ready heads
-- ---------------------------------------------------------------------------

theorem mem_readyHeads {requestId : String} {task : InferenceTask} :
    (requestId, task) ∈ readyHeads state ↔
      state.queues.inflight requestId = 0 ∧
        (state.queues.queue requestId).head? = some task := by
  simp only [readyHeads, List.mem_filterMap]
  constructor
  · rintro ⟨⟨key, queue⟩, hmem, hentry⟩
    simp only at hentry
    split at hentry
    · cases hentry
    · next hidle =>
      obtain ⟨head, hhead, heq⟩ := Option.map_eq_some_iff.mp hentry
      cases heq
      have hqueue : state.queues.queue requestId = queue :=
        Dict.getD_of_get? ((Dict.get?_eq_some _).mpr hmem) []
      exact ⟨Nat.eq_zero_of_not_pos hidle, hqueue ▸ hhead⟩
  · rintro ⟨hidle, hhead⟩
    cases hget : state.queues.readyByRequest.get? requestId with
    | none =>
      rw [RequestQueues.queue, Dict.getD_of_none hget] at hhead
      cases hhead
    | some queue =>
      rw [RequestQueues.queue, Dict.getD_of_get? hget] at hhead
      refine ⟨(requestId, queue), (Dict.get?_eq_some _).mp hget, ?_⟩
      simp [hidle, hhead]

theorem readyHeads_nodup (state : State) : ((readyHeads state).map Prod.fst).Nodup := by
  have hkeys := state.queues.readyByRequest.nodup
  refine hkeys.sublist ?_
  unfold readyHeads
  induction state.queues.readyByRequest.entries with
  | nil => exact .refl _
  | cons entry rest ih =>
    obtain ⟨id, queue⟩ := entry
    rw [List.filterMap_cons]
    split
    · exact ih.cons _
    · next head hhead =>
      have hid : head.1 = id := by
        simp only at hhead
        split at hhead
        · cases hhead
        · obtain ⟨task, -, rfl⟩ := Option.map_eq_some_iff.mp hhead
          rfl
      rw [List.map_cons, List.map_cons, hid]
      exact ih.cons_cons _

theorem takePinned_plain (overQueues : Bool) (ready : List (String × InferenceTask))
    (h : ∀ entry ∈ ready, entry.2.groupId = none) :
    takePinned overQueues state free ready = .ok ([], state, free) := by
  induction ready with
  | nil => rfl
  | cons entry rest ih =>
    obtain ⟨requestId, task⟩ := entry
    obtain ⟨hhead, hrest⟩ := List.forall_mem_cons.mp h
    have hnone : task.groupId = none := hhead
    unfold takePinned
    simp only [hnone]
    exact ih hrest

theorem freeRankSet_drawable (state : State) : Drawable state (freeRankSet state) :=
  ⟨state.topology.workers_nodup.sublist List.filter_sublist,
    fun _ hmem => List.mem_of_mem_filter hmem⟩

-- ---------------------------------------------------------------------------
-- Taking tasks
-- ---------------------------------------------------------------------------

structure AtRest (state : State) : Prop where
  free : freeRankSet state = state.topology.workers
  workers : state.topology.workers ≠ []
  ready : readyHeads state ≠ []
  standard : ∀ entry ∈ readyHeads state, entry.2.kind ∈ standardTaskKinds
  active : ∀ requestId, requestId ∈ activeDitRequestIds state ↔
    ∃ task, (requestId, task) ∈ readyHeads state ∧ task.kind ∈ ditTaskKinds

/-- The target gives a width to some active request. -/
theorem exists_width (settings : Settings) {state : State}
    (hactive : activeDitRequestIds state ≠ []) :
    ∃ requestId ∈ activeDitRequestIds state,
      0 < (planTargetAllocation settings state).getD requestId 0 := by
  obtain ⟨hplanned, -, hdone, -⟩ := planTargetAllocation_planned settings state
  have hkeys : (planTargetAllocation settings state).keys ≠ [] := by
    obtain ⟨requestId, hmem⟩ := List.exists_mem_of_ne_nil _ hactive
    rcases hdone with hall | hfull
    · exact List.ne_nil_of_mem (hall requestId hmem)
    · intro hnone
      rw [Dict.values, List.map_eq_nil_iff.mp hnone] at hfull
      exact absurd (one_le_numWorkers settings) (by simp [← hfull])
  obtain ⟨requestId, hmem⟩ := List.exists_mem_of_ne_nil _ hkeys
  obtain ⟨width, hget⟩ := Option.isSome_iff_exists.mp ((Dict.mem_keys _ _).mp hmem)
  refine ⟨requestId, hplanned.active requestId hmem, ?_⟩
  rw [Dict.getD_of_get? hget]
  exact settings.sizes.pos width (hplanned.allowed requestId width hget)

theorem target_le (settings : Settings) (state : State) (requestId : String) :
    (planTargetAllocation settings state).getD requestId 0 ≤ numWorkers settings := by
  obtain ⟨hplanned, -⟩ := planTargetAllocation_planned settings state
  cases hget : (planTargetAllocation settings state).get? requestId with
  | none => simp [Dict.getD_of_none hget]
  | some width =>
    rw [Dict.getD_of_get? hget]
    exact settings.bounded width (hplanned.allowed requestId width hget)

theorem plannedTake_ok (h : Equipped state.topology) (hlast : LastDistinct state)
    (hplain : ∀ entry ∈ readyHeads state, entry.2.groupId = none)
    (hworkers : state.topology.workers = settings.topology.workers) :
    ∃ out state' left, plannedTake settings state = .ok (out, state') ∧
      Handed state (freeRankSet state) out state' left ∧
      (out.map itemOf).Subperm (readyHeads state) ∧ (AtRest state → out ≠ []) := by
  have hfree := freeRankSet_drawable state
  have hwaiting : (readyHeads state).filter (fun entry => decide (entry.2.groupId = none)) =
      readyHeads state :=
    List.filter_eq_self.mpr fun entry hmem => decide_eq_true (hplain entry hmem)
  let aux := (readyHeads state).filter fun entry => decide (entry.2.kind ∈ singleRankTaskKinds)
  let dit := (readyHeads state).filter fun entry => decide (entry.2.kind ∈ ditTaskKinds)
  obtain ⟨auxOut, state₁, free₁, haux, hauxHanded, hauxItems, hauxSome⟩ :=
    takeAux_ok h hfree (sortReady state aux)
  obtain ⟨ditOut, state', left, hdit, hditHanded, hditItems, hditSome⟩ :=
    takeDit_ok (planTargetAllocation settings state₁) hauxHanded.equipped
      (hauxHanded.lastDistinct hlast) (hauxHanded.drawable hfree) [] (sortReady state₁ dit)
  have hauxPerm : (sortReady state aux).Perm aux := List.mergeSort_perm ..
  have hditPerm : (sortReady state₁ dit).Perm dit := List.mergeSort_perm ..
  refine ⟨auxOut ++ ditOut, state', left, ?_, hauxHanded.append hditHanded, ?_, fun hrest => ?_⟩
  · simp only [plannedTake, takePinned_plain true _ hplain, Except.ok_bind, hwaiting]
    simp only [aux, dit] at haux hdit
    simp only [haux, Except.ok_bind, hdit]
    rfl
  · -- The two kinds of heads are different parts of the heads.
    have hother : dit.Sublist ((readyHeads state).filter fun entry =>
        !decide (entry.2.kind ∈ singleRankTaskKinds)) := by
      refine List.monotone_filter_right _ fun entry hkind => ?_
      have hdit : entry.2.kind ∈ ditTaskKinds := of_decide_eq_true hkind
      simpa using fun hsingle => Edf.not_dit_of_single hsingle hdit
    have hsplit : (aux ++ dit).Subperm (readyHeads state) :=
      (List.Sublist.append (.refl aux) hother).subperm.trans (List.filter_append_perm ..).subperm
    rw [List.map_append]
    exact ((hauxItems.subperm.trans hauxPerm.subperm).append
      (hditItems.subperm.trans hditPerm.subperm)).trans hsplit
  · by_cases hnone : aux = []
    · -- With no auxiliary task everything is left to the DiT tasks.
      have hstate : auxOut = [] ∧ state₁ = state ∧ free₁ = freeRankSet state := by
        have hsame : sortReady state aux = [] := by simp [hnone, sortReady]
        rw [hsame] at haux
        cases haux
        exact ⟨rfl, rfl, rfl⟩
      obtain ⟨rfl, rfl, rfl⟩ := hstate
      have hlength : (freeRankSet state₁).length = numWorkers settings := by
        rw [hrest.free, hworkers, numWorkers, Nat.max_eq_right]
        exact hworkers ▸ List.length_pos_of_ne_nil hrest.workers
      refine fun hempty => hditSome rfl (fun entry _ => ?_) ?_ hempty
      · rw [hlength]
        exact target_le settings state₁ entry.1
      · obtain ⟨entry, hhead⟩ := List.exists_mem_of_ne_nil _ hrest.ready
        have hkind : entry.2.kind ∈ ditTaskKinds := by
          refine (List.mem_append.mp (hrest.standard entry hhead)).resolve_left fun hsingle => ?_
          have hmem : entry ∈ aux := List.mem_filter.mpr ⟨hhead, decide_eq_true hsingle⟩
          rw [hnone] at hmem
          cases hmem
        have hactive := (hrest.active entry.1).mpr ⟨entry.2, hhead, hkind⟩
        obtain ⟨requestId, hmem, hpos⟩ := exists_width settings (List.ne_nil_of_mem hactive)
        obtain ⟨task, htask, hdit⟩ := (hrest.active requestId).mp hmem
        refine ⟨(requestId, task), hditPerm.mem_iff.mpr ?_, hpos⟩
        exact List.mem_filter.mpr ⟨htask, decide_eq_true hdit⟩
    · have hsome : auxOut ≠ [] := by
        refine hauxSome ?_ fun hsorted => hnone ?_
        · rw [hrest.free]
          exact hrest.workers
        · exact List.Perm.nil_eq (hsorted ▸ hauxPerm) |>.symm
      exact fun hempty => hsome (List.append_eq_nil_iff.mp hempty).1

theorem bestFitTake_ok (settings : Settings) (h : Equipped state.topology) (hlast : LastDistinct state)
    (hplain : ∀ entry ∈ readyHeads state, entry.2.groupId = none) :
    ∃ out state' left, bestFitTake settings state = .ok (out, state') ∧
      Handed state (freeRankSet state) out state' left ∧
      (out.map itemOf).Subperm (readyHeads state) ∧ (AtRest state → out ≠ []) := by
  have hfree := freeRankSet_drawable state
  have hperm : (sortReady state (readyHeads state)).Perm (readyHeads state) :=
    List.mergeSort_perm ..
  have hsorted : ∀ entry ∈ sortReady state (readyHeads state), entry.2.groupId = none :=
    fun entry hmem => hplain entry (hperm.mem_iff.mp hmem)
  have hwaiting : (sortReady state (readyHeads state)).filter
      (fun entry => decide (entry.2.groupId = none)) = sortReady state (readyHeads state) :=
    List.filter_eq_self.mpr fun entry hmem => decide_eq_true (hsorted entry hmem)
  obtain ⟨hitems, hsized, htotal, hsome⟩ := @fitSizes_spec settings state
    (freeRankSet state).length (sortReady state (readyHeads state))
  cases hfit : fitSizes settings state (freeRankSet state).length
      (sortReady state (readyHeads state)) with
  | mk entries budget =>
    simp only [hfit] at hitems hsized htotal hsome
    obtain ⟨hsame, hwider, hwithin⟩ := @redistribute_spec settings state budget budget entries
    obtain ⟨out, state', left, hok, hhanded, hout⟩ := materialize_ok h hlast hfree (hwider hsized)
      (hwithin.trans htotal.le)
    have houtItems : out.map itemOf = entries.map fitItem := hout.trans hsame
    refine ⟨out, state', left, ?_, hhanded, ?_, fun hrest hempty => ?_⟩
    · simp only [bestFitTake, takePinned_plain false _ hsorted, Except.ok_bind, hwaiting, hfit, hok]
      rfl
    · rw [houtItems]
      exact hitems.subperm.trans hperm.subperm
    · rw [hempty, List.map_nil] at houtItems
      refine hsome ?_ ?_ (fun entry hmem => hrest.standard entry (hperm.mem_iff.mp hmem))
        (List.map_eq_nil_iff.mp houtItems.symm)
      · rw [hrest.free]
        exact List.length_pos_of_ne_nil hrest.workers
      · exact fun hnone => hrest.ready (List.Perm.nil_eq (hnone ▸ hperm)).symm

/-- Taking tasks succeeds; at rest something is given out. -/
theorem take_ok (h : Equipped state.topology) (hlast : LastDistinct state)
    (hplain : ∀ entry ∈ readyHeads state, entry.2.groupId = none)
    (hworkers : state.topology.workers = settings.topology.workers) :
    ∃ out state' left, takeDispatchableTasks settings state =
        .ok (out.map Assignment.toDispatch, state') ∧
      Handed state (freeRankSet state) out state' left ∧
      (out.map itemOf).Subperm (readyHeads state) ∧ (AtRest state → out ≠ []) := by
  cases hestimator : settings.taskRuntimeEstimator with
  | none =>
    obtain ⟨out, state', left, hok, hfacts⟩ := bestFitTake_ok settings h hlast hplain
    refine ⟨out, state', left, ?_, hfacts⟩
    simp only [takeDispatchableTasks, hestimator, hok, Except.ok_bind]
    rfl
  | some estimator =>
    obtain ⟨out, state', left, hok, hfacts⟩ := plannedTake_ok h hlast hplain hworkers
    refine ⟨out, state', left, ?_, hfacts⟩
    simp only [takeDispatchableTasks, hestimator, hok, Except.ok_bind]
    rfl

end Continuous

end GfDit
