import GfDit.Adapters.Names
import GfDit.Policies.EdfBooks

/-!
# Groups made on demand

The EDF policies ask for a group with exactly given ranks and take one that is
there or make it. The name of a group made on demand tells its ranks and
nothing else, so a request for the same ranks and more kinds of tasks finds
the name taken. A topology is stocked when no request can: every rank has a
group of its own for DiT tasks, and a name on demand is either free or not
needed. Groups made on demand keep a topology stocked.
-/

namespace GfDit

open Prog

namespace Edf

-- ---------------------------------------------------------------------------
-- Names
-- ---------------------------------------------------------------------------

theorem rankNames_inj {ranks ranks' : List Rank} (hr : ranks ≠ []) (hr' : ranks' ≠ [])
    (h : "_".intercalate (ranks.map toString) = "_".intercalate (ranks'.map toString)) :
    ranks = ranks' := by
  have hsplit : ∀ ranks : List Rank, ranks ≠ [] →
      (("_".intercalate (ranks.map toString)).split '_').toList.map (·.copy) =
        ranks.map toString := by
    intro ranks hr
    have hread := String.toList_split_intercalate (c := '_') (l := ranks.map toString) fun s hs => by
      obtain ⟨rank, -, rfl⟩ := List.mem_map.mp hs
      exact not_mem_repr rank (by decide)
    rwa [if_neg (by simpa using hr)] at hread
  have hmap := hsplit ranks hr
  rw [h, hsplit ranks' hr'] at hmap
  exact (List.map_inj_right fun a b hab => repr_inj (congrArg String.toList hab)).mp hmap.symm

theorem toList_groupIdFor (ranks : List Rank) : (groupIdFor ranks).toList = "edf_sp".toList ++
    (ranks.length.repr.toList ++ ("_r".toList ++ ("_".intercalate (ranks.map toString)).toList)) := by
  simp only [groupIdFor, String.toList_append, List.append_assoc]
  rfl

theorem groupIdFor_inj {ranks ranks' : List Rank} (hr : ranks ≠ []) (hr' : ranks' ≠ [])
    (h : groupIdFor ranks = groupIdFor ranks') : ranks = ranks' := by
  have hchars := List.append_cancel_left
    ((toList_groupIdFor ranks).symm.trans (h ▸ toList_groupIdFor ranks'))
  have hlen : ranks.length = ranks'.length :=
    repr_append_inj (by simp) (by simp) hchars
  rw [hlen] at hchars
  have hnames := List.append_cancel_left (List.append_cancel_left hchars)
  exact rankNames_inj hr hr' (String.toList_inj.mp hnames)

-- ---------------------------------------------------------------------------
-- A group for given ranks
-- ---------------------------------------------------------------------------

/-- The group fits a request: exactly these ranks in sequence parallel, for
these kinds of tasks. -/
structure Serves (ranks : List Rank) (kinds : List TaskKind) (group : ExecutionGroupSpec) :
    Prop where
  exact : group.ranks = ranks
  tp : group.parallelSpec.tp = 1
  cfg : group.parallelSpec.cfg = 1
  sp : group.parallelSpec.sp = ranks.length
  supports : ∀ kind ∈ kinds, kind ∈ group.supportedTaskKinds

theorem Serves.fewer (h : Serves ranks kinds group) (hk : ∀ kind ∈ kinds', kind ∈ kinds) :
    Serves ranks kinds' group :=
  { h with supports := fun kind hm => h.supports kind (hk kind hm) }

theorem findExistingGroup_some {topology : RuntimeTopology}
    (h : findExistingGroup topology ranks kinds = some group) :
    group ∈ topology.groups ∧ Serves ranks kinds group := by
  have hp := List.find?_some h
  simp only [decide_eq_true_eq] at hp
  obtain ⟨hranks, htp, hcfg, hsp, hkinds⟩ := hp
  exact ⟨List.mem_of_find?_eq_some h, ⟨hranks, htp, hcfg, hsp, hkinds⟩⟩

theorem not_serves_of_none {topology : RuntimeTopology}
    (h : findExistingGroup topology ranks kinds = none) (hm : group ∈ topology.groups) :
    ¬ Serves ranks kinds group := by
  intro hs
  have hp := List.find?_eq_none.mp h group hm
  simp only [decide_eq_true_eq] at hp
  exact hp ⟨hs.exact, hs.tp, hs.cfg, hs.sp, hs.supports⟩

def onDemandGroup (ranks : List Rank) (kinds : List TaskKind) (hr : ranks ≠ []) :
    ExecutionGroupSpec where
  groupId := groupIdFor ranks
  ranks := ranks
  parallelSpec := ⟨1, ranks.length, 1, Nat.one_pos, List.length_pos_of_ne_nil hr, Nat.one_pos⟩
  supportedTaskKinds := kinds
  ulyssesDegree := ranks.length
  ringDegree := 1
  ranks_ne := hr
  sp_eq := (Nat.mul_one _).symm

theorem onDemandGroup_serves (hr : ranks ≠ []) : Serves ranks kinds (onDemandGroup ranks kinds hr) :=
  ⟨rfl, rfl, rfl, rfl, fun _ hm => hm⟩

/-- What a request for a group can do to the world: nothing where a known
group serves, else the group made for it is added. -/
inductive Supplied (ranks : List Rank) (kinds : List TaskKind) (w : World Edf) :
    ExecutionGroupSpec → World Edf → Prop
  | found (hm : group ∈ w.topology.groups) (hs : Serves ranks kinds group) :
    Supplied ranks kinds w group w
  | made (hr : ranks ≠ []) (hn : findExistingGroup w.topology ranks kinds = none)
    (hid : w.topology.find (groupIdFor ranks) = none) {topology : RuntimeTopology}
    (hw : topology.workers = w.topology.workers)
    (hg : ∀ group, group ∈ topology.groups ↔
      group ∈ w.topology.groups ∨ group = onDemandGroup ranks kinds hr) :
    Supplied ranks kinds w (onDemandGroup ranks kinds hr) { w with topology }

/-- No known group serves, and the name of the one to make is taken. -/
def Collides (topology : RuntimeTopology) (ranks : List Rank) (kinds : List TaskKind) : Prop :=
  findExistingGroup topology ranks kinds = none ∧ topology.find (groupIdFor ranks) ≠ none

def differentSpec (groupId : String) : PyError :=
  .valueError <| "runtime topology group " ++ quoted groupId ++
    " already exists with a different spec"

theorem ensureGroupForRanks_supplied {w : World Edf} (hr : ranks ≠ [])
    (hw : ∀ rank ∈ ranks, rank ∈ w.topology.workers) :
    wp (ensureGroupForRanks ranks kinds) (Supplied ranks kinds w) (fun e w' =>
      w' = w ∧ Collides w.topology ranks kinds ∧ e = differentSpec (groupIdFor ranks)) w := by
  simp only [ensureGroupForRanks, World.ensureGroup, wp_bind, wp_get]
  split
  · rename_i group hfind
    obtain ⟨hm, hs⟩ := findExistingGroup_some hfind
    exact .found hm hs
  · rename_i hnone
    have hlen := List.length_pos_of_ne_nil hr
    have hspec : ParallelSpec.make 1 ranks.length 1 false =
        .ok (onDemandGroup ranks kinds hr).parallelSpec := by
      simp only [ParallelSpec.make, Nat.lt_irrefl, Nat.lt_one_iff, hlen.ne', dite_false]
      rfl
    have hmake : ExecutionGroupSpec.make (groupIdFor ranks) ranks
        (onDemandGroup ranks kinds hr).parallelSpec kinds ranks.length 1 =
        .ok (onDemandGroup ranks kinds hr) := by
      simp only [ExecutionGroupSpec.make, hr, dite_false, Nat.lt_irrefl, Nat.lt_one_iff, hlen.ne',
        if_false, onDemandGroup, Nat.mul_one, ne_eq, not_true_eq_false, false_and, dite_true]
      rfl
    simp only [wp_bind, wp_get, wp_modify, wp_pure]
    refine wp_check (fun spec hs => ?_) fun _ he => by rw [hspec] at he; cases he
    cases hspec.symm.trans hs
    refine wp_check (fun group hg => ?_) fun _ he => by rw [hmake] at he; cases he
    cases hmake.symm.trans hg
    have hserves : Serves ranks kinds (onDemandGroup ranks kinds hr) := onDemandGroup_serves hr
    refine wp_check (fun result hres => ?_) fun e he => ?_
    · obtain ⟨result, topology⟩ := result
      obtain ⟨rfl, -, hworkers, hgroups⟩ := RuntimeTopology.ensureGroup_ok hres
      refine .made hr hnone ?_ hworkers hgroups
      cases hid : w.topology.find (groupIdFor ranks) with
      | none => rfl
      | some existing =>
        -- a group of that name that is accepted is the one asked for, which serves
        have hsame := RuntimeTopology.ensureGroup_known hid hres
        subst hsame
        exact absurd hserves (not_serves_of_none hnone (RuntimeTopology.find_eq_some.mp hid).1)
    · obtain ⟨hid, rfl⟩ := RuntimeTopology.ensureGroup_error hw he
      exact ⟨rfl, ⟨hnone, hid⟩, rfl⟩

/-- What was supplied serves, and every group from before is still there. -/
theorem Supplied.serves (h : Supplied ranks kinds w group w') : Serves ranks kinds group := by
  cases h with
  | found _ hs => exact hs
  | made hr _ _ _ _ => exact onDemandGroup_serves hr

theorem Supplied.known (h : Supplied ranks kinds w group w') :
    w'.topology.find group.groupId = some group := by
  cases h with
  | found hm _ => exact RuntimeTopology.find_eq_some.mpr ⟨hm, rfl⟩
  | made hr _ _ _ hg => exact RuntimeTopology.find_eq_some.mpr ⟨(hg _).mpr (.inr rfl), rfl⟩

theorem Supplied.workers (h : Supplied ranks kinds w group w') :
    w'.topology.workers = w.topology.workers := by
  cases h with
  | found => rfl
  | made _ _ _ hw _ => exact hw

theorem Supplied.grows (h : Supplied ranks kinds w group w') :
    ∀ other ∈ w.topology.groups, other ∈ w'.topology.groups := by
  cases h with
  | found => exact fun _ hm => hm
  | made _ _ _ _ hg => exact fun other hm => (hg other).mpr (.inl hm)

theorem Supplied.rest (h : Supplied ranks kinds w group w') :
    w'.tasks = w.tasks ∧ w'.clockNs = w.clockNs ∧ w'.policy = w.policy := by
  cases h with
  | found => exact ⟨rfl, rfl, rfl⟩
  | made => exact ⟨rfl, rfl, rfl⟩

theorem Supplied.distinct (h : Supplied ranks kinds w group w')
    (hd : ∀ group ∈ w.topology.groups, group.ranks.Nodup) (hn : ranks.Nodup) :
    ∀ group ∈ w'.topology.groups, group.ranks.Nodup := by
  cases h with
  | found => exact hd
  | made hr _ _ _ hg =>
    intro other hm
    rcases (hg other).mp hm with hm | rfl
    · exact hd other hm
    · exact hn

-- ---------------------------------------------------------------------------
-- Stocked topologies
-- ---------------------------------------------------------------------------

/-- What the policies ask for: one rank for every kind of task, or ranks for
DiT tasks. -/
inductive Asked : List Rank → List TaskKind → Prop
  | single (rank : Rank) : Asked [rank] standardTaskKinds
  | dit (hr : ranks ≠ []) : Asked ranks ditTaskKinds

theorem Asked.ne_nil (h : Asked ranks kinds) : ranks ≠ [] := by
  cases h with
  | single rank => simp
  | dit hr => exact hr

/-- The most that is asked of given ranks. -/
def widestKinds (ranks : List Rank) : List TaskKind :=
  if ranks.length = 1 then standardTaskKinds else ditTaskKinds

structure Stocked (topology : RuntimeTopology) : Prop where
  solo : ∀ rank ∈ topology.workers, ∃ group ∈ topology.groups, Serves [rank] ditTaskKinds group
  named : ∀ ranks, ranks ≠ [] → (∀ rank ∈ ranks, rank ∈ topology.workers) →
    topology.find (groupIdFor ranks) ≠ none →
      ∃ group ∈ topology.groups, Serves ranks (widestKinds ranks) group

/-- A request that no known group serves is for all kinds it could be for. -/
theorem Stocked.widest {topology : RuntimeTopology} (h : Stocked topology)
    (ha : Asked ranks kinds) (hw : ∀ rank ∈ ranks, rank ∈ topology.workers)
    (hn : findExistingGroup topology ranks kinds = none) : kinds = widestKinds ranks := by
  cases ha with
  | single rank => rfl
  | dit hr =>
    unfold widestKinds
    split
    · rename_i hlen
      obtain ⟨rank, rfl⟩ := List.length_eq_one_iff.mp hlen
      obtain ⟨group, hm, hs⟩ := h.solo rank (hw rank (List.mem_singleton_self rank))
      exact absurd hs (not_serves_of_none hn hm)
    · rfl

theorem Stocked.not_collides {topology : RuntimeTopology} (h : Stocked topology)
    (ha : Asked ranks kinds) (hw : ∀ rank ∈ ranks, rank ∈ topology.workers) :
    ¬ Collides topology ranks kinds := by
  rintro ⟨hn, hid⟩
  obtain ⟨group, hm, hs⟩ := h.named ranks ha.ne_nil hw hid
  rw [← h.widest ha hw hn] at hs
  exact not_serves_of_none hn hm hs

theorem Stocked.supplied (h : Stocked w.topology) (ha : Asked ranks kinds)
    (hw : ∀ rank ∈ ranks, rank ∈ w.topology.workers) (hs : Supplied ranks kinds w group w') :
    Stocked w'.topology := by
  cases hs with
  | found => exact h
  | made hr hn hid hworkers hg =>
    have hgrow : ∀ other ∈ w.topology.groups, other ∈ _ := fun other hm => (hg other).mpr (.inl hm)
    constructor
    · intro rank hrank
      obtain ⟨other, hm, hs⟩ := h.solo rank (hworkers ▸ hrank)
      exact ⟨other, hgrow other hm, hs⟩
    · intro ranks' hr' hw' htaken
      obtain ⟨taker, htaker⟩ := Option.ne_none_iff_exists'.mp htaken
      obtain ⟨hm, hname⟩ := RuntimeTopology.find_eq_some.mp htaker
      rcases (hg taker).mp hm with hm | rfl
      · have hbefore : w.topology.find (groupIdFor ranks') ≠ none := by
          rw [RuntimeTopology.find_eq_some.mpr ⟨hm, hname⟩]
          simp
        obtain ⟨other, ho, hs⟩ := h.named ranks' hr' (hworkers ▸ hw') hbefore
        exact ⟨other, hgrow other ho, hs⟩
      · -- the name is that of the group just made, so the ranks are its ranks
        obtain rfl := groupIdFor_inj hr hr' hname
        refine ⟨_, hm, ?_⟩
        rw [← h.widest ha hw hn]
        exact onDemandGroup_serves hr

/-- In a stocked topology every request is served. -/
theorem ensureGroupForRanks_served {w : World Edf} (h : Stocked w.topology)
    (ha : Asked ranks kinds) (hw : ∀ rank ∈ ranks, rank ∈ w.topology.workers) :
    wp (ensureGroupForRanks ranks kinds) (fun group w' =>
      Supplied ranks kinds w group w' ∧ Stocked w'.topology) (fun _ _ => False) w :=
  wp_mono (ensureGroupForRanks_supplied ha.ne_nil hw)
    (fun _ _ hs => ⟨hs, h.supplied ha hw hs⟩) fun _ _ he => h.not_collides ha hw he.2.1

theorem Stocked.of_plain {topology : RuntimeTopology}
    (hsolo : ∀ rank ∈ topology.workers, ∃ group ∈ topology.groups,
      Serves [rank] ditTaskKinds group)
    (hplain : ∀ group ∈ topology.groups, group.groupId.toList.head? ≠ some 'e') :
    Stocked topology := by
  refine ⟨hsolo, fun ranks _ _ htaken => ?_⟩
  obtain ⟨group, hfind⟩ := Option.ne_none_iff_exists'.mp htaken
  obtain ⟨hm, hid⟩ := RuntimeTopology.find_eq_some.mp hfind
  refine absurd ?_ (hplain group hm)
  rw [hid, toList_groupIdFor]
  rfl

-- ---------------------------------------------------------------------------
-- The topology the runner builds for these policies
-- ---------------------------------------------------------------------------

def bootstrapSolo (kinds : List TaskKind) (rank : Rank) : ExecutionGroupSpec :=
  soloSpec s!"g_sp1_r{rank}" rank kinds

def bootstrapGroups (workerCount : Nat) (kinds : List TaskKind) : List ExecutionGroupSpec :=
  (if h : 1 < workerCount then
    [⟨"g_world", List.range workerCount,
      ⟨1, workerCount, 1, Nat.one_pos, Nat.lt_of_succ_lt h, Nat.one_pos⟩, ditTaskKinds,
      workerCount, 1, List.ne_nil_of_mem (List.mem_range.mpr h), (Nat.mul_one _).symm⟩]
  else []) ++ (List.range workerCount).map (bootstrapSolo kinds)

/-- A topology without declared groups is stocked. -/
theorem bootstrap_stocked {topology : RuntimeTopology}
    (hk : ∀ kind ∈ ditTaskKinds, kind ∈ kinds)
    (hw : topology.workers = List.range workerCount)
    (hg : topology.groups = bootstrapGroups workerCount kinds) : Stocked topology := by
  refine .of_plain (fun rank hm => ?_) fun group hm => ?_
  · rw [hw] at hm
    refine ⟨bootstrapSolo kinds rank, ?_, rfl, rfl, rfl, rfl, hk⟩
    rw [hg]
    exact List.mem_append_right _ (List.mem_map_of_mem hm)
  · rw [hg, bootstrapGroups] at hm
    rcases List.mem_append.mp hm with hm | hm
    · split at hm
      · rw [List.mem_singleton.mp hm]
        show "g_world".toList.head? ≠ some 'e'
        decide
      · cases hm
    · obtain ⟨rank, -, rfl⟩ := List.mem_map.mp hm
      simp only [bootstrapSolo, soloSpec, String.toList_append]
      rw [List.head?_append_of_ne_nil _ (by decide)]
      decide

end Edf

end GfDit
