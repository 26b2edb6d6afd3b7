import GfDit.Policies.EdfGroups

/-!
# Groups the simulated policies make

The benchmark policies have their own copies of `_find_existing_group` and
`_ensure_group_for_ranks`, which differ from the production ones in the names
they give only: the name of a group made on demand starts with the policy's
own prefix.
-/

namespace GfDit

namespace OnDemand

open Edf (findExistingGroup findExistingGroup_some not_serves_of_none rankNames_inj Serves)

/-- `f"{prefix}_sp{len(ranks)}_r..."`. -/
def groupIdFor (label : String) (ranks : List Rank) : String :=
  label ++ "_sp" ++ toString ranks.length ++ "_r" ++ "_".intercalate (ranks.map toString)

def ensureGroupForRanks (label : String) (topology : RuntimeTopology) (ranks : List Rank)
    (kinds : List TaskKind) : Except PyError (ExecutionGroupSpec × RuntimeTopology) :=
  match findExistingGroup topology ranks kinds with
  | some group => pure (group, topology)
  | none => do
    let spec ← ParallelSpec.make 1 ranks.length 1 false
    let group ← ExecutionGroupSpec.make (groupIdFor label ranks) ranks spec kinds ranks.length 1
    topology.ensureGroup group

variable {label : String} {topology topology' : RuntimeTopology} {ranks : List Rank}
  {kinds : List TaskKind} {group : ExecutionGroupSpec}

-- ---------------------------------------------------------------------------
-- Names
-- ---------------------------------------------------------------------------

theorem toList_groupIdFor (label : String) (ranks : List Rank) :
    (groupIdFor label ranks).toList = label.toList ++ ("_sp".toList ++
      (ranks.length.repr.toList ++ ("_r".toList ++
        ("_".intercalate (ranks.map toString)).toList))) := by
  simp only [groupIdFor, String.toList_append, List.append_assoc]
  rfl

theorem groupIdFor_inj {ranks ranks' : List Rank} (hr : ranks ≠ []) (hr' : ranks' ≠ [])
    (h : groupIdFor label ranks = groupIdFor label ranks') : ranks = ranks' := by
  have hchars := List.append_cancel_left (List.append_cancel_left
    ((toList_groupIdFor label ranks).symm.trans (h ▸ toList_groupIdFor label ranks')))
  have hlen : ranks.length = ranks'.length :=
    repr_append_inj (by simp) (by simp) hchars
  rw [hlen] at hchars
  have hnames := List.append_cancel_left (List.append_cancel_left hchars)
  exact rankNames_inj hr hr' (String.toList_inj.mp hnames)

-- ---------------------------------------------------------------------------
-- A group for given ranks
-- ---------------------------------------------------------------------------

def madeGroup (label : String) (ranks : List Rank) (kinds : List TaskKind) (hr : ranks ≠ []) :
    ExecutionGroupSpec :=
  { Edf.onDemandGroup ranks kinds hr with groupId := groupIdFor label ranks }

theorem madeGroup_serves (hr : ranks ≠ []) :
    Serves ranks kinds (madeGroup label ranks kinds hr) := ⟨rfl, rfl, rfl, rfl, fun _ hm => hm⟩

theorem ensureGroupForRanks_none (hr : ranks ≠ [])
    (hnone : findExistingGroup topology ranks kinds = none) :
    ensureGroupForRanks label topology ranks kinds =
      topology.ensureGroup (madeGroup label ranks kinds hr) := by
  have hlen := List.length_pos_of_ne_nil hr
  have hspec : ParallelSpec.make 1 ranks.length 1 false =
      .ok (madeGroup label ranks kinds hr).parallelSpec := by
    simp only [ParallelSpec.make, Nat.lt_irrefl, Nat.lt_one_iff, hlen.ne', dite_false]
    rfl
  have hmake : ExecutionGroupSpec.make (groupIdFor label ranks) ranks
      (madeGroup label ranks kinds hr).parallelSpec kinds ranks.length 1 =
      .ok (madeGroup label ranks kinds hr) := by
    simp only [ExecutionGroupSpec.make, hr, dite_false, Nat.lt_irrefl, Nat.lt_one_iff, hlen.ne',
      if_false, madeGroup, Edf.onDemandGroup, Nat.mul_one, ne_eq, not_true_eq_false, false_and,
      dite_true]
    rfl
  rw [ensureGroupForRanks, hnone]
  simp only [hspec, hmake, Except.ok_bind]

structure Supplied (label : String) (topology : RuntimeTopology) (ranks : List Rank)
    (kinds : List TaskKind) (group : ExecutionGroupSpec) (topology' : RuntimeTopology) : Prop where
  serves : Serves ranks kinds group
  found : topology'.find group.groupId = some group
  workers : topology'.workers = topology.workers
  grows : ∀ other ∈ topology.groups, other ∈ topology'.groups
  new : ∀ other ∈ topology'.groups, other ∈ topology.groups ∨
    other.groupId = groupIdFor label ranks ∧ Serves ranks kinds other ∧
      other.supportedTaskKinds = kinds

theorem ensureGroupForRanks_ok (hr : ranks ≠ [])
    (h : ensureGroupForRanks label topology ranks kinds = .ok (group, topology')) :
    Supplied label topology ranks kinds group topology' := by
  cases hfind : findExistingGroup topology ranks kinds with
  | some existing =>
    rw [ensureGroupForRanks, hfind] at h
    obtain ⟨rfl, rfl⟩ := Prod.mk.inj (Except.pure_eq_ok.mp h)
    obtain ⟨hmem, hserves⟩ := findExistingGroup_some hfind
    exact ⟨hserves, RuntimeTopology.find_eq_some.mpr ⟨hmem, rfl⟩, rfl, fun _ h => h,
      fun _ h => .inl h⟩
  | none =>
    rw [ensureGroupForRanks_none hr hfind] at h
    obtain ⟨rfl, hfound, hworkers, hgroups⟩ := RuntimeTopology.ensureGroup_ok h
    refine ⟨madeGroup_serves hr, hfound, hworkers, fun other hm => (hgroups other).mpr (.inl hm),
      fun other hm => ?_⟩
    rcases (hgroups other).mp hm with hm | rfl
    · exact .inl hm
    · exact .inr ⟨rfl, madeGroup_serves hr, rfl⟩

/-- A request for workers is refused only where no known group serves and the
name of the one to make is taken. -/
theorem ensureGroupForRanks_error {e : PyError} (hr : ranks ≠ [])
    (hw : ∀ rank ∈ ranks, rank ∈ topology.workers)
    (h : ensureGroupForRanks label topology ranks kinds = .error e) :
    findExistingGroup topology ranks kinds = none ∧
      topology.find (groupIdFor label ranks) ≠ none := by
  cases hfind : findExistingGroup topology ranks kinds with
  | some existing =>
    rw [ensureGroupForRanks, hfind] at h
    cases h
  | none =>
    rw [ensureGroupForRanks_none hr hfind] at h
    exact ⟨rfl, (RuntimeTopology.ensureGroup_error hw h).1⟩

-- ---------------------------------------------------------------------------
-- Names that stand for their ranks
-- ---------------------------------------------------------------------------

/-- Where a name on demand is taken, some group serves DiT tasks on its ranks. -/
def Named (label : String) (topology : RuntimeTopology) : Prop :=
  ∀ ranks, ranks ≠ [] → (∀ rank ∈ ranks, rank ∈ topology.workers) →
    topology.find (groupIdFor label ranks) ≠ none →
      ∃ group ∈ topology.groups, Serves ranks ditTaskKinds group

theorem Named.of_ids (h : ∀ group ∈ topology.groups,
    ¬ (label ++ "_sp").toList <+: group.groupId.toList) : Named label topology := by
  intro ranks _ _ htaken
  obtain ⟨taker, htaker⟩ := Option.ne_none_iff_exists'.mp htaken
  obtain ⟨hmem, hid⟩ := RuntimeTopology.find_eq_some.mp htaker
  refine absurd ?_ (h taker hmem)
  rw [hid, toList_groupIdFor, String.toList_append, ← List.append_assoc]
  exact List.prefix_append ..

theorem Named.supplied (h : Named label topology) (hr : ranks ≠ [])
    (hkinds : ∀ kind ∈ ditTaskKinds, kind ∈ kinds)
    (hs : Supplied label topology ranks kinds group topology') : Named label topology' := by
  intro ranks' hr' hw' htaken
  obtain ⟨taker, htaker⟩ := Option.ne_none_iff_exists'.mp htaken
  obtain ⟨hm, hname⟩ := RuntimeTopology.find_eq_some.mp htaker
  rcases hs.new taker hm with hm' | ⟨hid, hserves, -⟩
  · have hbefore : topology.find (groupIdFor label ranks') ≠ none := by
      rw [RuntimeTopology.find_eq_some.mpr ⟨hm', hname⟩]
      simp
    obtain ⟨other, hother, hserves⟩ := h ranks' hr' (hs.workers ▸ hw') hbefore
    exact ⟨other, hs.grows other hother, hserves⟩
  · -- The name is that of the group just made, so the ranks are its ranks.
    obtain rfl := groupIdFor_inj hr hr' (hid.symm.trans hname)
    exact ⟨taker, hm, hserves.fewer hkinds⟩

/-- Ranks for DiT tasks are always to be had. -/
theorem Named.ensure (h : Named label topology) (hr : ranks ≠ [])
    (hw : ∀ rank ∈ ranks, rank ∈ topology.workers) :
    ∃ group topology', ensureGroupForRanks label topology ranks ditTaskKinds =
      .ok (group, topology') ∧ Supplied label topology ranks ditTaskKinds group topology' := by
  cases hensure : ensureGroupForRanks label topology ranks ditTaskKinds with
  | ok result => exact ⟨result.1, result.2, rfl, ensureGroupForRanks_ok hr hensure⟩
  | error e =>
    obtain ⟨hnone, htaken⟩ := ensureGroupForRanks_error hr hw hensure
    obtain ⟨group, hm, hserves⟩ := h ranks hr hw htaken
    exact absurd hserves (not_serves_of_none hnone hm)

end OnDemand

end GfDit
