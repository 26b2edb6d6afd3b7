import GfDit.Tasks
import GfDit.Lib.Except

/-!
# The runtime topology

Workers and the execution groups over them, after `topology.py`. Group ids
are unique and every rank of a group is a worker, which the constructor
checks and `ensureGroup` keeps; groups may overlap, and groups made on demand
are added at the end.
-/

namespace GfDit

structure RuntimeTopology where
  workers : List Rank
  groups : List ExecutionGroupSpec
  workers_nodup : workers.Nodup
  ids_nodup : (groups.map ExecutionGroupSpec.groupId).Nodup
  ranks_known : ∀ group ∈ groups, ∀ rank ∈ group.ranks, rank ∈ workers

namespace RuntimeTopology

def unknownRank (workers : List Rank) (group : ExecutionGroupSpec) : Option Rank :=
  group.ranks.find? fun rank => rank ∉ workers

theorem ranks_of_unknownRank {workers : List Rank} {group : ExecutionGroupSpec}
    (h : unknownRank workers group = none) : ∀ rank ∈ group.ranks, rank ∈ workers := by
  intro rank hr
  have := List.find?_eq_none.mp h rank hr
  simpa using this

def unknownRankError (group : ExecutionGroupSpec) (rank : Rank) : PyError :=
  .valueError s!"group {group.groupId} references unknown worker rank {rank}"

def checkRanks (workers : List Rank) :
    (groups : List ExecutionGroupSpec) →
      Except PyError (PLift (∀ group ∈ groups, ∀ rank ∈ group.ranks, rank ∈ workers))
  | [] => pure ⟨by simp⟩
  | group :: groups => do
    match h : unknownRank workers group with
    | some rank => throw (unknownRankError group rank)
    | none =>
      let rest ← checkRanks workers groups
      pure ⟨by simpa using ⟨ranks_of_unknownRank h, rest.down⟩⟩

def make (workers : List Rank) (groups : List ExecutionGroupSpec) :
    Except PyError RuntimeTopology := do
  if workers = [] then throw (.valueError "runtime topology requires at least one worker")
  else if groups = [] then
    throw (.valueError "runtime topology requires at least one execution group")
  else if hw : workers.Nodup then
    if hg : (groups.map ExecutionGroupSpec.groupId).Nodup then
      let known ← checkRanks workers groups
      let missing := workers.filter fun rank => groups.all fun group => rank ∉ group.ranks
      if missing = [] then
        pure { workers, groups, workers_nodup := hw, ids_nodup := hg, ranks_known := known.down }
      else
        throw (.valueError <| "workers must belong to at least one execution group, " ++
          "missing ranks: [" ++ ", ".intercalate (missing.map toString) ++ "]")
    else throw (.valueError "group ids must be unique")
  else throw (.valueError "worker ranks must be unique")

-- ---------------------------------------------------------------------------
-- Lookups
-- ---------------------------------------------------------------------------

def find (topology : RuntimeTopology) (groupId : String) : Option ExecutionGroupSpec :=
  topology.groups.find? fun group => group.groupId = groupId

def getGroup (topology : RuntimeTopology) (groupId : String) : Except PyError ExecutionGroupSpec :=
  match topology.find groupId with
  | some group => pure group
  | none => throw (.keyError groupId)

def getGroupLeader (topology : RuntimeTopology) (groupId : String) : Except PyError Rank := do
  let group ← topology.getGroup groupId
  pure group.leader

def selectGroupForTask (topology : RuntimeTopology) (kind : TaskKind) : Option String :=
  (topology.groups.find? fun group => kind ∈ group.supportedTaskKinds).map
    ExecutionGroupSpec.groupId

theorem getGroup_eq_ok {topology : RuntimeTopology} :
    topology.getGroup groupId = .ok group ↔ topology.find groupId = some group := by
  unfold getGroup
  cases topology.find groupId <;> simp [pure, Except.pure, throw, throwThe, MonadExceptOf.throw]

theorem find_eq_some {topology : RuntimeTopology} :
    topology.find groupId = some group ↔ group ∈ topology.groups ∧ group.groupId = groupId := by
  constructor
  · intro h
    exact ⟨List.mem_of_find?_eq_some h, by simpa using List.find?_some h⟩
  · rintro ⟨hm, rfl⟩
    obtain ⟨found, hf⟩ := Option.isSome_iff_exists.mp
      (List.find?_isSome.mpr ⟨group, hm, by simp⟩ :
        (topology.groups.find? fun g => g.groupId = group.groupId).isSome)
    have hid : found.groupId = group.groupId := by simpa using List.find?_some hf
    have heq := List.inj_on_of_nodup_map topology.ids_nodup (List.mem_of_find?_eq_some hf) hm hid
    rw [find, hf, heq]

-- ---------------------------------------------------------------------------
-- Groups made on demand
-- ---------------------------------------------------------------------------

def addGroup (topology : RuntimeTopology) (group : ExecutionGroupSpec)
    (hid : topology.find group.groupId = none)
    (hr : ∀ rank ∈ group.ranks, rank ∈ topology.workers) : RuntimeTopology where
  workers := topology.workers
  groups := topology.groups ++ [group]
  workers_nodup := topology.workers_nodup
  ids_nodup := by
    have hnot : group.groupId ∉ topology.groups.map ExecutionGroupSpec.groupId := by
      intro hm
      obtain ⟨other, ho, he⟩ := List.mem_map.mp hm
      rw [find_eq_some.mpr ⟨ho, he⟩] at hid
      cases hid
    simpa [List.nodup_append] using ⟨topology.ids_nodup, by simpa using hnot⟩
  ranks_known := by
    intro other ho
    rcases List.mem_append.mp ho with ho | ho
    · exact topology.ranks_known other ho
    · rw [List.mem_singleton.mp ho]
      exact hr

/-- Register a dynamic execution group if it is not already known. -/
def ensureGroup (topology : RuntimeTopology) (group : ExecutionGroupSpec) :
    Except PyError (ExecutionGroupSpec × RuntimeTopology) :=
  match hf : topology.find group.groupId with
  | some existing =>
    if existing ≠ group then
      throw (.valueError <| "runtime topology group " ++ quoted group.groupId ++
        " already exists with a different spec")
    else pure (existing, topology)
  | none =>
    match hr : unknownRank topology.workers group with
    | some rank => throw (unknownRankError group rank)
    | none => pure (group, topology.addGroup group hf (ranks_of_unknownRank hr))

theorem ensureGroup_ok {topology topology' : RuntimeTopology}
    (h : topology.ensureGroup group = .ok (result, topology')) :
    result = group ∧ topology'.find group.groupId = some group ∧
      topology'.workers = topology.workers ∧
      ∀ other, other ∈ topology'.groups ↔ other ∈ topology.groups ∨ other = group := by
  unfold ensureGroup at h
  split at h
  · rename_i existing hf
    split at h
    · cases h
    · rename_i heq
      obtain ⟨rfl, rfl⟩ := Prod.mk.inj (Except.pure_eq_ok.mp h)
      obtain rfl : existing = group := by simpa using heq
      refine ⟨rfl, hf, rfl, fun other => ⟨.inl, ?_⟩⟩
      rintro (hm | rfl)
      · exact hm
      · exact (find_eq_some.mp hf).1
  · rename_i hf
    split at h
    · cases h
    · obtain ⟨rfl, rfl⟩ := Prod.mk.inj (Except.pure_eq_ok.mp h)
      exact ⟨rfl, find_eq_some.mpr ⟨by simp [addGroup], rfl⟩, rfl, by simp [addGroup]⟩

/-- A group under a name that is known is the known one. -/
theorem ensureGroup_known {topology topology' : RuntimeTopology}
    (hf : topology.find group.groupId = some existing)
    (h : topology.ensureGroup group = .ok (result, topology')) : existing = group := by
  unfold ensureGroup at h
  split at h
  · rename_i found hfound
    cases hf.symm.trans hfound
    split at h
    · cases h
    · rename_i heq
      simpa using heq
  · rename_i hnone
    rw [hf] at hnone
    cases hnone

/-- A group over workers is refused only for its name. -/
theorem ensureGroup_error {topology : RuntimeTopology}
    (hr : ∀ rank ∈ group.ranks, rank ∈ topology.workers)
    (h : topology.ensureGroup group = .error e) :
    topology.find group.groupId ≠ none ∧
      e = .valueError ("runtime topology group " ++ quoted group.groupId ++
        " already exists with a different spec") := by
  unfold ensureGroup at h
  split at h
  · rename_i existing hfound
    split at h
    · cases h
      exact ⟨by simp [hfound], rfl⟩
    · cases h
  · split at h
    · rename_i rank hunknown
      have hnot := List.find?_some hunknown
      have hm := List.mem_of_find?_eq_some hunknown
      simp only [decide_eq_true_eq] at hnot
      exact absurd (hr rank hm) hnot
    · cases h

end RuntimeTopology

end GfDit
