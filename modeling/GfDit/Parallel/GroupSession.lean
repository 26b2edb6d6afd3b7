import Mathlib.Data.Finset.Dedup
import GfDit.Parallel.RankGenerator

/-!
# The session of an execution group

What a worker builds for each execution group, after
`_build_runtime_v2_group_session`: the rank groups along every dimension and,
within its sequence-parallel group, a Ulysses and a Ring group. Groups are
process groups, which every worker takes part in making, or logical ones.
-/

namespace GfDit

namespace Parallel

/-- A group as its members validated it. -/
structure GroupSpec where
  groupId : String
  ranks : List Rank
  tp : Nat
  sp : Nat
  cfg : Nat
  ulyssesDegree : Nat
  ringDegree : Nat
  tp_pos : 0 < tp
  sp_pos : 0 < sp
  cfg_pos : 0 < cfg
  sp_eq : sp = ulyssesDegree * ringDegree
  size : ranks.length = tp * sp * cfg

/-- A process group has no order of its own. -/
inductive SubgroupHandle
  | process (members : Finset Rank)
  | logical (ranks : List Rank) (groupId : String) (unique : ranks.Nodup)

def SubgroupHandle.members : SubgroupHandle → Finset Rank
  | .process members => members
  | .logical ranks _ _ => ranks.toFinset

def newGroup (ranks : List Rank) : SubgroupHandle := .process ranks.toFinset

def makeLogicalGroup (ranks : List Rank) (groupId : String) : Except PyError SubgroupHandle :=
  if h : ranks.Nodup then pure (.logical ranks groupId h)
  else throw (.valueError s!"logical group ranks must be unique, got {natTuple ranks}")

-- ---------------------------------------------------------------------------
-- Ulysses and Ring groups
-- ---------------------------------------------------------------------------

def slice (values : List Rank) (start stop : Nat) : List Rank :=
  (values.drop start).take (stop - start)

def strided (values : List Rank) (start step : Nat) : List Rank :=
  (List.range ((values.length - start + step - 1) / step)).filterMap fun k =>
    values[start + k * step]?

def ulyssesRanks (spGroupRanks : List Rank) (ulyssesDegree ringDegree : Nat)
    (useUlyssesLow : Bool) (i : Nat) : List Rank :=
  if useUlyssesLow then slice spGroupRanks (i * ulyssesDegree) ((i + 1) * ulyssesDegree)
  else strided spGroupRanks i ringDegree

def ringRanks (spGroupRanks : List Rank) (ulyssesDegree ringDegree : Nat)
    (useUlyssesLow : Bool) (i : Nat) : List Rank :=
  if useUlyssesLow then strided spGroupRanks i ulyssesDegree
  else slice spGroupRanks (i * ringDegree) ((i + 1) * ringDegree)

def localGroup (ranksOf : Nat → List Rank) (make : Nat → List Rank → Except PyError SubgroupHandle)
    (rank : Rank) (count : Nat) : Except PyError (Option SubgroupHandle) :=
  (List.range count).foldlM (fun found i =>
    if rank ∈ ranksOf i then some <$> make i (ranksOf i) else pure found) none

def spSubgroups (make : String → Nat → List Rank → Except PyError SubgroupHandle)
    (spGroupRanks : List Rank) (ulyssesDegree ringDegree : Nat) (rank : Rank)
    (useUlyssesLow : Bool) : Except PyError (Option SubgroupHandle × Option SubgroupHandle) :=
  if spGroupRanks.length ≠ ulyssesDegree * ringDegree then
    throw <| .valueError <| s!"invalid SP group size {spGroupRanks.length} for " ++
      s!"ulysses_degree={ulyssesDegree}, ring_degree={ringDegree}"
  else do
    let ulysses ← localGroup (ulyssesRanks spGroupRanks ulyssesDegree ringDegree useUlyssesLow)
      (make "ulysses") rank ringDegree
    let ring ← localGroup (ringRanks spGroupRanks ulyssesDegree ringDegree useUlyssesLow)
      (make "ring") rank ulyssesDegree
    pure (ulysses, ring)

def createSpSubgroupsForOneSpGroup :=
  spSubgroups fun _ _ ranks => pure (newGroup ranks)

def createLogicalSpSubgroupsForOneSpGroup (groupIdPrefix : String) :=
  spSubgroups fun kind i ranks => makeLogicalGroup ranks s!"{groupIdPrefix}:{kind}:{i}"

-- ---------------------------------------------------------------------------
-- Coordinators
-- ---------------------------------------------------------------------------

structure Coordinator where
  ranks : List Rank
  rankInGroup : Nat
  deriving DecidableEq

def coordinates (rank : Rank) (ranks : List Rank) : Coordinator := ⟨ranks, ranks.idxOf rank⟩

/-- `GroupCoordinator` takes the last group that has the rank, and
`LogicalGroupCoordinator` the first. -/
def coordinator (logicalGroup : Bool) (groupRanks : List (List Rank)) (rank : Rank) :
    Option Coordinator :=
  let own := groupRanks.filter fun ranks => rank ∈ ranks
  (if logicalGroup then own.head? else own.getLast?).map (coordinates rank)

/-- The coordinator of a sequence-parallel group needs the two subgroups. -/
structure SequenceCoordinator where
  coordinator : Coordinator
  ulyssesGroup : SubgroupHandle
  ringGroup : SubgroupHandle

def missingSubgroup (argument : String) (logicalGroup : Bool) : PyError :=
  .runtimeError <| s!"Please pass argument '{argument}' when calling init func of " ++
    (if logicalGroup then "Logical" else "") ++ "SequenceParallelGroupCoordinator"

def sequenceCoordinator (logicalGroup : Bool) (groupRanks : List (List Rank)) (rank : Rank)
    (ulyssesGroup ringGroup : Option SubgroupHandle) :
    Except PyError (Option SequenceCoordinator) :=
  match coordinator logicalGroup groupRanks rank with
  | none => pure none
  | some own =>
    match ulyssesGroup, ringGroup with
    | none, _ => throw (missingSubgroup "ulysses_group" logicalGroup)
    | some _, none => throw (missingSubgroup "ring_group" logicalGroup)
    | some ulysses, some ring => pure (some ⟨own, ulysses, ring⟩)

-- ---------------------------------------------------------------------------
-- Sessions
-- ---------------------------------------------------------------------------

def globalRank (globalRanks : List Rank) (localRank : Int) : Except PyError Rank :=
  let i := if localRank < 0 then localRank + globalRanks.length else localRank
  if 0 ≤ i ∧ i < globalRanks.length then pure (globalRanks.getD i.toNat 0)
  else throw (.indexError "list index out of range")

def remapLocalRankGroups (localGroups : List (List Int)) (globalRanks : List Rank) :
    Except PyError (List (List Rank)) :=
  localGroups.mapM fun localGroup => localGroup.mapM (globalRank globalRanks)

def validateGfcGroup (spec : GroupSpec) : Except PyError Unit :=
  if spec.tp ≠ 1 then
    throw <| .valueError <| "runtime_v2_collective_backend='gfc' does not replace tensor-parallel " ++
      "all_reduce in v1; group " ++ quoted spec.groupId ++ " must use tp=1"
  else if spec.cfg ≠ 1 then
    throw <| .valueError <| "runtime_v2_collective_backend='gfc' does not replace CFG collectives " ++
      "in v1; group " ++ quoted spec.groupId ++ " must use cfg=1"
  else if 16 < spec.ranks.length then
    throw <| .valueError <| "runtime_v2_collective_backend='gfc' supports execution groups of at " ++
      "most 16 ranks in v1; group " ++ quoted spec.groupId ++ s!" has {spec.ranks.length} ranks"
  else pure ()

structure Session where
  dp : Option Coordinator
  cfg : Option Coordinator
  pp : Option Coordinator
  sp : Option SequenceCoordinator
  tp : Option Coordinator
  fs : Option Coordinator
  dit : SubgroupHandle

def GroupSpec.sizes (spec : GroupSpec) : ParallelSizes :=
  ⟨spec.tp, spec.sp, 1, spec.cfg, 1, 1, spec.tp_pos, spec.sp_pos, Nat.one_pos, spec.cfg_pos,
    Nat.one_pos, Nat.one_pos⟩

def GroupSpec.rankGroups (spec : GroupSpec) (token : String) (independentRanks : Bool) :
    Except PyError (List (List Rank)) := do
  let generator ← RankGenerator.make spec.sizes defaultOrder 0
  remapLocalRankGroups (← generator.getRanks token independentRanks) spec.ranks

def GroupSpec.subgroups (spec : GroupSpec) (spGroups : List (List Rank)) (rank : Rank)
    (logicalGroup : Bool) : Except PyError (Option SubgroupHandle × Option SubgroupHandle) :=
  spGroups.zipIdx.foldlM (fun found one => do
    let (ulysses, ring) ←
      if logicalGroup then
        createLogicalSpSubgroupsForOneSpGroup s!"{spec.groupId}:sp:{one.2}" one.1
          spec.ulyssesDegree spec.ringDegree rank true
      else
        createSpSubgroupsForOneSpGroup one.1 spec.ulyssesDegree spec.ringDegree rank true
    pure (ulysses.or found.1, ring.or found.2)) (none, none)

def GroupSpec.buildSession (spec : GroupSpec) (rank : Rank) (logicalGroup : Bool) :
    Except PyError (Option Session) :=
  if logicalGroup ∧ rank ∉ spec.ranks then pure none
  else do
    if logicalGroup then validateGfcGroup spec
    let dpGroups ← spec.rankGroups "dp" false
    let cfgGroups ← spec.rankGroups "cfg" false
    let ppGroups ← spec.rankGroups "pp" false
    let spGroups ← spec.rankGroups "sp" false
    let tpGroups ← spec.rankGroups "tp" false
    let fsGroups ← spec.rankGroups "fs" true
    let (ulysses, ring) ← spec.subgroups spGroups rank logicalGroup
    let own := fun groups => coordinator logicalGroup groups rank
    let sp ← sequenceCoordinator logicalGroup spGroups rank ulysses ring
    let dit ← if logicalGroup then makeLogicalGroup spec.ranks s!"{spec.groupId}:dit"
      else pure (newGroup spec.ranks)
    if rank ∉ spec.ranks then pure none
    else if ulysses.isNone ∨ ring.isNone then
      throw <| .runtimeError <| s!"failed to resolve ulysses/ring subgroup for rank {rank} " ++
        "in runtime_v2 group " ++ quoted spec.groupId
    else
      pure (some ⟨own dpGroups, own cfgGroups, own ppGroups, sp, own tpGroups, own fsGroups, dit⟩)

end Parallel

end GfDit
