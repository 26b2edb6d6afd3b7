import GfDit.Lib.Except
import GfDit.Lib.Radix
import GfDit.Protocol
import Mathlib.Algebra.GroupWithZero.Nat
import Mathlib.Data.List.Infix

/-!
# Rank groups from parallel sizes

The rank generator of `parallel_state.py`: ranks are numbered along the
parallel dimensions in the order it is given, and the groups of some of these
dimensions are the ranks that agree along all others. Expert-parallel groups
are consecutive ranks instead.
-/

namespace GfDit

namespace Parallel

-- ---------------------------------------------------------------------------
-- Orthogonal groups
-- ---------------------------------------------------------------------------

def prefixProduct : List Nat → Nat → List Nat
  | [], init => [init]
  | v :: a, init => init :: prefixProduct a (init * v)

def innerProduct (a b : List Nat) : Nat := (List.zipWith (· * ·) a b).sum

def natList (items : List Nat) : String := "[" ++ ", ".intercalate (items.map toString) ++ "]"

def decompose (index : Nat) (shape : List Nat) : Except PyError (List Nat) :=
  let stride := prefixProduct shape 1
  let idx := List.zipWith (fun s d => index / d % s) shape stride
  if innerProduct idx stride.dropLast = index then pure idx
  else throw <| .assertionError <|
    s!"idx {index} with shape {natList shape} mismatch the return idx {natList idx}"

def masked (kept : Bool) (values : List Nat) (mask : List Bool) : List Nat :=
  ((values.zip mask).filter fun entry => entry.2 = kept).map Prod.fst

def generateMaskedOrthogonalRankGroups (worldSize : Nat) (parallelSize : List Nat)
    (mask : List Bool) : Except PyError (List (List Nat)) :=
  let maskedShape := masked true parallelSize mask
  let unmaskedShape := masked false parallelSize mask
  let globalStride := prefixProduct parallelSize 1
  let maskedStride := masked true globalStride mask
  let unmaskedStride := masked false globalStride mask
  let groupSize := (prefixProduct maskedShape 1).getLastD 1
  let numOfGroup := worldSize / groupSize
  (List.range numOfGroup).mapM fun groupIndex => do
    let decomposedGroupIdx ← decompose groupIndex unmaskedShape
    (List.range groupSize).mapM fun rankInGroup => do
      let decomposedRankIdx ← decompose rankInGroup maskedShape
      pure (innerProduct decomposedRankIdx maskedStride +
        innerProduct decomposedGroupIdx unmaskedStride)

-- ---------------------------------------------------------------------------
-- The generator
-- ---------------------------------------------------------------------------

structure ParallelSizes where
  tp : Nat
  sp : Nat
  pp : Nat
  cfg : Nat
  dp : Nat
  fs : Nat
  tp_pos : 0 < tp
  sp_pos : 0 < sp
  pp_pos : 0 < pp
  cfg_pos : 0 < cfg
  dp_pos : 0 < dp
  fs_pos : 0 < fs

namespace ParallelSizes

variable (sizes : ParallelSizes)

def worldSize : Nat := sizes.tp * sizes.sp * sizes.pp * sizes.cfg * sizes.dp

/-- The expert-parallel level excludes the pipeline. -/
def ep : Nat := sizes.tp * sizes.sp * sizes.cfg * sizes.dp

def nameToSize : List (String × Nat) :=
  [("tp", sizes.tp), ("sp", sizes.sp), ("pp", sizes.pp), ("cfg", sizes.cfg), ("dp", sizes.dp),
    ("fs", sizes.fs)]

end ParallelSizes

def tokensOf (text : String) : List String := (text.toList.splitOn '-').map String.ofList

def within (part text : String) : Bool := part.toList <:+: text.toList

structure RankGenerator where
  sizes : ParallelSizes
  order : String
  orderedSize : List Nat
  rankOffset : Int

/-- Dimensions that the order leaves out go to its end, if they are of size one. -/
def completeOrder (sizes : ParallelSizes) (order : String) : Except PyError String :=
  sizes.nameToSize.foldlM (fun order entry =>
    if entry.1 = "fs" then pure order
    else if within entry.1 order = false ∧ entry.2 ≠ 1 then
      throw <| .runtimeError <| s!"The size of ({entry.1}) is ({entry.2}), " ++
        s!"but you haven't specified the order ({order})."
    else if within entry.1 order = false then pure (order ++ "-" ++ entry.1)
    else pure order) order

def RankGenerator.make (sizes : ParallelSizes) (order : String) (rankOffset : Int) :
    Except PyError RankGenerator := do
  let order ← completeOrder sizes order.toLower
  let orderedSize ← (tokensOf order).mapM fun token =>
    match sizes.nameToSize.lookup token with
    | some size => pure size
    | none => throw (.keyError token)
  pure ⟨sizes, order, orderedSize, rankOffset⟩

def getMask (order token : String) : Except PyError (List Bool) :=
  let orderedToken := tokensOf order
  (tokensOf token).foldlM (fun mask t =>
    if t ∈ orderedToken then pure (mask.set (orderedToken.idxOf t) true)
    else throw (.valueError (quoted t ++ " is not in list"))) (orderedToken.map fun _ => false)

def consecutive (start : Int) (count : Nat) : List Int :=
  (List.range count).map fun (i : Nat) => start + i

def RankGenerator.getRanks (generator : RankGenerator) (token : String)
    (independentRanks : Bool) : Except PyError (List (List Int)) :=
  let sizes := generator.sizes
  let offset := generator.rankOffset
  if independentRanks ∧ token = "fs" then
    pure <| (List.range (sizes.worldSize / sizes.fs)).map fun (i : Nat) =>
      consecutive (i * sizes.fs + offset) sizes.fs
  else if token = "ep" then
    pure <| (List.range sizes.pp).map fun (i : Nat) => consecutive (i * sizes.ep + offset) sizes.ep
  else do
    let mask ← getMask generator.order token
    let ranks ← generateMaskedOrthogonalRankGroups sizes.worldSize generator.orderedSize mask
    pure <| ranks.map fun group => group.map fun (rank : Nat) =>
      if 0 < offset then rank + offset else rank

def defaultOrder : String := "tp-sp-pp-cfg-dp"

end Parallel

end GfDit
