import Mathlib.Tactic.Linarith
import Mathlib.Tactic.Ring
import GfDit.Parallel.RankGenerator

/-!
# Rank groups are the rows of a grid

The strides of the generator are those of a mixed radix, so that the groups of
a mask are the rows of its grid and no assertion fails. Consecutive blocks are
the groups without the pipeline only where no larger dimension comes after it.
-/

namespace GfDit

namespace Parallel

open Radix

def digits (index : Nat) (shape stride : List Nat) : List Nat :=
  List.zipWith (fun s d => index / d % s) shape stride

theorem prefixProduct_ne (shape : List Nat) (init : Nat) : prefixProduct shape init ≠ [] := by
  cases shape <;> exact List.cons_ne_nil _ _

theorem dropLast_prefixProduct (s : Nat) (shape : List Nat) (init : Nat) :
    (prefixProduct (s :: shape) init).dropLast =
      init :: (prefixProduct shape (init * s)).dropLast :=
  List.dropLast_cons_of_ne_nil (prefixProduct_ne shape _)

theorem getLastD_prefixProduct (shape : List Nat) (init default : Nat) :
    (prefixProduct shape init).getLastD default = init * shape.prod := by
  induction shape generalizing init default with
  | nil => exact (Nat.mul_one init).symm
  | cons s shape ih =>
    rw [prefixProduct, List.getLastD_cons, ih, List.prod_cons, Nat.mul_assoc]

theorem digits_scaled (index a b : Nat) (shape : List Nat) :
    digits index shape (prefixProduct shape (a * b)) =
      digits (index / a) shape (prefixProduct shape b) := by
  induction shape generalizing b with
  | nil => rfl
  | cons s shape ih =>
    simp only [digits, prefixProduct, List.zipWith_cons_cons] at ih ⊢
    rw [Nat.mul_assoc, ih, Nat.div_div_eq_div_mul]

theorem digits_cons (index s : Nat) (shape : List Nat) :
    digits index (s :: shape) (prefixProduct (s :: shape) 1) =
      index % s :: digits (index / s) shape (prefixProduct shape 1) := by
  rw [← digits_scaled, Nat.mul_one, prefixProduct, digits, List.zipWith_cons_cons, Nat.div_one,
    Nat.one_mul]
  rfl

theorem innerProduct_cons (x y : Nat) (a b : List Nat) :
    innerProduct (x :: a) (y :: b) = x * y + innerProduct a b := by
  simp [innerProduct]

theorem innerProduct_digits {index : Nat} {shape : List Nat} (c : Nat) (h : index < shape.prod) :
    innerProduct (digits index shape (prefixProduct shape 1)) (prefixProduct shape c).dropLast =
      c * index := by
  induction shape generalizing index c with
  | nil =>
    obtain rfl := Nat.lt_one_iff.mp h
    rfl
  | cons s shape ih =>
    rw [List.prod_cons] at h
    rw [digits_cons, dropLast_prefixProduct, innerProduct_cons, ih _ (Nat.div_lt_of_lt_mul h),
      Nat.mul_assoc, Nat.mul_comm _ c, ← Nat.mul_add, Nat.mod_add_div]

theorem decompose_ok {index : Nat} {shape : List Nat} (h : index < shape.prod) :
    decompose index shape = .ok (digits index shape (prefixProduct shape 1)) := by
  refine if_pos ?_
  have hdigits := innerProduct_digits 1 h
  rwa [Nat.one_mul] at hdigits

theorem masked_cons (kept : Bool) (value : Nat) (values : List Nat) (m : Bool) (mask : List Bool) :
    masked kept (value :: values) (m :: mask) =
      if m = kept then value :: masked kept values mask else masked kept values mask := by
  by_cases h : m = kept <;> simp [masked, h]

theorem prod_masked (kept : Bool) (sizes : List Nat) (mask : List Bool) :
    (masked kept sizes mask).prod = volume kept (sizes.zip mask) := by
  induction sizes generalizing mask with
  | nil => rfl
  | cons size sizes ih =>
    cases mask with
    | nil => rfl
    | cons m mask =>
      rw [masked_cons, List.zip_cons_cons, volume, ← ih]
      split
      · exact List.prod_cons
      · rfl

/-- The rank of the masked and the other digits, by the strides of all sizes. -/
theorem innerProduct_masked (c row column : Nat) (sizes : List Nat) (mask : List Bool) :
    innerProduct (digits column (masked true sizes mask) (prefixProduct (masked true sizes mask) 1))
        (masked true (prefixProduct sizes c) mask) +
      innerProduct (digits row (masked false sizes mask)
          (prefixProduct (masked false sizes mask) 1))
        (masked false (prefixProduct sizes c) mask) =
      c * place (sizes.zip mask) row column := by
  induction sizes generalizing mask c row column with
  | nil => rfl
  | cons size sizes ih =>
    cases mask with
    | nil => rfl
    | cons m mask =>
      have hstride : prefixProduct (size :: sizes) c = c :: prefixProduct sizes (c * size) := rfl
      cases m with
      | true =>
        simp only [hstride, masked_cons, if_pos, if_neg Bool.false_ne_true.symm,
          List.zip_cons_cons, place, digits_cons, innerProduct_cons]
        rw [Nat.add_assoc, ih, Nat.mul_add, Nat.mul_comm _ c, Nat.mul_assoc]
      | false =>
        simp only [hstride, masked_cons, if_pos, if_neg Bool.false_ne_true,
          List.zip_cons_cons, place, digits_cons, innerProduct_cons]
        rw [Nat.add_left_comm, ih, Nat.mul_add, Nat.mul_comm _ c, Nat.mul_assoc]

theorem generate_ok {worldSize : Nat} {sizes : List Nat} {mask : List Bool}
    (hpos : Positive (sizes.zip mask)) (hsize : worldSize = total (sizes.zip mask)) :
    generateMaskedOrthogonalRankGroups worldSize sizes mask = .ok (grid (sizes.zip mask)) := by
  have hgroup : (prefixProduct (masked true sizes mask) 1).getLastD 1 =
      volume true (sizes.zip mask) := by
    rw [getLastD_prefixProduct, Nat.one_mul, prod_masked]
  have hcount : worldSize / volume true (sizes.zip mask) = volume false (sizes.zip mask) := by
    rw [hsize, ← volume_mul]
    exact Nat.mul_div_cancel_left _ (Nat.pos_of_ne_zero fun h => by
      have := index_lt hpos true 0
      omega)
  simp only [generateMaskedOrthogonalRankGroups, hgroup, hcount]
  refine Except.mapM_ok fun row hrow => ?_
  rw [decompose_ok (by rw [prod_masked]; exact List.mem_range.mp hrow), Except.ok_bind]
  refine Except.mapM_ok fun column hcolumn => ?_
  rw [decompose_ok (by rw [prod_masked]; exact List.mem_range.mp hcolumn), Except.ok_bind,
    innerProduct_masked, Nat.one_mul]
  rfl

-- ---------------------------------------------------------------------------
-- The default order
-- ---------------------------------------------------------------------------

/-- The dimensions of the default order, with those of a group kept. -/
def ParallelSizes.dims (sizes : ParallelSizes) (tp sp pp cfg dp : Bool) : Dims :=
  [(sizes.tp, tp), (sizes.sp, sp), (sizes.pp, pp), (sizes.cfg, cfg), (sizes.dp, dp)]

theorem ParallelSizes.dims_pos (sizes : ParallelSizes) (tp sp pp cfg dp : Bool) :
    Positive (sizes.dims tp sp pp cfg dp) := by
  simp [Positive, dims, sizes.tp_pos, sizes.sp_pos, sizes.pp_pos, sizes.cfg_pos, sizes.dp_pos]

theorem ParallelSizes.total_dims (sizes : ParallelSizes) (tp sp pp cfg dp : Bool) :
    sizes.worldSize = total (sizes.dims tp sp pp cfg dp) := by
  simp only [worldSize, total, dims, List.map_cons, List.map_nil, List.prod_cons, List.prod_nil,
    Nat.mul_one, Nat.mul_assoc]

def ParallelSizes.generator (sizes : ParallelSizes) (rankOffset : Int) : RankGenerator :=
  ⟨sizes, defaultOrder, [sizes.tp, sizes.sp, sizes.pp, sizes.cfg, sizes.dp], rankOffset⟩

theorem tokensOf_defaultOrder : tokensOf defaultOrder = ["tp", "sp", "pp", "cfg", "dp"] := by
  decide +kernel

theorem completeOrder_default (sizes : ParallelSizes) :
    completeOrder sizes defaultOrder = .ok defaultOrder := by
  have hwithin : within "tp" defaultOrder = true ∧ within "sp" defaultOrder = true ∧
      within "pp" defaultOrder = true ∧ within "cfg" defaultOrder = true ∧
      within "dp" defaultOrder = true := by
    decide +kernel
  obtain ⟨htp, hsp, hpp, hcfg, hdp⟩ := hwithin
  simp [completeOrder, ParallelSizes.nameToSize, htp, hsp, hpp, hcfg, hdp]
  rfl

theorem make_default (sizes : ParallelSizes) (rankOffset : Int) :
    RankGenerator.make sizes defaultOrder rankOffset = .ok (sizes.generator rankOffset) := by
  have hlower : defaultOrder.toLower = defaultOrder := by decide +kernel
  rw [RankGenerator.make, hlower, completeOrder_default, Except.ok_bind, tokensOf_defaultOrder]
  rfl

def shifted (offset : Int) (groups : List (List Nat)) : List (List Int) :=
  groups.map fun group => group.map fun (rank : Nat) => if 0 < offset then rank + offset else rank

theorem getRanks_default (sizes : ParallelSizes) (offset : Int) (tp sp pp cfg dp : Bool)
    {token : String} (hep : token ≠ "ep")
    (hmask : getMask defaultOrder token = .ok [tp, sp, pp, cfg, dp]) :
    (sizes.generator offset).getRanks token false =
      .ok (shifted offset (grid (sizes.dims tp sp pp cfg dp))) := by
  have hgrid : generateMaskedOrthogonalRankGroups sizes.worldSize
      [sizes.tp, sizes.sp, sizes.pp, sizes.cfg, sizes.dp] [tp, sp, pp, cfg, dp] =
        .ok (grid (sizes.dims tp sp pp cfg dp)) :=
    generate_ok (sizes.dims_pos tp sp pp cfg dp) (sizes.total_dims tp sp pp cfg dp)
  simp only [RankGenerator.getRanks, Bool.false_eq_true, false_and, if_false, if_neg hep]
  show (getMask defaultOrder token >>= fun mask =>
    generateMaskedOrthogonalRankGroups sizes.worldSize
      [sizes.tp, sizes.sp, sizes.pp, sizes.cfg, sizes.dp] mask >>= _) = _
  rw [hmask, Except.ok_bind, hgrid, Except.ok_bind]
  rfl

-- ---------------------------------------------------------------------------
-- Expert-parallel groups
-- ---------------------------------------------------------------------------

def groupSets (groups : List (List Int)) : Set (Set Int) :=
  {members | ∃ group ∈ groups, members = {rank | rank ∈ group}}

def stageRanks (sizes : ParallelSizes) (offset : Int) (stage : Nat) : Set Int :=
  {rank | ∃ n < sizes.worldSize, n / (sizes.tp * sizes.sp) % sizes.pp = stage ∧ rank = n + offset}

def pipelineStages (sizes : ParallelSizes) (offset : Int) : Set (Set Int) :=
  {members | ∃ stage < sizes.pp, members = stageRanks sizes offset stage}

def blockRanks (sizes : ParallelSizes) (offset : Int) (block : Nat) : Set Int :=
  {rank | ∃ n < sizes.worldSize, n / sizes.ep = block ∧ rank = n + offset}

variable (sizes : ParallelSizes) (offset : Int)

theorem ParallelSizes.worldSize_eq : sizes.worldSize = sizes.pp * sizes.ep := by
  unfold worldSize ep
  ring

theorem ParallelSizes.ep_pos : 0 < sizes.ep :=
  Nat.mul_pos (Nat.mul_pos (Nat.mul_pos sizes.tp_pos sizes.sp_pos) sizes.cfg_pos) sizes.dp_pos

theorem mem_consecutive_ep {block : Nat} (hblock : block < sizes.pp) (rank : Int) :
    rank ∈ consecutive (block * sizes.ep + offset) sizes.ep ↔
      rank ∈ blockRanks sizes offset block := by
  simp only [consecutive, List.mem_map, List.mem_range, blockRanks, Set.mem_ofPred_eq]
  constructor
  · rintro ⟨i, hi, rfl⟩
    refine ⟨block * sizes.ep + i, ?_, ?_, by push_cast; ring⟩
    · calc block * sizes.ep + i < block * sizes.ep + sizes.ep := Nat.add_lt_add_left hi _
        _ = (block + 1) * sizes.ep := (Nat.succ_mul ..).symm
        _ ≤ sizes.pp * sizes.ep := Nat.mul_le_mul_right _ hblock
        _ = sizes.worldSize := sizes.worldSize_eq.symm
    · rw [Nat.mul_comm, Nat.mul_add_div sizes.ep_pos, Nat.div_eq_of_lt hi, Nat.add_zero]
  · rintro ⟨n, -, rfl, rfl⟩
    refine ⟨n % sizes.ep, Nat.mod_lt _ sizes.ep_pos, ?_⟩
    have hsplit : (n : Int) = n / sizes.ep * sizes.ep + n % sizes.ep := by
      exact_mod_cast (Nat.div_add_mod' n sizes.ep).symm
    push_cast
    linarith

theorem groupSets_ep : ∃ groups, (sizes.generator offset).getRanks "ep" false = .ok groups ∧
    ∀ members, members ∈ groupSets groups ↔
      ∃ block < sizes.pp, members = blockRanks sizes offset block := by
  refine ⟨_, rfl, fun members => ?_⟩
  have hset : ∀ block < sizes.pp,
      {rank | rank ∈ consecutive (block * sizes.ep + offset) sizes.ep} =
        blockRanks sizes offset block :=
    fun block hblock => Set.ext fun rank => mem_consecutive_ep sizes offset hblock rank
  constructor
  · rintro ⟨_, hm, rfl⟩
    obtain ⟨block, hblock, rfl⟩ := List.mem_map.mp hm
    have hblock := List.mem_range.mp hblock
    exact ⟨block, hblock, hset block hblock⟩
  · rintro ⟨block, hblock, rfl⟩
    exact ⟨_, List.mem_map_of_mem (List.mem_range.mpr hblock), (hset block hblock).symm⟩

def atOffset (offset : Int) (n : Nat) : Int := if 0 < offset then n + offset else n

theorem atOffset_nonneg (n : Nat) : 0 ≤ atOffset offset n := by
  unfold atOffset
  split <;> omega

theorem atOffset_eq (h : 0 ≤ offset) (n : Nat) : atOffset offset n = n + offset := by
  unfold atOffset
  split <;> omega

theorem groupSets_rest : ∃ groups,
    (sizes.generator offset).getRanks "tp-sp-cfg-dp" false = .ok groups ∧
    ∀ members, members ∈ groupSets groups ↔ ∃ stage < sizes.pp, members =
      {rank | ∃ n < sizes.worldSize, n / (sizes.tp * sizes.sp) % sizes.pp = stage ∧
        rank = atOffset offset n} := by
  refine ⟨_, getRanks_default sizes offset true true false true true (by decide)
    (by decide +kernel), fun members => ?_⟩
  have hvolume : volume false (sizes.dims true true false true true) = sizes.pp := by
    simp [volume, ParallelSizes.dims]
  have hstage : ∀ n, index false (sizes.dims true true false true true) n =
      n / (sizes.tp * sizes.sp) % sizes.pp := by
    intro n
    simp [index, ParallelSizes.dims, Nat.div_div_eq_div_mul]
  have hrow : ∀ stage < sizes.pp, ∀ n, n ∈ (List.range (volume true
      (sizes.dims true true false true true))).map (place (sizes.dims true true false true true)
        stage) ↔ n < sizes.worldSize ∧ n / (sizes.tp * sizes.sp) % sizes.pp = stage := by
    intro stage hlt n
    rw [mem_row (sizes.dims_pos true true false true true) (hvolume.symm ▸ hlt), hstage,
      ← sizes.total_dims]
  have hset : ∀ stage < sizes.pp, {rank | rank ∈ ((List.range (volume true
      (sizes.dims true true false true true))).map (place (sizes.dims true true false true true)
        stage)).map (atOffset offset)} = {rank | ∃ n < sizes.worldSize,
          n / (sizes.tp * sizes.sp) % sizes.pp = stage ∧ rank = atOffset offset n} := by
    intro stage hlt
    ext rank
    rw [Set.mem_ofPred_eq, List.mem_map]
    exact exists_congr fun n => by rw [hrow stage hlt, and_assoc, eq_comm (b := rank)]
  constructor
  · rintro ⟨_, hm, rfl⟩
    obtain ⟨_, hrow, rfl⟩ := List.mem_map.mp hm
    obtain ⟨stage, hlt, rfl⟩ := mem_grid.mp hrow
    rw [hvolume] at hlt
    exact ⟨stage, hlt, hset stage hlt⟩
  · rintro ⟨stage, hlt, rfl⟩
    refine ⟨_, List.mem_map_of_mem (mem_grid.mpr ⟨stage, hvolume.symm ▸ hlt, rfl⟩), ?_⟩
    exact (hset stage hlt).symm

theorem block_eq_stage (h : sizes.pp = 1 ∨ (sizes.cfg = 1 ∧ sizes.dp = 1)) {n : Nat}
    (hn : n < sizes.worldSize) : n / sizes.ep = n / (sizes.tp * sizes.sp) % sizes.pp := by
  rcases h with hpp | ⟨hcfg, hdp⟩
  · rw [sizes.worldSize_eq, hpp, Nat.one_mul] at hn
    rw [Nat.div_eq_of_lt hn, hpp, Nat.mod_one]
  · have hep : sizes.ep = sizes.tp * sizes.sp := by
      rw [ParallelSizes.ep, hcfg, hdp, Nat.mul_one, Nat.mul_one]
    rw [sizes.worldSize_eq, hep] at hn
    rw [hep, Nat.mod_eq_of_lt (Nat.div_lt_of_lt_mul (Nat.mul_comm .. ▸ hn))]

/-- Two ranks next to each other in the pipeline are in the first block. -/
theorem stages_differ (hpp : sizes.pp ≠ 1) (hlater : ¬ (sizes.cfg = 1 ∧ sizes.dp = 1)) :
    sizes.tp * sizes.sp < sizes.ep ∧ 1 % sizes.pp = 1 := by
  have hlower : 0 < sizes.tp * sizes.sp := Nat.mul_pos sizes.tp_pos sizes.sp_pos
  have hlarge : 1 < sizes.cfg * sizes.dp := by
    rcases Nat.lt_or_ge 1 (sizes.cfg * sizes.dp) with h | h
    · exact h
    · have hone : sizes.cfg * sizes.dp = 1 :=
        le_antisymm h (Nat.mul_pos sizes.cfg_pos sizes.dp_pos)
      exact absurd ⟨Nat.eq_one_of_mul_eq_one_right hone, Nat.eq_one_of_mul_eq_one_left hone⟩ hlater
  refine ⟨?_, Nat.mod_eq_of_lt (lt_of_le_of_ne sizes.pp_pos (Ne.symm hpp))⟩
  calc sizes.tp * sizes.sp < sizes.tp * sizes.sp * (sizes.cfg * sizes.dp) :=
        lt_mul_of_one_lt_right hlower hlarge
    _ = sizes.ep := by rw [ParallelSizes.ep, Nat.mul_assoc (sizes.tp * sizes.sp)]

/-- Expert-parallel groups are the stages of the pipeline, and the groups of all
other dimensions, exactly when there is one stage or nothing above the pipeline. -/
theorem ep_groups_are_stages_iff : ∃ generator groups rest,
    RankGenerator.make sizes defaultOrder offset = .ok generator ∧
    generator.getRanks "ep" false = .ok groups ∧
    generator.getRanks "tp-sp-cfg-dp" false = .ok rest ∧
    ((groupSets groups = pipelineStages sizes offset ∧ groupSets groups = groupSets rest) ↔
      0 ≤ offset ∧ (sizes.pp = 1 ∨ (sizes.cfg = 1 ∧ sizes.dp = 1))) := by
  obtain ⟨groups, hgroups, hblocks⟩ := groupSets_ep sizes offset
  obtain ⟨rest, hrest, hstages⟩ := groupSets_rest sizes offset
  refine ⟨_, groups, rest, make_default sizes offset, hgroups, hrest, ?_, ?_⟩
  · rintro ⟨hpipeline, hsame⟩
    have hfirst : blockRanks sizes offset 0 ∈ groupSets groups :=
      (hblocks _).mpr ⟨0, sizes.pp_pos, rfl⟩
    have hworld : sizes.ep ≤ sizes.worldSize := by
      rw [sizes.worldSize_eq]
      exact Nat.le_mul_of_pos_left _ sizes.pp_pos
    have hzero : (offset : Int) ∈ blockRanks sizes offset 0 :=
      ⟨0, sizes.ep_pos.trans_le hworld, Nat.zero_div _, by simp⟩
    constructor
    · rw [hsame] at hfirst
      obtain ⟨stage, -, heq⟩ := (hstages _).mp hfirst
      obtain ⟨n, -, -, hn⟩ := heq ▸ hzero
      exact hn ▸ atOffset_nonneg offset n
    · by_contra hsizes
      obtain ⟨hpp, hlater⟩ := not_or.mp hsizes
      obtain ⟨hlt, hone⟩ := stages_differ sizes hpp hlater
      rw [hpipeline] at hfirst
      obtain ⟨stage, -, heq⟩ := hfirst
      obtain ⟨n, -, hstage, hn⟩ := heq ▸ hzero
      obtain rfl : n = 0 := by omega
      have hnext : ((sizes.tp * sizes.sp : Nat) : Int) + offset ∈ blockRanks sizes offset 0 :=
        ⟨_, hlt.trans_le hworld, Nat.div_eq_of_lt hlt, rfl⟩
      obtain ⟨n, -, hnstage, hn⟩ := heq ▸ hnext
      obtain rfl : n = sizes.tp * sizes.sp := by omega
      rw [Nat.div_self (Nat.mul_pos sizes.tp_pos sizes.sp_pos), hone] at hnstage
      rw [Nat.zero_div, Nat.zero_mod] at hstage
      exact Nat.one_ne_zero (hnstage.trans hstage.symm)
  · rintro ⟨hoffset, hsizes⟩
    have hblock : ∀ k, blockRanks sizes offset k = stageRanks sizes offset k := by
      intro k
      ext rank
      refine exists_congr fun n => and_congr_right fun hn => ?_
      rw [block_eq_stage sizes hsizes hn]
    have hpipeline : groupSets groups = pipelineStages sizes offset := by
      ext members
      rw [hblocks]
      exact exists_congr fun k => by rw [hblock]
    refine ⟨hpipeline, hpipeline.trans ?_⟩
    ext members
    rw [hstages]
    simp only [atOffset_eq offset hoffset]
    rfl

def twoStages : ParallelSizes :=
  ⟨1, 1, 2, 2, 1, 1, Nat.one_pos, Nat.one_pos, Nat.two_pos, Nat.two_pos, Nat.one_pos, Nat.one_pos⟩

/-- The first two ranks are different stages and make up one group. -/
theorem ep_groups_mix_stages : ∃ generator groups rest,
    RankGenerator.make twoStages defaultOrder 0 = .ok generator ∧
    generator.getRanks "ep" false = .ok groups ∧
    generator.getRanks "tp-sp-cfg-dp" false = .ok rest ∧
    groups = [[0, 1], [2, 3]] ∧ rest = [[0, 2], [1, 3]] ∧
    ¬ (groupSets groups = pipelineStages twoStages 0 ∧ groupSets groups = groupSets rest) := by
  refine ⟨_, _, _, make_default twoStages 0, rfl, ?_, rfl, rfl, ?_⟩
  · exact getRanks_default twoStages 0 true true false true true (by decide) (by decide +kernel)
  · rintro ⟨-, hsame⟩
    have hfirst : {rank : Int | rank ∈ [(0 : Int), 1]} ∈ groupSets [[0, 1], [2, 3]] :=
      ⟨[0, 1], List.mem_cons_self .., rfl⟩
    obtain ⟨group, hm, heq⟩ := (congrArg (_ ∈ ·) hsame).mp hfirst
    have hmem : ∀ rank ∈ [(0 : Int), 1], rank ∈ group := fun rank h =>
      (congrArg (rank ∈ ·) heq).mp h
    have hnone : ∀ group ∈ [[(0 : Int), 2], [1, 3]], ¬ ∀ rank ∈ [(0 : Int), 1], rank ∈ group := by
      decide
    exact hnone group hm hmem

end Parallel

end GfDit
