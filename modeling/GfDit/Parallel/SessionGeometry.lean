import GfDit.Layout
import GfDit.Parallel.GroupSession
import GfDit.Parallel.RankGroups

/-!
# The geometry of a session

The groups of a session are the ranks in the rows of a grid, and so are the
Ulysses and Ring groups within one sequence-parallel group, on a grid and on
the one flipped. Every rank finds the groups and the place in them that its
index in the execution group says, whichever builder makes them.
-/

namespace GfDit

namespace Parallel

open Radix

-- ---------------------------------------------------------------------------
-- Ulysses and Ring groups
-- ---------------------------------------------------------------------------

section Subgroups

variable {ranks : List Rank} {ulyssesDegree ringDegree : Nat}

def ulyssesDims (ulyssesDegree ringDegree : Nat) (useUlyssesLow : Bool) : Dims :=
  if useUlyssesLow then [(ulyssesDegree, true), (ringDegree, false)]
  else [(ringDegree, false), (ulyssesDegree, true)]

theorem slice_eq_rowOf {count width i : Nat} (hlen : ranks.length = width * count)
    (hi : i < count) : slice ranks (i * width) ((i + 1) * width) =
      rowOf ranks [(width, true), (count, false)] i := by
  have hwidth : (i + 1) * width - i * width = width := by
    rw [Nat.succ_mul, Nat.add_sub_cancel_left]
  have hfits : i * width + width ≤ ranks.length := by
    rw [hlen, ← Nat.succ_mul, Nat.mul_comm width]
    exact Nat.mul_le_mul_right _ hi
  refine List.ext_getElem ?_ fun n hn hr => ?_
  · rw [slice, hwidth, List.length_take, List.length_drop, length_rowOf]
    simp only [volume, if_pos, if_neg Bool.false_ne_true, Nat.mul_one]
    omega
  · rw [length_rowOf] at hr
    simp only [volume, if_pos, if_neg Bool.false_ne_true, Nat.mul_one] at hr
    have hplace : place [(width, true), (count, false)] i n = i * width + n := by
      simp only [place, Nat.mod_eq_of_lt hr, Nat.mod_eq_of_lt hi, Nat.mul_zero, Nat.add_zero]
      rw [Nat.mul_comm, Nat.add_comm]
    simp only [slice, rowOf, List.getElem_take, List.getElem_drop, List.getElem_map,
      List.getElem_range, hplace, List.getD_eq_getElem?_getD,
      List.getElem?_eq_getElem (by omega : i * width + n < ranks.length), Option.getD_some]

theorem strided_eq_rowOf {count step i : Nat} (hlen : ranks.length = step * count)
    (hi : i < step) : strided ranks i step = rowOf ranks [(step, false), (count, true)] i := by
  have hcount : (ranks.length - i + step - 1) / step = count := by
    rcases count.eq_zero_or_pos with rfl | hpos
    · rw [hlen, Nat.mul_zero, Nat.zero_sub, Nat.zero_add]
      exact Nat.div_eq_of_lt (by omega)
    · have hle : step ≤ step * count := Nat.le_mul_of_pos_right _ hpos
      rw [hlen, show step * count - i + step - 1 = (step - 1 - i) + step * count by omega,
        Nat.add_mul_div_left _ _ (by omega), Nat.div_eq_of_lt (by omega), Nat.zero_add]
  have hplace : ∀ k < count, place [(step, false), (count, true)] i k = i + k * step := by
    intro k hk
    simp only [place, Nat.mod_eq_of_lt hi, Nat.mod_eq_of_lt hk, Nat.mul_zero, Nat.add_zero]
    rw [Nat.mul_comm]
  have hget : ∀ k < count, ranks[i + k * step]? =
      some (ranks.getD (place [(step, false), (count, true)] i k) default) := by
    intro k hk
    have hlt : i + k * step < ranks.length := by
      calc i + k * step < step + k * step := Nat.add_lt_add_right hi _
        _ = step * (k + 1) := by rw [Nat.mul_succ, Nat.mul_comm, Nat.add_comm]
        _ ≤ ranks.length := hlen ▸ Nat.mul_le_mul_left _ hk
    rw [hplace k hk, List.getD_eq_getElem?_getD, List.getElem?_eq_getElem hlt, Option.getD_some]
  have hvolume : volume true [(step, false), (count, true)] = count := by
    simp only [volume, if_pos, if_neg Bool.false_ne_true, Nat.mul_one]
  rw [strided, hcount, rowOf, hvolume, List.map_map]
  rw [← List.filterMap_eq_map]
  exact List.filterMap_congr fun k hk => hget k (List.mem_range.mp hk)

theorem ulyssesRanks_eq (hlen : ranks.length = ulyssesDegree * ringDegree) (low : Bool) {i : Nat}
    (hi : i < ringDegree) : ulyssesRanks ranks ulyssesDegree ringDegree low i =
      rowOf ranks (ulyssesDims ulyssesDegree ringDegree low) i := by
  cases low with
  | true => exact slice_eq_rowOf hlen hi
  | false => exact strided_eq_rowOf (hlen.trans (Nat.mul_comm ..)) hi

theorem ringRanks_eq (hlen : ranks.length = ulyssesDegree * ringDegree) (low : Bool) {i : Nat}
    (hi : i < ulyssesDegree) : ringRanks ranks ulyssesDegree ringDegree low i =
      rowOf ranks (flip (ulyssesDims ulyssesDegree ringDegree low)) i := by
  cases low with
  | true => exact strided_eq_rowOf hlen hi
  | false => exact slice_eq_rowOf (hlen.trans (Nat.mul_comm ..)) hi

theorem volume_ulyssesDims (ulyssesDegree ringDegree : Nat) (low : Bool) :
    volume true (ulyssesDims ulyssesDegree ringDegree low) = ulyssesDegree ∧
      volume false (ulyssesDims ulyssesDegree ringDegree low) = ringDegree := by
  cases low <;> simp [ulyssesDims, volume]

theorem total_ulyssesDims (low : Bool) :
    total (ulyssesDims ulyssesDegree ringDegree low) = ulyssesDegree * ringDegree := by
  rw [← volume_mul, (volume_ulyssesDims ..).1, (volume_ulyssesDims ..).2]

theorem ulyssesDims_pos (hu : 0 < ulyssesDegree) (hr : 0 < ringDegree) (low : Bool) :
    Positive (ulyssesDims ulyssesDegree ringDegree low) := by
  cases low <;> simp [Positive, ulyssesDims, hu, hr]

theorem localGroup_own {ranksOf : Nat → List Rank}
    {make : Nat → List Rank → Except PyError SubgroupHandle} {rank : Rank} {count k : Nat}
    {handle : SubgroupHandle} (hk : k < count) (hown : ∀ i < count, rank ∈ ranksOf i ↔ i = k)
    (hmake : make k (ranksOf k) = .ok handle) :
    localGroup ranksOf make rank count = .ok (some handle) := by
  have hloop : ∀ (rounds : List Nat) (found : Option SubgroupHandle), (∀ i ∈ rounds, i < count) →
      rounds.foldlM (fun found i =>
        if rank ∈ ranksOf i then some <$> make i (ranksOf i) else pure found) found =
          .ok (if k ∈ rounds then some handle else found) := by
    intro rounds
    induction rounds with
    | nil => exact fun found _ => rfl
    | cons i rounds ih =>
      intro found hrounds
      obtain ⟨hi, hrest⟩ := List.forall_mem_cons.mp hrounds
      rw [List.foldlM_cons]
      by_cases hik : i = k
      · subst hik
        rw [if_pos ((hown i hi).mpr rfl), hmake]
        show rounds.foldlM _ _ = _
        rw [ih _ hrest, if_pos (List.mem_cons_self ..), ite_self]
      · rw [if_neg fun hm => hik ((hown i hi).mp hm)]
        show rounds.foldlM _ _ = _
        rw [ih _ hrest]
        simp [Ne.symm hik]
  rw [localGroup, hloop _ none fun i hi => List.mem_range.mp hi, if_pos (List.mem_range.mpr hk)]

theorem localGroup_other {ranksOf : Nat → List Rank}
    {make : Nat → List Rank → Except PyError SubgroupHandle} {rank : Rank} {count : Nat}
    (h : ∀ i < count, rank ∉ ranksOf i) : localGroup ranksOf make rank count = .ok none := by
  have hloop : ∀ rounds : List Nat, (∀ i ∈ rounds, i < count) →
      rounds.foldlM (fun found i =>
        if rank ∈ ranksOf i then some <$> make i (ranksOf i) else pure found) none = .ok none := by
    intro rounds
    induction rounds with
    | nil => exact fun _ => rfl
    | cons i rounds ih =>
      intro hrounds
      obtain ⟨hi, hrest⟩ := List.forall_mem_cons.mp hrounds
      rw [List.foldlM_cons, if_neg (h i hi)]
      exact ih hrest
  exact hloop _ fun i hi => List.mem_range.mp hi

variable {make : String → Nat → List Rank → Except PyError SubgroupHandle}

/-- A rank of the group is in one Ulysses and in one Ring group. -/
theorem spSubgroups_own {n : Nat} {ulysses ring : SubgroupHandle} (low : Bool)
    (hlen : ranks.length = ulyssesDegree * ringDegree) (hnodup : ranks.Nodup)
    (hn : n < ranks.length)
    (hulysses : make "ulysses" (index false (ulyssesDims ulyssesDegree ringDegree low) n)
      (rowOf ranks (ulyssesDims ulyssesDegree ringDegree low)
        (index false (ulyssesDims ulyssesDegree ringDegree low) n)) = .ok ulysses)
    (hring : make "ring" (index true (ulyssesDims ulyssesDegree ringDegree low) n)
      (rowOf ranks (flip (ulyssesDims ulyssesDegree ringDegree low))
        (index true (ulyssesDims ulyssesDegree ringDegree low) n)) = .ok ring) :
    spSubgroups make ranks ulyssesDegree ringDegree ranks[n] low =
      .ok (some ulysses, some ring) := by
  have hsize : 0 < ulyssesDegree * ringDegree := hlen ▸ Nat.zero_lt_of_lt hn
  have hpos := ulyssesDims_pos (Nat.pos_of_mul_pos_right hsize) (Nat.pos_of_mul_pos_left hsize) low
  have htotal : ranks.length = total (ulyssesDims ulyssesDegree ringDegree low) :=
    hlen.trans (total_ulyssesDims low).symm
  obtain ⟨hcolumns, hrows⟩ := volume_ulyssesDims ulyssesDegree ringDegree low
  have hrow := index_lt hpos false n
  have hcolumn := index_lt hpos true n
  rw [hrows] at hrow
  rw [hcolumns] at hcolumn
  have hfirst : localGroup (ulyssesRanks ranks ulyssesDegree ringDegree low) (make "ulysses")
      ranks[n] ringDegree = .ok (some ulysses) := by
    refine localGroup_own hrow (fun i hi => ?_) ?_
    · rw [ulyssesRanks_eq hlen low hi, getElem_mem_rowOf hpos htotal hnodup (hrows.symm ▸ hi), eq_comm]
    · rw [ulyssesRanks_eq hlen low hrow, hulysses]
  have hsecond : localGroup (ringRanks ranks ulyssesDegree ringDegree low) (make "ring")
      ranks[n] ulyssesDegree = .ok (some ring) := by
    refine localGroup_own hcolumn (fun i hi => ?_) ?_
    · rw [ringRanks_eq hlen low hi, getElem_mem_rowOf hpos.flip (htotal.trans (total_flip _).symm)
        hnodup (by rw [volume_flip]; exact hcolumns.symm ▸ hi), index_flip, eq_comm]
      rfl
    · rw [ringRanks_eq hlen low hcolumn, hring]
  rw [spSubgroups, if_neg (not_not_intro hlen), hfirst, Except.ok_bind, hsecond]
  rfl

theorem spSubgroups_other {rank : Rank} (low : Bool)
    (hlen : ranks.length = ulyssesDegree * ringDegree) (hsize : 0 < ulyssesDegree * ringDegree)
    (hrank : rank ∉ ranks) :
    spSubgroups make ranks ulyssesDegree ringDegree rank low = .ok (none, none) := by
  have hpos := ulyssesDims_pos (Nat.pos_of_mul_pos_right hsize) (Nat.pos_of_mul_pos_left hsize) low
  have htotal : ranks.length = total (ulyssesDims ulyssesDegree ringDegree low) :=
    hlen.trans (total_ulyssesDims low).symm
  obtain ⟨hcolumns, hrows⟩ := volume_ulyssesDims ulyssesDegree ringDegree low
  rw [spSubgroups, if_neg (not_not_intro hlen), localGroup_other fun i hi hm => ?_, Except.ok_bind,
    localGroup_other fun i hi hm => ?_]
  · rfl
  · rw [ringRanks_eq hlen low hi] at hm
    refine hrank (mem_of_mem_rowOf hpos.flip (htotal.trans (total_flip _).symm) ?_ hm)
    rw [volume_flip]
    exact hcolumns.symm ▸ hi
  · rw [ulyssesRanks_eq hlen low hi] at hm
    exact hrank (mem_of_mem_rowOf hpos htotal (hrows.symm ▸ hi) hm)

def makeSubgroup (logicalGroup : Bool) (groupIdPrefix kind : String) (i : Nat)
    (ranks : List Rank) : Except PyError SubgroupHandle :=
  if logicalGroup then makeLogicalGroup ranks s!"{groupIdPrefix}:{kind}:{i}"
  else pure (newGroup ranks)

theorem makeSubgroup_ok (logicalGroup : Bool) (groupIdPrefix kind : String) (i : Nat)
    (h : ranks.Nodup) : ∃ handle, makeSubgroup logicalGroup groupIdPrefix kind i ranks =
      .ok handle ∧ handle.members = ranks.toFinset := by
  cases logicalGroup with
  | true => exact ⟨.logical ranks _ h, dif_pos h, rfl⟩
  | false => exact ⟨newGroup ranks, rfl, rfl⟩

def createSubgroups (logicalGroup : Bool) (groupIdPrefix : String) (ranks : List Rank)
    (ulyssesDegree ringDegree : Nat) (rank : Rank) (low : Bool) :
    Except PyError (Option SubgroupHandle × Option SubgroupHandle) :=
  if logicalGroup then
    createLogicalSpSubgroupsForOneSpGroup groupIdPrefix ranks ulyssesDegree ringDegree rank low
  else createSpSubgroupsForOneSpGroup ranks ulyssesDegree ringDegree rank low

theorem createSubgroups_eq (logicalGroup : Bool) (groupIdPrefix : String) (ranks : List Rank)
    (ulyssesDegree ringDegree : Nat) (rank : Rank) (low : Bool) :
    createSubgroups logicalGroup groupIdPrefix ranks ulyssesDegree ringDegree rank low =
      spSubgroups (makeSubgroup logicalGroup groupIdPrefix) ranks ulyssesDegree ringDegree rank
        low := by
  cases logicalGroup <;> rfl

theorem createSubgroups_own {n : Nat} (logicalGroup : Bool) (groupIdPrefix : String) (low : Bool)
    (hlen : ranks.length = ulyssesDegree * ringDegree) (hnodup : ranks.Nodup)
    (hn : n < ranks.length) : ∃ ulysses ring,
    createSubgroups logicalGroup groupIdPrefix ranks ulyssesDegree ringDegree ranks[n] low =
      .ok (some ulysses, some ring) ∧
    ulysses.members = (rowOf ranks (ulyssesDims ulyssesDegree ringDegree low)
      (index false (ulyssesDims ulyssesDegree ringDegree low) n)).toFinset ∧
    ring.members = (rowOf ranks (flip (ulyssesDims ulyssesDegree ringDegree low))
      (index true (ulyssesDims ulyssesDegree ringDegree low) n)).toFinset := by
  have hsize : 0 < ulyssesDegree * ringDegree := hlen ▸ Nat.zero_lt_of_lt hn
  have hpos := ulyssesDims_pos (Nat.pos_of_mul_pos_right hsize) (Nat.pos_of_mul_pos_left hsize) low
  have htotal : ranks.length = total (ulyssesDims ulyssesDegree ringDegree low) :=
    hlen.trans (total_ulyssesDims low).symm
  have hrow := rowOf_nodup hpos htotal hnodup
    (index false (ulyssesDims ulyssesDegree ringDegree low) n)
  have hcolumn := rowOf_nodup hpos.flip (htotal.trans (total_flip _).symm) hnodup
    (index true (ulyssesDims ulyssesDegree ringDegree low) n)
  obtain ⟨ulysses, hulysses, hmembers⟩ := makeSubgroup_ok logicalGroup groupIdPrefix "ulysses"
    (index false (ulyssesDims ulyssesDegree ringDegree low) n) hrow
  obtain ⟨ring, hring, hmembers'⟩ := makeSubgroup_ok logicalGroup groupIdPrefix "ring"
    (index true (ulyssesDims ulyssesDegree ringDegree low) n) hcolumn
  refine ⟨ulysses, ring, ?_, hmembers, hmembers'⟩
  rw [createSubgroups_eq]
  exact spSubgroups_own low hlen hnodup hn hulysses hring

theorem createSubgroups_other {rank : Rank} (logicalGroup : Bool) (groupIdPrefix : String)
    (low : Bool) (hlen : ranks.length = ulyssesDegree * ringDegree)
    (hsize : 0 < ulyssesDegree * ringDegree) (hrank : rank ∉ ranks) :
    createSubgroups logicalGroup groupIdPrefix ranks ulyssesDegree ringDegree rank low =
      .ok (none, none) := by
  rw [createSubgroups_eq]
  exact spSubgroups_other low hlen hsize hrank

end Subgroups

-- ---------------------------------------------------------------------------
-- Coordinators
-- ---------------------------------------------------------------------------

section Coordinators

variable {ranks : List Rank} {dims : Dims} {i : Nat}

theorem filter_range_eq {count k : Nat} (hk : k < count) :
    (List.range count).filter (fun i => decide (i = k)) = [k] := by
  have hcount := List.count_eq_one_of_mem List.nodup_range (List.mem_range.mpr hk)
  rw [List.filter_eq, hcount]
  rfl

theorem coordinator_own (logicalGroup : Bool) (hpos : Positive dims)
    (hlen : ranks.length = total dims) (hnodup : ranks.Nodup) (hi : i < ranks.length) :
    coordinator logicalGroup (rowsOf ranks dims) ranks[i] =
      some ⟨rowOf ranks dims (index false dims i), index true dims i⟩ := by
  have hown : (rowsOf ranks dims).filter (fun group => decide (ranks[i] ∈ group)) =
      [rowOf ranks dims (index false dims i)] := by
    rw [rowsOf, List.filter_map, ← List.map_singleton, ← filter_range_eq (index_lt hpos false i)]
    refine congrArg _ (List.filter_congr fun row hrow => ?_)
    rw [Function.comp_apply, decide_eq_decide,
      getElem_mem_rowOf hpos hlen hnodup (List.mem_range.mp hrow), eq_comm]
  rw [coordinator, hown]
  cases logicalGroup with
  | true => exact congrArg some (congrArg _ (idxOf_rowOf hpos hlen hnodup hi))
  | false => exact congrArg some (congrArg _ (idxOf_rowOf hpos hlen hnodup hi))

theorem globalRank_ok {n : Nat} (hn : n < ranks.length) :
    globalRank ranks n = .ok (ranks.getD n default) := by
  unfold globalRank
  simp only [if_neg (Int.not_lt.mpr (Int.natCast_nonneg n))]
  rw [if_pos ⟨Int.natCast_nonneg n, Int.ofNat_lt.mpr hn⟩, Int.toNat_natCast]
  rfl

theorem remap_ok {groups : List (List Nat)}
    (h : ∀ group ∈ groups, ∀ n ∈ group, n < ranks.length) :
    remapLocalRankGroups (shifted 0 groups) ranks =
      .ok (groups.map (List.map (ranks.getD · default))) := by
  unfold remapLocalRankGroups shifted
  rw [List.mapM_map]
  refine Except.mapM_ok fun group hg => ?_
  show (group.map _).mapM (globalRank ranks) = _
  rw [List.mapM_map]
  exact Except.mapM_ok fun n hn => globalRank_ok (h group hg n hn)

end Coordinators

-- ---------------------------------------------------------------------------
-- Rank groups
-- ---------------------------------------------------------------------------

namespace GroupSpec

variable (spec : GroupSpec)

theorem length_eq : spec.ranks.length = spec.sizes.worldSize := by
  rw [spec.size]
  simp [sizes, ParallelSizes.worldSize]

theorem rankGroups_ok (tp sp pp cfg dp : Bool) {token : String} (hep : token ≠ "ep")
    (hmask : getMask defaultOrder token = .ok [tp, sp, pp, cfg, dp]) :
    spec.rankGroups token false = .ok (rowsOf spec.ranks (spec.sizes.dims tp sp pp cfg dp)) := by
  rw [rankGroups, make_default, Except.ok_bind, getRanks_default _ _ tp sp pp cfg dp hep hmask,
    Except.ok_bind, remap_ok, rowsOf_eq]
  intro group hg n hn
  obtain ⟨row, hrow, rfl⟩ := mem_grid.mp hg
  rw [spec.length_eq, spec.sizes.total_dims tp sp pp cfg dp]
  exact ((mem_row (spec.sizes.dims_pos tp sp pp cfg dp) hrow).mp hn).1

theorem fsGroups_ok : ∃ groups, spec.rankGroups "fs" true = .ok groups := by
  have hgroups : (spec.sizes.generator 0).getRanks "fs" true =
      .ok (shifted 0 ((List.range spec.sizes.worldSize).map fun n => [n])) := by
    have hsingle : ∀ n : Nat, consecutive ((n : Int) * (1 : Nat) + 0) 1 = [(n : Int)] := by
      intro n
      simp [consecutive]
    show (.ok ((List.range (spec.sizes.worldSize / 1)).map fun (n : Nat) =>
      consecutive ((n : Int) * (1 : Nat) + 0) 1) : Except PyError _) = _
    rw [Nat.div_one, shifted, List.map_map]
    exact congrArg _ (List.map_congr_left fun n _ => hsingle n)
  rw [rankGroups, make_default, Except.ok_bind, hgroups, Except.ok_bind, remap_ok]
  · exact ⟨_, rfl⟩
  · intro group hg n hn
    obtain ⟨n', hn', rfl⟩ := List.mem_map.mp hg
    obtain rfl := List.mem_singleton.mp hn
    rw [spec.length_eq]
    exact List.mem_range.mp hn'

def tpDims : Dims := spec.sizes.dims true false false false false

def spDims : Dims := spec.sizes.dims false true false false false

def cfgDims : Dims := spec.sizes.dims false false false true false

theorem spDims_pos : Positive spec.spDims := spec.sizes.dims_pos false true false false false

theorem cfgDims_pos : Positive spec.cfgDims := spec.sizes.dims_pos false false false true false

theorem length_spDims : spec.ranks.length = total spec.spDims :=
  spec.length_eq.trans (spec.sizes.total_dims ..)

theorem length_cfgDims : spec.ranks.length = total spec.cfgDims :=
  spec.length_eq.trans (spec.sizes.total_dims ..)

theorem tpGroups_ok : spec.rankGroups "tp" false = .ok (rowsOf spec.ranks spec.tpDims) :=
  spec.rankGroups_ok true false false false false (by decide) (by decide +kernel)

theorem spGroups_ok : spec.rankGroups "sp" false = .ok (rowsOf spec.ranks spec.spDims) :=
  spec.rankGroups_ok false true false false false (by decide) (by decide +kernel)

theorem cfgGroups_ok : spec.rankGroups "cfg" false = .ok (rowsOf spec.ranks spec.cfgDims) :=
  spec.rankGroups_ok false false false true false (by decide) (by decide +kernel)

theorem spIndex (i : Nat) : index true spec.spDims i = i / spec.tp % spec.sp := by
  simp [spDims, ParallelSizes.dims, index, sizes]

theorem cfgIndex {i : Nat} (hi : i < spec.ranks.length) :
    index true spec.cfgDims i = i / (spec.tp * spec.sp) := by
  have hlt : i / (spec.tp * spec.sp) < spec.cfg := Nat.div_lt_of_lt_mul (spec.size ▸ hi)
  simp [cfgDims, ParallelSizes.dims, index, sizes, Nat.div_div_eq_div_mul, Nat.mod_eq_of_lt hlt]

theorem length_spGroup (row : Nat) :
    (rowOf spec.ranks spec.spDims row).length = spec.ulyssesDegree * spec.ringDegree := by
  rw [length_rowOf, ← spec.sp_eq]
  simp [spDims, ParallelSizes.dims, volume, sizes]

theorem degrees_pos : 0 < spec.ulyssesDegree * spec.ringDegree := spec.sp_eq ▸ spec.sp_pos

-- ---------------------------------------------------------------------------
-- Sessions
-- ---------------------------------------------------------------------------

theorem foldlM_own {f : List Rank × Nat → Except PyError (Option SubgroupHandle × Option SubgroupHandle)}
    (ulysses ring : SubgroupHandle) (k : Nat) (slices : List (List Rank × Nat))
    (found : Option SubgroupHandle × Option SubgroupHandle)
    (hown : ∀ one ∈ slices, one.2 = k → f one = .ok (some ulysses, some ring))
    (hother : ∀ one ∈ slices, one.2 ≠ k → f one = .ok (none, none)) :
    slices.foldlM (fun found one => do
        let (ulysses, ring) ← f one
        pure (ulysses.or found.1, ring.or found.2)) found =
      .ok (if k ∈ slices.map Prod.snd then (some ulysses, some ring) else found) := by
  induction slices generalizing found with
  | nil => rfl
  | cons one slices ih =>
    obtain ⟨hone, hrest⟩ := List.forall_mem_cons.mp hown
    obtain ⟨hone', hrest'⟩ := List.forall_mem_cons.mp hother
    rw [List.foldlM_cons]
    by_cases hk : one.2 = k
    · rw [hone hk]
      show slices.foldlM _ (some ulysses, some ring) = _
      rw [ih _ hrest hrest', ite_self, if_pos (by simp [hk])]
    · rw [hone' hk]
      show slices.foldlM _ (found.1, found.2) = _
      have hne : k ≠ one.2 := Ne.symm hk
      rw [ih _ hrest hrest', List.map_cons]
      simp only [List.mem_cons, hne, false_or]

theorem subgroups_ok (logicalGroup : Bool) {i : Nat} (hnodup : spec.ranks.Nodup)
    (hi : i < spec.ranks.length) : ∃ ulysses ring,
    spec.subgroups (rowsOf spec.ranks spec.spDims) spec.ranks[i] logicalGroup =
      .ok (some ulysses, some ring) ∧
    ulysses.members = (rowOf (rowOf spec.ranks spec.spDims (index false spec.spDims i))
      (ulyssesDims spec.ulyssesDegree spec.ringDegree true)
      (index false (ulyssesDims spec.ulyssesDegree spec.ringDegree true)
        (index true spec.spDims i))).toFinset ∧
    ring.members = (rowOf (rowOf spec.ranks spec.spDims (index false spec.spDims i))
      (flip (ulyssesDims spec.ulyssesDegree spec.ringDegree true))
      (index true (ulyssesDims spec.ulyssesDegree spec.ringDegree true)
        (index true spec.spDims i))).toFinset := by
  have hrow := index_lt spec.spDims_pos false i
  have hslice := rowOf_nodup spec.spDims_pos spec.length_spDims hnodup
    (index false spec.spDims i)
  have hlen := spec.length_spGroup (index false spec.spDims i)
  obtain ⟨hplace, hget⟩ := List.getElem?_eq_some_iff.mp
    (getElem?_rowOf spec.spDims_pos spec.length_spDims hi)
  obtain ⟨ulysses, ring, hok, hulysses, hring⟩ := createSubgroups_own logicalGroup
    s!"{spec.groupId}:sp:{index false spec.spDims i}" true hlen hslice hplace
  refine ⟨ulysses, ring, ?_, hulysses, hring⟩
  have hslices : ∀ one ∈ (rowsOf spec.ranks spec.spDims).zipIdx,
      one.2 < volume false spec.spDims ∧ one.1 = rowOf spec.ranks spec.spDims one.2 := by
    intro one hm
    have hone := List.mk_mem_zipIdx_iff_getElem?.mp (show (one.1, one.2) ∈ _ from hm)
    rw [rowsOf, List.getElem?_map, Option.map_eq_some_iff] at hone
    obtain ⟨row, hrow, heq⟩ := hone
    obtain ⟨hlt, rfl⟩ := List.getElem?_eq_some_iff.mp hrow
    rw [List.length_range] at hlt
    rw [List.getElem_range] at heq
    exact ⟨hlt, heq.symm⟩
  have hloop := foldlM_own (f := fun one => createSubgroups logicalGroup
    s!"{spec.groupId}:sp:{one.2}" one.1 spec.ulyssesDegree spec.ringDegree spec.ranks[i] true)
    ulysses ring (index false spec.spDims i) (rowsOf spec.ranks spec.spDims).zipIdx (none, none)
    (fun one hm hk => ?_) (fun one hm hk => ?_)
  · refine Eq.trans ?_ (hloop.trans (congrArg _ (if_pos ?_)))
    · cases logicalGroup <;> rfl
    · rw [List.mem_map]
      refine ⟨(rowOf spec.ranks spec.spDims (index false spec.spDims i),
        index false spec.spDims i), ?_, rfl⟩
      refine List.mk_mem_zipIdx_iff_getElem?.mpr ?_
      rw [rowsOf, List.getElem?_map, List.getElem?_range hrow]
      rfl
  · obtain ⟨-, heq⟩ := hslices one hm
    simp only [heq, hk, ← hget]
    exact hok
  · obtain ⟨hlt, heq⟩ := hslices one hm
    refine createSubgroups_other logicalGroup _ true (heq ▸ spec.length_spGroup _) spec.degrees_pos ?_
    rw [heq, getElem_mem_rowOf spec.spDims_pos spec.length_spDims hnodup hlt hi]
    exact Ne.symm hk

structure Placed (i : Nat) (session : Session) : Prop where
  sp : ∃ own, session.sp = some own ∧
    own.coordinator.ranks ∈ rowsOf spec.ranks spec.spDims ∧
    own.coordinator.ranks[i / spec.tp % spec.sp]? = spec.ranks[i]? ∧
    own.coordinator.rankInGroup = i / spec.tp % spec.sp
  cfg : ∃ own, session.cfg = some own ∧
    own.ranks ∈ rowsOf spec.ranks spec.cfgDims ∧
    own.ranks[i / (spec.tp * spec.sp)]? = spec.ranks[i]? ∧
    own.rankInGroup = i / (spec.tp * spec.sp)

theorem rowOf_mem {dims : Dims} {row : Nat} (hr : row < volume false dims) :
    rowOf spec.ranks dims row ∈ rowsOf spec.ranks dims :=
  List.mem_map_of_mem (List.mem_range.mpr hr)

/-- Every rank gets a session, in which it is where its index says. -/
theorem buildSession_ok (logicalGroup : Bool) {i : Nat} (hnodup : spec.ranks.Nodup)
    (hi : i < spec.ranks.length)
    (hvalid : logicalGroup = true → validateGfcGroup spec = .ok ⟨⟩) :
    ∃ session, spec.buildSession spec.ranks[i] logicalGroup = .ok (some session) ∧
      spec.Placed i session := by
  have hmem := List.getElem_mem hi
  obtain ⟨fsGroups, hfs⟩ := spec.fsGroups_ok
  obtain ⟨ulysses, ring, hsub, -⟩ := spec.subgroups_ok logicalGroup hnodup hi
  have hsp := coordinator_own logicalGroup spec.spDims_pos spec.length_spDims hnodup hi
  have hcfg := coordinator_own logicalGroup spec.cfgDims_pos spec.length_cfgDims hnodup hi
  obtain ⟨dit, hdit⟩ : ∃ dit, (if logicalGroup = true then
      makeLogicalGroup spec.ranks s!"{spec.groupId}:dit" else pure (newGroup spec.ranks)) =
        (.ok dit : Except PyError SubgroupHandle) := by
    cases logicalGroup with
    | true => exact ⟨_, dif_pos hnodup⟩
    | false => exact ⟨_, rfl⟩
  have hsequence : sequenceCoordinator logicalGroup (rowsOf spec.ranks spec.spDims) spec.ranks[i]
      (some ulysses) (some ring) = .ok (some ⟨⟨rowOf spec.ranks spec.spDims
        (index false spec.spDims i), index true spec.spDims i⟩, ulysses, ring⟩) := by
    rw [sequenceCoordinator, hsp]
    rfl
  have hdp : spec.rankGroups "dp" false = .ok _ :=
    spec.rankGroups_ok false false false false true (by decide) (by decide +kernel)
  have hpp : spec.rankGroups "pp" false = .ok _ :=
    spec.rankGroups_ok false false true false false (by decide) (by decide +kernel)
  have hbuild : spec.buildSession spec.ranks[i] logicalGroup = .ok (some
      ⟨coordinator logicalGroup (rowsOf spec.ranks (spec.sizes.dims false false false false true))
          spec.ranks[i],
        coordinator logicalGroup (rowsOf spec.ranks spec.cfgDims) spec.ranks[i],
        coordinator logicalGroup (rowsOf spec.ranks (spec.sizes.dims false false true false false))
          spec.ranks[i],
        some ⟨⟨rowOf spec.ranks spec.spDims (index false spec.spDims i),
          index true spec.spDims i⟩, ulysses, ring⟩,
        coordinator logicalGroup (rowsOf spec.ranks spec.tpDims) spec.ranks[i],
        coordinator logicalGroup fsGroups spec.ranks[i], dit⟩) := by
    have hnot : ¬ (logicalGroup = true ∧ spec.ranks[i] ∉ spec.ranks) := fun h => h.2 hmem
    have hmember : ¬ spec.ranks[i] ∉ spec.ranks := not_not_intro hmem
    cases logicalGroup with
    | true =>
      simp only [if_true] at hdit
      rw [buildSession, if_neg hnot]
      simp only [if_true, hvalid, hdp, hpp, hfs, spec.spGroups_ok,
        spec.cfgGroups_ok, spec.tpGroups_ok, hsub, hsequence, hdit, Except.ok_bind, if_neg hmember]
      rfl
    | false =>
      simp only [Bool.false_eq_true, if_false] at hdit
      rw [buildSession, if_neg hnot]
      simp only [Bool.false_eq_true, if_false, hdp, hpp, hfs, spec.spGroups_ok, spec.cfgGroups_ok,
        spec.tpGroups_ok, hsub, hsequence, hdit, Except.ok_bind, if_neg hmember]
      rfl
  refine ⟨_, hbuild, ⟨_, rfl, ?_, ?_, ?_⟩, ⟨_, hcfg, ?_, ?_, ?_⟩⟩
  · exact spec.rowOf_mem (index_lt spec.spDims_pos false i)
  · rw [← spec.spIndex, getElem?_rowOf spec.spDims_pos spec.length_spDims hi]
    exact (List.getElem?_eq_getElem hi).symm
  · exact spec.spIndex i
  · exact spec.rowOf_mem (index_lt spec.cfgDims_pos false i)
  · rw [← spec.cfgIndex hi, getElem?_rowOf spec.cfgDims_pos spec.length_cfgDims hi]
    exact (List.getElem?_eq_getElem hi).symm
  · exact spec.cfgIndex hi

-- ---------------------------------------------------------------------------
-- The geometry
-- ---------------------------------------------------------------------------

/-- The Ulysses and the Ring groups of a slice are two partitions of it, and any
two of them have one rank in common. -/
structure SubgroupsMeet (slice : List Rank) (ulyssesDegree ringDegree : Nat) (low : Bool) :
    Prop where
  ulysses : ((List.range ringDegree).map
    (ulyssesRanks slice ulyssesDegree ringDegree low)).flatten.Perm slice
  ring : ((List.range ulyssesDegree).map
    (ringRanks slice ulyssesDegree ringDegree low)).flatten.Perm slice
  meet : ∀ i < ringDegree, ∀ j < ulyssesDegree, ∃! rank,
    rank ∈ ulyssesRanks slice ulyssesDegree ringDegree low i ∧
      rank ∈ ringRanks slice ulyssesDegree ringDegree low j

theorem subgroupsMeet {slice : List Rank} {ulyssesDegree ringDegree : Nat} (low : Bool)
    (hlen : slice.length = ulyssesDegree * ringDegree) (hsize : 0 < ulyssesDegree * ringDegree)
    (hnodup : slice.Nodup) : SubgroupsMeet slice ulyssesDegree ringDegree low := by
  have hpos := ulyssesDims_pos (Nat.pos_of_mul_pos_right hsize) (Nat.pos_of_mul_pos_left hsize) low
  have htotal := hlen.trans (total_ulyssesDims low).symm
  obtain ⟨hcolumns, hrows⟩ := volume_ulyssesDims ulyssesDegree ringDegree low
  have hulysses : (List.range ringDegree).map (ulyssesRanks slice ulyssesDegree ringDegree low) =
      rowsOf slice (ulyssesDims ulyssesDegree ringDegree low) := by
    rw [rowsOf, hrows]
    exact List.map_congr_left fun i hi => ulyssesRanks_eq hlen low (List.mem_range.mp hi)
  have hring : (List.range ulyssesDegree).map (ringRanks slice ulyssesDegree ringDegree low) =
      rowsOf slice (flip (ulyssesDims ulyssesDegree ringDegree low)) := by
    rw [rowsOf, volume_flip]
    show _ = (List.range (volume true _)).map _
    rw [hcolumns]
    exact List.map_congr_left fun i hi => ringRanks_eq hlen low (List.mem_range.mp hi)
  refine ⟨?_, ?_, fun i hi j hj => ?_⟩
  · rw [hulysses]
    exact rowsOf_perm hpos htotal
  · rw [hring]
    exact rowsOf_perm hpos.flip (htotal.trans (total_flip _).symm)
  · rw [ulyssesRanks_eq hlen low hi, ringRanks_eq hlen low hj]
    exact rowOf_meet hpos htotal hnodup (hrows.symm ▸ hi) (hcolumns.symm ▸ hj)

/-- Both builders succeed, and neither finds a group or both find the same members. -/
def SameMembers (logical process :
    Except PyError (Option SubgroupHandle × Option SubgroupHandle)) : Prop :=
  ∃ found found', logical = .ok found ∧ process = .ok found' ∧
    found.1.map SubgroupHandle.members = found'.1.map SubgroupHandle.members ∧
    found.2.map SubgroupHandle.members = found'.2.map SubgroupHandle.members

theorem sameMembers {slice : List Rank} {ulyssesDegree ringDegree : Nat} (low : Bool)
    (hlen : slice.length = ulyssesDegree * ringDegree) (hsize : 0 < ulyssesDegree * ringDegree)
    (hnodup : slice.Nodup) (groupIdPrefix : String) (rank : Rank) :
    SameMembers
      (createLogicalSpSubgroupsForOneSpGroup groupIdPrefix slice ulyssesDegree ringDegree rank low)
      (createSpSubgroupsForOneSpGroup slice ulyssesDegree ringDegree rank low) := by
  by_cases hrank : rank ∈ slice
  · obtain ⟨n, hn, rfl⟩ := List.getElem_of_mem hrank
    obtain ⟨ulysses, ring, hok, hulysses, hring⟩ :=
      createSubgroups_own true groupIdPrefix low hlen hnodup hn
    obtain ⟨ulysses', ring', hok', hulysses', hring'⟩ :=
      createSubgroups_own false groupIdPrefix low hlen hnodup hn
    exact ⟨_, _, hok, hok', congrArg some (hulysses.trans hulysses'.symm),
      congrArg some (hring.trans hring'.symm)⟩
  · exact ⟨_, _, createSubgroups_other true groupIdPrefix low hlen hsize hrank,
      createSubgroups_other false groupIdPrefix low hlen hsize hrank, rfl, rfl⟩

/-- The geometry of an execution group of distinct ranks. -/
theorem session_geometry (hnodup : spec.ranks.Nodup) : ∃ tpGroups spGroups cfgGroups,
    (spec.rankGroups "tp" false = .ok tpGroups ∧ tpGroups.flatten.Perm spec.ranks) ∧
    (spec.rankGroups "sp" false = .ok spGroups ∧ spGroups.flatten.Perm spec.ranks) ∧
    (spec.rankGroups "cfg" false = .ok cfgGroups ∧ cfgGroups.flatten.Perm spec.ranks) ∧
    (∀ (logicalGroup : Bool) (i : Nat) (hi : i < spec.ranks.length),
      (logicalGroup = true → validateGfcGroup spec = .ok ⟨⟩) →
      ∃ session spOwn cfgOwn,
        spec.buildSession spec.ranks[i] logicalGroup = .ok (some session) ∧
        session.sp = some spOwn ∧ spOwn.coordinator.ranks ∈ spGroups ∧
        spOwn.coordinator.ranks[i / spec.tp % spec.sp]? = some spec.ranks[i] ∧
        spOwn.coordinator.rankInGroup = i / spec.tp % spec.sp ∧
        session.cfg = some cfgOwn ∧ cfgOwn.ranks ∈ cfgGroups ∧
        cfgOwn.ranks[i / (spec.tp * spec.sp)]? = some spec.ranks[i] ∧
        cfgOwn.rankInGroup = i / (spec.tp * spec.sp) ∧
        (spec.tp = 1 → ∀ (group : ExecutionGroupSpec) path shape dtype dim,
          group.parallelSpec.sp = spec.sp → 1 < spec.sp →
          spShardedTensorField group i path shape dtype dim =
            shardedTensorField path shape dtype dim spec.sp spOwn.coordinator.rankInGroup)) ∧
    (∀ slice ∈ spGroups, ∀ low, SubgroupsMeet slice spec.ulyssesDegree spec.ringDegree low) ∧
    ∀ slice ∈ spGroups, ∀ low groupIdPrefix rank, SameMembers
      (createLogicalSpSubgroupsForOneSpGroup groupIdPrefix slice spec.ulyssesDegree
        spec.ringDegree rank low)
      (createSpSubgroupsForOneSpGroup slice spec.ulyssesDegree spec.ringDegree rank low) := by
  have hslice : ∀ slice ∈ rowsOf spec.ranks spec.spDims,
      slice.length = spec.ulyssesDegree * spec.ringDegree ∧ slice.Nodup := by
    intro slice hm
    obtain ⟨row, -, rfl⟩ := List.mem_map.mp hm
    exact ⟨spec.length_spGroup row, rowOf_nodup spec.spDims_pos spec.length_spDims hnodup row⟩
  refine ⟨_, _, _, ⟨spec.tpGroups_ok, ?_⟩, ⟨spec.spGroups_ok, ?_⟩, ⟨spec.cfgGroups_ok, ?_⟩,
    fun logicalGroup i hi hvalid => ?_, fun slice hm low => ?_, fun slice hm low pre rank => ?_⟩
  · exact rowsOf_perm (spec.sizes.dims_pos true false false false false)
      (spec.length_eq.trans (spec.sizes.total_dims ..))
  · exact rowsOf_perm spec.spDims_pos spec.length_spDims
  · exact rowsOf_perm spec.cfgDims_pos spec.length_cfgDims
  · obtain ⟨session, hok, ⟨spOwn, hsp, hspMem, hspGet, hspRank⟩,
      ⟨cfgOwn, hcfg, hcfgMem, hcfgGet, hcfgRank⟩⟩ :=
      spec.buildSession_ok logicalGroup hnodup hi hvalid
    rw [List.getElem?_eq_getElem hi] at hspGet hcfgGet
    refine ⟨session, spOwn, cfgOwn, hok, hsp, hspMem, hspGet, hspRank, hcfg, hcfgMem, hcfgGet,
      hcfgRank, fun htp group path shape dtype dim hsame hlarge => ?_⟩
    rw [spShardedTensorField, hsame, if_neg (Nat.not_le.mpr hlarge), hspRank, htp, Nat.div_one]
  · exact subgroupsMeet low (hslice slice hm).1 spec.degrees_pos (hslice slice hm).2
  · exact sameMembers low (hslice slice hm).1 spec.degrees_pos (hslice slice hm).2 pre rank

def twoBranches : GroupSpec :=
  ⟨"g", [9, 8, 11, 10, 13, 12, 15, 14, 0, 1, 2, 3, 4, 5, 6, 7], 2, 4, 2, 2, 2, Nat.two_pos,
    Nat.mul_pos Nat.two_pos Nat.two_pos, Nat.two_pos, rfl, rfl⟩

/-- Rank 5, at place 13, holds the third shard in the second branch. -/
theorem session_geometry_two : ∃ session spOwn cfgOwn spGroups,
    twoBranches.buildSession 5 false = .ok (some session) ∧
    twoBranches.rankGroups "sp" false = .ok spGroups ∧
    session.sp = some spOwn ∧ spOwn.coordinator.ranks ∈ spGroups ∧
    spOwn.coordinator.ranks[2]? = some 5 ∧ spOwn.coordinator.rankInGroup = 2 ∧
    session.cfg = some cfgOwn ∧ cfgOwn.ranks[1]? = some 5 ∧ cfgOwn.rankInGroup = 1 ∧
    ∀ slice ∈ spGroups, ∀ low, SubgroupsMeet slice 2 2 low := by
  obtain ⟨_, spGroups, _, -, ⟨hgroups, -⟩, -, hsessions, hmeet, -⟩ :=
    twoBranches.session_geometry (by decide)
  obtain ⟨session, spOwn, cfgOwn, hok, hsp, hmem, hspGet, hspRank, hcfg, -, hcfgGet, hcfgRank, -⟩ :=
    hsessions false 13 (by decide) (fun h => by cases h)
  exact ⟨session, spOwn, cfgOwn, spGroups, hok, hgroups, hsp, hmem, hspGet, hspRank, hcfg, hcfgGet,
    hcfgRank, hmeet⟩

end GroupSpec

end Parallel

end GfDit
