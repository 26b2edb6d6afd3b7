import GfDit.DataPlane.ShardRoundTrip

/-!
# The ranks of an SP group agree

Whatever the ranks hold, as long as all of them have the fields, they end
alike. Tensors that are whole on all ranks already are left as they are,
unless the cut dimension has the size one: then rank 0 takes its tensor for
a shard and the others do not.
-/

namespace GfDit

open Collective (Member Runs EndsAlike)
open ShardedFieldStatus

variable {α : Type} {n : Nat} {group : ExecutionGroupSpec} {cfgRank : Nat}
  {artifact : ArtifactHandle} {blank : Blank α}

-- ---------------------------------------------------------------------------
-- Ending alike
-- ---------------------------------------------------------------------------

theorem materializeFields_alike {specs : List ShardSpec}
    {tensors : Fin group.parallelSpec.sp → List TensorFieldLayout}
    {values : Fin group.parallelSpec.sp → FieldValues α}
    (hdescribed : SpDescribed group cfgRank specs tensors)
    (hread : ∀ spec ∈ specs, spec.IsCut group.parallelSpec.sp →
      ∀ i, (values i).get? spec.path ≠ none) :
    EndsAlike fun i =>
      materializeFields blank artifact (spRankOf group cfgRank i) (tensors i) (values i) := by
  induction specs generalizing tensors values with
  | nil =>
    rw [hdescribed.nil]
    exact .inl ⟨values, .done values⟩
  | cons spec specs ih =>
    obtain ⟨fields, rest, rfl, hfields, hrest⟩ := hdescribed.cons
    obtain ⟨hspec, hread⟩ := List.forall_mem_cons.mp hread
    by_cases hcut : spec.IsCut group.parallelSpec.sp
    · have hcuts := ShardSpec.cutFields hcut hfields
      choose held hheld using fun i => Option.ne_none_iff_exists'.mp (hspec hcut i)
      by_cases hcfg : cfgRank = 0
      · subst hcfg
        rcases @materializeField_cases α _ _ _ _ _ _ blank artifact _ _ _ hcut.2.ne' hcuts hheld
          spRankOf_zero with ⟨errors, herrors⟩ | ⟨later, hlater, hkept⟩
        · exact .inr ⟨errors, herrors.bind_raise⟩
        · have hrest := ih hrest fun other hmem hother i => hkept i _ (hread other hmem hother i)
          exact hrest.imp (fun ⟨ends, hends⟩ => ⟨ends, hlater.bind hends⟩)
            fun ⟨ends, hends⟩ => ⟨ends, hlater.bind hends⟩
      · exact .inr ⟨_, (materializeField_short hcut.2.ne' hcuts hheld
          (le_spRankOf hcfg)).bind_raise⟩
    · have hplain : Runs (fun i => (materializeField blank artifact (spRankOf group cfgRank i)
          (fields i) (values i) : SpRank _ α _)) fun i => .ok (values i) :=
        .ended fun i => materializeField_plain (spec.plain hcut (hfields i)) _ _
      exact (ih hrest hread).imp (fun ⟨ends, hends⟩ => ⟨ends, hplain.bind hends⟩)
        fun ⟨ends, hends⟩ => ⟨ends, hplain.bind hends⟩

/-- A rank that lacks the first field that is cut leaves those that have it waiting. -/
theorem materializeFields_blocks {before after : List ShardSpec} {spec : ShardSpec}
    {tensors : Fin group.parallelSpec.sp → List TensorFieldLayout}
    {values : Fin group.parallelSpec.sp → FieldValues α}
    (hdescribed : SpDescribed group cfgRank (before ++ spec :: after) tensors)
    (hbefore : ∀ other ∈ before, ¬ other.IsCut group.parallelSpec.sp)
    (hcut : spec.IsCut group.parallelSpec.sp) {i j : Fin group.parallelSpec.sp}
    (hi : (values i).get? spec.path = none) (hj : (values j).get? spec.path ≠ none)
    (results : Fin group.parallelSpec.sp → Except PyError (FieldValues α)) :
    ¬ Runs (fun i => materializeFields blank artifact (spRankOf group cfgRank i) (tensors i)
      (values i)) results := by
  induction before generalizing tensors with
  | nil =>
    obtain ⟨fields, rest, rfl, hfields, -⟩ := SpDescribed.cons hdescribed
    have hcuts := ShardSpec.cutFields hcut hfields
    obtain ⟨held, hheld⟩ := Option.ne_none_iff_exists'.mp hj
    have hraised : (materializeFields blank artifact (spRankOf group cfgRank i)
        (fields i :: rest i) (values i) : SpRank group.parallelSpec.sp α _) =
          .ofExcept (.error (.attributeError (strTuple spec.path))) := by
      rw [materializeFields, materializeField_unread hcuts i hi]
      rfl
    have hwaiting : ∃ payload next, (materializeFields blank artifact (spRankOf group cfgRank j)
        (fields j :: rest j) (values j) : SpRank group.parallelSpec.sp α _) =
          .gather .status payload next := by
      obtain ⟨payload, next, hwaits⟩ := @materializeField_waits α _ _ _ _ _ _ blank artifact _
        hcut.2.ne' hcuts j _ hheld (spRankOf group cfgRank j)
      rw [materializeFields, hwaits]
      exact ⟨_, _, rfl⟩
    obtain ⟨payload, next, hwaiting⟩ := hwaiting
    exact Collective.not_runs_of_waiting hraised hwaiting results
  | cons other before ih =>
    obtain ⟨fields, rest, rfl, hfields, hrest⟩ := SpDescribed.cons hdescribed
    obtain ⟨hother, hbefore⟩ := List.forall_mem_cons.mp hbefore
    have hsame : (fun i => (materializeFields blank artifact (spRankOf group cfgRank i)
        (fields i :: rest i) (values i) : SpRank group.parallelSpec.sp α _)) = fun i =>
          materializeFields blank artifact (spRankOf group cfgRank i) (rest i) (values i) := by
      funext i
      rw [materializeFields, materializeField_plain (other.plain hother (hfields i))]
      rfl
    rw [hsame]
    exact ih hrest hbefore

-- ---------------------------------------------------------------------------
-- Tensors that are whole already
-- ---------------------------------------------------------------------------

theorem shardLength_lt {size rank : Nat} (hn : 1 < n) (hsize : 1 < size) :
    shardLength size n rank < size := by
  have hsplit := Nat.div_add_mod size n
  have htwice : 2 * (size / n) ≤ n * (size / n) := Nat.mul_le_mul_right _ hn
  unfold shardLength
  split <;> omega

theorem shardLength_one {rank : Nat} (hn : 1 < n) :
    shardLength 1 n rank = if rank = 0 then 1 else 0 := by
  have hmod : 1 % n = 1 := Nat.mod_eq_of_lt hn
  have hdiv : 1 / n = 0 := Nat.div_eq_of_lt hn
  simp only [shardLength, hmod, hdiv, Nat.lt_one_iff, Nat.zero_add]

theorem Tensor.Same.trans {a b c : Tensor α} (h : a.Same b) (h' : b.Same c) : a.Same c :=
  ⟨h.shape.trans h'.shape, h.dtype.trans h'.dtype, fun index hindex =>
    (h.data index hindex).trans (h'.data index (h.shape ▸ hindex))⟩

theorem FieldValue.Same.trans {a b c : FieldValue α} (h : a.Same b) (h' : b.Same c) : a.Same c := by
  cases h with
  | none => exact h'
  | tensor hab =>
    cases h' with
    | tensor hbc => exact .tensor (hab.trans hbc)
  | other typeName => exact h'

theorem SameFields.trans {a b c : FieldValues α} (h : SameFields a b) (h' : SameFields b c) :
    SameFields a c := by
  intro path
  have hab := h path
  have hbc := h' path
  revert hab hbc
  generalize a.get? path = x, b.get? path = y, c.get? path = z
  rintro (hab | ⟨⟩) hbc
  · cases hbc with
    | some hbc => exact .some (FieldValue.Same.trans ‹_› hbc)
  · exact hbc

/-- The ranks hold a tensor that is a shard to rank 0 only. -/
def ShardSpec.Single (spec : ShardSpec) (values : Fin n → FieldValues α) : Prop :=
  spec.size = 1 ∧ ¬ ∀ i, (values i).get? spec.path = some .none

section Whole

variable {spec : ShardSpec} {fields : Fin n → TensorFieldLayout} {full : Tensor α}

theorem classify_whole (hcut : CutFields spec.path spec.dtype spec.shape spec.dim fields)
    (hshape : full.shape = spec.shape) (i : Fin n) :
    classifyShardedFieldTensor (.tensor full) (fields i) =
      if shardLength spec.size n i = spec.size then fieldLocal else fieldGlobal := by
  have hglobal : full.shape = (fields i).globalShape := hshape.trans (hcut.globalShape i).symm
  have hiff : full.shape = (fields i).localShape ↔ shardLength spec.size n i = spec.size := by
    rw [hshape, hcut.localShape i]
    constructor
    · intro heq
      have hgetD := congrArg (fun shape : List Nat => shape.getD spec.dim 0) heq
      simp only [getD_set_self hcut.dim_lt] at hgetD
      exact hgetD.symm
    · intro heq
      show spec.shape = spec.shape.set spec.dim (shardLength spec.size n i)
      rw [heq, ShardSpec.size, set_getD_self]
  by_cases heq : shardLength spec.size n i = spec.size
  · simp only [classifyShardedFieldTensor, if_pos (hiff.mpr heq), if_pos heq]
  · simp only [classifyShardedFieldTensor, if_neg (mt hiff.mp heq), if_pos hglobal, if_neg heq]

theorem materializeField_single {ranks : Fin n → Nat} {values : Fin n → FieldValues α} (hn : 1 < n)
    (hcut : CutFields spec.path spec.dtype spec.shape spec.dim fields)
    (hranks : ∀ i, ranks i < n) (hshape : full.shape = spec.shape) (hsize : spec.size = 1)
    (hread : ∀ i, (values i).get? spec.path = some (.tensor full)) :
    ∃ errors : Fin n → PyError,
      Runs (fun i => materializeField blank artifact (ranks i) (fields i) (values i))
        fun i => .error (errors i) := by
  have hstatus : ∀ i : Fin n, classifyShardedFieldTensor (.tensor full) (fields i) =
      if (i : Nat) = 0 then fieldLocal else fieldGlobal := by
    intro i
    rw [classify_whole hcut hshape, hsize, shardLength_one hn]
    split <;> rfl
  have hfirst : fieldLocal ∈ statusesOf (fun _ => .tensor full) fields :=
    mem_statusesOf.mpr ⟨⟨0, Nat.zero_lt_of_lt hn⟩, hstatus _⟩
  have hsecond : fieldGlobal ∈ statusesOf (fun _ => .tensor full) fields :=
    mem_statusesOf.mpr ⟨⟨1, hn⟩, hstatus _⟩
  refine materializeField_raises hn.ne' hcut hread hranks ?_ fun hall => ?_
  · rintro (hall | hall)
    · cases hall _ hfirst
    · cases hall _ hfirst
  · cases hall _ hsecond

theorem materializeField_whole {ranks : Fin n → Nat} {values : Fin n → FieldValues α} (hn : 1 < n)
    (hcut : CutFields spec.path spec.dtype spec.shape spec.dim fields)
    (hranks : ∀ i, ranks i < n) (hwhole : spec.Whole values) (hsingle : ¬ spec.Single values) :
    ∃ later : Fin n → FieldValues α,
      (Runs (fun i => materializeField blank artifact (ranks i) (fields i) (values i))
        fun i => .ok (later i)) ∧
      (∀ i, SameFields (later i) (values i)) ∧
      ∀ i other, other ≠ spec.path → (later i).get? other = (values i).get? other := by
  have hkeep : ∀ i, SameFields (values i) (values i) := fun i path => SameFields.refl_at rfl
  rcases hwhole with hnone | ⟨full, hshape, -, hfull⟩
  · exact ⟨values, materializeField_missing hn.ne' hcut hranks hnone, hkeep, fun _ _ _ => rfl⟩
  have hsize : spec.size ≠ 1 := fun hone => hsingle ⟨hone, fun hall => by
    cases (hfull ⟨0, Nat.zero_lt_of_lt hn⟩).symm.trans (hall ⟨0, Nat.zero_lt_of_lt hn⟩)⟩
  rcases Nat.eq_zero_or_pos spec.size with hzero | hpos
  · -- An empty dimension: every rank has the whole for its shard.
    have hlocal : ∀ i, spec.shape = (fields i).localShape := by
      intro i
      have hlength : shardLength (spec.shape.getD spec.dim 0) n i = spec.shape.getD spec.dim 0 := by
        have hle := shard_end_le (spec.shape.getD spec.dim 0) i.isLt
        have hzero : spec.shape.getD spec.dim 0 = 0 := hzero
        omega
      rw [hcut.localShape i, hlength, set_getD_self]
    obtain ⟨later, hruns, hsame, hother⟩ := @materializeField_pieces α n artifact blank _ _ _ _ _ _
      values full (fun _ => full) hn.ne' hcut hranks hshape hfull
      fun i => pieceOf_whole hcut i hshape (hlocal i)
    refine ⟨later, hruns, fun i path => ?_, hother⟩
    by_cases hpath : path = spec.path
    · rw [hpath, hfull i]
      exact hsame i
    · exact SameFields.refl_at (hother i path hpath)
  · refine ⟨values, materializeField_skips hn.ne' hcut hfull hranks (.inr fun status hmem => ?_),
      hkeep, fun _ _ _ => rfl⟩
    obtain ⟨i, rfl⟩ := mem_statusesOf.mp hmem
    rw [classify_whole hcut hshape i, if_neg (shardLength_lt hn (by omega)).ne]

end Whole

theorem ShardSpec.Single.congr {spec : ShardSpec} {values values' : Fin n → FieldValues α}
    (hsame : ∀ i, (values' i).get? spec.path = (values i).get? spec.path) :
    spec.Single values' ↔ spec.Single values := by
  simp only [ShardSpec.Single, hsame]

theorem materializeFields_whole {specs : List ShardSpec}
    {tensors : Fin group.parallelSpec.sp → List TensorFieldLayout}
    {values : Fin group.parallelSpec.sp → FieldValues α}
    (hdescribed : SpDescribed group 0 specs tensors) (hpaths : (specs.map (·.path)).Nodup)
    (hwhole : ∀ spec ∈ specs, spec.IsCut group.parallelSpec.sp → spec.Whole values) :
    ((∃ spec ∈ specs, spec.IsCut group.parallelSpec.sp ∧ spec.Single values) →
      ∃ errors : Fin group.parallelSpec.sp → PyError,
        Runs (fun i => materializeFields blank artifact (spRankOf group 0 i) (tensors i) (values i))
          fun i => .error (errors i)) ∧
    ((∀ spec ∈ specs, spec.IsCut group.parallelSpec.sp → ¬ spec.Single values) →
      ∃ restored : Fin group.parallelSpec.sp → FieldValues α,
        (Runs (fun i => materializeFields blank artifact (spRankOf group 0 i) (tensors i) (values i))
          fun i => .ok (restored i)) ∧
        ∀ i, SameFields (restored i) (values i)) := by
  induction specs generalizing tensors values with
  | nil =>
    rw [hdescribed.nil]
    refine ⟨?_, fun _ => ⟨values, .done values, fun i path => SameFields.refl_at rfl⟩⟩
    rintro ⟨spec, hmem, -⟩
    cases hmem
  | cons spec specs ih =>
    obtain ⟨fields, rest, rfl, hfields, hrest⟩ := hdescribed.cons
    obtain ⟨hnot, hpaths⟩ := List.nodup_cons.mp hpaths
    obtain ⟨hspec, hwhole⟩ := List.forall_mem_cons.mp hwhole
    by_cases hcut : spec.IsCut group.parallelSpec.sp
    · have hcuts := ShardSpec.cutFields hcut hfields
      by_cases hsingle : spec.Single values
      · refine ⟨fun _ => ?_, fun hall => absurd hsingle (hall spec (List.mem_cons_self ..) hcut)⟩
        obtain ⟨hsize, hpresent⟩ := hsingle
        obtain ⟨full, hshape, -, hfull⟩ := (hspec hcut).resolve_left hpresent
        obtain ⟨errors, herrors⟩ := @materializeField_single α _ artifact blank _ _ full _ values
          hcut.2 hcuts spRankOf_zero hshape hsize hfull
        exact ⟨errors, herrors.bind_raise⟩
      · obtain ⟨later, hruns, hsame, hother⟩ := @materializeField_whole α _ artifact blank _ _ _
          values hcut.2 hcuts spRankOf_zero (hspec hcut) hsingle
        have hpath : ∀ other ∈ specs, ∀ i,
            (later i).get? other.path = (values i).get? other.path := fun other hmem i =>
          hother i _ fun heq => hnot (List.mem_map.mpr ⟨other, hmem, heq⟩)
        obtain ⟨herror, hok⟩ := ih hrest hpaths fun other hmem hother =>
          (hwhole other hmem hother).congr (hpath other hmem)
        refine ⟨fun hbad => ?_, fun hall => ?_⟩
        · obtain ⟨other, hmem, hother, hbad⟩ := hbad
          rcases List.mem_cons.mp hmem with rfl | hmem
          · exact absurd hbad hsingle
          · obtain ⟨errors, herrors⟩ :=
              herror ⟨other, hmem, hother, (ShardSpec.Single.congr (hpath other hmem)).mpr hbad⟩
            exact ⟨errors, hruns.bind herrors⟩
        · obtain ⟨restored, hrestored, hrest⟩ := hok fun other hmem hother hbad =>
            hall other (List.mem_cons_of_mem _ hmem) hother
              ((ShardSpec.Single.congr (hpath other hmem)).mp hbad)
          exact ⟨restored, hruns.bind hrestored, fun i => (hrest i).trans (hsame i)⟩
    · have hplain : Runs (fun i => (materializeField blank artifact (spRankOf group 0 i)
          (fields i) (values i) : SpRank _ α _)) fun i => .ok (values i) :=
        .ended fun i => materializeField_plain (spec.plain hcut (hfields i)) _ _
      obtain ⟨herror, hok⟩ := ih hrest hpaths hwhole
      refine ⟨fun hbad => ?_, fun hall => ?_⟩
      · obtain ⟨other, hmem, hother, hbad⟩ := hbad
        have hmem := (List.mem_cons.mp hmem).resolve_left fun heq => hcut (heq ▸ hother)
        obtain ⟨errors, herrors⟩ := herror ⟨other, hmem, hother, hbad⟩
        exact ⟨errors, hplain.bind herrors⟩
      · obtain ⟨restored, hrestored, hrest⟩ := hok (List.forall_mem_cons.mp hall).2
        exact ⟨restored, hplain.bind hrestored, hrest⟩

-- ---------------------------------------------------------------------------
-- The artifact
-- ---------------------------------------------------------------------------

def halfRows (i : Fin 2) : FieldValues Nat :=
  (∅ : FieldValues Nat).set ["latents"] (if i = 0 then .tensor rowsTensor else .none)

end GfDit
