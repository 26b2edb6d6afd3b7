import Mathlib.MeasureTheory.Measure.Lebesgue.Basic

/-!
# The idle time of a simulated run

`compute_global_idle` of `runtime_v2_policy_simulator.py`. It sorts the
intervals of the timeline and sweeps over them with one running interval,
adding its length to the busy time whenever the next one starts after its end.
Every interval is clamped to the window, but only the later ones are dropped
when nothing of them is left: the running interval may start out empty, even
with its end before its start.
-/

namespace GfDit

/-- The part of a timeline entry the computation reads. -/
structure TimelineEvent (K : Type u) where
  startMs : K
  endMs : K

namespace GlobalIdle

variable {K : Type u} [Field K] [LinearOrder K]

def pairLe (a b : K × K) : Bool := decide (a.1 < b.1 ∨ a.1 = b.1 ∧ a.2 ≤ b.2)

def sortedIntervals (timeline : List (TimelineEvent K)) : List (K × K) :=
  ((timeline.filter fun event => decide (event.startMs < event.endMs)).map fun event =>
    (event.startMs, event.endMs)).mergeSort pairLe

/-- The busy time so far and the running interval. -/
structure Sweep (K : Type u) where
  busy : K
  curStart : K
  curEnd : K

def Sweep.close (sweep : Sweep K) : K := sweep.busy + max 0 (sweep.curEnd - sweep.curStart)

def Sweep.step (startMs endMs : K) (sweep : Sweep K) (interval : K × K) : Sweep K :=
  let start := max interval.1 startMs
  let stop := min interval.2 endMs
  if stop ≤ start then sweep
  else if start ≤ sweep.curEnd then { sweep with curEnd := max sweep.curEnd stop }
  else ⟨sweep.close, start, stop⟩

def computeGlobalIdle (timeline : List (TimelineEvent K)) (startMs endMs : K) : K × K :=
  if endMs ≤ startMs then (0, 0)
  else
    match sortedIntervals timeline with
    | [] => (endMs - startMs, 1)
    | first :: rest =>
      let sweep := rest.foldl (Sweep.step startMs endMs)
        ⟨0, max first.1 startMs, min first.2 endMs⟩
      let total := endMs - startMs
      let idle := max 0 (total - sweep.close)
      (idle, if 0 < total then idle / total else 0)

-- ---------------------------------------------------------------------------
-- What the sweep has covered
-- ---------------------------------------------------------------------------

open MeasureTheory Set

def clamp (startMs endMs : ℝ) (interval : ℝ × ℝ) : Set ℝ :=
  Ico (max interval.1 startMs) (min interval.2 endMs)

theorem clamp_eq (startMs endMs : ℝ) (interval : ℝ × ℝ) :
    clamp startMs endMs interval = Ico interval.1 interval.2 ∩ Ico startMs endMs := by
  rw [clamp, Ico_inter_Ico]

/-- What the busy time and the running interval say of the times covered so
far: all before the running interval is counted, and from its start on nothing
else is covered. -/
structure Swept (sweep : Sweep ℝ) (covered : Set ℝ) : Prop where
  before : volume (covered ∩ Iio sweep.curStart) = ENNReal.ofReal sweep.busy
  busy_nonneg : 0 ≤ sweep.busy
  running : covered ∩ Ici sweep.curStart = Ico sweep.curStart sweep.curEnd

variable {sweep : Sweep ℝ} {covered : Set ℝ} {startMs endMs : ℝ}

theorem close_nonneg (h : Swept sweep covered) : 0 ≤ sweep.close :=
  add_nonneg h.busy_nonneg (le_max_left ..)

theorem Swept.volume_eq (h : Swept sweep covered) :
    volume covered = ENNReal.ofReal sweep.close := by
  have hparts : volume covered = volume (covered ∩ Iio sweep.curStart) +
      volume (covered \ Iio sweep.curStart) :=
    (measure_inter_add_sdiff covered measurableSet_Iio).symm
  have hrun : covered \ Iio sweep.curStart = Ico sweep.curStart sweep.curEnd := by
    rw [← h.running, sdiff_eq, compl_Iio]
  rw [hparts, hrun, h.before, Real.volume_Ico, Sweep.close,
    ENNReal.ofReal_add h.busy_nonneg (le_max_left ..)]
  congr 1
  rw [ENNReal.ofReal_max, ENNReal.ofReal_zero]
  exact (max_eq_right bot_le).symm

/-- The next interval of the sorted list starts no earlier than the running
one. -/
theorem Swept.step (h : Swept sweep covered) (endMs : ℝ) (interval : ℝ × ℝ)
    (hstart : sweep.curStart ≤ max interval.1 startMs) :
    Swept (sweep.step startMs endMs interval) (covered ∪ clamp startMs endMs interval) ∧
      (sweep.step startMs endMs interval).curStart ≤ max interval.1 startMs := by
  unfold Sweep.step clamp
  simp only
  generalize max interval.1 startMs = start at *
  generalize min interval.2 endMs = stop at *
  by_cases hempty : stop ≤ start
  · rw [if_pos hempty, Ico_eq_empty_of_le hempty, union_empty]
    exact ⟨h, hstart⟩
  rw [if_neg hempty]
  have hlt : start < stop := not_le.mp hempty
  by_cases hmerge : start ≤ sweep.curEnd
  · -- The interval overlaps or touches the running one, which grows.
    rw [if_pos hmerge]
    refine ⟨⟨?_, h.busy_nonneg, ?_⟩, hstart⟩
    · have hnone : Ico start stop ∩ Iio sweep.curStart = ∅ := by
        ext x
        simp only [mem_inter_iff, mem_Ico, mem_Iio, mem_empty_iff_false, iff_false]
        rintro ⟨⟨hx, -⟩, hx'⟩
        exact absurd hx (not_le.mpr (hx'.trans_le hstart))
      rw [union_inter_distrib_right, hnone, union_empty]
      exact h.before
    · have hinside : Ico start stop ∩ Ici sweep.curStart = Ico start stop :=
        inter_eq_left.mpr fun x hx => hstart.trans hx.1
      rw [union_inter_distrib_right, h.running, hinside]
      rw [Ico_union_Ico' hmerge (hstart.trans hlt.le), min_eq_left hstart]
  · -- A gap: the running interval is counted and the new one takes its place.
    rw [if_neg hmerge]
    have hgap : sweep.curEnd < start := not_le.mp hmerge
    have hrest : covered ∩ Ici start = ∅ := by
      ext x
      simp only [mem_inter_iff, mem_Ici, mem_empty_iff_false, iff_false]
      rintro ⟨hx, hstartx⟩
      have hrun : x ∈ Ico sweep.curStart sweep.curEnd :=
        h.running ▸ ⟨hx, hstart.trans hstartx⟩
      exact absurd hrun.2 (not_lt.mpr (hgap.le.trans hstartx))
    have hall : covered ∩ Iio start = covered := by
      refine inter_eq_left.mpr fun x hx => ?_
      by_contra hge
      exact eq_empty_iff_forall_notMem.mp hrest x ⟨hx, mem_Ici.mpr (not_lt.mp hge)⟩
    refine ⟨⟨?_, close_nonneg h, ?_⟩, le_rfl⟩
    · have hnew : Ico start stop ∩ Iio start = ∅ := by
        ext x
        simp only [mem_inter_iff, mem_Ico, mem_Iio, mem_empty_iff_false, iff_false]
        rintro ⟨⟨hx, -⟩, hx'⟩
        exact absurd hx (not_le.mpr hx')
      rw [union_inter_distrib_right, hnew, union_empty, hall]
      exact h.volume_eq
    · have hnew : Ico start stop ∩ Ici start = Ico start stop :=
        inter_eq_left.mpr fun x hx => hx.1
      rw [union_inter_distrib_right, hrest, empty_union, hnew]

def coverage (startMs endMs : ℝ) (intervals : List (ℝ × ℝ)) : Set ℝ :=
  {x | ∃ interval ∈ intervals, x ∈ clamp startMs endMs interval}

theorem coverage_cons (startMs endMs : ℝ) (interval : ℝ × ℝ) (rest : List (ℝ × ℝ)) :
    coverage startMs endMs (interval :: rest) =
      clamp startMs endMs interval ∪ coverage startMs endMs rest := by
  ext x
  simp [coverage]

theorem Swept.run {intervals : List (ℝ × ℝ)} (h : Swept sweep covered) (startMs endMs : ℝ)
    (hsorted : intervals.Pairwise fun a b => a.1 ≤ b.1)
    (hfirst : ∀ interval ∈ intervals, sweep.curStart ≤ max interval.1 startMs) :
    Swept (intervals.foldl (Sweep.step startMs endMs) sweep)
      (covered ∪ coverage startMs endMs intervals) := by
  induction intervals generalizing sweep covered with
  | nil => simpa [coverage] using h
  | cons interval rest ih =>
    obtain ⟨hle, hsorted⟩ := List.pairwise_cons.mp hsorted
    obtain ⟨hstep, hcur⟩ := h.step endMs interval
      (hfirst interval (List.mem_cons_self ..))
    rw [List.foldl_cons, coverage_cons, ← union_assoc]
    refine ih hstep hsorted fun next hnext => ?_
    exact hcur.trans (max_le_max (hle next hnext) le_rfl)

theorem Swept.first (startMs endMs : ℝ) (interval : ℝ × ℝ) :
    Swept ⟨0, max interval.1 startMs, min interval.2 endMs⟩ (clamp startMs endMs interval) := by
  refine ⟨?_, le_rfl, ?_⟩
  · have hnone : clamp startMs endMs interval ∩ Iio (max interval.1 startMs) = ∅ := by
      ext x
      simp only [clamp, mem_inter_iff, mem_Ico, mem_Iio, mem_empty_iff_false, iff_false]
      rintro ⟨⟨hx, -⟩, hx'⟩
      exact absurd hx (not_le.mpr hx')
    rw [hnone, measure_empty, ENNReal.ofReal_zero]
  · exact inter_eq_left.mpr fun x hx => hx.1

theorem sortedIntervals_pairwise (timeline : List (TimelineEvent ℝ)) :
    (sortedIntervals timeline).Pairwise fun a b => a.1 ≤ b.1 := by
  refine (List.pairwise_mergeSort ?_ ?_ _).imp ?_
  · intro a b c
    simp only [pairLe, decide_eq_true_eq]
    rintro (hab | ⟨hab, hab'⟩) (hbc | ⟨hbc, hbc'⟩)
    · exact .inl (hab.trans hbc)
    · exact .inl (hbc ▸ hab)
    · exact .inl (hab ▸ hbc)
    · exact .inr ⟨hab.trans hbc, hab'.trans hbc'⟩
  · intro a b
    simp only [pairLe, Bool.or_eq_true, decide_eq_true_eq]
    rcases lt_trichotomy a.1 b.1 with h | h | h
    · exact .inl (.inl h)
    · rcases le_total a.2 b.2 with h' | h'
      · exact .inl (.inr ⟨h, h'⟩)
      · exact .inr (.inr ⟨h.symm, h'⟩)
    · exact .inr (.inl h)
  · intro a b h
    simp only [pairLe, decide_eq_true_eq] at h
    rcases h with h | ⟨h, -⟩
    · exact h.le
    · exact h.le

-- ---------------------------------------------------------------------------
-- The union of the intervals
-- ---------------------------------------------------------------------------

/-- The times some entry of the timeline covers inside the window. -/
def busyTimes (timeline : List (TimelineEvent ℝ)) (startMs endMs : ℝ) : Set ℝ :=
  (⋃ event ∈ timeline, Icc event.startMs event.endMs) ∩ Icc startMs endMs

theorem coverage_sorted (timeline : List (TimelineEvent ℝ)) (startMs endMs : ℝ) :
    coverage startMs endMs (sortedIntervals timeline) =
      (⋃ event ∈ timeline, Ico event.startMs event.endMs) ∩ Ico startMs endMs := by
  ext x
  simp only [coverage, clamp_eq, sortedIntervals, mem_ofPred_eq, List.mem_mergeSort, List.mem_map,
    List.mem_filter, decide_eq_true_eq, mem_inter_iff, mem_iUnion, exists_prop]
  constructor
  · rintro ⟨_, ⟨event, ⟨hmem, -⟩, rfl⟩, hx, hwindow⟩
    exact ⟨⟨event, hmem, hx⟩, hwindow⟩
  · rintro ⟨⟨event, hmem, hx⟩, hwindow⟩
    exact ⟨_, ⟨event, ⟨hmem, lt_of_le_of_lt hx.1 hx.2⟩, rfl⟩, hx, hwindow⟩

/-- Whether the intervals contain their ends makes no difference. -/
theorem volume_busyTimes (timeline : List (TimelineEvent ℝ)) (startMs endMs : ℝ) :
    volume (busyTimes timeline startMs endMs) =
      volume (coverage startMs endMs (sortedIntervals timeline)) := by
  rw [coverage_sorted]
  let ends : Set ℝ := {x | x = endMs ∨ ∃ event ∈ timeline, x = event.endMs}
  have hfinite : ends.Finite := by
    refine ((List.finite_toSet (endMs :: timeline.map (·.endMs)))).subset ?_
    rintro x (rfl | ⟨event, hmem, rfl⟩)
    · exact List.mem_cons_self ..
    · exact List.mem_cons_of_mem _ (List.mem_map_of_mem hmem)
  refine le_antisymm ?_ (measure_mono ?_)
  · calc volume (busyTimes timeline startMs endMs)
        ≤ volume ((⋃ event ∈ timeline, Ico event.startMs event.endMs) ∩ Ico startMs endMs ∪ ends) := by
          refine measure_mono ?_
          rintro x ⟨hx, hwindow⟩
          simp only [mem_iUnion, exists_prop] at hx
          obtain ⟨event, hmem, hx⟩ := hx
          by_cases hend : x = endMs ∨ x = event.endMs
          · refine .inr (hend.imp id fun h => ⟨event, hmem, h⟩)
          · obtain ⟨hend, hevent⟩ := not_or.mp hend
            refine .inl ⟨?_, hwindow.1, lt_of_le_of_ne hwindow.2 hend⟩
            simp only [mem_iUnion, exists_prop]
            exact ⟨event, hmem, hx.1, lt_of_le_of_ne hx.2 hevent⟩
      _ ≤ _ + volume ends := measure_union_le _ _
      _ = _ := by rw [hfinite.measure_zero, add_zero]
  · refine inter_subset_inter ?_ Ico_subset_Icc_self
    exact iUnion₂_mono fun event _ => Ico_subset_Icc_self

/-- The idle time of a window is its length less the measure of what the
intervals cover of it. -/
theorem computeGlobalIdle_eq (timeline : List (TimelineEvent ℝ)) {startMs endMs : ℝ}
    (h : startMs < endMs) :
    (computeGlobalIdle timeline startMs endMs).1 =
      (endMs - startMs) - (volume (busyTimes timeline startMs endMs)).toReal := by
  rw [volume_busyTimes, computeGlobalIdle, if_neg (not_le.mpr h)]
  have hsorted := sortedIntervals_pairwise timeline
  have hwindow : coverage startMs endMs (sortedIntervals timeline) ⊆ Ico startMs endMs := by
    rw [coverage_sorted]
    exact inter_subset_right
  revert hsorted hwindow
  cases sortedIntervals timeline with
  | nil => simp [coverage]
  | cons first rest =>
    intro hsorted hwindow
    obtain ⟨hfirst, hsorted⟩ := List.pairwise_cons.mp hsorted
    have hrun := (Swept.first startMs endMs first).run startMs endMs
      hsorted fun interval hmem => max_le_max (hfirst interval hmem) le_rfl
    rw [← coverage_cons] at hrun
    have hvolume := hrun.volume_eq
    have hle := measure_mono (μ := volume) hwindow
    rw [hvolume, Real.volume_Ico, ENNReal.ofReal_le_ofReal_iff (sub_nonneg.mpr h.le)] at hle
    rw [hvolume, ENNReal.toReal_ofReal (close_nonneg hrun)]
    exact max_eq_right (sub_nonneg.mpr hle)

/-- Two intervals that overlap, one of them leaving the window. -/
theorem computeGlobalIdle_overlap :
    (computeGlobalIdle [⟨1, 4⟩, ⟨3, 12⟩] (0 : ℝ) 10).1 =
      (10 - 0) - (volume (busyTimes [⟨1, 4⟩, ⟨3, 12⟩] 0 10)).toReal :=
  computeGlobalIdle_eq _ (by norm_num)

end GlobalIdle

end GfDit
