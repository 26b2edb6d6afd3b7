import GfDit.Lib.BestRow
import GfDit.Lib.Forall2
import GfDit.Simulator.TetriRound

/-!
# The round search finds a best choice

`_dp_combo_search` keeps for every number of GPUs the best state that uses
exactly this many, and for every request and number the option that led there.
Its rows are tables of best choices in the sense of `BestTable`, and going back
along the recorded options gives a choice worth what the last row says.
-/

namespace GfDit

namespace Tetriserve

open BestTable (Optimal Chosen Extends Cells)

variable {capacity : Nat} {row : ComboRow} {opts : List ComboOption}

-- ---------------------------------------------------------------------------
-- A row as a table
-- ---------------------------------------------------------------------------

theorem improve_eq : ComboRow.improve = BestTable.Row.improve := by
  funext row entry
  have hcell : BestTable.Row.cell row entry.1 = row.cell entry.1 := rfl
  unfold ComboRow.improve BestTable.Row.improve
  rw [hcell]
  cases row.cell entry.1 with
  | none => rfl
  | some cell => by_cases hlt : cell.1 < entry.2.1 <;> simp [hlt]

theorem cell_lt {row : ComboRow} {cell : Objective × (Nat × Nat)} (h : row.cell used = some cell) :
    used < row.length := BestTable.Row.cell_lt h

def comboMove (capacity : Nat) : BestTable.Move Nat Objective (Nat × Nat) (ComboOption × Nat) where
  target used option :=
    if used + option.1.gpus > capacity then none else some (used + option.1.gpus)
  gain option := option.1.objective
  record used _ option := (used, option.2)

theorem mem_comboEntries (hlength : row.length = capacity + 1) (used : Nat) (state : Objective)
    (pointer : Nat × Nat) :
    (used, state, pointer) ∈ comboEntries capacity row opts ↔
      Extends (comboMove capacity) opts.zipIdx (Cells row.cell) used state pointer := by
  simp only [comboEntries, List.mem_flatMap, List.mem_range, Extends, Cells, comboMove]
  constructor
  · rintro ⟨before, hbefore, hmem⟩
    cases hcell : row.cell before with
    | none => simp [hcell] at hmem
    | some cell =>
      simp only [hcell, List.mem_filterMap] at hmem
      obtain ⟨option, hoption, hentry⟩ := hmem
      by_cases hover : before + option.1.gpus > capacity
      · simp [hover] at hentry
      · simp only [hover, if_false, Option.some.injEq, Prod.mk.injEq] at hentry
        obtain ⟨rfl, rfl, rfl⟩ := hentry
        exact ⟨before, cell.1, cell.2, hcell, option, hoption, by simp [hover], rfl, rfl⟩
  · rintro ⟨before, state₀, pointer₀, hcell, option, hoption, htarget, rfl, rfl⟩
    refine ⟨before, hlength ▸ cell_lt hcell, ?_⟩
    simp only [hcell, List.mem_filterMap]
    refine ⟨option, hoption, ?_⟩
    by_cases hover : before + option.1.gpus > capacity
    · simp [hover] at htarget
    · simp only [hover, if_false, Option.some.injEq] at htarget ⊢
      rw [htarget]

theorem nextRow_optimal (opts : List ComboOption) (hlength : row.length = capacity + 1) :
    (nextRow capacity row opts).length = capacity + 1 ∧
      Optimal (nextRow capacity row opts).cell
        (Extends (comboMove capacity) opts.zipIdx (Cells row.cell)) := by
  have hbound : ∀ entry ∈ comboEntries capacity row opts, entry.1 < capacity + 1 := by
    rintro ⟨used, state, pointer⟩ hmem
    obtain ⟨_, _, _, _, option, _, htarget, _⟩ := (mem_comboEntries hlength used state pointer).mp hmem
    simp only [comboMove] at htarget
    split at htarget
    · cases htarget
    · have := Option.some.inj htarget
      omega
  obtain ⟨hlen, hopt⟩ := BestTable.Row.optimal_foldl_improve hbound
  rw [nextRow, improve_eq]
  exact ⟨hlen, hopt.congr fun used state pointer => mem_comboEntries hlength used state pointer⟩

-- ---------------------------------------------------------------------------
-- Choices
-- ---------------------------------------------------------------------------

def gpusOf (picks : List ComboOption) : Nat := (picks.map (·.gpus)).sum

/-- What a choice of one option for each request is worth: how many survive,
how many run and the GPUs they use. -/
def worth (picks : List ComboOption) : Objective :=
  toLex ((picks.map (·.surv)).sum, toLex ((picks.map (·.sched)).sum, gpusOf picks))

/-- The scheduled requests of a choice. -/
def combosOf (picks : List ComboOption) : List Combo :=
  picks.zipIdx.filterMap fun (option, idx) =>
    if option.sched = 0 then none else some (comboOf idx option)

theorem gpusOf_append (picks : List ComboOption) (option : ComboOption) :
    gpusOf (picks ++ [option]) = gpusOf picks + option.gpus := by
  simp [gpusOf]

theorem worth_append (picks : List ComboOption) (option : ComboOption) :
    worth (picks ++ [option]) = worth picks + option.objective := by
  simp only [worth, gpusOf_append, List.map_append, List.sum_append, List.map_cons, List.map_nil,
    List.sum_cons, List.sum_nil, Nat.add_zero, ComboOption.objective]
  rfl

theorem combosOf_append (picks : List ComboOption) (option : ComboOption) :
    combosOf (picks ++ [option]) = combosOf picks ++
      if option.sched = 0 then [] else [comboOf picks.length option] := by
  rw [combosOf, List.zipIdx_append, List.filterMap_append]
  congr 1
  by_cases h : option.sched = 0 <;> simp [h]

def ChosenFrom (capacity : Nat) (options : List (List ComboOption))
    (picks : List (ComboOption × Nat)) (used : Nat) (state : Objective) (pointer : Nat × Nat) :
    Prop :=
  Chosen (comboMove capacity) 0 (worth []) (0, 0) (options.map List.zipIdx) picks used state pointer

theorem chosen_sums {groups : List (List (ComboOption × Nat))} {picks : List (ComboOption × Nat)}
    {used : Nat} {state : Objective} {pointer : Nat × Nat}
    (h : Chosen (comboMove capacity) 0 (worth []) (0, 0) groups picks used state pointer) :
    used = gpusOf (picks.map Prod.fst) ∧ state = worth (picks.map Prod.fst) := by
  induction h with
  | nil => exact ⟨rfl, rfl⟩
  | snoc _ _ htarget ih =>
    obtain ⟨rfl, rfl⟩ := ih
    simp only [comboMove] at htarget
    split at htarget
    · cases htarget
    · rw [List.map_append, List.map_cons, List.map_nil, gpusOf_append, worth_append]
      exact ⟨(Option.some.inj htarget).symm, rfl⟩

/-- Every choice within the capacity is one the rows account for. -/
theorem exists_chosen {options : List (List ComboOption)} {picks : List ComboOption}
    (h : List.Forall₂ (fun opts option => option ∈ opts) options picks)
    (hfit : gpusOf picks ≤ capacity) :
    ∃ indexed pointer, ChosenFrom capacity options indexed (gpusOf picks) (worth picks) pointer := by
  induction options using List.reverseRecOn generalizing picks with
  | nil =>
    cases h
    exact ⟨[], (0, 0), .nil⟩
  | append_singleton options opts ih =>
    obtain ⟨init, option, rfl, hinit, hoption⟩ := forall₂_snoc h
    rw [gpusOf_append] at hfit
    obtain ⟨indexed, pointer, hchosen⟩ := ih hinit (by omega)
    obtain ⟨optIdx, hidx⟩ := List.mem_iff_getElem?.mp hoption
    have hmem : (option, optIdx) ∈ opts.zipIdx := List.mk_mem_zipIdx_iff_getElem?.mpr hidx
    have htarget : (comboMove capacity).target (gpusOf init) (option, optIdx) =
        some (gpusOf (init ++ [option])) := by
      simp [comboMove, gpusOf_append, hfit]
    refine ⟨indexed ++ [(option, optIdx)], (gpusOf init, optIdx), ?_⟩
    rw [ChosenFrom, List.map_append, worth_append]
    exact hchosen.snoc hmem htarget

-- ---------------------------------------------------------------------------
-- All requests
-- ---------------------------------------------------------------------------

theorem firstRow_optimal (capacity : Nat) : (firstRow capacity).length = capacity + 1 ∧
    Optimal (firstRow capacity).cell fun used state pointer =>
      used = 0 ∧ state = worth [] ∧ pointer = (0, 0) :=
  BestTable.Row.optimal_single (Nat.succ_pos capacity) (worth []) (0, 0)

theorem comboStages_append (options : List (List ComboOption)) (opts : List ComboOption) :
    comboStages capacity (options ++ [opts]) =
      (nextRow capacity ((comboStages capacity options).row capacity) opts, opts) ::
        comboStages capacity options := by
  rw [comboStages, List.foldl_append]
  rfl

theorem length_comboStages (options : List (List ComboOption)) :
    (comboStages capacity options).length = options.length := by
  induction options using List.reverseRecOn with
  | nil => rfl
  | append_singleton options opts ih => rw [comboStages_append]; simp [ih]

theorem row_optimal (capacity : Nat) (options : List (List ComboOption)) :
    ((comboStages capacity options).row capacity).length = capacity + 1 ∧
      Optimal ((comboStages capacity options).row capacity).cell fun used state pointer =>
        ∃ picks, ChosenFrom capacity options picks used state pointer := by
  induction options using List.reverseRecOn with
  | nil =>
    obtain ⟨hlength, hfirst⟩ := firstRow_optimal capacity
    refine ⟨hlength, ⟨?_, ?_⟩⟩
    · intro used state pointer h
      obtain ⟨rfl, rfl, rfl⟩ := hfirst.sound h
      exact ⟨[], .nil⟩
    · rintro used state pointer ⟨picks, hchosen⟩
      exact hfirst.best (Chosen.eq_of_nil hchosen)
  | append_singleton options opts ih =>
    obtain ⟨hlength, hopt⟩ := ih
    obtain ⟨hlength', hopt'⟩ := nextRow_optimal opts hlength
    rw [comboStages_append]
    refine ⟨hlength', (hopt.extend _ hopt').congr fun used state pointer => ?_⟩
    simp only [ChosenFrom, List.map_append, List.map_cons, List.map_nil]
    exact BestTable.extends_chosen _ _ used state pointer

/-- Going back from a cell finds a choice worth what the cell says. -/
theorem backtrack_spec (options : List (List ComboOption)) {used : Nat} {state : Objective}
    {pointer : Nat × Nat}
    (h : ((comboStages capacity options).row capacity).cell used = some (state, pointer)) :
    ∃ picks, ChosenFrom capacity options picks used state pointer ∧
      backtrack (comboStages capacity options) used = (combosOf (picks.map Prod.fst)).reverse := by
  induction options using List.reverseRecOn generalizing used state pointer with
  | nil =>
    obtain ⟨rfl, rfl, rfl⟩ := (firstRow_optimal capacity).2.sound h
    exact ⟨[], .nil, rfl⟩
  | append_singleton options opts ih =>
    rw [comboStages_append] at h ⊢
    have hlength := (row_optimal capacity options).1
    obtain ⟨before, state₀, pointer₀, hcell, option, hoption, htarget, rfl, rfl⟩ :=
      (nextRow_optimal opts hlength).2.sound h
    obtain ⟨picks, hchosen, hback⟩ := ih hcell
    have hget : opts[option.2]? = some option.1 := List.mk_mem_zipIdx_iff_getElem?.mp hoption
    refine ⟨picks ++ [option], ?_, ?_⟩
    · rw [ChosenFrom, List.map_append]
      exact hchosen.snoc hoption htarget
    · have hlen : (picks.map Prod.fst).length = options.length := by
        have := hchosen.forall₂.length_eq
        simpa using this.symm
      have hrow : (nextRow capacity ((comboStages capacity options).row capacity) opts).cell used =
          some (state₀ + (comboMove capacity).gain option, (before, option.2)) := h
      simp only [backtrack, hrow, hget, hback, length_comboStages]
      rw [List.map_append, List.map_cons, List.map_nil, combosOf_append, hlen]
      by_cases hsched : option.1.sched = 0 <;> simp [hsched]

theorem bestUsed_eq (capacity : Nat) (row : ComboRow) :
    bestUsed capacity row = BestTable.Row.bestBelow row (capacity + 1) := by
  have hbeats : beats = BestTable.Row.beats := by
    funext a b
    cases a <;> cases b <;> rfl
  rw [bestUsed, hbeats]
  rfl

/-- The combos of a round are those of a choice for each candidate that is
worth as much as any other within the capacity. -/
theorem dpComboSearch_best (policy : RoundPolicy) (nowMs : ℚ) (cands : List Candidate)
    (roundDuration : ℚ) (capacity : Nat) : ∃ picks : List ComboOption,
      List.Forall₂ (fun cand option =>
        option ∈ comboOptions policy nowMs roundDuration capacity cand) cands picks ∧
      dpComboSearch policy nowMs cands roundDuration capacity = combosOf picks ∧
      gpusOf picks ≤ capacity ∧
      ∀ other, List.Forall₂ (fun cand option =>
          option ∈ comboOptions policy nowMs roundDuration capacity cand) cands other →
        gpusOf other ≤ capacity → worth other ≤ worth picks := by
  let optionsOf := comboOptions policy nowMs roundDuration capacity
  have hforall : ∀ picks, List.Forall₂ (fun cand option => option ∈ optionsOf cand) cands picks ↔
      List.Forall₂ (fun opts option => option ∈ opts) (cands.map optionsOf) picks := fun picks => by
    rw [List.forall₂_map_left_iff]
  obtain ⟨hlength, hopt⟩ := row_optimal capacity (cands.map optionsOf)
  -- Skipping every request uses no GPU, so the first cell is reached.
  have hskip : ∃ picks, List.Forall₂ (fun cand option => option ∈ optionsOf cand) cands picks ∧
      gpusOf picks = 0 := by
    refine ⟨cands.map (skipOption policy nowMs roundDuration), ?_, ?_⟩
    · rw [List.forall₂_map_right_iff, List.forall₂_same]
      exact fun cand _ => List.mem_cons_self ..
    · refine List.sum_eq_zero fun gpus hgpus => ?_
      simp only [List.map_map, List.mem_map] at hgpus
      obtain ⟨cand, -, rfl⟩ := hgpus
      rfl
  obtain ⟨idle, hidle, hnone⟩ := hskip
  obtain ⟨_, _, hchosen⟩ := exists_chosen ((hforall idle).mp hidle) (show gpusOf idle ≤ capacity by omega)
  rw [hnone] at hchosen
  obtain ⟨v, pointer, hzero, -⟩ := hopt.best ⟨_, hchosen⟩
  obtain ⟨⟨best, pointer⟩, hbest, hall⟩ := BestTable.Row.bestBelow_spec hzero (capacity + 1)
  rw [← bestUsed_eq] at hbest
  obtain ⟨picks, hpicks, hback⟩ := backtrack_spec _ hbest
  obtain ⟨hused, rfl⟩ := chosen_sums hpicks
  have hwithin := cell_lt hbest
  refine ⟨picks.map Prod.fst, ?_, ?_, by omega, fun other hother hfit => ?_⟩
  · rw [hforall]
    have := hpicks.forall₂
    rw [List.forall₂_map_left_iff] at this
    rw [List.forall₂_map_right_iff]
    exact this.imp fun _ _ hmem => List.fst_mem_of_mem_zipIdx hmem
  · rw [dpComboSearch, hback, List.reverse_reverse]
  · obtain ⟨_, _, hchosen⟩ := exists_chosen ((hforall other).mp hother) hfit
    obtain ⟨w, _, hw, hle⟩ := hopt.best ⟨_, hchosen⟩
    exact hle.trans (hall _ (Nat.lt_succ_of_le hfit) _ hw)

end Tetriserve

end GfDit
