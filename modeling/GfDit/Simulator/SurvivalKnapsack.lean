import GfDit.Lib.BestRow
import GfDit.Lib.Dict
import GfDit.Lib.Forall2
import Mathlib.Algebra.BigOperators.Group.List.Basic
import Mathlib.Algebra.Order.Field.Rat

/-!
# The survival knapsack

`_survival_knapsack` of the continuous TetriServe policy: one option for each
request, a width and what it is worth, so that the widths fit the capacity and
the worth is the greatest. The table holds, for each exact use, the best worth
and the widths picked.
-/

namespace GfDit

namespace Continuous

open BestTable (Optimal Chosen Extends Cells Row)

abbrev SurvivalOption := Nat × ℚ

/-- The best value of each use, with the widths picked. -/
abbrev SurvivalRow := Row ℚ (Dict String Nat)

abbrev RequestOptions := String × List SurvivalOption

def pickWidth (picks : Dict String Nat) (requestId : String) (width : Nat) : Dict String Nat :=
  if 0 < width then picks.set requestId width else picks

/-- The cells the options of one request lead to, in the order of the loops. -/
def survivalEntries (capacity : Nat) (row : SurvivalRow) (request : RequestOptions) :
    List (Nat × ℚ × Dict String Nat) :=
  (List.range (capacity + 1)).flatMap fun used =>
    match row.cell used with
    | none => []
    | some (value, picks) => request.2.filterMap fun (width, gain) =>
      if used + width > capacity then none
      else some (used + width, value + gain, pickWidth picks request.1 width)

def survivalRow (capacity : Nat) (row : SurvivalRow) (request : RequestOptions) : SurvivalRow :=
  (survivalEntries capacity row request).foldl Row.improve (Row.empty ℚ (Dict String Nat) (capacity + 1))

def firstSurvivalRow (capacity : Nat) : SurvivalRow :=
  (Row.empty ℚ (Dict String Nat) (capacity + 1)).set 0 (some (0, ∅))

def survivalKnapsack (optionsByRequest : List RequestOptions) (capacity : Nat) : Dict String Nat :=
  let row := optionsByRequest.foldl (survivalRow capacity) (firstSurvivalRow capacity)
  ((row.cell (row.bestBelow (capacity + 1))).map Prod.snd).getD ∅

-- ---------------------------------------------------------------------------
-- Choices
-- ---------------------------------------------------------------------------

def Choice (optionsByRequest : List RequestOptions) (options : List SurvivalOption) : Prop :=
  List.Forall₂ (fun request option => option ∈ request.2) optionsByRequest options

def totalWidth (options : List SurvivalOption) : Nat := (options.map Prod.fst).sum

def totalValue (options : List SurvivalOption) : ℚ := (options.map Prod.snd).sum

def widthsOf (optionsByRequest : List RequestOptions) (options : List SurvivalOption) :
    List (String × Nat) :=
  (optionsByRequest.zip options).filterMap fun (request, option) =>
    if 0 < option.1 then some (request.1, option.1) else none

/-- Taking an option of a request: the cell of the greater use. -/
def survivalMove (capacity : Nat) :
    BestTable.Move Nat ℚ (Dict String Nat) (String × SurvivalOption) where
  target used item := if used + item.2.1 > capacity then none else some (used + item.2.1)
  gain item := item.2.2
  record _ picks item := pickWidth picks item.1 item.2.1

def itemsOf (request : RequestOptions) : List (String × SurvivalOption) :=
  request.2.map fun option => (request.1, option)

variable {capacity : Nat} {row : SurvivalRow} {request : RequestOptions}

theorem mem_survivalEntries (hlength : row.length = capacity + 1) (used : Nat) (value : ℚ)
    (picks : Dict String Nat) :
    (used, value, picks) ∈ survivalEntries capacity row request ↔
      Extends (survivalMove capacity) (itemsOf request) (Cells row.cell) used value picks := by
  simp only [survivalEntries, itemsOf, List.mem_flatMap, List.mem_range, Extends, Cells,
    survivalMove, List.mem_map]
  constructor
  · rintro ⟨before, hbefore, hmem⟩
    cases hcell : row.cell before with
    | none => simp [hcell] at hmem
    | some cell =>
      simp only [hcell, List.mem_filterMap] at hmem
      obtain ⟨option, hoption, hentry⟩ := hmem
      by_cases hover : before + option.1 > capacity
      · simp [hover] at hentry
      · simp only [hover, if_false, Option.some.injEq, Prod.mk.injEq] at hentry
        obtain ⟨rfl, rfl, rfl⟩ := hentry
        exact ⟨before, cell.1, cell.2, hcell, _, ⟨option, hoption, rfl⟩, by simp [hover], rfl, rfl⟩
  · rintro ⟨before, value₀, picks₀, hcell, item, ⟨option, hoption, rfl⟩, htarget, rfl, rfl⟩
    refine ⟨before, hlength ▸ Row.cell_lt hcell, ?_⟩
    simp only [hcell, List.mem_filterMap]
    refine ⟨option, hoption, ?_⟩
    by_cases hover : before + option.1 > capacity
    · simp [hover] at htarget
    · simp only [hover, if_false, Option.some.injEq] at htarget ⊢
      rw [htarget]

theorem survivalRow_optimal (request : RequestOptions) (hlength : row.length = capacity + 1) :
    (survivalRow capacity row request).length = capacity + 1 ∧
      Optimal (survivalRow capacity row request).cell
        (Extends (survivalMove capacity) (itemsOf request) (Cells row.cell)) := by
  have hbound : ∀ entry ∈ survivalEntries capacity row request, entry.1 < capacity + 1 := by
    rintro ⟨used, value, picks⟩ hmem
    obtain ⟨_, _, _, _, item, _, htarget, _⟩ := (mem_survivalEntries hlength used value picks).mp hmem
    simp only [survivalMove] at htarget
    split at htarget
    · cases htarget
    · have := Option.some.inj htarget
      omega
  obtain ⟨hlen, hopt⟩ := Row.optimal_foldl_improve hbound
  exact ⟨hlen, hopt.congr fun used value picks => mem_survivalEntries hlength used value picks⟩

-- ---------------------------------------------------------------------------
-- What the table stands for
-- ---------------------------------------------------------------------------

def widthOf (item : String × SurvivalOption) : Option (String × Nat) :=
  if 0 < item.2.1 then some (item.1, item.2.1) else none

theorem widthsOf_eq {optionsByRequest : List RequestOptions} {items : List (String × SurvivalOption)}
    (h : List.Forall₂ (fun request item => item ∈ itemsOf request) optionsByRequest items) :
    widthsOf optionsByRequest (items.map Prod.snd) = items.filterMap widthOf ∧
      items.map Prod.fst = optionsByRequest.map Prod.fst ∧
      Choice optionsByRequest (items.map Prod.snd) := by
  induction h with
  | nil => exact ⟨rfl, rfl, .nil⟩
  | @cons request item requests items hitem _ ih =>
    obtain ⟨hwidths, hids, hchoice⟩ := ih
    obtain ⟨option, hoption, rfl⟩ := List.mem_map.mp hitem
    refine ⟨?_, congrArg (request.1 :: ·) hids, .cons hoption hchoice⟩
    simp only [widthsOf] at hwidths
    simp only [widthsOf, List.map_cons, List.zip_cons_cons, List.filterMap_cons, widthOf, hwidths]

theorem exists_items {optionsByRequest : List RequestOptions} {options : List SurvivalOption}
    (h : Choice optionsByRequest options) : ∃ items, options = items.map Prod.snd ∧
      List.Forall₂ (fun request item => item ∈ itemsOf request) optionsByRequest items := by
  induction h with
  | nil => exact ⟨[], rfl, .nil⟩
  | @cons request option _ _ hoption _ ih =>
    obtain ⟨items, rfl, hitems⟩ := ih
    exact ⟨(request.1, option) :: items, rfl, .cons (List.mem_map_of_mem hoption) hitems⟩

theorem chosen_sums {groups : List (List (String × SurvivalOption))}
    {items : List (String × SurvivalOption)} {used : Nat} {value : ℚ} {picks : Dict String Nat}
    (h : Chosen (survivalMove capacity) 0 0 ∅ groups items used value picks) :
    used = totalWidth (items.map Prod.snd) ∧ value = totalValue (items.map Prod.snd) ∧
      ((items.map Prod.fst).Nodup → picks.entries = items.filterMap widthOf) := by
  induction h with
  | nil => exact ⟨rfl, rfl, fun _ => rfl⟩
  | @snoc _ items _ _ picks _ item _ _ _ htarget ih =>
    obtain ⟨rfl, rfl, hentries⟩ := ih
    simp only [survivalMove] at htarget
    split at htarget
    · cases htarget
    · refine ⟨?_, ?_, fun hids => ?_⟩
      · rw [← Option.some.inj htarget]
        simp [totalWidth]
      · simp [totalValue, survivalMove]
      · rw [List.map_append] at hids
        have hfresh := (List.nodup_append.mp hids).2.2
        have hentries := hentries (List.nodup_append.mp hids).1
        simp only [survivalMove, pickWidth, List.filterMap_append, List.filterMap_cons,
          List.filterMap_nil, widthOf]
        by_cases hpos : 0 < item.2.1
        · rw [if_pos hpos, if_pos hpos, Dict.entries_set_of_none, hentries]
          rw [Dict.get?_eq_none, Dict.keys, hentries]
          intro hmem
          obtain ⟨entry, hentry, hid⟩ := List.mem_map.mp hmem
          obtain ⟨other, hother, hwidth⟩ := List.mem_filterMap.mp hentry
          unfold widthOf at hwidth
          split at hwidth
          · cases hwidth
            exact hfresh _ (List.mem_map_of_mem hother) _ (List.mem_singleton_self _) hid
          · cases hwidth
        · simp [hpos, hentries]

/-- Every choice within the capacity is one the table accounts for. -/
theorem exists_chosen {optionsByRequest : List RequestOptions}
    {items : List (String × SurvivalOption)}
    (h : List.Forall₂ (fun request item => item ∈ itemsOf request) optionsByRequest items)
    (hfit : totalWidth (items.map Prod.snd) ≤ capacity) :
    ∃ picks, Chosen (survivalMove capacity) 0 0 ∅ (optionsByRequest.map itemsOf) items
      (totalWidth (items.map Prod.snd)) (totalValue (items.map Prod.snd)) picks := by
  induction optionsByRequest using List.reverseRecOn generalizing items with
  | nil =>
    cases h
    exact ⟨∅, .nil⟩
  | append_singleton requests request ih =>
    obtain ⟨init, item, rfl, hinit, hitem⟩ := forall₂_snoc h
    have hwidth : totalWidth ((init ++ [item]).map Prod.snd) =
        totalWidth (init.map Prod.snd) + item.2.1 := by simp [totalWidth]
    have hvalue : totalValue ((init ++ [item]).map Prod.snd) =
        totalValue (init.map Prod.snd) + item.2.2 := by simp [totalValue]
    rw [hwidth] at hfit
    obtain ⟨picks, hchosen⟩ := ih hinit (Nat.le_of_add_right_le hfit)
    have htarget : (survivalMove capacity).target (totalWidth (init.map Prod.snd)) item =
        some (totalWidth (init.map Prod.snd) + item.2.1) := by
      simp [survivalMove, hfit]
    rw [List.map_append, hwidth, hvalue]
    exact ⟨_, hchosen.snoc hitem htarget⟩

theorem rows_optimal (capacity : Nat) (optionsByRequest : List RequestOptions) :
    (optionsByRequest.foldl (survivalRow capacity) (firstSurvivalRow capacity)).length =
        capacity + 1 ∧
      Optimal (Row.cell (optionsByRequest.foldl (survivalRow capacity) (firstSurvivalRow capacity)))
        fun used value picks => ∃ items,
          Chosen (survivalMove capacity) 0 0 ∅ (optionsByRequest.map itemsOf) items used value
            picks := by
  obtain ⟨hlength, hfirst⟩ : (firstSurvivalRow capacity).length = capacity + 1 ∧ _ :=
    Row.optimal_single (Nat.succ_pos capacity) 0 ∅
  induction optionsByRequest using List.reverseRecOn with
  | nil =>
    refine ⟨hlength, ⟨?_, ?_⟩⟩
    · intro used value picks h
      obtain ⟨rfl, rfl, rfl⟩ := hfirst.sound h
      exact ⟨[], .nil⟩
    · rintro used value picks ⟨items, hchosen⟩
      exact hfirst.best (Chosen.eq_of_nil hchosen)
  | append_singleton requests request ih =>
    obtain ⟨hlength, hopt⟩ := ih
    obtain ⟨hlength', hopt'⟩ := survivalRow_optimal request hlength
    rw [List.foldl_append, List.foldl_cons, List.foldl_nil]
    refine ⟨hlength', (hopt.extend _ hopt').congr fun used value picks => ?_⟩
    simp only [List.map_append, List.map_cons, List.map_nil]
    exact BestTable.extends_chosen _ _ used value picks

/-- The knapsack's widths are those of a choice of one option for each request
that fits the capacity and is worth the most. -/
theorem survivalKnapsack_best {optionsByRequest : List RequestOptions} (capacity : Nat)
    (hids : (optionsByRequest.map Prod.fst).Nodup)
    (hnone : ∀ request ∈ optionsByRequest, ∃ value, (0, value) ∈ request.2) :
    ∃ options, Choice optionsByRequest options ∧ totalWidth options ≤ capacity ∧
      (survivalKnapsack optionsByRequest capacity).entries = widthsOf optionsByRequest options ∧
      ∀ other, Choice optionsByRequest other → totalWidth other ≤ capacity →
        totalValue other ≤ totalValue options := by
  obtain ⟨hlength, hopt⟩ := rows_optimal capacity optionsByRequest
  -- Every request can go without, so the first cell is reached.
  have hidle : ∃ items, List.Forall₂ (fun request item => item ∈ itemsOf request) optionsByRequest
      items ∧ totalWidth (items.map Prod.snd) = 0 := by
    clear hids hlength hopt
    induction optionsByRequest with
    | nil => exact ⟨[], .nil, rfl⟩
    | cons request requests ih =>
      obtain ⟨items, hitems, hzero⟩ := ih fun other hother => hnone other (List.mem_cons_of_mem _ hother)
      obtain ⟨value, hvalue⟩ := hnone request (List.mem_cons_self ..)
      refine ⟨(request.1, (0, value)) :: items, .cons (List.mem_map_of_mem hvalue) hitems, ?_⟩
      simpa [totalWidth] using hzero
  obtain ⟨idle, hidle, hzero⟩ := hidle
  obtain ⟨picks, hchosen⟩ := exists_chosen hidle (show _ ≤ capacity by simp [hzero])
  rw [hzero] at hchosen
  obtain ⟨_, _, hfirst, -⟩ := hopt.best ⟨_, hchosen⟩
  obtain ⟨⟨value, picks⟩, hbest, hall⟩ := Row.bestBelow_spec hfirst (capacity + 1)
  obtain ⟨items, hchosen⟩ := hopt.sound hbest
  obtain ⟨hused, rfl, hentries⟩ := chosen_sums hchosen
  have hitems := List.forall₂_map_left_iff.mp hchosen.forall₂
  obtain ⟨hwidths, hfst, hchoice⟩ := widthsOf_eq hitems
  have hwithin := Row.cell_lt hbest
  rw [hlength, hused] at hwithin
  refine ⟨items.map Prod.snd, hchoice, Nat.lt_succ_iff.mp hwithin, ?_, fun other hother hfit => ?_⟩
  · rw [hwidths, ← hentries (hfst ▸ hids), survivalKnapsack]
    simp only [hbest, Option.map_some, Option.getD_some]
  · obtain ⟨others, rfl, hothers⟩ := exists_items hother
    obtain ⟨_, hchosen⟩ := exists_chosen hothers hfit
    obtain ⟨w, q, hw, hle⟩ := hopt.best ⟨_, hchosen⟩
    exact hle.trans (hall _ (Nat.lt_succ_of_le hfit) _ hw)

end Continuous

end GfDit
