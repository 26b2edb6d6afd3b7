import GfDit.Lib.BestTable
import Mathlib.Data.List.TakeDrop

/-!
# Rows of best choices

A table over the numbers up to a bound, as the list of its cells. A cell that
is empty is below every value. The best cell is the first of the greatest.
-/

namespace BestTable

/-- The cells of a table, by their number. -/
abbrev Row (V P : Type*) := List (Option (V × P))

namespace Row

variable {V P : Type*} {row : Row V P}

def cell (row : Row V P) : Table Nat V P := fun k => (row[k]?).join

def empty (V P : Type*) (size : Nat) : Row V P := List.replicate size none

theorem cell_empty (size : Nat) : (empty V P size).cell = fun _ => none := by
  funext k
  simp only [cell, empty, List.getElem?_replicate]
  split <;> rfl

theorem cell_set (h : k < row.length) (entry : V × P) :
    cell (row.set k (some entry)) = Function.update row.cell k (some entry) := by
  funext other
  by_cases hk : other = k
  · subst hk
    simp [cell, h]
  · simp [cell, Function.update_of_ne hk, List.getElem?_set_ne (Ne.symm hk)]

theorem cell_lt (h : row.cell k = some entry) : k < row.length := by
  by_contra hge
  simp [cell, List.getElem?_eq_none (not_lt.mp hge)] at h

-- ---------------------------------------------------------------------------
-- Writing
-- ---------------------------------------------------------------------------

section Improve

variable [LinearOrder V]

def improve (row : Row V P) (entry : Nat × V × P) : Row V P :=
  match row.cell entry.1 with
  | none => row.set entry.1 (some entry.2)
  | some (value, _) => if value < entry.2.1 then row.set entry.1 (some entry.2) else row

@[simp] theorem length_improve (row : Row V P) (entry : Nat × V × P) :
    (row.improve entry).length = row.length := by
  unfold improve
  cases row.cell entry.1 with
  | none => simp
  | some cell =>
    simp only
    split <;> simp

theorem cell_improve (entry : Nat × V × P) (h : entry.1 < row.length) :
    (row.improve entry).cell = BestTable.improve row.cell entry := by
  unfold improve BestTable.improve better
  cases hc : row.cell entry.1 with
  | none => simp [cell_set h]
  | some cell =>
    by_cases hlt : cell.1 < entry.2.1
    · simp [hlt, cell_set h]
    · simp [hlt]

theorem cell_foldl_improve (entries : List (Nat × V × P)) (row : Row V P)
    (h : ∀ entry ∈ entries, entry.1 < row.length) :
    (entries.foldl improve row).length = row.length ∧
      (entries.foldl improve row).cell = sweep row.cell entries := by
  induction entries generalizing row with
  | nil => exact ⟨rfl, rfl⟩
  | cons entry entries ih =>
    have hfirst := h entry (List.mem_cons_self ..)
    obtain ⟨hlength, hcell⟩ := ih (row.improve entry) fun e he => by
      rw [length_improve]
      exact h e (List.mem_cons_of_mem _ he)
    refine ⟨hlength.trans (length_improve ..), ?_⟩
    rw [List.foldl_cons, hcell, cell_improve entry hfirst]
    rfl

/-- Writing entries to an empty row keeps the best for each cell. -/
theorem optimal_foldl_improve {entries : List (Nat × V × P)} {size : Nat}
    (h : ∀ entry ∈ entries, entry.1 < size) :
    (entries.foldl improve (empty V P size)).length = size ∧
      Optimal (cell (entries.foldl improve (empty V P size)))
        fun k v p => (k, v, p) ∈ entries := by
  obtain ⟨hlength, hcell⟩ := cell_foldl_improve entries (empty V P size) fun entry hentry => by
    rw [empty, List.length_replicate]
    exact h entry hentry
  refine ⟨by rw [hlength, empty, List.length_replicate], ?_⟩
  rw [hcell, cell_empty]
  exact (Optimal.none.sweep entries).congr fun k v p => by rw [false_or]

theorem optimal_single {size : Nat} (hsize : 0 < size) (v₀ : V) (p₀ : P) :
    ((empty V P size).set 0 (some (v₀, p₀))).length = size ∧
      Optimal (cell ((empty V P size).set 0 (some (v₀, p₀))))
        fun k v p => k = 0 ∧ v = v₀ ∧ p = p₀ := by
  have hcell : cell ((empty V P size).set 0 (some (v₀, p₀))) =
      Function.update (fun _ : Nat => none) 0 (some (v₀, p₀)) := by
    rw [cell_set (by simpa [empty] using hsize), cell_empty]
  refine ⟨by simp [empty], ?_, ?_⟩
  · intro k v p h
    rw [hcell] at h
    by_cases hk : k = 0
    · subst hk
      simpa [eq_comm] using h
    · simp [Function.update_of_ne hk] at h
  · rintro k v p ⟨rfl, rfl, rfl⟩
    exact ⟨_, _, by rw [hcell, Function.update_self], le_rfl⟩

end Improve

-- ---------------------------------------------------------------------------
-- The best cell
-- ---------------------------------------------------------------------------

section Best

variable [LinearOrder V]

def beats : Option V → Option V → Bool
  | none, _ => false
  | some _, none => true
  | some a, some b => decide (b < a)

def better (row : Row V P) (best k : Nat) : Nat :=
  if beats ((row.cell k).map Prod.fst) ((row.cell best).map Prod.fst) then k else best

def bestBelow (row : Row V P) (size : Nat) : Nat := (List.range size).foldl row.better 0

theorem le_of_not_beats {a b : Option V} (h : beats a b = false) (ha : a = some v) :
    ∃ w, b = some w ∧ v ≤ w := by
  subst ha
  cases b with
  | none => simp [beats] at h
  | some w => exact ⟨w, rfl, by simpa [beats] using h⟩

theorem bestBelow_spec (hzero : row.cell 0 = some entry) (size : Nat) :
    ∃ best, row.cell (row.bestBelow size) = some best ∧
      ∀ k < size, ∀ other, row.cell k = some other → other.1 ≤ best.1 := by
  induction size with
  | zero => exact ⟨entry, hzero, by simp⟩
  | succ size ih =>
    obtain ⟨best, hbest, hall⟩ := ih
    have hstep : row.bestBelow (size + 1) = row.better (row.bestBelow size) size := by
      rw [bestBelow, List.range_succ, List.foldl_append]
      rfl
    rw [hstep, better]
    by_cases hbeats : beats ((row.cell size).map Prod.fst)
        ((row.cell (row.bestBelow size)).map Prod.fst)
    · rw [if_pos hbeats]
      cases hcell : row.cell size with
      | none => simp [hcell, beats] at hbeats
      | some last =>
        have hlt : best.1 < last.1 := by simpa [hcell, hbest, beats] using hbeats
        refine ⟨last, rfl, fun k hk other hother => ?_⟩
        rcases Nat.lt_succ_iff_lt_or_eq.mp hk with hk | rfl
        · exact (hall k hk other hother).trans hlt.le
        · cases hcell.symm.trans hother
          exact le_rfl
    · rw [if_neg hbeats]
      refine ⟨best, hbest, fun k hk other hother => ?_⟩
      rcases Nat.lt_succ_iff_lt_or_eq.mp hk with hk | rfl
      · exact hall k hk other hother
      · obtain ⟨w, hw, hle⟩ := le_of_not_beats (Bool.eq_false_iff.mpr hbeats)
          (by rw [hother]; rfl)
        rw [hbest] at hw
        exact hle.trans (Option.some.inj hw).ge

end Best

end Row

end BestTable
