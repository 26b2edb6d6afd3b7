import Mathlib.Algebra.BigOperators.Group.List.Basic
import Mathlib.Algebra.Order.BigOperators.Group.List
import Mathlib.Tactic.Abel
import Mathlib.Tactic.Linarith
import GfDit.Lib.Dict

/-!
# Work that is owed

An owner opens a job in a lane, pays its items one by one and closes it. What
it owes is the sum of the costs of the items not paid yet, and the backlog of a
lane the sum over the jobs that are open there. The history is newest first.
-/

namespace Dict

variable {κ α K : Type} [DecidableEq κ] [AddCommGroup K]

theorem sum_set (d : Dict κ α) (key : κ) (value : α) (f : κ × α → K) :
    ((d.set key value).entries.map f).sum = (d.entries.map f).sum -
      (d.get? key).elim 0 (fun old => f (key, old)) + f (key, value) := by
  have hin : ∀ entries : List (κ × α), ((setIn entries key value).map f).sum =
      (entries.map f).sum - (lookupIn entries key).elim 0 (fun old => f (key, old)) +
        f (key, value) := by
    intro entries
    induction entries with
    | nil => simp [setIn, lookupIn]
    | cons entry rest ih =>
      obtain ⟨k, v⟩ := entry
      by_cases hk : k = key
      · subst hk
        simp only [setIn, lookupIn, if_true, List.map_cons, List.sum_cons, Option.elim_some]
        abel
      · simp only [setIn, lookupIn, hk, if_false, List.map_cons, List.sum_cons, ih]
        abel
  exact hin d.entries

theorem sum_erase (d : Dict κ α) (key : κ) (f : κ × α → K) :
    ((d.erase key).entries.map f).sum = (d.entries.map f).sum -
      (d.get? key).elim 0 fun old => f (key, old) := by
  have hin : ∀ entries : List (κ × α), (entries.map Prod.fst).Nodup →
      ((eraseIn entries key).map f).sum =
        (entries.map f).sum - (lookupIn entries key).elim 0 fun old => f (key, old) := by
    intro entries hn
    induction entries with
    | nil => simp [eraseIn, lookupIn]
    | cons entry rest ih =>
      obtain ⟨k, v⟩ := entry
      rw [List.map_cons, List.nodup_cons] at hn
      have ih := ih hn.2
      by_cases hk : k = key
      · subst hk
        have hnone : lookupIn rest k = none := by
          cases hl : lookupIn rest k with
          | none => rfl
          | some v' => exact absurd ((lookupIn_isSome rest k).mp (by rw [hl]; rfl)) hn.1
        rw [hnone, Option.elim_none, sub_zero, eraseIn] at ih
        simp only [eraseIn, lookupIn, ne_eq, not_true_eq_false, decide_false, Bool.false_eq_true,
          not_false_eq_true, List.filter_cons_of_neg, if_true, Option.elim_some, List.map_cons,
          List.sum_cons] at ih ⊢
        rw [ih]
        abel
      · simp only [eraseIn] at ih
        simp only [eraseIn, lookupIn, hk, if_false, List.map_cons, List.sum_cons, ne_eq,
          not_false_eq_true, decide_true, List.filter_cons_of_pos, ih]
        abel
  exact hin d.entries d.nodup

end Dict

namespace Backlog

variable {ρ κ γ K : Type}

structure Job (κ γ K : Type) where
  lane : γ
  costs : List (κ × K)

inductive Entry (ρ κ γ K : Type)
  | opened (owner : ρ) (job : Job κ γ K)
  | paid (owner : ρ) (item : κ)
  | closed (owner : ρ)

section

variable [DecidableEq κ]

def Job.pay (job : Job κ γ K) (item : κ) : Job κ γ K :=
  { job with costs := job.costs.filter fun cost => cost.1 ≠ item }

theorem Job.items_pay (job : Job κ γ K) (item : κ) :
    (job.pay item).costs.map Prod.fst = (job.costs.map Prod.fst).filter (· ≠ item) := by
  rw [List.filter_map]
  rfl

theorem Job.lookup_pay (job : Job κ γ K) (item other : κ) :
    Dict.lookupIn (job.pay item).costs other =
      if item = other then none else Dict.lookupIn job.costs other :=
  Dict.lookupIn_eraseIn job.costs item other

variable [DecidableEq ρ]

def jobs : List (Entry ρ κ γ K) → Dict ρ (Job κ γ K)
  | [] => ∅
  | .opened owner job :: log => (jobs log).set owner job
  | .paid owner item :: log =>
    match (jobs log).get? owner with
    | none => jobs log
    | some job => (jobs log).set owner (job.pay item)
  | .closed owner :: log => (jobs log).erase owner

theorem get?_jobs_paid (log : List (Entry ρ κ γ K)) (owner other : ρ) (item : κ) :
    (jobs (.paid owner item :: log)).get? other =
      if owner = other then ((jobs log).get? other).map (Job.pay · item)
      else (jobs log).get? other := by
  simp only [jobs]
  by_cases h : owner = other
  · subst h
    cases hj : (jobs log).get? owner with
    | none => simp [hj]
    | some job => simp
  · cases hj : (jobs log).get? owner with
    | none => simp [h]
    | some job => simp [h, Dict.get?_set_ne]

theorem opened_of_jobs {log : List (Entry ρ κ γ K)}
    (h : (jobs log).get? owner = some job) (hc : cost ∈ job.costs) :
    ∃ first, .opened owner first ∈ log ∧ cost ∈ first.costs := by
  induction log generalizing job with
  | nil => cases h
  | cons entry log ih =>
    cases entry with
    | opened other first =>
      simp only [jobs, Dict.get?_set] at h
      split at h
      · rename_i heq
        cases h
        exact ⟨job, by simp [heq], hc⟩
      · obtain ⟨first, hm, hf⟩ := ih h hc
        exact ⟨first, List.mem_cons_of_mem _ hm, hf⟩
    | paid other item =>
      rw [get?_jobs_paid] at h
      split at h
      · obtain ⟨before, hb, rfl⟩ := Option.map_eq_some_iff.mp h
        obtain ⟨first, hm, hf⟩ := ih hb (List.mem_filter.mp hc).1
        exact ⟨first, List.mem_cons_of_mem _ hm, hf⟩
      · obtain ⟨first, hm, hf⟩ := ih h hc
        exact ⟨first, List.mem_cons_of_mem _ hm, hf⟩
    | closed other =>
      simp only [jobs, Dict.get?_erase] at h
      split at h
      · cases h
      · obtain ⟨first, hm, hf⟩ := ih h hc
        exact ⟨first, List.mem_cons_of_mem _ hm, hf⟩

def unclosed (log : List (Entry ρ κ γ K)) : List (Entry ρ κ γ K) :=
  log.filter fun entry =>
    match entry with
    | .opened _ _ | .paid _ _ => true
    | .closed _ => false

/-- For an open job the closings make no difference. -/
theorem get?_jobs_unclosed {log : List (Entry ρ κ γ K)} (h : (jobs log).get? owner = some job) :
    (jobs (unclosed log)).get? owner = some job := by
  induction log generalizing job with
  | nil => exact h
  | cons entry log ih =>
    cases entry with
    | opened other first =>
      show ((jobs (unclosed log)).set other first).get? owner = some job
      rw [jobs, Dict.get?_set] at h
      rw [Dict.get?_set]
      split
      · rwa [if_pos ‹_›] at h
      · rw [if_neg ‹_›] at h
        exact ih h
    | paid other item =>
      show (jobs (.paid other item :: unclosed log)).get? owner = some job
      rw [get?_jobs_paid] at h ⊢
      split
      · rw [if_pos ‹_›] at h
        obtain ⟨before, hb, rfl⟩ := Option.map_eq_some_iff.mp h
        rw [ih hb]
        rfl
      · rw [if_neg ‹_›] at h
        exact ih h
    | closed other =>
      rw [jobs, Dict.get?_erase] at h
      split at h
      · cases h
      · exact ih h

theorem lane_of_jobs {log : List (Entry ρ κ γ K)} (h : (jobs log).get? owner = some job) :
    ∃ first, .opened owner first ∈ log ∧ first.lane = job.lane := by
  induction log generalizing job with
  | nil => cases h
  | cons entry log ih =>
    have later : ∀ {job : Job κ γ K}, (jobs log).get? owner = some job →
        ∃ first, .opened owner first ∈ entry :: log ∧ first.lane = job.lane := fun hj => by
      obtain ⟨first, hm, hf⟩ := ih hj
      exact ⟨first, List.mem_cons_of_mem _ hm, hf⟩
    cases entry with
    | opened other first =>
      simp only [jobs, Dict.get?_set] at h
      split at h
      · rename_i heq
        cases h
        exact ⟨job, by simp [heq], rfl⟩
      · exact later h
    | paid other item =>
      rw [get?_jobs_paid] at h
      split at h
      · obtain ⟨before, hb, rfl⟩ := Option.map_eq_some_iff.mp h
        obtain ⟨first, hm, hf⟩ := later hb
        exact ⟨first, hm, hf⟩
      · exact later h
    | closed other =>
      simp only [jobs, Dict.get?_erase] at h
      split at h
      · cases h
      · exact later h

variable [AddCommGroup K]

def Job.owed (job : Job κ γ K) : K := (job.costs.map Prod.snd).sum

def Job.cost (job : Job κ γ K) (item : κ) : K :=
  ((job.costs.filter fun cost => cost.1 = item).map Prod.snd).sum

theorem Job.owed_pay (job : Job κ γ K) (item : κ) :
    (job.pay item).owed = job.owed - job.cost item := by
  unfold Job.owed Job.pay Job.cost
  induction job.costs with
  | nil => simp
  | cons cost costs ih =>
    by_cases h : cost.1 = item
    · simp only [List.filter_cons, h, decide_true, decide_false, if_true, ne_eq,
        not_true_eq_false, Bool.false_eq_true, if_false, List.map_cons, List.sum_cons, ih]
      abel
    · simp only [List.filter_cons, h, decide_true, decide_false, if_true, ne_eq,
        not_false_eq_true, Bool.false_eq_true, if_false, List.map_cons, List.sum_cons, ih]
      abel

/-- An item that stands once in a job costs what stands beside it. -/
theorem Job.cost_eq {job : Job κ γ K} (h : (job.costs.map Prod.fst).Nodup) (item : κ) :
    job.cost item = (Dict.lookupIn job.costs item).getD 0 := by
  obtain ⟨lane, costs⟩ := job
  unfold Job.cost
  simp only at h ⊢
  induction costs with
  | nil => rfl
  | cons entry costs ih =>
    obtain ⟨key, cost⟩ := entry
    rw [List.map_cons, List.nodup_cons] at h
    have ih := ih h.2
    by_cases hk : key = item
    · have hnone : costs.filter (fun cost => cost.1 = item) = [] := by
        refine List.filter_eq_nil_iff.mpr fun entry hm he => h.1 ?_
        exact List.mem_map.mpr ⟨entry, hm, by simpa [hk] using he⟩
      simp [Dict.lookupIn, hk, hnone]
    · simpa [Dict.lookupIn, hk] using ih

def owed (log : List (Entry ρ κ γ K)) (owner : ρ) : K :=
  ((jobs log).get? owner).elim 0 Job.owed

variable [DecidableEq γ]

def total (log : List (Entry ρ κ γ K)) (lane : γ) : K :=
  ((jobs log).entries.map fun entry => if entry.2.lane = lane then entry.2.owed else 0).sum

@[simp] theorem total_nil (lane : γ) : total ([] : List (Entry ρ κ γ K)) lane = 0 := rfl

theorem total_opened {log : List (Entry ρ κ γ K)} (h : (jobs log).get? owner = none)
    (job : Job κ γ K) (lane : γ) : total (.opened owner job :: log) lane =
      total log lane + if job.lane = lane then job.owed else 0 := by
  simp only [total, jobs, Dict.sum_set, h, Option.elim_none, sub_zero]

theorem total_paid {log : List (Entry ρ κ γ K)} (h : (jobs log).get? owner = some job) (item : κ)
    (lane : γ) : total (.paid owner item :: log) lane =
      total log lane - if job.lane = lane then job.cost item else 0 := by
  simp only [total, jobs, h, Dict.sum_set, Option.elim_some, Job.owed_pay]
  show _ - _ + (if job.lane = lane then job.owed - job.cost item else 0) = _
  split <;> abel

theorem total_paid_none {log : List (Entry ρ κ γ K)} (h : (jobs log).get? owner = none) (item : κ)
    (lane : γ) : total (.paid owner item :: log) lane = total log lane := by
  simp only [total, jobs, h]

theorem total_closed (log : List (Entry ρ κ γ K)) (owner : ρ) (lane : γ) :
    total (.closed owner :: log) lane = total log lane -
      ((jobs log).get? owner).elim 0 fun job => if job.lane = lane then job.owed else 0 := by
  simp only [total, jobs, Dict.sum_erase]

end

-- ---------------------------------------------------------------------------
-- Costs that are not negative
-- ---------------------------------------------------------------------------

def Job.Nonneg [LE K] [Zero K] (job : Job κ γ K) : Prop := ∀ cost ∈ job.costs, 0 ≤ cost.2

theorem Job.Nonneg.pay [LE K] [Zero K] [DecidableEq κ] {job : Job κ γ K} (h : job.Nonneg)
    (item : κ) : (job.pay item).Nonneg :=
  fun cost hm => h cost (List.mem_filter.mp hm).1

variable [AddCommGroup K] [LinearOrder K] [IsOrderedAddMonoid K]

theorem Job.Nonneg.owed {job : Job κ γ K} (h : job.Nonneg) : 0 ≤ job.owed :=
  List.sum_nonneg fun x hx => by
    obtain ⟨cost, hm, rfl⟩ := List.mem_map.mp hx
    exact h cost hm

theorem Job.Nonneg.cost [DecidableEq κ] {job : Job κ γ K} (h : job.Nonneg) (item : κ) :
    0 ≤ job.cost item :=
  List.sum_nonneg fun x hx => by
    obtain ⟨cost, hm, rfl⟩ := List.mem_map.mp hx
    exact h cost (List.mem_filter.mp hm).1

theorem Job.Nonneg.cost_le [DecidableEq κ] {job : Job κ γ K} (h : job.Nonneg) (item : κ) :
    job.cost item ≤ job.owed := by
  have := (h.pay item).owed
  rw [Job.owed_pay] at this
  exact sub_nonneg.mp this

theorem total_nonneg [DecidableEq κ] [DecidableEq ρ] [DecidableEq γ] {log : List (Entry ρ κ γ K)}
    (h : ∀ owner job, (jobs log).get? owner = some job → job.Nonneg) (lane : γ) :
    0 ≤ total log lane := by
  refine List.sum_nonneg fun x hx => ?_
  obtain ⟨entry, hm, rfl⟩ := List.mem_map.mp hx
  split
  · exact (h entry.1 entry.2 ((Dict.get?_eq_some _).mpr hm)).owed
  · exact le_rfl

/-- A sum of costs that are nothing or more than `ε` is nothing or more than `ε`. -/
theorem sum_zero_or_lt {ε : K} (hε : 0 ≤ ε) {costs : List K}
    (h : ∀ cost ∈ costs, cost = 0 ∨ ε < cost) : costs.sum = 0 ∨ ε < costs.sum := by
  induction costs with
  | nil => exact .inl rfl
  | cons cost costs ih =>
    obtain ⟨hcost, hcosts⟩ := List.forall_mem_cons.mp h
    have hnonneg : 0 ≤ costs.sum := List.sum_nonneg fun x hx => by
      rcases hcosts x hx with rfl | hx
      · exact le_rfl
      · exact hε.trans hx.le
    rw [List.sum_cons]
    rcases hcost with rfl | hcost
    · rw [zero_add]
      exact ih hcosts
    · exact .inr (hcost.trans_le (le_add_of_nonneg_right hnonneg))

theorem total_zero_or_lt [DecidableEq κ] [DecidableEq ρ] [DecidableEq γ] {ε : K} (hε : 0 ≤ ε)
    {log : List (Entry ρ κ γ K)}
    (h : ∀ owner job, (jobs log).get? owner = some job →
      ∀ cost ∈ job.costs, cost.2 = 0 ∨ ε < cost.2) (lane : γ) :
    total log lane = 0 ∨ ε < total log lane := by
  refine sum_zero_or_lt hε fun x hx => ?_
  obtain ⟨entry, hm, rfl⟩ := List.mem_map.mp hx
  split
  · refine sum_zero_or_lt hε fun y hy => ?_
    obtain ⟨cost, hc, rfl⟩ := List.mem_map.mp hy
    exact h entry.1 entry.2 ((Dict.get?_eq_some _).mpr hm) cost hc
  · exact .inl rfl

end Backlog
