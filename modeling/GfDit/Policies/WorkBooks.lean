import Mathlib.Tactic.Positivity
import GfDit.Policies.Work
import GfDit.Scheduler.Basic

/-!
# What is on the books

The books of the policies that bind requests to groups agree with the history
of openings, charges and clean-ups: a request's remaining work is the sum of
the estimates of its tasks that were not charged, and a group's backlog the sum
over the requests bound to it. A backlog of a billionth or less is dropped, so
it can fall short by that much for every charge or clean-up; where no estimate
is that small it is exact.
-/

namespace GfDit

open Prog

-- ---------------------------------------------------------------------------
-- Plans
-- ---------------------------------------------------------------------------

namespace Workload

variable {load : Workload}

theorem keys_eq (load : Workload) (requestId : String) :
    (load.plan requestId).tasks.keys =
      (load.plan requestId).tasks.values.map InferenceTask.taskId := by
  unfold Dict.keys Dict.values
  rw [List.map_map]
  refine List.map_congr_left fun entry hm => ?_
  exact (load.keyed requestId entry.1 entry.2 ((Dict.get?_eq_some _).mpr hm)).symm

/-- A task id belongs to one request. -/
theorem owner_unique (h : taskId ∈ (load.plan requestId).tasks.keys)
    (h' : taskId ∈ (load.plan requestId').tasks.keys) : requestId = requestId' := by
  rw [keys_eq] at h h'
  obtain ⟨task, hm, rfl⟩ := List.mem_map.mp h
  obtain ⟨task', hm', hid⟩ := List.mem_map.mp h'
  obtain rfl := load.unique _ _ task' hm' task hm hid
  rw [← (load.owned _ _ hm).1, ← (load.owned _ _ hm').1]

end Workload

-- ---------------------------------------------------------------------------
-- The books
-- ---------------------------------------------------------------------------

namespace WorkBooks

variable {load : Workload} {books : WorkBooks}

def job? (books : WorkBooks) (requestId : String) : Option (Backlog.Job String String ℚ) :=
  (Backlog.jobs books.log).get? requestId

/-- What stands on the books for a request with these tasks still to charge. -/
structure Covers (load : Workload) (books : WorkBooks) (requestId : String)
    (job : Backlog.Job String String ℚ) : Prop where
  nonneg : job.Nonneg
  nodup : (job.costs.map Prod.fst).Nodup
  known : ∀ cost ∈ job.costs, cost.1 ∈ (load.plan requestId).tasks.keys
  work : ∀ taskId ∈ (load.plan requestId).tasks.keys,
    books.taskWork.get? taskId = Dict.lookupIn job.costs taskId
  ids : books.requestTaskIds.get? requestId = some (job.costs.map Prod.fst)
  remaining : books.requestRemainingWork.getD requestId 0 = job.owed
  bound : books.requestGroup.get? requestId = some job.lane

def settles : WorkEntry → Bool
  | .opened _ _ => false
  | .paid _ _ | .closed _ => true

/-- Estimates that are nothing or more than what is dropped. -/
def Coarse (log : List WorkEntry) : Prop :=
  ∀ requestId job, .opened requestId job ∈ log → ∀ cost ∈ job.costs, cost.2 = 0 ∨ 1 / 10 ^ 9 < cost.2

/-- The backlog of a group against what is owed there. -/
structure Balanced (books : WorkBooks) (groupId : String) : Prop where
  nonneg : 0 ≤ books.groupBacklogWork.getD groupId 0
  le : books.groupBacklogWork.getD groupId 0 ≤ Backlog.total books.log groupId
  short : Backlog.total books.log groupId ≤
    books.groupBacklogWork.getD groupId 0 + books.log.countP settles * (1 / 10 ^ 9)
  exact : Coarse books.log →
    books.groupBacklogWork.getD groupId 0 = Backlog.total books.log groupId

structure Sound (load : Workload) (books : WorkBooks) : Prop where
  opened : ∀ requestId job, books.job? requestId = some job → books.Covers load requestId job
  closed : ∀ requestId, books.job? requestId = none →
    books.requestRemainingWork.get? requestId = none ∧ books.requestTaskIds.get? requestId = none
  balanced : ∀ groupId, books.Balanced groupId

theorem Sound.init (load : Workload) (estimator : TaskRuntimeEstimator)
    (topology : RuntimeTopology) : Sound load (.init estimator topology) where
  opened := fun _ _ h => nomatch h
  closed := fun _ _ => ⟨rfl, rfl⟩
  balanced := fun _ => ⟨le_rfl, le_rfl, by
    show (0 : ℚ) ≤ 0 + (0 : ℕ) * (1 / 10 ^ 9)
    norm_num, fun _ => rfl⟩

-- ---------------------------------------------------------------------------
-- Backlogs
-- ---------------------------------------------------------------------------

variable {entries : List WorkEntry}

theorem Coarse.tail (h : Coarse (entry :: entries)) : Coarse entries :=
  fun requestId job hm => h requestId job (List.mem_cons_of_mem _ hm)

theorem Coarse.total (h : Coarse entries) (groupId : String) :
    Backlog.total entries groupId = 0 ∨ 1 / 10 ^ 9 < Backlog.total entries groupId := by
  refine Backlog.total_zero_or_lt (by norm_num) (fun requestId job hj cost hc => ?_) groupId
  obtain ⟨first, hm, hf⟩ := Backlog.opened_of_jobs hj hc
  exact h requestId first hm cost hf

theorem Balanced.congr {books' : WorkBooks} (h : books.Balanced groupId)
    (hlog : books'.log = entry :: books.log)
    (hb : books'.groupBacklogWork.getD groupId 0 = books.groupBacklogWork.getD groupId 0)
    (ht : Backlog.total books'.log groupId = Backlog.total books.log groupId) :
    books'.Balanced groupId where
  nonneg := hb ▸ h.nonneg
  le := by
    rw [hb, ht]
    exact h.le
  short := by
    rw [hb, ht, hlog, List.countP_cons]
    have := h.short
    push_cast
    have hpos : (0 : ℚ) ≤ (if settles entry then 1 else 0 : ℕ) * (1 / 10 ^ 9) := by positivity
    push_cast at hpos
    linarith
  exact := fun hc => by
    rw [hlog] at hc
    rw [hb, ht]
    exact h.exact hc.tail

theorem getD_lowerBacklog (backlog : Dict String ℚ) (groupId other : String) (charged : ℚ) :
    (lowerBacklog backlog groupId charged).getD other 0 =
      if groupId = other then
        if backlog.getD groupId 0 - charged ≤ 1 / 10 ^ 9 then 0
        else backlog.getD groupId 0 - charged
      else backlog.getD other 0 := by
  unfold lowerBacklog
  by_cases h : groupId = other
  · subst h
    simp only [if_true]
    split <;> simp [Dict.getD]
  · simp only [h, if_false]
    split <;> simp [Dict.getD, Dict.get?_erase_ne, Dict.get?_set_ne, h]

theorem Balanced.lower {books' : WorkBooks} (h : books.Balanced groupId)
    (hlog : books'.log = entry :: books.log) (hs : settles entry = true)
    (hb : books'.groupBacklogWork = lowerBacklog books.groupBacklogWork groupId charged)
    (ht : Backlog.total books'.log groupId = Backlog.total books.log groupId - charged)
    (hle : 0 ≤ Backlog.total books'.log groupId) : books'.Balanced groupId := by
  have hget := getD_lowerBacklog books.groupBacklogWork groupId groupId charged
  rw [if_pos rfl, ← hb] at hget
  have hcount : (books'.log.countP settles : ℚ) = books.log.countP settles + 1 := by
    rw [hlog, List.countP_cons, if_pos hs]
    push_cast
    rfl
  have hshort := h.short
  have hless := h.le
  constructor
  · rw [hget]
    split
    · exact le_rfl
    · linarith
  · rw [hget]
    split
    · exact hle
    · linarith
  · rw [hget, hcount]
    split
    · linarith
    · linarith
  · intro hc
    have heq := h.exact (by rw [hlog] at hc; exact hc.tail)
    rw [hget]
    split
    · rename_i htiny
      rcases hc.total groupId with hzero | hlt
      · exact hzero.symm
      · linarith
    · linarith

theorem Balanced.raise {books' : WorkBooks} (h : books.Balanced groupId)
    (hlog : books'.log = entry :: books.log) (hs : settles entry = false)
    (hb : books'.groupBacklogWork.getD groupId 0 = books.groupBacklogWork.getD groupId 0 + work)
    (ht : Backlog.total books'.log groupId = Backlog.total books.log groupId + work)
    (hw : 0 ≤ work) : books'.Balanced groupId where
  nonneg := hb ▸ add_nonneg h.nonneg hw
  le := by
    rw [hb, ht]
    linarith [h.le]
  short := by
    rw [hb, ht, hlog, List.countP_cons, if_neg (by rw [hs]; simp), add_zero]
    linarith [h.short]
  exact := fun hc => by
    rw [hlog] at hc
    rw [hb, ht, h.exact hc.tail]

theorem Balanced.settle {books' : WorkBooks} (h : books.Balanced groupId)
    (hlog : books'.log = entry :: books.log) (hs : settles entry = true)
    (hb : books'.groupBacklogWork =
      if 0 < charged then lowerBacklog books.groupBacklogWork lane charged
      else books.groupBacklogWork)
    (ht : Backlog.total books'.log groupId =
      Backlog.total books.log groupId - if lane = groupId then charged else 0)
    (hc : 0 ≤ charged) (hle : 0 ≤ Backlog.total books'.log groupId) : books'.Balanced groupId := by
  by_cases hpos : 0 < charged
  · rw [if_pos hpos] at hb
    by_cases hl : lane = groupId
    · subst hl
      rw [if_pos rfl] at ht
      exact h.lower hlog hs hb ht hle
    · rw [if_neg hl, sub_zero] at ht
      refine h.congr hlog ?_ ht
      rw [hb, getD_lowerBacklog, if_neg hl]
  · rw [if_neg hpos] at hb
    refine h.congr hlog (by rw [hb]) ?_
    rw [ht, le_antisymm (not_lt.mp hpos) hc, ite_self, sub_zero]

-- ---------------------------------------------------------------------------
-- Charges
-- ---------------------------------------------------------------------------

theorem Covers.congr {books' : WorkBooks} (h : books.Covers load requestId job)
    (hw : ∀ taskId ∈ (load.plan requestId).tasks.keys,
      books'.taskWork.get? taskId = books.taskWork.get? taskId)
    (hi : books'.requestTaskIds.get? requestId = books.requestTaskIds.get? requestId)
    (hr : books'.requestRemainingWork.get? requestId = books.requestRemainingWork.get? requestId)
    (hg : books'.requestGroup.get? requestId = books.requestGroup.get? requestId) :
    books'.Covers load requestId job where
  nonneg := h.nonneg
  nodup := h.nodup
  known := h.known
  work := fun taskId hk => (hw taskId hk).trans (h.work taskId hk)
  ids := hi.trans h.ids
  remaining := by
    rw [Dict.getD, hr]
    exact h.remaining
  bound := hg.trans h.bound

theorem Covers.cost_eq (h : books.Covers load requestId job)
    (hk : taskId ∈ (load.plan requestId).tasks.keys) :
    job.cost taskId = (books.taskWork.get? taskId).getD 0 := by
  rw [Backlog.Job.cost_eq h.nodup, h.work taskId hk]

/-- What a charge takes from a request is what its task was estimated at. -/
theorem get?_paidTaskIds (books : WorkBooks) (requestId taskId other : String) :
    (match books.requestTaskIds.get? requestId with
      | none => books.requestTaskIds
      | some taskIds => books.requestTaskIds.set requestId (taskIds.filter (· ≠ taskId))).get? other =
      if requestId = other then (books.requestTaskIds.get? other).map (·.filter (· ≠ taskId))
      else books.requestTaskIds.get? other := by
  cases hget : books.requestTaskIds.get? requestId with
  | none =>
    by_cases heq : requestId = other
    · subst heq
      simp [hget]
    · simp [heq]
  | some taskIds =>
    by_cases heq : requestId = other
    · subst heq
      simp [hget]
    · simp [heq, Dict.get?_set_ne]

theorem chargeCompletedTask_books (books : WorkBooks) (requestId taskId : String) :
    let books' := books.chargeCompletedTask requestId taskId
    books'.log = .paid requestId taskId :: books.log ∧
    books'.requestGroup = books.requestGroup ∧
    books'.taskWork = books.taskWork.erase taskId ∧
    (∀ other, books'.requestTaskIds.get? other =
      if requestId = other then (books.requestTaskIds.get? other).map (·.filter (· ≠ taskId))
      else books.requestTaskIds.get? other) := by
  simp only [chargeCompletedTask]
  split
  · exact ⟨rfl, rfl, rfl, get?_paidTaskIds books requestId taskId⟩
  · exact ⟨rfl, rfl, rfl, get?_paidTaskIds books requestId taskId⟩

structure ChargeOf (books books' : WorkBooks) (requestId : String) (cost : ℚ) : Prop where
  remaining : books'.requestRemainingWork.getD requestId 0 =
    books.requestRemainingWork.getD requestId 0 - cost
  other : ∀ other, requestId ≠ other →
    books'.requestRemainingWork.get? other = books.requestRemainingWork.get? other
  none : books.requestRemainingWork.get? requestId = none →
    books'.requestRemainingWork.get? requestId = none
  backlog : ∀ groupId, books.requestGroup.get? requestId = some groupId →
    books'.groupBacklogWork =
      if 0 < cost then lowerBacklog books.groupBacklogWork groupId cost
      else books.groupBacklogWork
  idle : cost = 0 → books'.groupBacklogWork = books.groupBacklogWork

theorem chargeCompletedTask_figures (books : WorkBooks) (requestId taskId : String)
    (hcost : ∀ remaining work, books.requestRemainingWork.get? requestId = some remaining →
      books.taskWork.get? taskId = some work → 0 ≤ work ∧ work ≤ remaining)
    (hnone : books.requestRemainingWork.get? requestId = none → cost = 0)
    (hwork : books.requestRemainingWork.get? requestId ≠ none →
      cost = (books.taskWork.get? taskId).getD 0) :
    ChargeOf books (books.chargeCompletedTask requestId taskId) requestId cost := by
  simp only [chargeCompletedTask]
  split
  · rename_i remaining work hr hw
    obtain ⟨hpos, hle⟩ := hcost remaining work hr hw
    obtain rfl : cost = work := by
      rw [hwork (by rw [hr]; simp), hw]
      rfl
    have hmax : max 0 (remaining - cost) = remaining - cost := max_eq_right (sub_nonneg.mpr hle)
    have hcharged : remaining - max 0 (remaining - cost) = cost := by
      rw [hmax]
      exact sub_sub_cancel _ _
    refine ⟨?_, fun other hne => ?_, fun hnone => ?_, fun groupId hg => ?_, fun hzero => ?_⟩
    · simp only [hmax]
      split
      · rename_i hzero
        simp only [Dict.getD, Dict.get?_erase_self, hr, Option.getD_none, Option.getD_some]
        linarith
      · simp only [Dict.getD, Dict.get?_set_self, hr, Option.getD_some]
    · simp only
      split
      · exact Dict.get?_erase_ne _ hne
      · exact Dict.get?_set_ne _ hne _
    · rw [hr] at hnone
      cases hnone
    · simp only [hg, hcharged]
    · have hnot : ¬ 0 < remaining - max 0 (remaining - cost) := by
        rw [hcharged, hzero]
        exact lt_irrefl _
      simp only [hnot, if_false]
      split <;> rfl
  · rename_i hnot
    have hzero : cost = 0 := by
      cases hr : books.requestRemainingWork.get? requestId with
      | none => exact hnone hr
      | some remaining =>
        rw [hwork (by rw [hr]; simp)]
        cases hw : books.taskWork.get? taskId with
        | none => rfl
        | some work => exact absurd hw (hnot remaining work hr)
    refine ⟨by simp [hzero], fun _ _ => rfl, fun h => h, fun groupId _ => ?_, fun _ => rfl⟩
    rw [if_neg (by rw [hzero]; exact lt_irrefl _)]

theorem Sound.chargeOf (h : books.Sound load) (hk : taskId ∈ (load.plan requestId).tasks.keys) :
    ∃ cost, ChargeOf books (books.chargeCompletedTask requestId taskId) requestId cost ∧
      (books.job? requestId = none → cost = 0) ∧
      ∀ job, books.job? requestId = some job → cost = job.cost taskId := by
  cases hj : books.job? requestId with
  | none =>
    have hnone := (h.closed requestId hj).1
    refine ⟨0, chargeCompletedTask_figures books requestId taskId ?_ (fun _ => rfl) ?_,
      fun _ => rfl, fun job hs => by cases hs⟩
    · intro remaining work hr
      rw [hnone] at hr
      cases hr
    · intro hne
      exact absurd hnone hne
  | some job =>
    have hcovers := h.opened requestId job hj
    have hcost := hcovers.cost_eq hk
    have hrem := hcovers.remaining
    refine ⟨job.cost taskId, chargeCompletedTask_figures books requestId taskId ?_ ?_ ?_,
      fun hn => (by cases hn), fun job' hs => by cases hs; rfl⟩
    · intro remaining work hr hw
      rw [Dict.getD, hr] at hrem
      rw [hw] at hcost
      rw [show remaining = job.owed from hrem, show work = job.cost taskId from hcost.symm]
      exact ⟨hcovers.nonneg.cost taskId, hcovers.nonneg.cost_le taskId⟩
    · intro hnone
      rw [Dict.getD, hnone] at hrem
      have hle := hcovers.nonneg.cost_le taskId
      rw [← show (0 : ℚ) = job.owed from hrem] at hle
      exact le_antisymm hle (hcovers.nonneg.cost taskId)
    · intro _
      exact hcost

theorem job?_charge (books : WorkBooks) (requestId taskId other : String) :
    (books.chargeCompletedTask requestId taskId).job? other =
      if requestId = other then (books.job? other).map (Backlog.Job.pay · taskId)
      else books.job? other := by
  rw [job?, (chargeCompletedTask_books books requestId taskId).1, Backlog.get?_jobs_paid]
  rfl

theorem Covers.charge (h : books.Covers load requestId job)
    (hf : ChargeOf books (books.chargeCompletedTask requestId taskId) requestId
      (job.cost taskId)) :
    (books.chargeCompletedTask requestId taskId).Covers load requestId (job.pay taskId) := by
  obtain ⟨-, hgroup, hwork, hids⟩ := chargeCompletedTask_books books requestId taskId
  constructor
  · exact h.nonneg.pay taskId
  · rw [Backlog.Job.items_pay]
    exact h.nodup.filter _
  · exact fun cost hm => h.known cost (List.mem_filter.mp hm).1
  · intro other hk
    rw [hwork, Dict.get?_erase, Backlog.Job.lookup_pay, h.work other hk]
  · rw [hids, if_pos rfl, h.ids, Backlog.Job.items_pay]
    rfl
  · rw [hf.remaining, h.remaining, Backlog.Job.owed_pay]
  · rw [hgroup]
    exact h.bound

theorem Sound.charge (h : books.Sound load) (hk : taskId ∈ (load.plan requestId).tasks.keys) :
    (books.chargeCompletedTask requestId taskId).Sound load := by
  obtain ⟨hlog, hgroup, hwork, hids⟩ := chargeCompletedTask_books books requestId taskId
  obtain ⟨cost, hfigures, hzero, hcost⟩ := h.chargeOf hk
  have hopened : ∀ other job, (books.chargeCompletedTask requestId taskId).job? other = some job →
      (books.chargeCompletedTask requestId taskId).Covers load other job := by
    intro other job hj
    rw [job?_charge] at hj
    split at hj
    · rename_i heq
      subst heq
      obtain ⟨before, hb, rfl⟩ := Option.map_eq_some_iff.mp hj
      exact (h.opened requestId before hb).charge (hcost before hb ▸ hfigures)
    · rename_i hne
      refine (h.opened other job hj).congr (fun otherId ho => ?_) ?_ ?_ ?_
      · rw [hwork]
        refine Dict.get?_erase_ne _ fun heq => hne ?_
        subst heq
        exact Workload.owner_unique hk ho
      · rw [hids, if_neg hne]
      · exact hfigures.other other hne
      · rw [hgroup]
  refine ⟨hopened, fun other hj => ?_, fun groupId => ?_⟩
  · rw [job?_charge] at hj
    split at hj
    · rename_i heq
      subst heq
      obtain ⟨hr, hi⟩ := h.closed requestId (Option.map_eq_none_iff.mp hj)
      exact ⟨hfigures.none hr, by rw [hids, if_pos rfl, hi]; rfl⟩
    · rename_i hne
      obtain ⟨hr, hi⟩ := h.closed other hj
      exact ⟨(hfigures.other other hne).trans hr, by rw [hids, if_neg hne, hi]⟩
  · have hbalanced := h.balanced groupId
    cases hj : books.job? requestId with
    | none =>
      refine hbalanced.congr hlog ?_ ?_
      · rw [hfigures.idle (hzero hj)]
      · rw [hlog, Backlog.total_paid_none hj]
    | some job =>
      have hcovers := h.opened requestId job hj
      have htotal : Backlog.total (books.chargeCompletedTask requestId taskId).log groupId =
          Backlog.total books.log groupId - if job.lane = groupId then cost else 0 := by
        rw [hlog, Backlog.total_paid hj, hcost job hj]
      exact hbalanced.settle hlog rfl (hfigures.backlog job.lane hcovers.bound) htotal
        (hcost job hj ▸ hcovers.nonneg.cost taskId)
        (Backlog.total_nonneg (fun owner job hj => (hopened owner job hj).nonneg) _)

-- ---------------------------------------------------------------------------
-- Clean-ups
-- ---------------------------------------------------------------------------

/-- The group that a request's end goes by is the one the request is bound to,
or the request is not on the books. -/
def InPlace (books : WorkBooks) (requestId : String) (groupId : Option String) : Prop :=
  books.job? requestId = none ∨ groupId = none ∨ groupId = books.requestGroup.get? requestId

theorem job?_cleanup (books : WorkBooks) (requestId : String) (groupId : Option String)
    (other : String) : (books.cleanupRequestWork requestId groupId).job? other =
      if requestId = other then none else books.job? other :=
  Dict.get?_erase _ requestId other

theorem Sound.cleanup (h : books.Sound load) (hp : books.InPlace requestId groupId) :
    (books.cleanupRequestWork requestId groupId).Sound load := by
  have hopened : ∀ other job, (books.cleanupRequestWork requestId groupId).job? other = some job →
      (books.cleanupRequestWork requestId groupId).Covers load other job := by
    intro other job hj
    rw [job?_cleanup] at hj
    split at hj
    · cases hj
    · rename_i hne
      refine (h.opened other job hj).congr (fun taskId hk => ?_) ?_ ?_ ?_
      · refine (Dict.get?_eraseAll _ _ _).trans (if_neg fun hm => hne ?_)
        cases hq : books.job? requestId with
        | none => simp [Dict.getD, (h.closed requestId hq).2] at hm
        | some own =>
          have hcovers := h.opened requestId own hq
          rw [Dict.getD, hcovers.ids] at hm
          obtain ⟨cost, hc, rfl⟩ := List.mem_map.mp hm
          exact Workload.owner_unique (hcovers.known cost hc) hk
      · exact Dict.get?_erase_ne _ hne
      · exact Dict.get?_erase_ne _ hne
      · exact Dict.get?_erase_ne _ hne
  refine ⟨hopened, fun other hj => ?_, fun lane => ?_⟩
  · rw [job?_cleanup] at hj
    split at hj
    · rename_i heq
      subst heq
      exact ⟨Dict.get?_erase_self _ _, Dict.get?_erase_self _ _⟩
    · rename_i hne
      obtain ⟨hr, hi⟩ := h.closed other hj
      exact ⟨(Dict.get?_erase_ne _ hne).trans hr, (Dict.get?_erase_ne _ hne).trans hi⟩
  · have hbalanced := h.balanced lane
    have hlog : (books.cleanupRequestWork requestId groupId).log = .closed requestId :: books.log :=
      rfl
    cases hj : books.job? requestId with
    | none =>
      refine hbalanced.congr hlog ?_ ?_
      · have hzero : books.requestRemainingWork.getD requestId 0 = 0 := by
          rw [Dict.getD, (h.closed requestId hj).1]
          rfl
        simp only [cleanupRequestWork, hzero, lt_irrefl, if_false]
        split <;> rfl
      · rw [hlog, Backlog.total_closed, show (Backlog.jobs books.log).get? requestId = none from hj]
        exact sub_zero _
    | some job =>
      have hcovers := h.opened requestId job hj
      have hfinal : groupId.or (books.requestGroup.get? requestId) = some job.lane := by
        rcases hp with hn | rfl | rfl
        · rw [hj] at hn
          cases hn
        · exact hcovers.bound
        · rw [hcovers.bound]
          rfl
      have htotal : Backlog.total (books.cleanupRequestWork requestId groupId).log lane =
          Backlog.total books.log lane - if job.lane = lane then job.owed else 0 := by
        rw [hlog, Backlog.total_closed, show (Backlog.jobs books.log).get? requestId = some job from hj]
        rfl
      have hbacklog : (books.cleanupRequestWork requestId groupId).groupBacklogWork =
          if 0 < job.owed then lowerBacklog books.groupBacklogWork job.lane job.owed
          else books.groupBacklogWork := by
        simp only [cleanupRequestWork, hfinal, hcovers.remaining]
      exact hbalanced.settle hlog rfl hbacklog htotal hcovers.nonneg.owed
        (Backlog.total_nonneg (fun owner job hj => (hopened owner job hj).nonneg) _)

-- ---------------------------------------------------------------------------
-- Entering a plan
-- ---------------------------------------------------------------------------

theorem Sound.setGroup (h : books.Sound load)
    (hg : books.job? requestId = none ∨ books.requestGroup.get? requestId = some groupId) :
    Sound load { books with requestGroup := books.requestGroup.set requestId groupId } := by
  refine ⟨fun other job hj => ?_, h.closed, fun lane => ?_⟩
  · refine (h.opened other job hj).congr (fun _ _ => rfl) rfl rfl ?_
    show (books.requestGroup.set requestId groupId).get? other = _
    rw [Dict.get?_set]
    split
    · rename_i heq
      subst heq
      rcases hg with hn | hg
      · rw [show books.job? requestId = some job from hj] at hn
        cases hn
      · exact hg.symm
    · rfl
  · exact ⟨(h.balanced lane).nonneg, (h.balanced lane).le, (h.balanced lane).short,
      (h.balanced lane).exact⟩

theorem Sound.aside {groups : Dict String String} {estimates : Dict String ℚ}
    (h : books.Sound load) (hj : books.job? requestId = none)
    (hg : ∀ other, requestId ≠ other → groups.get? other = books.requestGroup.get? other)
    (hw : ∀ taskId, taskId ∉ (load.plan requestId).tasks.keys →
      estimates.get? taskId = books.taskWork.get? taskId) :
    Sound load { books with requestGroup := groups, taskWork := estimates } := by
  refine ⟨fun other job ho => ?_, h.closed, fun lane => ?_⟩
  · have hne : requestId ≠ other := by
      rintro rfl
      rw [show books.job? requestId = some job from ho] at hj
      cases hj
    refine (h.opened other job ho).congr (fun taskId hk => hw taskId fun hm => ?_) rfl rfl
      (hg other hne)
    exact hne (Workload.owner_unique hm hk)
  · exact ⟨(h.balanced lane).nonneg, (h.balanced lane).le, (h.balanced lane).short,
      (h.balanced lane).exact⟩

theorem Sound.open (h : books.Sound load) (hj : books.job? requestId = none)
    (hids : works.map Prod.fst = (load.plan requestId).tasks.keys)
    (hwork : ∀ work ∈ works, 0 ≤ work.2 ∧ books.taskWork.get? work.1 = some work.2)
    (hgroup : books.requestGroup.get? requestId = some groupId) :
    (books.openJob (load.plan requestId) groupId works).Sound load := by
  have hnamed := load.named requestId
  have hlog : (books.openJob (load.plan requestId) groupId works).log =
      .opened requestId ⟨groupId, works⟩ :: books.log := by
    simp only [openJob, hnamed]
  have hjob : ∀ other, (books.openJob (load.plan requestId) groupId works).job? other =
      if requestId = other then some ⟨groupId, works⟩ else books.job? other := fun other => by
    rw [job?, hlog]
    exact Dict.get?_set ..
  refine ⟨fun other job ho => ?_, fun other ho => ?_, fun lane => ?_⟩
  · rw [hjob] at ho
    split at ho
    · rename_i heq
      subst heq
      cases ho
      constructor
      · exact fun cost hm => (hwork cost hm).1
      · rw [hids]
        exact Dict.keys_nodup _
      · exact fun cost hm => hids ▸ List.mem_map_of_mem hm
      · intro taskId hk
        rw [← hids] at hk
        obtain ⟨work, hm, rfl⟩ := List.mem_map.mp hk
        refine (hwork work hm).2.trans ?_
        refine ((Dict.lookupIn_eq_some ?_ work.1 work.2).mpr hm).symm
        rw [hids]
        exact Dict.keys_nodup _
      · simp [openJob, hnamed, hids]
      · simp [openJob, hnamed, Dict.getD, Backlog.Job.owed]
      · exact hgroup
    · rename_i hne
      refine (h.opened other job ho).congr (fun _ _ => rfl) ?_ ?_ rfl
      · simp [openJob, hnamed, Dict.get?_set_ne _ hne]
      · simp [openJob, hnamed, Dict.get?_set_ne _ hne]
  · rw [hjob] at ho
    split at ho
    · cases ho
    · rename_i hne
      obtain ⟨hr, hi⟩ := h.closed other ho
      simp [openJob, hnamed, Dict.get?_set_ne _ hne, hr, hi]
  · refine (h.balanced lane).raise hlog rfl ?_ (hlog ▸ Backlog.total_opened hj _ lane) ?_
    · simp only [openJob, Dict.getD, Dict.get?_set]
      split
      · rename_i heq
        subst heq
        rfl
      · exact (add_zero _).symm
    · split
      · exact Backlog.Job.Nonneg.owed fun cost hm => (hwork cost hm).1
      · exact le_rfl

end WorkBooks

end GfDit
