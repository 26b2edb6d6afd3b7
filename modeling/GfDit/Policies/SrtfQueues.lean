import GfDit.Policies.FcfsTurns

/-!
# The queues and counters of the SRTF policies

What waits, runs and is launching is what the log says. The queues hold the
tasks that wait, by group and request; the counters of a group are the number
of its tasks that run and that are launching, two and one at most. Each
operation keeps this, as long as no task is reported twice.
-/

namespace GfDit

open Prog

-- ---------------------------------------------------------------------------
-- The log
-- ---------------------------------------------------------------------------

abbrev Posting := InferenceTask × String

namespace SrtfEntry

def roster : SrtfEntry → Option (Roster.Entry Posting String String)
  | .reported task groupId => some (.reported (task, groupId))
  | .started task groupId => some (.started (task, groupId))
  | .launched _ => none
  | .ended taskId => some (.ended taskId)
  | .closed requestId => some (.closed requestId)

def launch : SrtfEntry → Option (Roster.Entry Posting String String)
  | .started task groupId => some (.started (task, groupId))
  | .launched taskId => some (.ended taskId)
  | .reported _ _ | .ended _ | .closed _ => none

end SrtfEntry

namespace Srtf

def ownerOf (x : Posting) : String := x.1.requestId

def idOf (x : Posting) : String := x.1.taskId

def roster (p : Srtf) : List (Roster.Entry Posting String String) :=
  p.log.filterMap SrtfEntry.roster

def waiting (p : Srtf) : List Posting := Roster.waiting ownerOf p.roster

def running (p : Srtf) : List Posting := Roster.running idOf p.roster

def launching (p : Srtf) : List Posting :=
  Roster.running idOf (p.log.filterMap SrtfEntry.launch)

def onGroup (groupId : String) (x : Posting) : Bool := x.2 = groupId

def queuedAt (groupId requestId : String) (x : Posting) : Bool :=
  x.2 = groupId ∧ x.1.requestId = requestId

variable {p p' : Srtf} {task : InferenceTask}

-- ---------------------------------------------------------------------------
-- Queues
-- ---------------------------------------------------------------------------

-- A queue is replaced; neither an empty queue nor a group without queues is
-- kept.

def putIn (byRequest : Dict String (List InferenceTask)) (requestId : String)
    (queue : List InferenceTask) : Dict String (List InferenceTask) :=
  if queue = [] then byRequest.erase requestId else byRequest.set requestId queue

def putGroup (runnable : Dict String (Dict String (List InferenceTask))) (groupId : String)
    (byRequest : Dict String (List InferenceTask)) : Dict String (Dict String (List InferenceTask)) :=
  if byRequest.length = 0 then runnable.erase groupId else runnable.set groupId byRequest

def putQueue (runnable : Dict String (Dict String (List InferenceTask)))
    (groupId requestId : String) (queue : List InferenceTask) :
    Dict String (Dict String (List InferenceTask)) :=
  putGroup runnable groupId (putIn (runnable.getD groupId ∅) requestId queue)

theorem length_eq_zero {d : Dict String (List InferenceTask)} : d.length = 0 ↔ d = ∅ :=
  ⟨fun h => Dict.ext' (List.length_eq_zero_iff.mp h), fun h => h ▸ rfl⟩

variable {runnable : Dict String (Dict String (List InferenceTask))}
  {byRequest : Dict String (List InferenceTask)}

theorem getD_putIn (byRequest : Dict String (List InferenceTask)) (requestId : String)
    (queue : List InferenceTask) (other : String) :
    (putIn byRequest requestId queue).getD other [] =
      if requestId = other then queue else byRequest.getD other [] := by
  unfold putIn
  split
  · rename_i hq
    rw [Dict.getD_erase, hq]
  · exact Dict.getD_set ..

theorem getD_putGroup (runnable : Dict String (Dict String (List InferenceTask)))
    (groupId : String) (byRequest : Dict String (List InferenceTask)) (lane : String) :
    (putGroup runnable groupId byRequest).getD lane ∅ =
      if groupId = lane then byRequest else runnable.getD lane ∅ := by
  unfold putGroup
  split
  · rename_i hzero
    rw [Dict.getD_erase, length_eq_zero.mp hzero]
  · exact Dict.getD_set ..

theorem getD_putQueue (runnable : Dict String (Dict String (List InferenceTask)))
    (groupId requestId : String) (queue : List InferenceTask) (lane other : String) :
    ((putQueue runnable groupId requestId queue).getD lane ∅).getD other [] =
      if groupId = lane ∧ requestId = other then queue
      else (runnable.getD lane ∅).getD other [] := by
  unfold putQueue
  rw [getD_putGroup]
  by_cases hg : groupId = lane
  · subst hg
    simp [getD_putIn]
  · simp [hg]

def Proper (runnable : Dict String (Dict String (List InferenceTask))) : Prop :=
  ∀ groupId byRequest, runnable.get? groupId = some byRequest →
    byRequest ≠ ∅ ∧ ∀ requestId, byRequest.get? requestId ≠ some []

theorem putIn_proper (h : ∀ other, byRequest.get? other ≠ some []) (requestId : String)
    (queue : List InferenceTask) (other : String) :
    (putIn byRequest requestId queue).get? other ≠ some [] := by
  unfold putIn
  split
  · rw [Dict.get?_erase]
    split
    · simp
    · exact h other
  · rename_i hq
    rw [Dict.get?_set]
    split
    · simpa using hq
    · exact h other

theorem Proper.row (h : Proper runnable) (groupId other : String) :
    (runnable.getD groupId ∅).get? other ≠ some [] := by
  cases hg : runnable.get? groupId with
  | none => simp [Dict.getD, hg]
  | some byRequest => simpa [Dict.getD, hg] using (h groupId byRequest hg).2 other

theorem Proper.putQueue (h : Proper runnable) (groupId requestId : String)
    (queue : List InferenceTask) : Proper (putQueue runnable groupId requestId queue) := by
  intro lane byRequest hb
  unfold Srtf.putQueue putGroup at hb
  split at hb
  · rw [Dict.get?_erase] at hb
    split at hb
    · cases hb
    · exact h lane byRequest hb
  · rename_i hlen
    rw [Dict.get?_set] at hb
    split at hb
    · cases hb
      exact ⟨fun he => hlen (length_eq_zero.mpr he),
        putIn_proper (h.row groupId) requestId queue⟩
    · exact h lane byRequest hb

/-- The queues hold what waits, and none is kept empty. -/
structure Queued (p : Srtf) : Prop where
  queues : ∀ groupId requestId, (p.runnableByGroup.getD groupId ∅).getD requestId [] =
    (p.waiting.filter (queuedAt groupId requestId)).map Prod.fst
  proper : Proper p.runnableByGroup

theorem Queued.init (estimator : TaskRuntimeEstimator) (topology : RuntimeTopology) :
    Queued (.init estimator topology) :=
  ⟨fun _ _ => rfl, fun _ _ h => by cases h⟩

theorem Queued.congr (h : Queued p) (hr : p'.runnableByGroup = p.runnableByGroup)
    (hl : p'.waiting = p.waiting) : Queued p' := by
  refine ⟨fun groupId requestId => ?_, fun groupId byRequest hb => ?_⟩
  · rw [hr, hl]
    exact h.queues groupId requestId
  · rw [hr] at hb
    exact h.proper groupId byRequest hb

theorem Queued.mem_keys (h : Queued p) (hm : x ∈ p.waiting) :
    ∃ byRequest, p.runnableByGroup.get? x.2 = some byRequest ∧ x.1.requestId ∈ byRequest.keys := by
  have hqueue := h.queues x.2 x.1.requestId
  have hne : (p.waiting.filter (queuedAt x.2 x.1.requestId)).map Prod.fst ≠ [] := by
    intro hn
    have hmem : x ∈ p.waiting.filter (queuedAt x.2 x.1.requestId) :=
      List.mem_filter.mpr ⟨hm, by simp [queuedAt]⟩
    rw [List.map_eq_nil_iff.mp hn] at hmem
    cases hmem
  rw [← hqueue] at hne
  cases hb : p.runnableByGroup.get? x.2 with
  | none => simp [Dict.getD, hb] at hne
  | some byRequest =>
    refine ⟨byRequest, rfl, (Dict.mem_keys _ _).mpr ?_⟩
    cases hq : byRequest.get? x.1.requestId with
    | none => simp [Dict.getD, hb, hq] at hne
    | some queue => rfl

theorem waiting_enqueue (p : Srtf) (task : InferenceTask) (groupId : String) :
    (p.enqueue task groupId).waiting = p.waiting ++ [(task, groupId)] := rfl

theorem Queued.enqueue (h : Queued p) (task : InferenceTask) (groupId : String) :
    Queued (p.enqueue task groupId) := by
  have hput : (p.enqueue task groupId).runnableByGroup = putQueue p.runnableByGroup groupId
      task.requestId ((p.runnableByGroup.getD groupId ∅).getD task.requestId [] ++ [task]) := by
    unfold putQueue putGroup putIn
    rw [if_neg (show ¬ _ ++ [task] = [] by simp)]
    refine (if_neg fun hzero => ?_).symm
    have hget := Dict.get?_set_self (p.runnableByGroup.getD groupId ∅) task.requestId
      ((p.runnableByGroup.getD groupId ∅).getD task.requestId [] ++ [task])
    rw [length_eq_zero.mp hzero] at hget
    cases hget
  refine ⟨fun lane other => ?_, hput ▸ h.proper.putQueue _ _ _⟩
  rw [hput, getD_putQueue, waiting_enqueue, List.filter_append, List.map_append, ← h.queues]
  split
  · rename_i heq
    simp [queuedAt, heq]
  · rename_i hne
    have hq : queuedAt lane other (task, groupId) = false := by simpa [queuedAt] using hne
    simp [hq]

theorem Queued.pop (h : Queued p) (hb : p.runnableByGroup.get? groupId = some byRequest)
    (hq : byRequest.get? requestId = some (task :: rest))
    (hr : p'.runnableByGroup = (p.popRunnable groupId requestId byRequest rest).runnableByGroup)
    (hl : p'.log = .started task groupId :: p.log) : Queued p' := by
  have hrow : p.runnableByGroup.getD groupId ∅ = byRequest := Dict.getD_of_get? hb _
  have hput : p'.runnableByGroup = putQueue p.runnableByGroup groupId requestId rest := by
    rw [hr, putQueue, hrow]
    rfl
  have hwait : p'.waiting = Roster.waiting ownerOf (.started (task, groupId) :: p.roster) := by
    rw [waiting, roster, hl]
    rfl
  have hhead : ∃ later, p.waiting.filter (queuedAt groupId requestId) = (task, groupId) :: later ∧
      later.map Prod.fst = rest := by
    have hqueue := h.queues groupId requestId
    rw [hrow, Dict.getD_of_get? hq] at hqueue
    obtain ⟨x, later, hx, htask, hrest⟩ := List.map_eq_cons_iff.mp hqueue.symm
    have hin : queuedAt groupId requestId x = true :=
      (List.mem_filter.mp (hx ▸ List.mem_cons_self ..)).2
    obtain ⟨hgroup, -⟩ : x.2 = groupId ∧ x.1.requestId = requestId := by
      simpa [queuedAt] using hin
    exact ⟨later, by rw [hx, ← htask, ← hgroup], hrest⟩
  obtain ⟨later, hlater, hrest⟩ := hhead
  have howner : task.requestId = requestId := by
    have hin := (List.mem_filter.mp (hlater ▸ List.mem_cons_self ..)).2
    simpa [queuedAt] using hin
  refine ⟨fun lane other => ?_, hput ▸ h.proper.putQueue _ _ _⟩
  rw [hput, getD_putQueue, hwait]
  split
  · rename_i heq
    obtain ⟨rfl, rfl⟩ := heq
    rw [Roster.filter_waiting_started hlater, hrest]
  · rename_i hne
    have hq : queuedAt lane other (task, groupId) = false := by
      simpa [queuedAt, howner] using hne
    rw [Roster.filter_waiting_started_of_neg hq]
    exact h.queues lane other

theorem Queued.drop (h : Queued p) (hin : ∀ x ∈ p.waiting, x.1.requestId = requestId → x.2 = groupId)
    (hr : p'.runnableByGroup = (p.dropRunnable requestId groupId).runnableByGroup)
    (hl : p'.log = .closed requestId :: p.log) : Queued p' := by
  have hwait : p'.waiting = p.waiting.filter fun x => ownerOf x ≠ requestId := by
    rw [waiting, roster, hl]
    rfl
  have hempty : ∀ lane, groupId ≠ lane →
      (p.runnableByGroup.getD lane ∅).getD requestId [] = [] := by
    intro lane hne
    rw [h.queues, List.map_eq_nil_iff]
    refine List.filter_eq_nil_iff.mpr fun x hm hq => ?_
    obtain ⟨hlane, howner⟩ : x.2 = lane ∧ x.1.requestId = requestId := by
      simpa [queuedAt] using hq
    exact hne ((hin x hm howner).symm.trans hlane)
  have hqueues : ∀ lane other, (p'.runnableByGroup.getD lane ∅).getD other [] =
      if requestId = other then [] else (p.runnableByGroup.getD lane ∅).getD other [] := by
    intro lane other
    rw [hr, dropRunnable]
    split
    · rename_i hn
      split
      · rename_i heq
        subst heq
        by_cases hl : groupId = lane
        · subst hl
          rw [Dict.getD_of_none hn]
          rfl
        · exact hempty lane hl
      · rfl
    · rename_i byRequest hb
      have hrow := Dict.getD_of_get? hb ∅
      have hput := getD_putQueue p.runnableByGroup groupId requestId [] lane other
      rw [putQueue, hrow] at hput
      refine hput.trans ?_
      by_cases ho : requestId = other
      · subst ho
        by_cases hl : groupId = lane
        · simp [hl]
        · simp [hl, hempty lane hl]
      · simp [ho]
  refine ⟨fun lane other => ?_, ?_⟩
  · rw [hqueues, hwait, List.filter_filter]
    split
    · rename_i heq
      subst heq
      refine (List.map_eq_nil_iff.mpr (List.filter_eq_nil_iff.mpr fun x _ hq => ?_)).symm
      simp only [queuedAt, ownerOf, Bool.and_eq_true, decide_eq_true_eq] at hq
      exact of_decide_eq_true hq.2 hq.1.2
    · rename_i hne
      rw [h.queues]
      congr 1
      refine List.filter_congr fun x _ => ?_
      by_cases hq : x.1.requestId = other
      · simp [queuedAt, ownerOf, hq, Ne.symm hne]
      · simp [queuedAt, hq]
  · rw [hr, dropRunnable]
    split
    · exact h.proper
    · rename_i byRequest hb
      have hput := h.proper.putQueue groupId requestId []
      rwa [putQueue, Dict.getD_of_get? hb] at hput

-- ---------------------------------------------------------------------------
-- Counters
-- ---------------------------------------------------------------------------

def groupOf (xs : List Posting) (taskId : String) : Option String :=
  Dict.lookupIn (xs.map fun x => (idOf x, x.2)) taskId

structure Fresh (p : Srtf) : Prop where
  once : ((p.waiting ++ Roster.started p.roster).map idOf).Nodup
  reported : ∀ x ∈ p.waiting ++ Roster.started p.roster, x ∈ Roster.reported p.roster

/-- The counters of a group stand for its tasks that run and that are
launching, of which there are two and one at most. -/
structure Counted (p : Srtf) : Prop where
  known : ∀ x ∈ p.running, x ∈ Roster.started p.roster
  ids : (p.running.map idOf).Nodup
  launching : p.launching.Sublist p.running
  groups : ∀ taskId, p.dispatchedTaskGroup.get? taskId = groupOf p.running taskId
  pending : ∀ taskId, taskId ∈ p.tasksPendingLaunch ↔ taskId ∈ p.launching.map idOf
  outstanding : ∀ groupId, Counter.count p.outstandingTasksByGroup groupId =
    p.running.countP (onGroup groupId)
  launchPending : ∀ groupId, Counter.count p.launchPendingByGroup groupId =
    p.launching.countP (onGroup groupId)
  atMostTwo : ∀ groupId, Counter.count p.outstandingTasksByGroup groupId ≤ 2
  atMostOne : ∀ groupId, Counter.count p.launchPendingByGroup groupId ≤ 1

theorem Fresh.init (estimator : TaskRuntimeEstimator) (topology : RuntimeTopology) :
    Fresh (.init estimator topology) :=
  ⟨List.nodup_nil, fun _ h => absurd h List.not_mem_nil⟩

theorem Counted.init (estimator : TaskRuntimeEstimator) (topology : RuntimeTopology) :
    Counted (.init estimator topology) where
  known := fun _ h => absurd h List.not_mem_nil
  ids := List.nodup_nil
  launching := .slnil
  groups := fun _ => rfl
  pending := fun _ => Iff.rfl
  outstanding := fun _ => rfl
  launchPending := fun _ => rfl
  atMostTwo := fun _ => Nat.zero_le _
  atMostOne := fun _ => Nat.zero_le _

-- The logs after one more entry.

theorem Fresh.enqueue (h : Fresh p) (hn : task.taskId ∉ (Roster.reported p.roster).map idOf)
    (groupId : String) : Fresh (p.enqueue task groupId) := by
  have hperm : (p.waiting ++ [(task, groupId)] ++ Roster.started p.roster).Perm
      ((task, groupId) :: (p.waiting ++ Roster.started p.roster)) := by
    rw [List.append_assoc]
    exact List.perm_middle
  constructor
  · refine (hperm.map idOf).nodup_iff.mpr ?_
    rw [List.map_cons, List.nodup_cons]
    refine ⟨fun hm => hn ?_, h.once⟩
    obtain ⟨x, hx, hid⟩ := List.mem_map.mp hm
    exact List.mem_map.mpr ⟨x, h.reported x hx, hid⟩
  · intro x hx
    show x ∈ Roster.reported p.roster ++ [(task, groupId)]
    rcases List.mem_cons.mp (hperm.mem_iff.mp hx) with rfl | hx
    · exact List.mem_append_right _ (List.mem_singleton_self _)
    · exact List.mem_append_left _ (h.reported x hx)

theorem Fresh.start (h : Fresh p) (hm : (task, groupId) ∈ p.waiting) (requestId : String) :
    Fresh (p.start groupId requestId task) := by
  have hperm : ((p.start groupId requestId task).waiting ++
      Roster.started (p.start groupId requestId task).roster).Perm
        (p.waiting ++ Roster.started p.roster) := by
    show ((p.start groupId requestId task).waiting ++
      (Roster.started p.roster ++ [(task, groupId)])).Perm _
    rw [← List.append_assoc]
    refine (List.perm_append_singleton _ _).trans ?_
    exact (Roster.perm_waiting_started hm).symm.append_right _
  exact ⟨(hperm.map idOf).nodup_iff.mpr h.once,
    fun x hx => h.reported x (hperm.mem_iff.mp hx)⟩

theorem Fresh.of_sublist (h : Fresh p) (hw : p'.waiting.Sublist p.waiting)
    (hs : Roster.started p'.roster = Roster.started p.roster)
    (hr : Roster.reported p'.roster = Roster.reported p.roster) : Fresh p' := by
  have hsub : (p'.waiting ++ Roster.started p'.roster).Sublist
      (p.waiting ++ Roster.started p.roster) := by
    rw [hs]
    exact hw.append_right _
  exact ⟨h.once.sublist (hsub.map idOf), fun x hx => hr ▸ h.reported x (hsub.subset hx)⟩

theorem groupOf_filter (xs : List Posting) (ended taskId : String) :
    groupOf (xs.filter fun x => idOf x ≠ ended) taskId =
      if ended = taskId then none else groupOf xs taskId := by
  unfold groupOf
  rw [← Dict.lookupIn_eraseIn, Dict.eraseIn, List.filter_map]
  rfl

theorem groupOf_eq_some {xs : List Posting} (hn : (xs.map idOf).Nodup) :
    groupOf xs taskId = some groupId ↔ ∃ x ∈ xs, idOf x = taskId ∧ x.2 = groupId := by
  unfold groupOf
  rw [Dict.lookupIn_eq_some (by rwa [List.map_map]), List.mem_map]
  simp [Prod.ext_iff]

theorem Counted.congr (h : Counted p) (hr : p'.running = p.running)
    (hl : p'.launching = p.launching)
    (hs : Roster.started p'.roster = Roster.started p.roster)
    (hg : p'.dispatchedTaskGroup = p.dispatchedTaskGroup)
    (hp : p'.tasksPendingLaunch = p.tasksPendingLaunch)
    (ho : p'.outstandingTasksByGroup = p.outstandingTasksByGroup)
    (hc : p'.launchPendingByGroup = p.launchPendingByGroup) : Counted p' where
  known := by
    rw [hr, hs]
    exact h.known
  ids := hr ▸ h.ids
  launching := by
    rw [hr, hl]
    exact h.launching
  groups := by
    rw [hr, hg]
    exact h.groups
  pending := by
    rw [hl, hp]
    exact h.pending
  outstanding := by
    rw [hr, ho]
    exact h.outstanding
  launchPending := by
    rw [hl, hc]
    exact h.launchPending
  atMostTwo := ho ▸ h.atMostTwo
  atMostOne := hc ▸ h.atMostOne

theorem Counted.start (h : Counted p) (hf : Fresh p) (hm : (task, groupId) ∈ p.waiting)
    (hroom : p.hasRoom groupId = true) (requestId : String) :
    Counted (p.start groupId requestId task) := by
  obtain ⟨hzero, htwo⟩ : Counter.count p.launchPendingByGroup groupId = 0 ∧
      Counter.count p.outstandingTasksByGroup groupId < 2 := by
    exact of_decide_eq_true hroom
  have hrun : (p.start groupId requestId task).running = (task, groupId) :: p.running := rfl
  have hlaunch : (p.start groupId requestId task).launching = (task, groupId) :: p.launching := rfl
  have hnew : task.taskId ∉ p.running.map idOf := by
    intro hr
    obtain ⟨x, hx, hid⟩ := List.mem_map.mp hr
    have honce := hf.once
    rw [List.map_append, List.nodup_append] at honce
    exact honce.2.2 task.taskId (List.mem_map.mpr ⟨(task, groupId), hm, rfl⟩) (idOf x)
      (List.mem_map_of_mem (h.known x hx)) hid.symm
  have hcount : ∀ (xs : List Posting) (lane : String),
      ((task, groupId) :: xs).countP (onGroup lane) =
        xs.countP (onGroup lane) + if groupId = lane then 1 else 0 := by
    intro xs lane
    rw [List.countP_cons]
    simp [onGroup]
  have ho : ∀ lane, Counter.count (p.start groupId requestId task).outstandingTasksByGroup lane =
      Counter.count p.outstandingTasksByGroup lane + if groupId = lane then 1 else 0 :=
    fun lane => Counter.count_raise _ _ _
  have hc : ∀ lane, Counter.count (p.start groupId requestId task).launchPendingByGroup lane =
      Counter.count p.launchPendingByGroup lane + if groupId = lane then 1 else 0 :=
    fun lane => Counter.count_raise _ _ _
  constructor
  · intro x hx
    show x ∈ Roster.started p.roster ++ [(task, groupId)]
    rcases List.mem_cons.mp hx with rfl | hx
    · exact List.mem_append_right _ (List.mem_singleton_self _)
    · exact List.mem_append_left _ (h.known x hx)
  · rw [hrun, List.map_cons, List.nodup_cons]
    exact ⟨hnew, h.ids⟩
  · rw [hrun, hlaunch]
    exact h.launching.cons_cons _
  · intro taskId
    show (p.dispatchedTaskGroup.set task.taskId groupId).get? taskId = _
    rw [Dict.get?_set, h.groups, hrun]
    rfl
  · intro taskId
    rw [hlaunch, List.map_cons, List.mem_cons, ← h.pending taskId]
    show taskId ∈ (if task.taskId ∈ p.tasksPendingLaunch then p.tasksPendingLaunch
      else p.tasksPendingLaunch ++ [task.taskId]) ↔ _
    split
    · rename_i hin
      exact ⟨.inr, fun hor => hor.elim (fun heq => heq ▸ hin) id⟩
    · simp [idOf, or_comm]
  · intro lane
    rw [ho, h.outstanding, hrun, hcount]
  · intro lane
    rw [hc, h.launchPending, hlaunch, hcount]
  · intro lane
    rw [ho]
    split
    · rename_i heq
      subst heq
      omega
    · exact h.atMostTwo lane
  · intro lane
    rw [hc]
    split
    · rename_i heq
      subst heq
      omega
    · exact h.atMostOne lane

theorem countP_out {xs : List Posting} (hn : (xs.map idOf).Nodup) (hm : x ∈ xs)
    (groupId : String) :
    (xs.filter fun y => idOf y ≠ idOf x).countP (onGroup groupId) =
      xs.countP (onGroup groupId) - if x.2 = groupId then 1 else 0 := by
  rw [← List.countP_filter_ne_key hn hm (onGroup groupId)]
  simp [onGroup]

theorem Counted.markTaskLaunchFinished (h : Counted p) (taskId : String) :
    Counted (p.markTaskLaunchFinished taskId) := by
  have hlaunch : (p.markTaskLaunchFinished taskId).launching =
      p.launching.filter fun x => idOf x ≠ taskId := by
    unfold Srtf.markTaskLaunchFinished
    simp only
    split <;> rfl
  have hsame : (p.markTaskLaunchFinished taskId).running = p.running ∧
      Roster.started (p.markTaskLaunchFinished taskId).roster = Roster.started p.roster := by
    unfold Srtf.markTaskLaunchFinished
    simp only
    split <;> exact ⟨rfl, rfl⟩
  by_cases hin : taskId ∈ p.tasksPendingLaunch
  · obtain ⟨x, hx, rfl⟩ := List.mem_map.mp ((h.pending taskId).mp hin)
    have hgroup : p.dispatchedTaskGroup.get? (idOf x) = some x.2 := by
      rw [h.groups, groupOf_eq_some h.ids]
      exact ⟨x, h.launching.subset hx, rfl, rfl⟩
    have hlids : (p.launching.map idOf).Nodup := h.ids.sublist (h.launching.map idOf)
    have hmark : p.markTaskLaunchFinished (idOf x) = { p with
        log := .launched (idOf x) :: p.log
        tasksPendingLaunch := p.tasksPendingLaunch.filter (· ≠ idOf x)
        launchPendingByGroup := Counter.drop p.launchPendingByGroup x.2 } := by
      unfold Srtf.markTaskLaunchFinished
      simp only [hin, if_true, hgroup]
    have hcount : ∀ lane, Counter.count (Counter.drop p.launchPendingByGroup x.2) lane =
        (p.launching.filter fun y => idOf y ≠ idOf x).countP (onGroup lane) := fun lane => by
      rw [Counter.count_drop, h.launchPending, countP_out hlids hx]
    constructor
    · rw [hsame.1, hsame.2]
      exact h.known
    · rw [hsame.1]
      exact h.ids
    · rw [hsame.1, hlaunch]
      exact List.filter_sublist.trans h.launching
    · rw [hsame.1, hmark]
      exact h.groups
    · intro other
      rw [hlaunch, hmark]
      simp only [List.mem_filter, h.pending other, List.mem_map, decide_eq_true_eq]
      constructor
      · rintro ⟨⟨y, hy, rfl⟩, hne⟩
        exact ⟨y, ⟨hy, hne⟩, rfl⟩
      · rintro ⟨y, ⟨hy, hne⟩, rfl⟩
        exact ⟨⟨y, hy, rfl⟩, hne⟩
    · rw [hsame.1, hmark]
      exact h.outstanding
    · rw [hlaunch, hmark]
      exact hcount
    · rw [hmark]
      exact h.atMostTwo
    · intro lane
      rw [hmark]
      show Counter.count (Counter.drop p.launchPendingByGroup x.2) lane ≤ 1
      rw [Counter.count_drop]
      exact (Nat.sub_le _ _).trans (h.atMostOne lane)
  · have hmark : p.markTaskLaunchFinished taskId =
        { p with log := .launched taskId :: p.log } := by
      unfold Srtf.markTaskLaunchFinished
      simp only [hin, if_false]
    have hnone : p.launching.filter (fun x => idOf x ≠ taskId) = p.launching := by
      refine List.filter_eq_self.mpr fun x hx => decide_eq_true fun heq => hin ?_
      exact (h.pending taskId).mpr (List.mem_map.mpr ⟨x, hx, heq⟩)
    refine h.congr hsame.1 (hlaunch.trans hnone) hsame.2 ?_ ?_ ?_ ?_ <;> rw [hmark]

theorem Counted.releaseDispatchedTask (h : Counted p)
    (hn : taskId ∉ p.launching.map idOf) : Counted (p.releaseDispatchedTask taskId) := by
  have hrun : (p.releaseDispatchedTask taskId).running =
      p.running.filter fun x => idOf x ≠ taskId := rfl
  have hlaunch : (p.releaseDispatchedTask taskId).launching = p.launching := rfl
  have hcount : ∀ lane,
      Counter.count (p.releaseDispatchedTask taskId).outstandingTasksByGroup lane =
        (p.running.filter fun x => idOf x ≠ taskId).countP (onGroup lane) ∧
      Counter.count (p.releaseDispatchedTask taskId).outstandingTasksByGroup lane ≤ 2 := by
    intro lane
    cases hg : p.dispatchedTaskGroup.get? taskId with
    | none =>
      have hnone : p.running.filter (fun x => idOf x ≠ taskId) = p.running := by
        refine List.filter_eq_self.mpr fun x hx => decide_eq_true fun heq => ?_
        rw [h.groups, (groupOf_eq_some h.ids).mpr ⟨x, hx, heq, rfl⟩] at hg
        cases hg
      simp only [Srtf.releaseDispatchedTask, hg]
      rw [hnone]
      exact ⟨h.outstanding lane, h.atMostTwo lane⟩
    | some groupId =>
      rw [h.groups, groupOf_eq_some h.ids] at hg
      obtain ⟨x, hx, rfl, rfl⟩ := hg
      have hgroup : p.dispatchedTaskGroup.get? (idOf x) = some x.2 := by
        rw [h.groups, groupOf_eq_some h.ids]
        exact ⟨x, hx, rfl, rfl⟩
      simp only [Srtf.releaseDispatchedTask, hgroup]
      rw [Counter.count_drop, countP_out h.ids hx, h.outstanding]
      refine ⟨rfl, (Nat.sub_le _ _).trans ?_⟩
      rw [← h.outstanding]
      exact h.atMostTwo lane
  constructor
  · intro x hx
    exact h.known x (List.mem_filter.mp hx).1
  · rw [hrun]
    exact h.ids.sublist (List.filter_sublist.map idOf)
  · rw [hrun, hlaunch]
    have hkeep : p.launching.filter (fun x => idOf x ≠ taskId) = p.launching := by
      refine List.filter_eq_self.mpr fun x hx => decide_eq_true fun heq => hn ?_
      exact List.mem_map.mpr ⟨x, hx, heq⟩
    rw [← hkeep]
    exact h.launching.filter _
  · intro other
    show (p.dispatchedTaskGroup.erase taskId).get? other = _
    rw [hrun, groupOf_filter, Dict.get?_erase, h.groups]
  · exact h.pending
  · intro lane
    rw [hrun]
    exact (hcount lane).1
  · exact h.launchPending
  · exact fun lane => (hcount lane).2
  · exact h.atMostOne

end Srtf

end GfDit
