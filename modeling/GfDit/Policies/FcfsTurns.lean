import GfDit.Lib.Firsts
import GfDit.Policies.Backlogs

/-!
# One request at a time

The turns of the FCFS policy. The tasks that wait are those of the log; the
ones of an active request are ready, the others are blocked, and the requests
they belong to queue up in the order in which the first of them was reported.
As long as the end of a request is only reported for the request that is
active on the group it names, or for one that is neither active nor waiting
when nobody waits there, the active request changes with its own end only.
-/

namespace GfDit

open Prog

def Ask.ends (requestId : String) : Ask → Prop
  | .event e => e.kind.endsRequest = true ∧ e.requestId = requestId
  | .submitted _ | .runnable _ | .acquire _ | .release _ => False

namespace Fcfs

variable {load : Workload} {w w' w'' : World Fcfs} {task : InferenceTask}

def waiting (p : Fcfs) : List InferenceTask := Roster.waiting InferenceTask.requestId p.log

/-- The task stands on the group. -/
def on (heap : TaskHeap) (groupId : String) (task : InferenceTask) : Bool :=
  heap.groupId task = some groupId

def live (heap : TaskHeap) (active : Dict String String) (task : InferenceTask) : Bool :=
  ((heap.groupId task).bind active.get?) = some task.requestId

def blockedOf (heap : TaskHeap) (active : Dict String String) (requestId : String)
    (task : InferenceTask) : Bool := task.requestId = requestId ∧ live heap active task = false

def stuckOn (heap : TaskHeap) (active : Dict String String) (groupId : String)
    (task : InferenceTask) : Bool := on heap groupId task ∧ live heap active task = false

structure Queued (heap : TaskHeap) (p : Fcfs) : Prop where
  ready : p.readyQueue = p.waiting.filter (live heap p.activeRequestByGroup)
  blocked : ∀ requestId, p.blockedTasksByRequest.getD requestId [] =
    p.waiting.filter (blockedOf heap p.activeRequestByGroup requestId)
  pending : ∀ groupId, p.pendingRequestsByGroup.getD groupId [] = Firsts.firsts
    ((p.waiting.filter (stuckOn heap p.activeRequestByGroup groupId)).map InferenceTask.requestId)
  -- nobody waits for a slot that is free
  taken : ∀ task ∈ p.waiting, ∀ groupId, heap.groupId task = some groupId →
    p.activeRequestByGroup.get? groupId ≠ none

structure Fed (load : Workload) (p : Fcfs) : Prop where
  waiting : ∀ task ∈ p.waiting, load.Has task ∧
    ∃ job, .opened task.requestId job ∈ p.books.log
  active : ∀ groupId requestId, p.activeRequestByGroup.get? groupId = some requestId →
    ∃ job task, .opened requestId job ∈ p.books.log ∧ job.lane = groupId ∧
      load.Has task ∧ task.requestId = requestId
  lawful : Roster.Lawful InferenceTask.requestId (fun _ => false) p.log

structure Sound (load : Workload) (w : World Fcfs) : Prop where
  pinned : w.policy.books.Pinned load w.tasks
  fed : Fed load w.policy
  queued : Queued w.tasks w.policy

theorem Queued.init (heap : TaskHeap) (estimator : TaskRuntimeEstimator)
    (topology : RuntimeTopology) : Queued heap (.init estimator topology) :=
  ⟨rfl, fun _ => rfl, fun _ => rfl, fun _ h => absurd h List.not_mem_nil⟩

-- ---------------------------------------------------------------------------
-- Queues
-- ---------------------------------------------------------------------------

variable {heap heap' : TaskHeap} {active active' : Dict String String} {p : Fcfs}

theorem live_iff : live heap active task = true ↔
    ∃ groupId, heap.groupId task = some groupId ∧ active.get? groupId = some task.requestId := by
  simp [live, Option.bind_eq_some_iff]

theorem live_congr (hh : heap'.groupId task = heap.groupId task)
    (ha : ∀ groupId, heap.groupId task = some groupId →
      active'.get? groupId = active.get? groupId) :
    live heap' active' task = live heap active task := by
  unfold live
  rw [hh]
  cases hg : heap.groupId task with
  | none => rfl
  | some groupId =>
    rw [Option.bind_some, Option.bind_some, ha groupId hg]

theorem Queued.congr (h : Queued heap p)
    (hh : ∀ task ∈ p.waiting, heap'.groupId task = heap.groupId task)
    (ha : ∀ task ∈ p.waiting, ∀ groupId, heap.groupId task = some groupId →
      active'.get? groupId = p.activeRequestByGroup.get? groupId) :
    Queued heap' { p with activeRequestByGroup := active' } := by
  have hlive : ∀ task ∈ p.waiting,
      live heap' active' task = live heap p.activeRequestByGroup task :=
    fun task hm => live_congr (hh task hm) (ha task hm)
  refine ⟨?_, fun requestId => ?_, fun groupId => ?_, fun task hm groupId hg => ?_⟩
  · exact h.ready.trans (List.filter_congr fun task hm => (hlive task hm).symm)
  · refine (h.blocked requestId).trans (List.filter_congr fun task hm => ?_)
    simp only [blockedOf, hlive task hm]
  · refine (h.pending groupId).trans ?_
    congr 2
    refine List.filter_congr fun task hm => ?_
    simp [stuckOn, on, hlive task hm, hh task hm]
  · rw [hh task hm] at hg
    show active'.get? groupId ≠ none
    rw [ha task hm groupId hg]
    exact h.taken task hm groupId hg

theorem Queued.activate (h : Queued heap p) (hn : p.activeRequestByGroup.get? groupId = none)
    (requestId : String) :
    Queued heap { p with
      activeRequestByGroup := p.activeRequestByGroup.set groupId requestId } := by
  refine h.congr (fun _ _ => rfl) fun task hm other hg => Dict.get?_set_ne _ (fun heq => ?_) _
  exact h.taken task hm other hg (heq ▸ hn)

theorem Queued.makeReady (h : Queued heap p)
    (hl : live heap p.activeRequestByGroup task = true) :
    Queued heap (Fcfs.makeReady { p with log := .reported task :: p.log } task) := by
  refine ⟨?_, fun requestId => ?_, fun groupId => ?_, fun other hm groupId hg => ?_⟩
  · show p.readyQueue ++ [task] =
      (p.waiting ++ [task]).filter (live heap p.activeRequestByGroup)
    rw [List.filter_append, h.ready, List.filter_singleton]
    simp [hl]
  · show p.blockedTasksByRequest.getD requestId [] =
      (p.waiting ++ [task]).filter (blockedOf heap p.activeRequestByGroup requestId)
    rw [List.filter_append, h.blocked, List.filter_singleton]
    simp [blockedOf, hl]
  · show p.pendingRequestsByGroup.getD groupId [] = Firsts.firsts
      (((p.waiting ++ [task]).filter (stuckOn heap p.activeRequestByGroup groupId)).map
        InferenceTask.requestId)
    rw [List.filter_append, h.pending, List.filter_singleton]
    simp [stuckOn, hl]
  · rcases List.mem_append.mp hm with hm | hm
    · exact h.taken other hm groupId hg
    · obtain rfl := List.mem_singleton.mp hm
      obtain ⟨own, ho, ha⟩ := live_iff.mp hl
      obtain rfl := Option.some.inj (ho.symm.trans hg)
      show p.activeRequestByGroup.get? own ≠ none
      rw [ha]
      simp

theorem Queued.block (h : Queued heap p) (hg : heap.groupId task = some groupId)
    (ha : p.activeRequestByGroup.get? groupId = some other) (hne : other ≠ task.requestId) :
    Queued heap (Fcfs.block { p with log := .reported task :: p.log } task groupId) := by
  have hl : live heap p.activeRequestByGroup task = false := by
    simp [live, hg, ha, hne]
  refine ⟨?_, fun requestId => ?_, fun lane => ?_, fun waiter hm lane hw => ?_⟩
  · show p.readyQueue = (p.waiting ++ [task]).filter (live heap p.activeRequestByGroup)
    rw [List.filter_append, h.ready, List.filter_singleton]
    simp [hl]
  · show (p.blockedTasksByRequest.set task.requestId
      (p.blockedTasksByRequest.getD task.requestId [] ++ [task])).getD requestId [] =
        (p.waiting ++ [task]).filter (blockedOf heap p.activeRequestByGroup requestId)
    rw [Dict.getD_set, List.filter_append, List.filter_singleton]
    by_cases heq : task.requestId = requestId
    · subst heq
      rw [if_pos rfl, h.blocked]
      simp [blockedOf, hl]
    · rw [if_neg heq]
      simpa [blockedOf, heq] using h.blocked requestId
  · show (p.pendingRequestsByGroup.set groupId _).getD lane [] =
        Firsts.firsts (((p.waiting ++ [task]).filter
          (stuckOn heap p.activeRequestByGroup lane)).map InferenceTask.requestId)
    rw [Dict.getD_set, List.filter_append, List.filter_singleton]
    by_cases heq : groupId = lane
    · subst heq
      have hs : stuckOn heap p.activeRequestByGroup groupId task = true := by
        simp [stuckOn, on, hg, hl]
      rw [if_pos rfl, hs, cond_true, List.map_append]
      refine Eq.trans ?_ (Firsts.firsts_append_singleton _ _).symm
      rw [← h.pending]
      rfl
    · have hs : stuckOn heap p.activeRequestByGroup lane task = false := by
        simp [stuckOn, on, hg, heq]
      rw [if_neg heq, hs]
      simpa using h.pending lane
  · rcases List.mem_append.mp hm with hm | hm
    · exact h.taken waiter hm lane hw
    · obtain rfl := List.mem_singleton.mp hm
      obtain rfl := Option.some.inj (hg.symm.trans hw)
      show p.activeRequestByGroup.get? groupId ≠ none
      rw [ha]
      simp

theorem Queued.start (h : Queued heap p) (hq : p.readyQueue = task :: rest) :
    Queued heap { p with readyQueue := rest, log := .started task :: p.log } := by
  have hhead := h.ready.symm.trans hq
  have hl : live heap p.activeRequestByGroup task = true :=
    (List.mem_filter.mp (hhead ▸ List.mem_cons_self ..)).2
  refine ⟨?_, fun requestId => ?_, fun groupId => ?_, fun other hm groupId hg => ?_⟩
  · exact (Roster.filter_waiting_started hhead).symm
  · refine (h.blocked requestId).trans (Roster.filter_waiting_started_of_neg ?_).symm
    simp [blockedOf, hl]
  · refine (h.pending groupId).trans ?_
    congr 2
    refine (Roster.filter_waiting_started_of_neg ?_).symm
    simp [stuckOn, hl]
  · exact h.taken other (Roster.mem_of_mem_waiting_started hm) groupId hg

theorem Queued.close (h : Queued heap p) (hn : ∀ task ∈ p.waiting, task.requestId ≠ requestId)
    (groupId : Option String) : Queued heap (p.cleanupRequestWork requestId groupId) := by
  have hwait : (p.cleanupRequestWork requestId groupId).waiting = p.waiting :=
    List.filter_eq_self.mpr fun task hm => by simpa using hn task hm
  refine ⟨?_, fun other => ?_, fun lane => ?_, ?_⟩
  · rw [hwait]
    exact h.ready
  · rw [hwait]
    show (p.blockedTasksByRequest.erase requestId).getD other [] = _
    rw [Dict.getD_erase]
    split
    · rename_i heq
      subst heq
      refine (List.filter_eq_nil_iff.mpr fun task hm => ?_).symm
      simp [blockedOf, hn task hm]
    · exact h.blocked other
  · rw [hwait]
    exact h.pending lane
  · rw [hwait]
    exact h.taken

theorem Queued.vacate (h : Queued heap p) (hr : p.readyQueue = [])
    (hn : p.pendingRequestsByGroup.getD groupId [] = []) (requestId : String) :
    Queued heap (p.vacate requestId groupId) := by
  unfold Fcfs.vacate
  split
  · refine h.congr (fun _ _ => rfl) fun task hm other hg => Dict.get?_erase_ne _ fun heq => ?_
    subst heq
    have hstuck : task ∈ p.waiting.filter (stuckOn heap p.activeRequestByGroup groupId) := by
      refine List.mem_filter.mpr ⟨hm, ?_⟩
      have hl : live heap p.activeRequestByGroup task = false := by
        have hnot := h.ready.symm.trans hr
        simpa using List.filter_eq_nil_iff.mp hnot task hm
      simp [stuckOn, on, hg, hl]
    rw [h.pending, Firsts.firsts_eq_nil, List.map_eq_nil_iff] at hn
    rw [hn] at hstuck
    cases hstuck
  · exact h

theorem promote_head {blocked : Dict String (List InferenceTask)}
    (h : blocked.getD requestId [] = task :: tasks) (queue : List String) :
    promote blocked (requestId :: queue) =
      (some (requestId, task :: tasks), queue, blocked.erase requestId) := by
  simp only [promote, h]

def takeOver (p : Fcfs) (groupId requestId : String) (queue : List String) : Fcfs :=
  { p with
    blockedTasksByRequest := p.blockedTasksByRequest.erase requestId
    pendingRequestsByGroup :=
      if queue = [] then p.pendingRequestsByGroup.erase groupId
      else p.pendingRequestsByGroup.set groupId queue
    activeRequestByGroup := p.activeRequestByGroup.set groupId requestId
    readyQueue := p.readyQueue ++ p.blockedTasksByRequest.getD requestId [] }

theorem getD_requeue (pending : Dict String (List String)) (groupId other : String)
    (queue : List String) :
    (if queue = [] then pending.erase groupId else pending.set groupId queue).getD other [] =
      if groupId = other then queue else pending.getD other [] := by
  split
  · rename_i hq
    rw [Dict.getD_erase, hq]
  · exact Dict.getD_set ..

theorem Queued.takeOver (h : Queued heap p) (hr : p.readyQueue = [])
    (hq : p.pendingRequestsByGroup.getD groupId [] = requestId :: queue)
    (hone : ∀ task ∈ p.waiting, task.requestId = requestId → heap.groupId task = some groupId)
    (active : Dict String String)
    (ha : ∀ other, groupId ≠ other → active.get? other = p.activeRequestByGroup.get? other) :
    Queued heap (Fcfs.takeOver { p with activeRequestByGroup := active } groupId requestId queue) := by
  -- no task is live before, and after it those of the new request are
  have hidle : ∀ task ∈ p.waiting, live heap p.activeRequestByGroup task = false := fun task hm => by
    simpa using List.filter_eq_nil_iff.mp (h.ready.symm.trans hr) task hm
  have hlive : ∀ task ∈ p.waiting,
      live heap (active.set groupId requestId) task = decide (task.requestId = requestId) := by
    intro task hm
    by_cases hg : heap.groupId task = some groupId
    · simp [live, hg, eq_comm]
    · have hne : task.requestId ≠ requestId := fun heq => hg (hone task hm heq)
      rw [decide_eq_false hne, ← hidle task hm]
      refine live_congr rfl fun other ho => ?_
      have hother : groupId ≠ other := fun heq => hg (heq ▸ ho)
      rw [Dict.get?_set_ne _ hother, ha other hother]
  have hblocked := h.blocked requestId
  refine ⟨?_, fun other => ?_, fun lane => ?_, fun task hm lane hg => ?_⟩
  · show p.readyQueue ++ p.blockedTasksByRequest.getD requestId [] =
      p.waiting.filter (live heap (active.set groupId requestId))
    rw [hr, List.nil_append, hblocked]
    refine List.filter_congr fun task hm => ?_
    rw [hlive task hm]
    simp [blockedOf, hidle task hm]
  · show (p.blockedTasksByRequest.erase requestId).getD other [] =
      p.waiting.filter (blockedOf heap (active.set groupId requestId) other)
    rw [Dict.getD_erase]
    split
    · rename_i heq
      subst heq
      refine (List.filter_eq_nil_iff.mpr fun task hm => ?_).symm
      simp [blockedOf, hlive task hm]
    · rename_i hne
      rw [h.blocked other]
      refine List.filter_congr fun task hm => ?_
      by_cases heq : task.requestId = other
      · simp [blockedOf, hidle task hm, hlive task hm, heq, Ne.symm hne]
      · simp [blockedOf, heq]
  · show (if queue = [] then p.pendingRequestsByGroup.erase groupId
        else p.pendingRequestsByGroup.set groupId queue).getD lane [] =
      Firsts.firsts ((p.waiting.filter (stuckOn heap (active.set groupId requestId) lane)).map
        InferenceTask.requestId)
    rw [getD_requeue]
    split
    · rename_i heq
      subst heq
      rw [h.pending groupId] at hq
      rw [(Firsts.firsts_eq_cons hq).2, List.filter_map, List.filter_filter]
      congr 2
      refine List.filter_congr fun task hm => ?_
      simp [stuckOn, hidle task hm, hlive task hm, and_comm]
    · rename_i hne
      rw [h.pending lane]
      congr 2
      refine List.filter_congr fun task hm => ?_
      by_cases hg : heap.groupId task = some lane
      · have hother : task.requestId ≠ requestId := fun heq => by
          have := hone task hm heq
          rw [hg] at this
          exact hne (Option.some.inj this).symm
        simp [stuckOn, hidle task hm, hlive task hm, hother]
      · simp [stuckOn, on, hg]
  · show (active.set groupId requestId).get? lane ≠ none
    rw [Dict.get?_set]
    split
    · simp
    · rename_i hne
      rw [ha lane hne]
      exact h.taken task hm lane hg

-- ---------------------------------------------------------------------------
-- Dispatch
-- ---------------------------------------------------------------------------

structure Takes (load : Workload) (w : World Fcfs) (out : List InferenceTask) (w' : World Fcfs) :
    Prop where
  sound : Sound load w'
  steady : WorkBooks.Steady load w.tasks w'.tasks
  all : out = w.policy.readyQueue
  ready : w'.policy.readyQueue = []
  active : w'.policy.activeRequestByGroup = w.policy.activeRequestByGroup
  log : w'.policy.log = (out.map .started).reverse ++ w.policy.log
  books : w'.policy.books = w.policy.books

theorem Sound.steady (h : Sound load w) (hs : WorkBooks.Steady load w.tasks heap') :
    Sound load { w with tasks := heap' } := by
  refine ⟨h.pinned.steady hs, h.fed, ?_⟩
  exact h.queued.congr (fun task hm => hs task (h.fed.waiting task hm).1) fun _ _ _ _ => rfl

theorem Sound.start (h : Sound load w) (hq : w.policy.readyQueue = task :: rest) :
    load.Has task ∧ Sound load { w with policy := { w.policy with
      readyQueue := rest, log := .started task :: w.policy.log } } := by
  have hm : task ∈ w.policy.waiting :=
    (List.mem_filter.mp (h.queued.ready.symm.trans hq ▸ List.mem_cons_self ..)).1
  refine ⟨(h.fed.waiting task hm).1, h.pinned, ?_, h.queued.start hq⟩
  refine ⟨fun other ho => ?_, h.fed.active, hm, fun hf => ?_, h.fed.lawful⟩
  · exact h.fed.waiting other (Roster.mem_of_mem_waiting_started ho)
  · cases hf

theorem takeQueue_takes (h : Sound load w) (hq : w.policy.readyQueue = queue) :
    wp (takeQueue queue) (Takes load w) (fun _ _ => False) w := by
  induction queue generalizing w with
  | nil => exact ⟨h, .refl _ _, hq.symm, hq, rfl, rfl, rfl⟩
  | cons task queue ih =>
    obtain ⟨hm, hs⟩ := h.start hq
    have hsteady : WorkBooks.Steady load w.tasks (w.tasks.setStatus task .dispatched) :=
      .setStatus hm .dispatched
    simp only [takeQueue, wp_bind, wp_modify, wp_pure]
    refine wp_mono (ih (hs.steady hsteady) rfl) (fun out w' ht => ?_) fun _ _ he => he
    refine ⟨ht.sound, hsteady.trans ht.steady, ?_, ht.ready, ht.active, ?_, ht.books⟩
    · rw [hq, ht.all]
    · rw [ht.log]
      simp

/-- Every task that is started belongs to the active request of its group. -/
theorem Takes.dispatched (h : Sound load w) (ht : Takes load w out w') :
    ∀ task ∈ out, ∃ groupId, w'.tasks.groupId task = some groupId ∧
      w'.policy.activeRequestByGroup.get? groupId = some task.requestId := by
  intro task hm
  rw [ht.all, h.queued.ready] at hm
  obtain ⟨hw, hl⟩ := List.mem_filter.mp hm
  obtain ⟨groupId, hg, ha⟩ := live_iff.mp hl
  exact ⟨groupId, (ht.steady task (h.fed.waiting task hw).1).trans hg, by rwa [ht.active]⟩

-- ---------------------------------------------------------------------------
-- Reports
-- ---------------------------------------------------------------------------

structure Reports (load : Workload) (w : World Fcfs) (tasks : List InferenceTask)
    (w' : World Fcfs) : Prop where
  sound : Sound load w'
  steady : WorkBooks.Steady load w.tasks w'.tasks
  log : w'.policy.log = (tasks.map .reported).reverse ++ w.policy.log
  books : w'.policy.books.log = w.policy.books.log
  active : ∀ groupId, w'.policy.activeRequestByGroup.get? groupId =
      w.policy.activeRequestByGroup.get? groupId ∨
    w.policy.activeRequestByGroup.get? groupId = none ∧ ∃ task rest,
      tasks.filter (on w'.tasks groupId) = task :: rest ∧
      w'.policy.activeRequestByGroup.get? groupId = some task.requestId

theorem Reports.refl (h : Sound load w) : Reports load w [] w :=
  ⟨h, .refl _ _, rfl, rfl, fun _ => .inl rfl⟩

theorem Reports.waiting (h : Reports load w tasks w') :
    w'.policy.waiting = w.policy.waiting ++ tasks := by
  have happend : ∀ (tasks : List InferenceTask) log,
      Roster.waiting InferenceTask.requestId
        ((tasks.map Roster.Entry.reported).reverse ++ log : List (Roster.Entry _ String String)) =
        Roster.waiting InferenceTask.requestId log ++ tasks := by
    intro tasks
    induction tasks with
    | nil => simp
    | cons task tasks ih =>
      intro log
      rw [List.map_cons, List.reverse_cons, List.append_assoc, ih]
      simp [Roster.waiting]
  rw [Fcfs.waiting, h.log, happend]
  rfl

theorem Reports.trans (h : Reports load w tasks w') (h' : Reports load w' tasks' w'') 
    (hhas : ∀ task ∈ tasks, load.Has task) :
    Reports load w (tasks ++ tasks') w'' := by
  refine ⟨h'.sound, h.steady.trans h'.steady, ?_, h'.books.trans h.books, fun groupId => ?_⟩
  · rw [h'.log, h.log]
    simp
  · have hon : tasks.filter (on w''.tasks groupId) = tasks.filter (on w'.tasks groupId) :=
      List.filter_congr fun task hm => by simp only [on, h'.steady task (hhas task hm)]
    rw [List.filter_append, hon]
    rcases h.active groupId with heq | ⟨hn, task, rest, hf, ha⟩
    · rcases h'.active groupId with heq' | ⟨hn', task, rest, hf, ha⟩
      · exact .inl (heq'.trans heq)
      · -- the slot was still free, so none of the first reports is on the group
        have hnone : tasks.filter (on w'.tasks groupId) = [] := by
          refine List.filter_eq_nil_iff.mpr fun task hm ho => ?_
          refine h.sound.queued.taken task ?_ groupId (of_decide_eq_true ho) hn'
          rw [h.waiting]
          exact List.mem_append_right _ hm
        exact .inr ⟨heq ▸ hn', task, rest, by rw [hnone, hf]; rfl, ha⟩
    · refine .inr ⟨hn, task, rest ++ tasks'.filter (on w''.tasks groupId), by rw [hf]; rfl, ?_⟩
      rcases h'.active groupId with heq' | ⟨hn', -⟩
      · rw [heq', ha]
      · rw [ha] at hn'
        cases hn'

theorem Sound.report (h : Sound load w) (hm : load.Has task)
    (hj : .opened task.requestId job ∈ w.policy.books.log)
    (hpin : w'.policy.books.Pinned load w.tasks)
    (hbooks : w'.policy.books.log = w.policy.books.log)
    (hlog : w'.policy.log = .reported task :: w.policy.log)
    (hq : Queued w.tasks w'.policy) (hs : WorkBooks.Steady load w.tasks w'.tasks)
    (ha : w'.policy.activeRequestByGroup = w.policy.activeRequestByGroup ∨
      w.policy.activeRequestByGroup.get? job.lane = none ∧
      w'.policy.activeRequestByGroup =
        w.policy.activeRequestByGroup.set job.lane task.requestId) :
    Reports load w [task] w' := by
  have hwait : w'.policy.waiting = w.policy.waiting ++ [task] := by
    rw [Fcfs.waiting, hlog]
    rfl
  have hlane : w.tasks.groupId task = some job.lane := (h.pinned _ job hj).1 task hm
  have hfed : Fed load w'.policy := by
    refine ⟨fun other ho => ?_, fun groupId requestId hg => ?_, ?_⟩
    · rw [hbooks]
      rw [hwait] at ho
      rcases List.mem_append.mp ho with ho | ho
      · exact h.fed.waiting other ho
      · rw [List.mem_singleton.mp ho]
        exact ⟨hm, job, hj⟩
    · rw [hbooks]
      rcases ha with ha | ⟨-, ha⟩
      · rw [ha] at hg
        exact h.fed.active groupId requestId hg
      · rw [ha, Dict.get?_set] at hg
        split at hg
        · rename_i heq
          cases hg
          exact ⟨job, task, hj, heq, hm, rfl⟩
        · exact h.fed.active groupId requestId hg
    · rw [hlog]
      exact h.fed.lawful
  have hsound : Sound load { w' with tasks := w.tasks } := ⟨hpin, hfed, hq⟩
  refine ⟨hsound.steady hs, hs, hlog, hbooks, fun groupId => ?_⟩
  rcases ha with ha | ⟨hn, ha⟩
  · exact .inl (by rw [ha])
  · rw [ha, Dict.get?_set]
    split
    · rename_i heq
      subst heq
      refine .inr ⟨hn, task, [], ?_, rfl⟩
      simp [on, hs task hm, hlane]
    · exact .inl rfl

theorem Queued.setBooks (h : Queued heap p) (books : WorkBooks) :
    Queued heap { p with books := books } := ⟨h.ready, h.blocked, h.pending, h.taken⟩

theorem Fed.setBooks (h : Fed load p) {books : WorkBooks}
    (hl : ∀ requestId job, .opened requestId job ∈ p.books.log →
      .opened requestId job ∈ books.log) : Fed load { p with books := books } where
  waiting := fun task hm => by
    obtain ⟨hhas, job, hj⟩ := h.waiting task hm
    exact ⟨hhas, job, hl _ job hj⟩
  active := fun groupId requestId ha => by
    obtain ⟨job, task, hj, hrest⟩ := h.active groupId requestId ha
    exact ⟨job, task, hl _ job hj, hrest⟩
  lawful := h.lawful

theorem enqueueRunnable_reports (h : Sound load w) (hm : load.Has task)
    (hj : .opened task.requestId job ∈ w.policy.books.log) :
    wp (enqueueRunnable task) (fun _ => Reports load w [task]) (fun _ _ => False) w := by
  simp only [enqueueRunnable, onBooks, modifyPolicy, wp_bind, wp_zoom, wp_get, wp_ite, wp_modify]
  refine wp_mono (h.pinned.groupOfRunnable (w := { w with policy := w.policy.books }) hm hj) ?_
    fun _ _ he => he
  rintro groupId v ⟨hg, ht, hh, hp, hpin⟩
  subst hg
  have hlane : w.tasks.groupId task = some job.lane := (h.pinned _ job hj).1 task hm
  have hpin : v.policy.Pinned load w.tasks := by rwa [hh] at hpin
  have hbooks : v.policy.log = w.policy.books.log := by rw [hp]
  have hsteady : WorkBooks.Steady load w.tasks (v.tasks.setStatus task .ready) := by
    rw [hh]
    exact .setStatus hm .ready
  have hq := h.queued.setBooks v.policy
  split
  · rename_i hfree
    rw [if_pos (Dict.get?_set_self ..)]
    refine h.report hm hj hpin hbooks rfl ?_ hsteady (.inr ⟨hfree, rfl⟩)
    refine (hq.activate hfree task.requestId).makeReady (live_iff.mpr ⟨job.lane, hlane, ?_⟩)
    exact Dict.get?_set_self ..
  · rename_i htaken
    split
    · rename_i hown
      refine h.report hm hj hpin hbooks rfl ?_ hsteady (.inl rfl)
      exact hq.makeReady (live_iff.mpr ⟨job.lane, hlane, hown⟩)
    · rename_i hother
      obtain ⟨other, ho⟩ := Option.ne_none_iff_exists'.mp htaken
      refine h.report hm hj hpin hbooks rfl ?_ (by rw [hh]; exact .refl _ _) (.inl rfl)
      exact hq.block hlane ho fun heq => hother (heq ▸ ho)

theorem enqueueAll_reports (h : Sound load w)
    (hm : ∀ task ∈ tasks, load.Has task ∧ ∃ job, .opened task.requestId job ∈ w.policy.books.log) :
    wp (tasks.forM enqueueRunnable) (fun _ => Reports load w tasks) (fun _ _ => False) w := by
  induction tasks generalizing w with
  | nil => exact Reports.refl h
  | cons task tasks ih =>
    obtain ⟨⟨hhas, job, hj⟩, hms⟩ := List.forall_mem_cons.mp hm
    show wp (enqueueRunnable task >>= fun _ => tasks.forM enqueueRunnable) _ _ w
    rw [wp_bind]
    refine wp_mono (enqueueRunnable_reports h hhas hj) (fun _ w₁ hr => ?_) fun _ _ he => he
    refine wp_mono (ih hr.sound fun other ho => ?_) (fun _ w₂ hr' => ?_) fun _ _ he => he
    · rw [hr.books]
      exact hms other ho
    · exact hr.trans hr' (List.forall_mem_singleton.mpr hhas)

-- ---------------------------------------------------------------------------
-- Ends
-- ---------------------------------------------------------------------------

theorem readyAll (tasks : List InferenceTask) (hm : ∀ task ∈ tasks, load.Has task)
    (w : World Fcfs) :
    wp (tasks.forM fun task => (modify fun w =>
        { w.setStatus task .ready with policy := w.policy.makeReady task } : PolicyM Fcfs PUnit))
      (fun _ w' => w'.policy = { w.policy with readyQueue := w.policy.readyQueue ++ tasks } ∧
        WorkBooks.Steady load w.tasks w'.tasks)
      (fun _ _ => False) w := by
  induction tasks generalizing w with
  | nil => exact ⟨by rw [List.append_nil], .refl _ _⟩
  | cons task tasks ih =>
    obtain ⟨hhas, hms⟩ := List.forall_mem_cons.mp hm
    refine wp_mono (ih hms { w.setStatus task .ready with policy := w.policy.makeReady task })
      (fun _ w' ⟨hp, hs⟩ => ⟨?_, ?_⟩) fun _ _ he => he
    · rw [hp]
      simp [Fcfs.makeReady]
    · exact WorkBooks.Steady.trans (.setStatus hhas .ready) hs

/-- The slot goes to the first of those who wait for it, if anyone does. -/
theorem activateNext_takesOver (load : Workload) (groupId : String) (w : World Fcfs)
    (hb : ∀ requestId ∈ w.policy.pendingRequestsByGroup.getD groupId [],
      w.policy.blockedTasksByRequest.getD requestId [] ≠ [] ∧
      ∀ task ∈ w.policy.blockedTasksByRequest.getD requestId [], load.Has task) :
    wp (activateNext groupId)
      (fun _ w' => w.policy.pendingRequestsByGroup.getD groupId [] = [] ∧ w' = w ∨
        ∃ requestId queue,
          w.policy.pendingRequestsByGroup.getD groupId [] = requestId :: queue ∧
          w'.policy = w.policy.takeOver groupId requestId queue ∧
          WorkBooks.Steady load w.tasks w'.tasks)
      (fun _ _ => False) w := by
  simp only [activateNext, modifyPolicy, wp_bind, wp_get]
  cases hq : w.policy.pendingRequestsByGroup.getD groupId [] with
  | nil => exact .inl ⟨rfl, rfl⟩
  | cons requestId queue =>
    obtain ⟨hne, hhas⟩ := hb requestId (hq ▸ List.mem_cons_self ..)
    obtain ⟨task, tasks, ht⟩ := List.exists_cons_of_ne_nil hne
    rw [ht] at hhas
    simp only [promote_head ht, wp_bind, wp_modify]
    refine wp_mono (readyAll (task :: tasks) hhas _) (fun _ w' ⟨hp, hs⟩ => ?_) fun _ _ he => he
    refine .inr ⟨requestId, queue, rfl, ?_, hs⟩
    rw [hp, Fcfs.takeOver, ht]

/-- The end of a request is reported for the request that is active on the
group it goes by, or for one that is neither active nor waiting, and nobody
waits on that group. -/
def Timely (p : Fcfs) (event : WorkerEvent) : Prop :=
  (∃ groupId, p.books.eventGroup event = some groupId ∧
    p.activeRequestByGroup.get? groupId = some event.requestId) ∨
  (∀ groupId, p.activeRequestByGroup.get? groupId ≠ some event.requestId) ∧
    p.blockedTasksByRequest.getD event.requestId [] = [] ∧
    ∀ groupId, p.books.eventGroup event = some groupId →
      p.pendingRequestsByGroup.getD groupId [] = []

structure Ends (load : Workload) (w : World Fcfs) (requestId : String) (w' : World Fcfs) :
    Prop where
  sound : Sound load w'
  steady : WorkBooks.Steady load w.tasks w'.tasks
  log : w'.policy.log = .closed requestId :: w.policy.log
  active : ∀ groupId, w'.policy.activeRequestByGroup.get? groupId =
      w.policy.activeRequestByGroup.get? groupId ∨
    w.policy.activeRequestByGroup.get? groupId = some requestId ∧
      (w'.policy.activeRequestByGroup.get? groupId = none ∨ ∃ task rest,
        w.policy.waiting.filter (on w.tasks groupId) = task :: rest ∧
        w'.policy.activeRequestByGroup.get? groupId = some task.requestId)
  gone : ∀ groupId, w'.policy.activeRequestByGroup.get? groupId ≠ some requestId

/-- A request that is active on a group has its tasks there. -/
theorem Sound.lane (h : Sound load w)
    (ha : w.policy.activeRequestByGroup.get? groupId = some requestId) (hm : load.Has task)
    (ht : task.requestId = requestId) : w.tasks.groupId task = some groupId := by
  obtain ⟨job, _, hj, rfl, -, -⟩ := h.fed.active groupId requestId ha
  subst ht
  exact (h.pinned _ job hj).1 task hm

theorem Sound.idle (h : Sound load w) (hr : w.policy.readyQueue = [])
    (hm : task ∈ w.policy.waiting) :
    live w.tasks w.policy.activeRequestByGroup task = false := by
  simpa using List.filter_eq_nil_iff.mp (h.queued.ready.symm.trans hr) task hm

/-- Nothing waits of a request that ends in time. -/
theorem Sound.none_waits (h : Sound load w) (hr : w.policy.readyQueue = [])
    (ht : w.policy.Timely event) : ∀ task ∈ w.policy.waiting, task.requestId ≠ event.requestId := by
  intro task hm heq
  have hidle := h.idle hr hm
  rcases ht with ⟨groupId, -, ha⟩ | ⟨-, hb, -⟩
  · have hl := live_iff.mpr ⟨groupId, h.lane ha (h.fed.waiting task hm).1 heq, heq ▸ ha⟩
    rw [hidle] at hl
    cases hl
  · rw [h.queued.blocked] at hb
    have hmem : task ∈ w.policy.waiting.filter
        (blockedOf w.tasks w.policy.activeRequestByGroup event.requestId) :=
      List.mem_filter.mpr ⟨hm, by simp [blockedOf, heq, hidle]⟩
    rw [hb] at hmem
    cases hmem

theorem vacate_of_ne (p : Fcfs) (h : p.activeRequestByGroup.get? groupId ≠ some requestId) :
    p.vacate requestId groupId = p := if_neg h

theorem Sound.pends (h : Sound load w)
    (hm : requestId ∈ w.policy.pendingRequestsByGroup.getD groupId []) :
    w.policy.blockedTasksByRequest.getD requestId [] ≠ [] ∧
    (∀ task ∈ w.policy.blockedTasksByRequest.getD requestId [], load.Has task) ∧
    (∀ task ∈ w.policy.waiting, task.requestId = requestId →
      w.tasks.groupId task = some groupId) ∧
    ∃ job task, .opened requestId job ∈ w.policy.books.log ∧ job.lane = groupId ∧
      load.Has task ∧ task.requestId = requestId := by
  rw [h.queued.pending, Firsts.mem_firsts] at hm
  obtain ⟨first, hf, rfl⟩ := List.mem_map.mp hm
  obtain ⟨hw, hs⟩ := List.mem_filter.mp hf
  obtain ⟨hon, hidle⟩ : w.tasks.groupId first = some groupId ∧
      live w.tasks w.policy.activeRequestByGroup first = false := by simpa [stuckOn, on] using hs
  obtain ⟨hhas, job, hj⟩ := h.fed.waiting first hw
  have hbound := (h.pinned _ job hj).1
  obtain rfl : job.lane = groupId := Option.some.inj ((hbound first hhas).symm.trans hon)
  have hblocked := h.queued.blocked first.requestId
  refine ⟨fun hn => ?_, fun task hb => ?_, fun task ht heq => ?_, job, first, hj, rfl, hhas, rfl⟩
  · have hmem : first ∈ w.policy.waiting.filter
        (blockedOf w.tasks w.policy.activeRequestByGroup first.requestId) :=
      List.mem_filter.mpr ⟨hw, by simp [blockedOf, hidle]⟩
    rw [← hblocked, hn] at hmem
    cases hmem
  · rw [hblocked] at hb
    exact (h.fed.waiting task (List.mem_filter.mp hb).1).1
  · have hm := (h.fed.waiting task ht).1
    unfold Workload.Has at hm
    rw [heq] at hm
    exact hbound task hm

theorem Sound.close (h : Sound load w)
    (hn : ∀ task ∈ w.policy.waiting, task.requestId ≠ requestId) (groupId : Option String) :
    Sound load { w with policy := w.policy.cleanupRequestWork requestId groupId } := by
  have hwait : (w.policy.cleanupRequestWork requestId groupId).waiting = w.policy.waiting :=
    List.filter_eq_self.mpr fun task hm => by simpa using hn task hm
  refine ⟨h.pinned.cleanup requestId groupId, ⟨?_, ?_, h.fed.lawful⟩, h.queued.close hn groupId⟩
  · intro task hm
    rw [hwait] at hm
    obtain ⟨hhas, job, hj⟩ := h.fed.waiting task hm
    exact ⟨hhas, job, List.mem_cons_of_mem _ hj⟩
  · intro lane other ha
    obtain ⟨job, task, hj, hrest⟩ := h.fed.active lane other ha
    exact ⟨job, task, List.mem_cons_of_mem _ hj, hrest⟩

theorem Ends.of_slot {w₁ : World Fcfs} (h : Sound load w₁)
    (hn : ∀ task ∈ w.policy.waiting, task.requestId ≠ requestId)
    (hs : WorkBooks.Steady load w.tasks w₁.tasks) (hlog : w₁.policy.log = w.policy.log)
    (ha : ∀ groupId, w₁.policy.activeRequestByGroup.get? groupId =
        w.policy.activeRequestByGroup.get? groupId ∨
      w.policy.activeRequestByGroup.get? groupId = some requestId ∧
        (w₁.policy.activeRequestByGroup.get? groupId = none ∨ ∃ task rest,
          w.policy.waiting.filter (on w.tasks groupId) = task :: rest ∧
          w₁.policy.activeRequestByGroup.get? groupId = some task.requestId))
    (hgone : ∀ groupId, w₁.policy.activeRequestByGroup.get? groupId ≠ some requestId)
    (groupId : Option String) :
    Ends load w requestId { w₁ with policy := w₁.policy.cleanupRequestWork requestId groupId } := by
  have hwait : w₁.policy.waiting = w.policy.waiting := by
    unfold Fcfs.waiting
    rw [hlog]
  refine ⟨h.close (hwait ▸ hn) groupId, hs, ?_, ha, hgone⟩
  show .closed requestId :: w₁.policy.log = _
  rw [hlog]

/-- Sound states whose slot on a group has been emptied, or given to the first
request that waits there. -/
theorem Sound.handOver (h : Sound load w) (hr : w.policy.readyQueue = [])
    (ha : w.policy.activeRequestByGroup.get? groupId = some requestId) :
    wp (activateNext groupId)
      (fun _ w₁ => Sound load w₁ ∧ WorkBooks.Steady load w.tasks w₁.tasks ∧
        w₁.policy.log = w.policy.log ∧
        (∀ other, groupId ≠ other → w₁.policy.activeRequestByGroup.get? other =
          w.policy.activeRequestByGroup.get? other) ∧
        (w₁.policy.activeRequestByGroup.get? groupId = none ∨ ∃ task rest,
          w.policy.waiting.filter (on w.tasks groupId) = task :: rest ∧
          w₁.policy.activeRequestByGroup.get? groupId = some task.requestId))
      (fun _ _ => False)
      { w with policy := w.policy.vacate requestId groupId } := by
  have hvacate : w.policy.vacate requestId groupId =
      { w.policy with activeRequestByGroup := w.policy.activeRequestByGroup.erase groupId } :=
    if_pos ha
  have hpends : ∀ other ∈ (w.policy.vacate requestId groupId).pendingRequestsByGroup.getD groupId [],
      (w.policy.vacate requestId groupId).blockedTasksByRequest.getD other [] ≠ [] ∧
      ∀ task ∈ (w.policy.vacate requestId groupId).blockedTasksByRequest.getD other [],
        load.Has task := by
    rw [hvacate]
    exact fun other hm => ⟨(h.pends hm).1, (h.pends hm).2.1⟩
  refine wp_mono (activateNext_takesOver load groupId _ hpends) (fun _ w₁ hw => ?_) fun _ _ he => he
  rw [hvacate] at hw
  rcases hw with ⟨hnone, rfl⟩ | ⟨other, queue, hq, hp, hs⟩
  · have hqueued := h.queued.vacate hr hnone requestId
    rw [hvacate] at hqueued
    refine ⟨⟨h.pinned, ⟨h.fed.waiting, fun lane other hl => ?_, h.fed.lawful⟩, hqueued⟩, .refl _ _,
      rfl, fun other hne => Dict.get?_erase_ne _ hne, .inl (Dict.get?_erase_self ..)⟩
    simp only [Dict.get?_erase] at hl
    split at hl
    · cases hl
    · exact h.fed.active lane other hl
  · have hmem : other ∈ w.policy.pendingRequestsByGroup.getD groupId [] := by
      rw [show w.policy.pendingRequestsByGroup.getD groupId [] = other :: queue from hq]
      exact List.mem_cons_self ..
    obtain ⟨-, -, hone, hopened⟩ := h.pends hmem
    have hqueued := h.queued.takeOver hr hq hone (w.policy.activeRequestByGroup.erase groupId)
      fun lane hne => Dict.get?_erase_ne _ hne
    have hactive : w₁.policy.activeRequestByGroup =
        (w.policy.activeRequestByGroup.erase groupId).set groupId other := by
      rw [hp]
      rfl
    have hsound : Sound load { w₁ with tasks := w.tasks } := by
      refine ⟨?_, ⟨?_, fun lane owner hl => ?_, ?_⟩, ?_⟩
      · simp only [hp]
        exact h.pinned
      · simp only [hp]
        exact h.fed.waiting
      · simp only [hactive, Dict.get?_set, Dict.get?_erase] at hl
        simp only [hp]
        split at hl
        · rename_i heq
          subst heq
          cases hl
          exact hopened
        · exact h.fed.active lane owner hl
      · simp only [hp]
        exact h.fed.lawful
      · simp only [hp]
        exact hqueued
    refine ⟨hsound.steady hs, hs, by rw [hp]; rfl, fun lane hne => ?_, .inr ?_⟩
    · rw [hactive, Dict.get?_set_ne _ hne, Dict.get?_erase_ne _ hne]
    · have hhead := h.queued.pending groupId
      rw [show w.policy.pendingRequestsByGroup.getD groupId [] = other :: queue from hq] at hhead
      obtain ⟨⟨later, hlater⟩, -⟩ := Firsts.firsts_eq_cons hhead.symm
      obtain ⟨task, rest, hfilter, hid, -⟩ := List.map_eq_cons_iff.mp hlater
      refine ⟨task, rest, ?_, ?_⟩
      · rw [← hfilter]
        refine List.filter_congr fun waiter hm => ?_
        simp [stuckOn, h.idle hr hm]
      · rw [hactive, hid]
        exact Dict.get?_set_self ..

theorem endRequest_ends (h : Sound load w) (hr : w.policy.readyQueue = [])
    (ht : w.policy.Timely event) :
    wp (endRequest event) (fun _ => Ends load w event.requestId) (fun _ _ => False) w := by
  have hnone := h.none_waits hr ht
  simp only [endRequest, modifyPolicy, wp_bind, wp_get]
  cases hg : w.policy.books.eventGroup event with
  | none =>
    rcases ht with ⟨groupId, hev, -⟩ | ⟨hgone, -, -⟩
    · rw [hg] at hev
      cases hev
    · exact Ends.of_slot h hnone (.refl _ _) rfl (fun _ => .inl rfl) hgone none
  | some groupId =>
    simp only [wp_bind, wp_modify]
    rcases ht with ⟨lane, hev, ha⟩ | ⟨hgone, -, hfree⟩
    · obtain rfl := Option.some.inj (hg.symm.trans hev)
      refine wp_mono (h.handOver hr ha) ?_ fun _ _ he => he
      rintro _ w₁ ⟨hs, hsteady, hlog, hother, hslot⟩
      refine Ends.of_slot hs hnone hsteady hlog (fun lane => ?_) (fun lane hl => ?_) (some groupId)
      · by_cases heq : groupId = lane
        · subst heq
          exact .inr ⟨ha, hslot⟩
        · exact .inl (hother lane heq)
      · by_cases heq : groupId = lane
        · subst heq
          rcases hslot with hn | ⟨task, rest, hfilter, htask⟩
          · rw [hn] at hl
            cases hl
          · have hm : task ∈ w.policy.waiting :=
              (List.mem_filter.mp (hfilter ▸ List.mem_cons_self ..)).1
            exact hnone task hm (Option.some.inj (htask.symm.trans hl))
        · -- the tasks of a request are on one group, so it is active on one
          rw [hother lane heq] at hl
          obtain ⟨_, task, -, -, hhas, hid⟩ := h.fed.active lane _ hl
          exact heq (Option.some.inj ((h.lane ha hhas hid).symm.trans (h.lane hl hhas hid)))
    · rw [vacate_of_ne _ (hgone groupId)]
      have hempty := hfree groupId hg
      refine wp_mono (activateNext_takesOver load groupId w fun other hm => ?_)
        (fun _ w₁ hw => ?_) fun _ _ he => he
      · rw [hempty] at hm
        cases hm
      · rcases hw with ⟨-, rfl⟩ | ⟨other, queue, hq, -⟩
        · exact Ends.of_slot h hnone (.refl _ _) rfl (fun _ => .inl rfl) hgone (some groupId)
        · rw [hempty] at hq
          cases hq

-- ---------------------------------------------------------------------------
-- Calls
-- ---------------------------------------------------------------------------

/-- A call serves the groups in turn: what it dispatches belongs to the active
request of its group; a slot is lost by the end of its request only and always,
and won by the request of the first task that waits or is reported there. Every
report is put down, unless the whole submission is refused. -/
structure Serves (w : World Fcfs) (ask : Ask) (out : List InferenceTask) (w' : World Fcfs) :
    Prop where
  dispatched : ∀ task ∈ out, ∃ groupId, w'.tasks.groupId task = some groupId ∧
    w'.policy.activeRequestByGroup.get? groupId = some task.requestId
  lost : ∀ groupId requestId, w.policy.activeRequestByGroup.get? groupId = some requestId →
    w'.policy.activeRequestByGroup.get? groupId ≠ some requestId → ask.ends requestId
  gone : ∀ requestId, ask.ends requestId →
    ∀ groupId, w'.policy.activeRequestByGroup.get? groupId ≠ some requestId
  won : ∀ groupId requestId, w'.policy.activeRequestByGroup.get? groupId = some requestId →
    w.policy.activeRequestByGroup.get? groupId ≠ some requestId →
      ∃ task rest, (w.policy.waiting ++ ask.reported).filter (on w'.tasks groupId) =
        task :: rest ∧ task.requestId = requestId
  reported : Roster.reported w'.policy.log = Roster.reported w.policy.log ++ ask.reported ∨
    (∃ plan, ask = .submitted plan) ∧ out = [] ∧ w'.policy.log = w.policy.log
  started : Roster.started w'.policy.log = Roster.started w.policy.log ++ out

structure Rests (load : Workload) (w : World Fcfs) : Prop extends Sound load w where
  drained : w.policy.readyQueue = []

theorem Serves.of_reports {u w₁ : World Fcfs} {ask : Ask} (h : Rests load w)
    (hactive : u.policy.activeRequestByGroup = w.policy.activeRequestByGroup)
    (hlog : u.policy.log = w.policy.log) (hask : ask.reported = tasks)
    (hends : ∀ requestId, ¬ ask.ends requestId) (hm : ∀ task ∈ tasks, load.Has task)
    (hr : Reports load w tasks w₁) (ht : Takes load w₁ out w') : Serves u ask out w' := by
  refine ⟨ht.dispatched hr.sound, fun groupId requestId ha hne => ?_,
    fun requestId he => absurd he (hends requestId), fun groupId requestId ha hne => ?_, .inl ?_, ?_⟩
  · rw [hactive] at ha
    rw [ht.active] at hne
    rcases hr.active groupId with heq | ⟨hn, -⟩
    · exact absurd (heq.trans ha) hne
    · rw [ha] at hn
      cases hn
  · rw [hactive] at hne
    rw [ht.active] at ha
    rcases hr.active groupId with heq | ⟨hn, task, rest, hf, hslot⟩
    · exact absurd (heq ▸ ha) hne
    · have hsteady := hr.steady.trans ht.steady
      have hwait : w.policy.waiting.filter (on w'.tasks groupId) = [] := by
        refine List.filter_eq_nil_iff.mpr fun waiter hw ho => ?_
        refine h.queued.taken waiter hw groupId ?_ hn
        rw [← hsteady waiter (h.fed.waiting waiter hw).1]
        exact of_decide_eq_true ho
      have htasks : tasks.filter (on w'.tasks groupId) = tasks.filter (on w₁.tasks groupId) :=
        List.filter_congr fun other ho => by simp only [on, ht.steady other (hm other ho)]
      refine ⟨task, rest, ?_, Option.some.inj (hslot.symm.trans ha)⟩
      rw [Fcfs.waiting, hlog, hask, List.filter_append]
      show w.policy.waiting.filter _ ++ _ = _
      rw [hwait, htasks, hf]
      rfl
  · rw [ht.log, Roster.reported_append_started, hr.log, Roster.reported_append_reported, hlog, hask]
  · rw [ht.log, Roster.started_append_started, hr.log, Roster.started_append_reported, hlog]

theorem onTasksRunnable_serves (u : World Fcfs) (ask : Ask) (h : Rests load w)
    (hactive : u.policy.activeRequestByGroup = w.policy.activeRequestByGroup)
    (hlog : u.policy.log = w.policy.log) (hask : ask.reported = tasks)
    (hends : ∀ requestId, ¬ ask.ends requestId)
    (hm : ∀ task ∈ tasks, load.Has task ∧
      ∃ job, .opened task.requestId job ∈ w.policy.books.log) :
    wp (onTasksRunnable tasks) (fun out w' => Rests load w' ∧ Serves u ask out w')
      (fun _ _ => False) w := by
  simp only [onTasksRunnable, takeDispatchableTasks, wp_bind, wp_get]
  refine wp_mono (enqueueAll_reports h.toSound hm) (fun _ w₁ hr => ?_) fun _ _ he => he
  refine wp_mono (takeQueue_takes hr.sound rfl) (fun out w₂ ht => ?_) fun _ _ he => he
  exact ⟨⟨ht.sound, ht.ready⟩,
    .of_reports h hactive hlog hask hends (fun task htask => (hm task htask).1) hr ht⟩

theorem onRequestSubmitted_serves (h : Rests load w)
    (hn : ∀ job, .opened requestId job ∉ w.policy.books.log) :
    wp (onRequestSubmitted (load.plan requestId))
      (fun out w' => Rests load w' ∧ Serves w (.submitted (load.plan requestId)) out w')
      (fun _ w' => Rests load w' ∧ Serves w (.submitted (load.plan requestId)) [] w') w := by
  -- what waits belongs to other requests, whose tasks stay where they are
  have hwaits : ∀ heap', WorkBooks.Aside load requestId w.tasks heap' →
      ∀ task ∈ w.policy.waiting, heap'.groupId task = w.tasks.groupId task := by
    intro heap' ha task hm
    obtain ⟨hhas, job, hj⟩ := h.fed.waiting task hm
    refine ha task fun hk => hn job ?_
    rwa [Workload.owner_unique hk (Workload.mem_keys hhas)]
  simp only [onRequestSubmitted, onBooks, wp_bind, wp_zoom]
  refine wp_mono (WorkBooks.enterPlan_enters (specOf_reads load requestId)
      { w with policy := w.policy.books }) (fun _ v ⟨groupId, works, estimates, he⟩ => ?_)
    fun _ v hr => ?_
  · have hpinned := WorkBooks.Pinned.enters h.pinned he hn
    have hopened : .opened requestId ⟨groupId, works⟩ ∈ v.policy.log := by
      rw [he.policy]
      simp [WorkBooks.openJob, load.named requestId]
    have hrests : Rests load { v with policy := { w.policy with books := v.policy } } := by
      refine ⟨⟨hpinned, h.fed.setBooks fun other job hm => ?_, ?_⟩, h.drained⟩
      · rw [he.policy]
        exact List.mem_cons_of_mem _ hm
      · exact (h.queued.congr (hwaits _ he.aside) fun _ _ _ _ => rfl).setBooks v.policy
    refine wp_mono (onTasksRunnable_serves w (.submitted (load.plan requestId)) hrests rfl rfl rfl
      (fun _ he => he) fun task hm => ?_) (fun _ _ hw => hw) fun _ _ he => he.elim
    have hmem := (List.mem_filter.mp hm).1
    refine ⟨.of_mem hmem, ⟨groupId, works⟩, ?_⟩
    rw [(load.owned requestId task hmem).1]
    exact hopened
  · refine ⟨⟨⟨WorkBooks.Pinned.refuses h.pinned hr hn, h.fed.setBooks fun other job hm => ?_, ?_⟩,
      h.drained⟩, ?_⟩
    · rw [hr.policy]
      exact hm
    · exact (h.queued.congr (hwaits _ hr.aside) fun _ _ _ _ => rfl).setBooks v.policy
    · exact ⟨fun _ hm => absurd hm List.not_mem_nil, fun _ _ ha hne => absurd ha hne,
        fun _ he => he.elim, fun _ _ ha hne => absurd ha hne, .inr ⟨⟨_, rfl⟩, rfl, rfl⟩,
        (List.append_nil _).symm⟩

theorem Serves.of_ends {w₁ : World Fcfs} (h : Rests load w) (hk : event.kind.endsRequest = true)
    (he : Ends load w event.requestId w₁) (ht : Takes load w₁ out w') :
    Serves w (.event event) out w' := by
  refine ⟨ht.dispatched he.sound, fun groupId requestId ha hne => ?_, fun requestId hends groupId => ?_,
    fun groupId requestId ha hne => ?_, .inl ?_, ?_⟩
  · rw [ht.active] at hne
    rcases he.active groupId with heq | ⟨hown, -⟩
    · exact absurd (heq.trans ha) hne
    · exact ⟨hk, Option.some.inj (hown.symm.trans ha)⟩
  · rw [ht.active, ← hends.2]
    exact he.gone groupId
  · rw [ht.active] at ha
    rcases he.active groupId with heq | ⟨-, hnone | ⟨task, rest, hf, hslot⟩⟩
    · exact absurd (heq ▸ ha) hne
    · rw [hnone] at ha
      cases ha
    · refine ⟨task, rest, ?_, Option.some.inj (hslot.symm.trans ha)⟩
      have hsteady := he.steady.trans ht.steady
      rw [Ask.reported, List.append_nil, ← hf]
      exact List.filter_congr fun waiter hw => by
        simp only [on, hsteady waiter (h.fed.waiting waiter hw).1]
  · rw [ht.log, Roster.reported_append_started, he.log]
    exact (List.append_nil _).symm
  · rw [ht.log, Roster.started_append_started, he.log]
    rfl

theorem onWorkerEvent_serves (h : Rests load w) (event : WorkerEvent)
    (ht : event.kind.endsRequest = true → w.policy.Timely event) :
    wp (onWorkerEvent event) (fun out w' => Rests load w' ∧ Serves w (.event event) out w')
      (fun _ _ => False) w := by
  have hquiet : ∀ w₁, Rests load w₁ → ¬ event.kind.endsRequest = true →
      w₁.policy.activeRequestByGroup = w.policy.activeRequestByGroup →
      w₁.policy.log = w.policy.log →
      wp (takeQueue w₁.policy.readyQueue)
        (fun out w' => Rests load w' ∧ Serves w (.event event) out w') (fun _ _ => False) w₁ := by
    intro w₁ h₁ hk ha hl
    refine wp_mono (takeQueue_takes h₁.toSound rfl) (fun out w₂ htake => ⟨⟨htake.sound, htake.ready⟩, ?_⟩)
      fun _ _ he => he
    exact .of_reports h₁ ha.symm hl.symm rfl (fun _ he => hk he.1)
      (fun _ hm => absurd hm List.not_mem_nil) (.refl h₁.toSound) htake
  simp only [onWorkerEvent, takeDispatchableTasks, modifyPolicy, wp_bind, wp_ite, wp_modify, wp_get]
  split
  · rename_i hk
    have hnot : ¬ event.kind.endsRequest = true := by
      rcases hk with hk | hk <;> simp [hk, WorkerEventKind.endsRequest]
    rw [if_neg hnot]
    refine hquiet { w with policy := { w.policy with
        books := w.policy.books.chargeCompletedTask event.requestId event.taskId } }
      ⟨⟨h.pinned.charge _ _, h.fed.setBooks fun other job hm => ?_, ?_⟩, h.drained⟩ hnot rfl rfl
    · rw [(WorkBooks.chargeCompletedTask_books ..).1]
      exact List.mem_cons_of_mem _ hm
    · exact h.queued.setBooks _
  · split
    · rename_i hk
      refine wp_mono (endRequest_ends h.toSound h.drained (ht hk)) (fun _ w₁ he => ?_) fun _ _ he => he
      refine wp_mono (takeQueue_takes he.sound rfl)
        (fun out w₂ htake => ⟨⟨htake.sound, htake.ready⟩, ?_⟩) fun _ _ he => he
      exact .of_ends h hk he htake
    · rename_i hnot
      exact hquiet w h hnot rfl rfl

-- ---------------------------------------------------------------------------
-- Runs
-- ---------------------------------------------------------------------------

/-- The calls the scheduler makes: a plan is submitted until it is opened, and
the tasks reported are of requests that were opened. -/
def Regular (load : Workload) (w : World Fcfs) : Ask → Prop
  | .submitted plan => plan = load.plan plan.requestId ∧
      ∀ job, .opened plan.requestId job ∉ w.policy.books.log
  | .runnable tasks => ∀ task ∈ tasks, load.Has task ∧
      ∃ job, .opened task.requestId job ∈ w.policy.books.log
  | .event _ | .acquire _ | .release _ => True

/-- Moreover requests end in time. -/
def InTurn (load : Workload) (w : World Fcfs) (ask : Ask) : Prop :=
  Regular load w ask ∧
    ∀ event, ask = .event event → event.kind.endsRequest = true → w.policy.Timely event

theorem ask_serves (h : Rests load w) (ask : Ask) (ha : InTurn load w ask) :
    wp (ask.run policy) (fun out w' => Rests load w' ∧ Serves w ask out w')
      (fun _ w' => Rests load w' ∧ Serves w ask [] w') w := by
  obtain ⟨hr, ht⟩ := ha
  cases ask with
  | submitted plan =>
    obtain ⟨hplan, hn⟩ := hr
    have hs := onRequestSubmitted_serves h hn
    rw [← hplan] at hs
    exact hs
  | runnable tasks =>
    exact wp_mono (onTasksRunnable_serves w (.runnable tasks) h rfl rfl rfl (fun _ he => he) hr)
      (fun _ _ hw => hw) fun _ _ he => he.elim
  | event event =>
    exact wp_mono (onWorkerEvent_serves h event (ht event rfl)) (fun _ _ hw => hw)
      fun _ _ he => he.elim
  | acquire ranks | release ranks =>
    exact ⟨h, fun _ hm => absurd hm List.not_mem_nil, fun _ _ ha hne => absurd ha hne,
      fun _ he => he.elim, fun _ _ ha hne => absurd ha hne, .inl (List.append_nil _).symm,
      (List.append_nil _).symm⟩

/-- Each report was used up once, by a dispatch or with its request, or its
task waits behind another request that is active on its group. -/
structure Accounted (w : World Fcfs) : Prop where
  used : (Roster.reported w.policy.log).Perm (Roster.started w.policy.log ++
    Roster.dropped InferenceTask.requestId w.policy.log ++ w.policy.waiting)
  behind : ∀ task ∈ w.policy.waiting, ∃ groupId requestId,
    w.tasks.groupId task = some groupId ∧
    w.policy.activeRequestByGroup.get? groupId = some requestId ∧ requestId ≠ task.requestId

theorem Rests.accounted (h : Rests load w) : Accounted w := by
  refine ⟨h.fed.lawful.perm, fun task hm => ?_⟩
  obtain ⟨hhas, job, hj⟩ := h.fed.waiting task hm
  have hg := (h.pinned _ job hj).1 task hhas
  obtain ⟨requestId, ha⟩ := Option.ne_none_iff_exists'.mp (h.queued.taken task hm job.lane hg)
  refine ⟨job.lane, requestId, hg, ha, fun heq => ?_⟩
  have hl := live_iff.mpr ⟨job.lane, hg, heq ▸ ha⟩
  rw [h.toSound.idle h.drained hm] at hl
  cases hl

end Fcfs

def EachCall (policy : SchedulerPolicy σ)
    (P : World σ → Ask → List InferenceTask → World σ → Prop) (asks : List Ask) (w : World σ) :
    Prop :=
  Along policy (fun w ask => wp (ask.run policy) (P w ask) (fun _ => P w ask []) w) asks w

/-- What every call keeps, it does in every call of a run. -/
theorem eachCall_of_keeps {policy : SchedulerPolicy σ} {allowed : World σ → Ask → Prop}
    {I : World σ → Prop} {P : World σ → Ask → List InferenceTask → World σ → Prop}
    (hstep : ∀ w ask, I w → allowed w ask → wp (ask.run policy) (fun out w' => I w' ∧ P w ask out w')
      (fun _ w' => I w' ∧ P w ask [] w') w)
    (h : I w) (asks : List Ask) (ha : Along policy allowed asks w) :
    EachCall policy P asks w ∧ I (askAll policy asks w).2 := by
  refine ⟨?_, askAll_keeps (fun w ask hw hok => ?_) h asks ha⟩
  · induction asks generalizing w with
    | nil => trivial
    | cons ask asks ih =>
      have hw := hstep w ask h ha.1
      refine ⟨wp_mono hw (fun _ _ h => h.2) fun _ _ h => h.2, ih ?_ ha.2⟩
      exact after_of_wp (wp_mono hw (fun _ _ h => h.1) fun _ _ h => h.1)
  · exact wp_mono (hstep w ask hw hok) (fun _ _ h => h.1) fun _ _ h => h.1

def turnTask (taskId requestId : String) : InferenceTask :=
  ⟨taskId, requestId, .textEncode, none, .pending, 0, [], [], [], none, ∅⟩

def pairPlan : RequestExecutionPlan :=
  ⟨"a", (Dict.set ∅ "a1" (turnTask "a1" "a")).set "a2" (turnTask "a2" "a"), ["a1", "a2"], [], ∅⟩

def turnPlan (taskId requestId : String) : RequestExecutionPlan :=
  ⟨requestId, Dict.set ∅ taskId (turnTask taskId requestId), [taskId], [], ∅⟩

def turnLoad : Workload :=
  .ofList [pairPlan, turnPlan "b1" "b", turnPlan "c1" "c"] (by decide) (by decide) (by decide)
    (by decide)

def turnEstimator : TaskRuntimeEstimator := fun _ _ _ => pure ((1 : ℚ) : WithTop ℚ)

def turnStart : World Fcfs :=
  ⟨soloTopology "g", ∅, 0, .init turnEstimator (soloTopology "g")⟩

def turnEvent (taskId requestId : String) (kind : WorkerEventKind) : Ask :=
  .event ⟨taskId, requestId, "g", kind, 0, "", []⟩

def turnAsks : List Ask :=
  [.submitted pairPlan, .submitted (turnPlan "b1" "b"), .submitted (turnPlan "c1" "c"),
    turnEvent "a1" "a" .taskExecEnd, turnEvent "" "a" .requestFinished]

theorem Fcfs.not_opened {entries : List WorkEntry}
    (h : entries.all (fun entry => match entry with
      | .opened other _ => decide (other ≠ requestId)
      | .paid _ _ | .closed _ => true) = true) : ∀ job, .opened requestId job ∉ entries := by
  intro job hm
  simpa using List.all_eq_true.mp h _ hm

def turnAgain : List Ask :=
  turnAsks ++ [turnEvent "a2" "a" .taskFailed, turnEvent "" "a" .requestFailed]

end GfDit
