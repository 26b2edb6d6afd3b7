import GfDit.Policies.SrtfQueues

/-!
# Calls of the SRTF policies

A call first notes what it was told and then offers every group a turn, in the
order of the topology. In a turn a group with room is given the first task of
the request that is chosen; the choice itself is left open here. While requests
end on their own group and no task is reported of a request that has ended, the
queues, the counters and the books agree with the log after every call.
-/

namespace GfDit

open Prog

namespace Srtf

-- ---------------------------------------------------------------------------
-- The least key
-- ---------------------------------------------------------------------------

section

variable {κ : Type} [LinearOrder κ] {key : String → κ}

theorem leastBy_eq_none {ids : List String} : leastBy key ids = none ↔ ids = [] := by
  cases ids with
  | nil => exact ⟨fun _ => rfl, fun _ => rfl⟩
  | cons requestId rest =>
    simp only [leastBy, reduceCtorEq, iff_false]
    split
    · simp
    · split <;> simp

/-- The one that is found is of the list, and no other comes before it. -/
theorem leastBy_least {ids : List String} (h : leastBy key ids = some best) :
    best ∈ ids ∧ ∀ other ∈ ids, key best ≤ key other := by
  induction ids generalizing best with
  | nil => cases h
  | cons requestId rest ih =>
    simp only [leastBy] at h
    split at h
    · rename_i hn
      cases h
      rw [leastBy_eq_none.mp hn]
      exact ⟨List.mem_cons_self .., fun other hm => by rw [List.mem_singleton.mp hm]⟩
    · rename_i found hf
      obtain ⟨hm, hle⟩ := ih hf
      split at h
      · rename_i hlt
        cases h
        refine ⟨List.mem_cons_of_mem _ hm, List.forall_mem_cons.mpr ⟨hlt.le, hle⟩⟩
      · rename_i hnlt
        cases h
        refine ⟨List.mem_cons_self .., List.forall_mem_cons.mpr ⟨le_rfl, fun other ho => ?_⟩⟩
        exact (not_lt.mp hnlt).trans (hle other ho)

end

-- ---------------------------------------------------------------------------
-- Turns
-- ---------------------------------------------------------------------------

abbrev Select := Srtf → String → Dict String (List InferenceTask) → Option String × Srtf

structure Choice (select : Select) : Prop where
  mem : ∀ {p groupId byRequest requestId},
    (select p groupId byRequest).1 = some requestId → requestId ∈ byRequest.keys
  totals : ∀ p groupId byRequest, ∃ totals,
    (select p groupId byRequest).2 = { p with requestTotalWork := totals }

theorem selectShortestRequest_choice : Choice selectShortestRequest :=
  ⟨fun h => (leastBy_least h).1, fun p _ _ => ⟨p.requestTotalWork, rfl⟩⟩

theorem snapshots_totals (requestIds : List String) (p : Srtf) :
    ∃ totals, requestIds.foldl snapshot p = { p with requestTotalWork := totals } := by
  induction requestIds generalizing p with
  | nil => exact ⟨p.requestTotalWork, rfl⟩
  | cons requestId rest ih =>
    obtain ⟨totals, ht⟩ := ih (p.snapshot requestId)
    refine ⟨totals, ?_⟩
    rw [List.foldl_cons, ht]
    unfold snapshot
    split <;> rfl

theorem selectShortestJob_choice : Choice selectShortestJob := by
  constructor
  · intro p groupId byRequest requestId h
    unfold selectShortestJob at h
    split at h
    · simp only at h
      split at h
      · rename_i hin
        cases h
        exact (Dict.mem_keys _ _).mpr hin
      · cases h
    · exact (leastBy_least h).1
  · intro p groupId byRequest
    unfold selectShortestJob
    split
    · exact ⟨p.requestTotalWork, rfl⟩
    · exact snapshots_totals byRequest.keys p

def started (w : World Srtf) (p : Srtf) (groupId requestId : String)
    (byRequest : Dict String (List InferenceTask)) (task : InferenceTask)
    (queue : List InferenceTask) : World Srtf :=
  World.setStatus { w with
    policy := (p.popRunnable groupId requestId byRequest queue).start groupId requestId task }
    task .dispatched

inductive Turn (select : Select) (groupId : String) :
    World Srtf → List Posting → World Srtf → Prop
  | idle (h : w.policy.hasRoom groupId = false ∨ w.policy.runnableByGroup.get? groupId = none) :
    Turn select groupId w [] w
  | passed (hb : w.policy.runnableByGroup.get? groupId = some byRequest)
    (hs : (select w.policy groupId byRequest).1 = none) :
    Turn select groupId w [] { w with policy := (select w.policy groupId byRequest).2 }
  | started (hroom : w.policy.hasRoom groupId = true)
    (hb : w.policy.runnableByGroup.get? groupId = some byRequest)
    (hs : (select w.policy groupId byRequest).1 = some requestId)
    (hq : byRequest.get? requestId = some (task :: queue)) :
    Turn select groupId w [(task, groupId)]
      (started w (select w.policy groupId byRequest).2 groupId requestId byRequest task queue)

inductive Pass (select : Select) :
    List ExecutionGroupSpec → World Srtf → List Posting → World Srtf → Prop
  | nil : Pass select [] w [] w
  | cons (ht : Turn select group.groupId w xs w₁) (hp : Pass select groups w₁ ys w') :
    Pass select (group :: groups) w (xs ++ ys) w'

variable {load : Workload} {estimator : TaskRuntimeEstimator} {w w' w₁ : World Srtf}
  {select : Select} {task : InferenceTask} {tasks : List InferenceTask}
  {groups : List ExecutionGroupSpec}

theorem Pass.keeps {I : World Srtf → Prop}
    (hturn : ∀ groupId w xs w', I w → Turn select groupId w xs w' → I w')
    (hp : Pass select groups w xs w') (h : I w) : I w' := by
  induction hp with
  | nil => exact h
  | cons ht _ ih => exact ih (hturn _ _ _ _ h ht)

def waitingIn (entries : List SrtfEntry) : List Posting :=
  Roster.waiting ownerOf (entries.filterMap SrtfEntry.roster)

def Served (rule : List SrtfEntry → Posting → Prop) :
    List SrtfEntry → List Posting → Prop
  | _, [] => True
  | entries, x :: xs => rule entries x ∧ Served rule (.started x.1 x.2 :: entries) xs

theorem Turn.frame (hc : Choice select) (ht : Turn select groupId w xs w') :
    w'.topology = w.topology ∧ w'.policy.books = w.policy.books ∧
      w'.policy.requestSubmitSeq = w.policy.requestSubmitSeq ∧
      w'.policy.submitCounter = w.policy.submitCounter ∧
      w'.policy.log = (xs.map fun x => .started x.1 x.2).reverse ++ w.policy.log := by
  cases ht with
  | idle => exact ⟨rfl, rfl, rfl, rfl, rfl⟩
  | passed hb hs =>
    rename_i byRequest
    obtain ⟨totals, ht⟩ := hc.totals w.policy groupId byRequest
    rw [ht]
    exact ⟨rfl, rfl, rfl, rfl, rfl⟩
  | started hroom hb hs hq =>
    rename_i byRequest requestId task queue
    obtain ⟨totals, ht⟩ := hc.totals w.policy groupId byRequest
    rw [ht]
    exact ⟨rfl, rfl, rfl, rfl, rfl⟩

theorem Pass.frame (hc : Choice select) (hp : Pass select groups w xs w') :
    w'.topology = w.topology ∧ w'.policy.books = w.policy.books ∧
      w'.policy.requestSubmitSeq = w.policy.requestSubmitSeq ∧
      w'.policy.submitCounter = w.policy.submitCounter ∧
      w'.policy.log = (xs.map fun x => .started x.1 x.2).reverse ++ w.policy.log := by
  induction hp with
  | nil => exact ⟨rfl, rfl, rfl, rfl, rfl⟩
  | cons ht _ ih =>
    obtain ⟨htop, hbooks, hseq, hcount, hlog⟩ := ht.frame hc
    obtain ⟨htop', hbooks', hseq', hcount', hlog'⟩ := ih
    refine ⟨htop'.trans htop, hbooks'.trans hbooks, hseq'.trans hseq, hcount'.trans hcount, ?_⟩
    rw [hlog', hlog, List.map_append, List.reverse_append, List.append_assoc]

/-- Where every choice follows the rule, so does a pass. -/
theorem Pass.served {I : World Srtf → Prop} {rule : WorkBooks → List SrtfEntry → Posting → Prop}
    (hc : Choice select)
    (hturn : ∀ groupId w xs w', I w → Turn select groupId w xs w' → I w')
    (hrule : ∀ w groupId byRequest requestId task queue, I w →
      w.policy.runnableByGroup.get? groupId = some byRequest →
      (select w.policy groupId byRequest).1 = some requestId →
      byRequest.get? requestId = some (task :: queue) →
        rule w.policy.books w.policy.log (task, groupId))
    (hp : Pass select groups w xs w') (h : I w) :
    Served (rule w.policy.books) w.policy.log xs := by
  induction hp with
  | nil => trivial
  | cons ht _ ih =>
    rename_i u xs _ _ _ _ _ _
    obtain ⟨-, hbooks, -, -, hlog⟩ := ht.frame hc
    have hnext := ih (hturn _ _ _ _ h ht)
    rw [hbooks, hlog] at hnext
    have hone : xs = [] ∨ ∃ x, xs = [x] ∧ rule u.policy.books u.policy.log x := by
      cases ht with
      | idle | passed => exact .inl rfl
      | started hroom hb hs hq => exact .inr ⟨_, rfl, hrule _ _ _ _ _ _ h hb hs hq⟩
    rcases hone with rfl | ⟨x, rfl, hx⟩
    · exact hnext
    · exact ⟨hx, hnext⟩

/-- A pass that finds the queues proper is a sequence of turns. -/
theorem takeGroups_pass {I : World Srtf → Prop} (hc : Choice select)
    (hturn : ∀ groupId w xs w', I w → Turn select groupId w xs w' → I w')
    (hproper : ∀ w, I w → Proper w.policy.runnableByGroup) (h : I w) :
    wp (takeGroups select groups)
      (fun out w' => ∃ xs, Pass select groups w xs w' ∧ out = xs.map Prod.fst)
      (fun _ _ => False) w := by
  induction groups generalizing w with
  | nil => exact ⟨[], .nil, rfl⟩
  | cons group groups ih =>
    have hnext : ∀ {xs w₁}, Turn select group.groupId w xs w₁ →
        wp (takeGroups select groups)
          (fun out w' => ∃ ys, Pass select (group :: groups) w ys w' ∧
            xs.map Prod.fst ++ out = ys.map Prod.fst)
          (fun _ _ => False) w₁ := fun {xs} {w₁} ht => by
      refine wp_mono (ih (hturn _ _ _ _ h ht)) (fun out w' ⟨ys, hp, ho⟩ => ?_) fun _ _ he => he
      exact ⟨xs ++ ys, .cons ht hp, by rw [ho, List.map_append]⟩
    simp only [takeGroups, modifyPolicy, wp_bind, wp_get]
    split
    · rename_i byRequest hroom hb
      simp only [wp_bind, wp_modify]
      split
      · rename_i hs
        exact hnext (.passed hb hs)
      · rename_i requestId hs
        have hkey := (Dict.mem_keys _ _).mp (hc.mem hs)
        split
        · rename_i hn
          rw [hn] at hkey
          cases hkey
        · rename_i hn
          exact (hproper w h _ _ hb).2 requestId hn
        · rename_i task queue hq
          simp only [wp_bind, wp_modify, wp_pure]
          exact hnext (.started hroom hb hs hq)
    · rename_i hne
      refine hnext (.idle ?_)
      cases hroom : w.policy.hasRoom group.groupId with
      | false => exact .inl rfl
      | true =>
        cases hb : w.policy.runnableByGroup.get? group.groupId with
        | none => exact .inr rfl
        | some byRequest => exact absurd hb (hne byRequest hroom)

-- ---------------------------------------------------------------------------
-- States
-- ---------------------------------------------------------------------------

/-- The queues, the counters and the books agree with the log; what was
reported belongs to requests that were opened, and what waits to requests that
are open, on their group. -/
structure Sound (load : Workload) (estimator : TaskRuntimeEstimator) (w : World Srtf) : Prop where
  kept : Kept load estimator w
  pinned : WorkBooks.Pinned load w.tasks w.policy.books
  queued : w.policy.Queued
  fresh : w.policy.Fresh
  counted : w.policy.Counted
  told : ∀ x ∈ Roster.reported w.policy.roster, load.Has x.1 ∧
    ∃ job, .opened x.1.requestId job ∈ w.policy.books.log
  fed : ∀ x ∈ w.policy.waiting, ∃ job, w.policy.books.job? x.1.requestId = some job ∧
    job.lane = x.2

theorem Sound.init (load : Workload) (estimator : TaskRuntimeEstimator) {w : World Srtf}
    (hinit : w.policy = .init estimator w.topology) : Sound load estimator w := by
  constructor
  · show w.policy.books.Kept load estimator w.topology
    rw [hinit]
    exact .init load estimator w.topology
  · rw [hinit]
    exact .init load w.tasks estimator w.topology
  · rw [hinit]
    exact .init estimator w.topology
  · rw [hinit]
    exact .init estimator w.topology
  · rw [hinit]
    exact .init estimator w.topology
  · rw [hinit]
    exact fun _ hm => absurd hm List.not_mem_nil
  · rw [hinit]
    exact fun _ hm => absurd hm List.not_mem_nil

theorem Sound.of_eq (h : Sound load estimator w) (ht : w'.topology = w.topology)
    (hh : w'.tasks = w.tasks) (hp : w'.policy = w.policy) : Sound load estimator w' := by
  obtain ⟨topology, tasks, clockNs, policy⟩ := w
  obtain ⟨topology', tasks', clockNs', policy'⟩ := w'
  obtain rfl := ht
  obtain rfl := hh
  obtain rfl := hp
  exact ⟨h.kept, h.pinned, h.queued, h.fresh, h.counted, h.told, h.fed⟩

theorem Sound.has (h : Sound load estimator w) (hm : x ∈ w.policy.waiting) : load.Has x.1 :=
  (h.told x (h.fresh.reported x (List.mem_append_left _ hm))).1

theorem Sound.lane (h : Sound load estimator w)
    (hj : w.policy.books.job? requestId = some job) :
    w.policy.books.requestGroup.get? requestId = some job.lane :=
  (h.kept.sound.opened requestId job hj).bound

theorem Sound.mem_waiting (h : Sound load estimator w)
    (hb : w.policy.runnableByGroup.get? groupId = some byRequest)
    (hq : byRequest.get? requestId = some (task :: queue)) :
    (task, groupId) ∈ w.policy.waiting ∧ task.requestId = requestId := by
  have hqueue := h.queued.queues groupId requestId
  rw [Dict.getD_of_get? hb, Dict.getD_of_get? hq] at hqueue
  have hm : task ∈ (w.policy.waiting.filter (queuedAt groupId requestId)).map Prod.fst := by
    rw [← hqueue]
    exact List.mem_cons_self ..
  obtain ⟨x, hx, rfl⟩ := List.mem_map.mp hm
  obtain ⟨hwait, hat⟩ := List.mem_filter.mp hx
  obtain ⟨rfl, howner⟩ : x.2 = groupId ∧ x.1.requestId = requestId := by
    simpa [queuedAt] using hat
  exact ⟨hwait, howner⟩

theorem Sound.aside (h : Sound load estimator w) (hb : p.books = w.policy.books)
    (hr : p.runnableByGroup = w.policy.runnableByGroup)
    (ho : p.outstandingTasksByGroup = w.policy.outstandingTasksByGroup)
    (hc : p.launchPendingByGroup = w.policy.launchPendingByGroup)
    (hp : p.tasksPendingLaunch = w.policy.tasksPendingLaunch)
    (hd : p.dispatchedTaskGroup = w.policy.dispatchedTaskGroup)
    (hl : p.log = w.policy.log) : Sound load estimator { w with policy := p } := by
  have hroster : p.roster = w.policy.roster := by rw [roster, hl, roster]
  have hwait : p.waiting = w.policy.waiting := by rw [waiting, hroster, waiting]
  have hrun : p.running = w.policy.running := by rw [running, hroster, running]
  have hlaunch : p.launching = w.policy.launching := by rw [launching, hl, launching]
  constructor
  · show p.books.Kept load estimator w.topology
    rw [hb]
    exact h.kept
  · show WorkBooks.Pinned load w.tasks p.books
    rw [hb]
    exact h.pinned
  · exact h.queued.congr hr hwait
  · exact h.fresh.of_sublist (by rw [hwait]) (by rw [hroster]) (by rw [hroster])
  · exact h.counted.congr hrun hlaunch (by rw [hroster]) hd hp ho hc
  · show ∀ x ∈ Roster.reported p.roster, load.Has x.1 ∧ ∃ job, .opened x.1.requestId job ∈ p.books.log
    rw [hroster, hb]
    exact h.told
  · show ∀ x ∈ p.waiting, ∃ job, p.books.job? x.1.requestId = some job ∧ job.lane = x.2
    rw [hwait, hb]
    exact h.fed

theorem Sound.chosen (h : Sound load estimator w) (hc : Choice select) (groupId : String)
    (byRequest : Dict String (List InferenceTask)) :
    Sound load estimator { w with policy := (select w.policy groupId byRequest).2 } := by
  obtain ⟨totals, ht⟩ := hc.totals w.policy groupId byRequest
  rw [ht]
  exact h.aside rfl rfl rfl rfl rfl rfl rfl

theorem Sound.start (h : Sound load estimator w) (hroom : w.policy.hasRoom groupId = true)
    (hb : w.policy.runnableByGroup.get? groupId = some byRequest)
    (hq : byRequest.get? requestId = some (task :: queue)) :
    Sound load estimator (started w w.policy groupId requestId byRequest task queue) := by
  obtain ⟨hm, -⟩ := h.mem_waiting hb hq
  have hsteady : WorkBooks.Steady load w.tasks (w.tasks.setStatus task .dispatched) :=
    .setStatus (h.has hm) _
  have hsub : ∀ x ∈ (started w w.policy groupId requestId byRequest task queue).policy.waiting,
      x ∈ w.policy.waiting := fun x hx => Roster.mem_of_mem_waiting_started hx
  refine ⟨h.kept, h.pinned.steady hsteady, h.queued.pop hb hq rfl rfl, ?_, ?_, h.told,
    fun x hx => h.fed x (hsub x hx)⟩
  · exact (h.fresh.start hm requestId).of_sublist (List.Sublist.refl _) rfl rfl
  · have hcounted := h.counted.start h.fresh hm hroom requestId
    exact hcounted.congr rfl rfl rfl rfl rfl rfl rfl

theorem Sound.turn (hc : Choice select) (h : Sound load estimator w)
    (ht : Turn select groupId w xs w') : Sound load estimator w' := by
  cases ht with
  | idle => exact h
  | passed => exact h.chosen hc _ _
  | started hroom hb hs hq =>
    rename_i byRequest requestId task queue
    obtain ⟨totals, htotals⟩ := hc.totals w.policy groupId byRequest
    have hchosen := h.chosen hc groupId byRequest
    rw [htotals] at hchosen ⊢
    exact hchosen.start hroom hb hq

theorem takeDispatchableTasks_pass (hc : Choice select) (h : Sound load estimator w) :
    wp (takeDispatchableTasks select)
      (fun out w' => ∃ xs, Pass select w.topology.groups w xs w' ∧ out = xs.map Prod.fst ∧
        Sound load estimator w')
      (fun _ _ => False) w := by
  simp only [takeDispatchableTasks, wp_bind, wp_get]
  refine wp_mono (takeGroups_pass hc (fun _ _ _ _ h ht => h.turn hc ht)
    (fun _ h => h.queued.proper) h) ?_ fun _ _ he => he
  rintro out w' ⟨xs, hp, ho⟩
  exact ⟨xs, hp, ho, hp.keeps (fun _ _ _ _ h ht => h.turn hc ht) h⟩

-- ---------------------------------------------------------------------------
-- Reports
-- ---------------------------------------------------------------------------

structure Reports (load : Workload) (estimator : TaskRuntimeEstimator) (w w' : World Srtf) :
    Prop where
  sound : Sound load estimator w'
  topology : w'.topology = w.topology
  policy : w'.policy =
    { w.policy with runnableByGroup := w'.policy.runnableByGroup, log := w'.policy.log }
  log : ∃ noted : List Posting,
    w'.policy.log = (noted.map fun x => .reported x.1 x.2) ++ w.policy.log

theorem Reports.refl (h : Sound load estimator w) : Reports load estimator w w :=
  ⟨h, rfl, rfl, [], rfl⟩

theorem Reports.trans (h : Reports load estimator w w₁) (h' : Reports load estimator w₁ w') :
    Reports load estimator w w' := by
  obtain ⟨noted, hl⟩ := h.log
  obtain ⟨noted', hl'⟩ := h'.log
  refine ⟨h'.sound, h'.topology.trans h.topology, ?_, noted' ++ noted, ?_⟩
  · rw [h'.policy, h.policy]
  · rw [hl', hl, List.map_append, List.append_assoc]

theorem Reports.books (h : Reports load estimator w w') :
    w'.policy.books = w.policy.books := by rw [h.policy]

theorem Sound.enqueue (h : Sound load estimator w) (hm : load.Has task)
    (hj : w.policy.books.job? task.requestId = some job)
    (hn : task.taskId ∉ (Roster.reported w.policy.roster).map idOf) :
    Sound load estimator { w.setStatus task .ready with
      policy := w.policy.enqueue task job.lane } := by
  obtain ⟨first, hf, -⟩ := Backlog.lane_of_jobs hj
  refine ⟨h.kept, h.pinned.steady (.setStatus hm _), h.queued.enqueue task job.lane,
    h.fresh.enqueue hn job.lane, h.counted.congr rfl rfl rfl rfl rfl rfl rfl, ?_, ?_⟩
  · intro x hx
    rcases List.mem_append.mp hx with hx | hx
    · exact h.told x hx
    · obtain rfl := List.mem_singleton.mp hx
      exact ⟨hm, first, hf⟩
  · intro x hx
    rcases List.mem_append.mp hx with hx | hx
    · exact h.fed x hx
    · obtain rfl := List.mem_singleton.mp hx
      exact ⟨job, hj, rfl⟩

theorem enqueueRunnable_reports (h : Sound load estimator w) (hm : load.Has task)
    (hj : w.policy.books.job? task.requestId = some job)
    (hn : task.taskId ∉ (Roster.reported w.policy.roster).map idOf) :
    wp (enqueueRunnable task)
      (fun _ w' => Reports load estimator w w' ∧
        Roster.reported w'.policy.roster = Roster.reported w.policy.roster ++ [(task, job.lane)])
      (fun _ _ => False) w := by
  obtain ⟨first, hf, hlane⟩ := Backlog.lane_of_jobs hj
  simp only [enqueueRunnable, onBooks, wp_bind, wp_zoom, wp_modify]
  refine wp_mono (h.pinned.groupOfRunnable (w := { w with policy := w.policy.books }) hm hf) ?_
    fun _ _ he => he
  rintro groupId v ⟨hg, ht, hh, hp, -⟩
  obtain rfl : groupId = job.lane := hg.trans hlane
  -- the request's group stands there already
  have hbooks : v.policy = w.policy.books := by
    rw [hp, hlane]
    simp only [Dict.set_of_get? (h.lane hj)]
  have hnext := h.enqueue hm hj hn
  refine ⟨⟨hnext.of_eq ht (congrArg (TaskHeap.setStatus · task .ready) hh) ?_, ht, ?_,
    [(task, job.lane)], rfl⟩, rfl⟩
  · simp only [hbooks]
  · simp only [hbooks]
    rfl

theorem enqueueAll_reports (h : Sound load estimator w)
    (hn : (tasks.map InferenceTask.taskId).Nodup)
    (hm : ∀ task ∈ tasks, load.Has task ∧
      task.taskId ∉ (Roster.reported w.policy.roster).map idOf ∧
      ∃ job, w.policy.books.job? task.requestId = some job) :
    wp (tasks.forM enqueueRunnable) (fun _ => Reports load estimator w) (fun _ _ => False) w := by
  induction tasks generalizing w with
  | nil => exact .refl h
  | cons task tasks ih =>
    rw [List.map_cons, List.nodup_cons] at hn
    obtain ⟨⟨hhas, hnew, job, hj⟩, hms⟩ := List.forall_mem_cons.mp hm
    show wp (enqueueRunnable task >>= fun _ => tasks.forM enqueueRunnable) _ _ w
    rw [wp_bind]
    refine wp_mono (enqueueRunnable_reports h hhas hj hnew) (fun _ w₁ ⟨hr, hids⟩ => ?_)
      fun _ _ he => he
    refine wp_mono (ih hr.sound hn.2 fun other ho => ?_) (fun _ w₂ hr' => hr.trans hr')
      fun _ _ he => he
    obtain ⟨hhas', hnew', hopen⟩ := hms other ho
    refine ⟨hhas', ?_, by rwa [hr.books]⟩
    rw [hids, List.map_append, List.mem_append, not_or]
    refine ⟨hnew', fun heq => hn.1 ?_⟩
    rw [← show other.taskId = task.taskId by simpa [idOf] using heq]
    exact List.mem_map_of_mem ho

-- ---------------------------------------------------------------------------
-- Events
-- ---------------------------------------------------------------------------

theorem Sound.mark (h : Sound load estimator w) (taskId : String) :
    Sound load estimator { w with policy := w.policy.markTaskLaunchFinished taskId } := by
  have hsame : (w.policy.markTaskLaunchFinished taskId).runnableByGroup =
      w.policy.runnableByGroup ∧
      (w.policy.markTaskLaunchFinished taskId).roster = w.policy.roster := by
    unfold markTaskLaunchFinished
    simp only
    split <;> exact ⟨rfl, rfl⟩
  have hbooks := markTaskLaunchFinished_books w.policy taskId
  have hwait : (w.policy.markTaskLaunchFinished taskId).waiting = w.policy.waiting := by
    rw [waiting, hsame.2, waiting]
  constructor
  · show (w.policy.markTaskLaunchFinished taskId).books.Kept load estimator w.topology
    rw [hbooks]
    exact h.kept
  · show WorkBooks.Pinned load w.tasks (w.policy.markTaskLaunchFinished taskId).books
    rw [hbooks]
    exact h.pinned
  · exact h.queued.congr hsame.1 hwait
  · exact h.fresh.of_sublist (by rw [hwait]) (by rw [hsame.2]) (by rw [hsame.2])
  · exact h.counted.markTaskLaunchFinished taskId
  · intro x hx
    rw [hbooks]
    exact h.told x (hsame.2 ▸ hx)
  · intro x hx
    rw [hbooks]
    exact h.fed x (hwait ▸ hx)

theorem launching_mark (p : Srtf) (taskId : String) :
    taskId ∉ (p.markTaskLaunchFinished taskId).launching.map idOf := by
  have hlaunch : (p.markTaskLaunchFinished taskId).launching =
      p.launching.filter fun x => idOf x ≠ taskId := by
    unfold markTaskLaunchFinished
    simp only
    split <;> rfl
  rw [hlaunch]
  intro hm
  obtain ⟨x, hx, hid⟩ := List.mem_map.mp hm
  exact of_decide_eq_true (List.mem_filter.mp hx).2 hid

theorem Sound.release (h : Sound load estimator w)
    (hn : taskId ∉ w.policy.launching.map idOf) :
    Sound load estimator { w with policy := w.policy.releaseDispatchedTask taskId } :=
  ⟨h.kept, h.pinned, h.queued.congr rfl rfl, h.fresh.of_sublist (List.Sublist.refl _) rfl rfl,
    h.counted.releaseDispatchedTask hn, h.told, h.fed⟩

theorem Sound.charge (h : Sound load estimator w)
    (hk : event.taskId ∈ (load.plan event.requestId).tasks.keys) :
    Sound load estimator { w with policy := w.policy.chargeCompletedTask event } := by
  refine ⟨h.kept.charge hk, h.pinned.charge event.requestId event.taskId,
    h.queued.congr rfl rfl, h.fresh.of_sublist (List.Sublist.refl _) rfl rfl,
    h.counted.congr rfl rfl rfl rfl rfl rfl rfl, fun x hx => ?_, fun x hx => ?_⟩
  · obtain ⟨hhas, job, hj⟩ := h.told x hx
    refine ⟨hhas, job, ?_⟩
    show _ ∈ (w.policy.books.chargeCompletedTask event.requestId event.taskId).log
    rw [(WorkBooks.chargeCompletedTask_books ..).1]
    exact List.mem_cons_of_mem _ hj
  · obtain ⟨job, hj, hl⟩ := h.fed x hx
    show ∃ job, (w.policy.books.chargeCompletedTask event.requestId event.taskId).job?
      x.1.requestId = some job ∧ job.lane = x.2
    rw [WorkBooks.job?_charge, hj]
    split
    · exact ⟨job.pay event.taskId, rfl, hl⟩
    · exact ⟨job, rfl, hl⟩

theorem dropRunnable_eq (p : Srtf) (requestId groupId : String) : p.dropRunnable requestId groupId =
    { p with runnableByGroup := (p.dropRunnable requestId groupId).runnableByGroup } := by
  unfold dropRunnable
  split <;> rfl

theorem vacate_eq (p : Srtf) (requestId groupId : String) : p.vacate requestId groupId =
    { p with activeRequestByGroup :=
      if p.activeRequestByGroup.get? groupId = some requestId then
        p.activeRequestByGroup.erase groupId
      else p.activeRequestByGroup } := by
  unfold vacate
  split <;> rfl

theorem endRequest_eq (p : Srtf) (event : WorkerEvent) : p.endRequest event =
    { p with
      books := p.books.cleanupRequestWork event.requestId (p.books.eventGroup event)
      runnableByGroup :=
        match p.books.eventGroup event with
        | none => p.runnableByGroup
        | some groupId => (p.dropRunnable event.requestId groupId).runnableByGroup
      activeRequestByGroup :=
        match p.books.eventGroup event with
        | none => p.activeRequestByGroup
        | some groupId =>
          if p.activeRequestByGroup.get? groupId = some event.requestId then
            p.activeRequestByGroup.erase groupId
          else p.activeRequestByGroup
      requestSubmitSeq := p.requestSubmitSeq.erase event.requestId
      requestTotalWork := p.requestTotalWork.erase event.requestId
      log := .closed event.requestId :: p.log } := by
  unfold endRequest
  cases hg : p.books.eventGroup event with
  | none => rfl
  | some groupId =>
    simp only
    rw [vacate_eq, dropRunnable_eq]
    rfl

theorem Sound.eventGroup (h : Sound load estimator w)
    (hp : w.policy.books.InPlace event.requestId (w.policy.books.eventGroup event))
    (hj : w.policy.books.job? event.requestId = some job) :
    w.policy.books.eventGroup event = some job.lane := by
  have hlane := h.lane hj
  rcases hp with hn | hn | hg
  · rw [hj] at hn
    cases hn
  · unfold WorkBooks.eventGroup at hn
    split at hn
    · rw [hlane] at hn
      cases hn
    · cases hn
  · rw [hg, hlane]

theorem Sound.endRequest (h : Sound load estimator w)
    (hp : w.policy.books.InPlace event.requestId (w.policy.books.eventGroup event)) :
    Sound load estimator { w with policy := w.policy.endRequest event } := by
  have hin : ∀ x ∈ w.policy.waiting, x.1.requestId = event.requestId →
      w.policy.books.eventGroup event = some x.2 := by
    intro x hx howner
    obtain ⟨job, hj, hl⟩ := h.fed x hx
    rw [howner] at hj
    rw [h.eventGroup hp hj, hl]
  have hwait : (w.policy.endRequest event).waiting =
      w.policy.waiting.filter fun x => ownerOf x ≠ event.requestId := by
    rw [endRequest_eq]
    rfl
  rw [endRequest_eq] at hwait ⊢
  refine ⟨h.kept.cleanup hp, h.pinned.cleanup _ _, ?_,
    h.fresh.of_sublist (hwait ▸ List.filter_sublist) rfl rfl,
    h.counted.congr rfl rfl rfl rfl rfl rfl rfl, fun x hx => ?_, fun x hx => ?_⟩
  · cases hg : w.policy.books.eventGroup event with
    | none =>
      refine h.queued.congr rfl (hwait.trans (List.filter_eq_self.mpr fun x hx => ?_))
      refine decide_eq_true fun howner => ?_
      rw [hg] at hin
      cases hin x hx howner
    | some groupId =>
      refine h.queued.drop (fun x hx howner => ?_) rfl rfl
      rw [hg] at hin
      exact (Option.some.inj (hin x hx howner)).symm
  · obtain ⟨hhas, job, hj⟩ := h.told x hx
    exact ⟨hhas, job, List.mem_cons_of_mem _ hj⟩
  · rw [hwait] at hx
    obtain ⟨hx, hne⟩ := List.mem_filter.mp hx
    have hother : event.requestId ≠ x.1.requestId := Ne.symm (of_decide_eq_true hne)
    obtain ⟨job, hj, hl⟩ := h.fed x hx
    exact ⟨job, by rw [WorkBooks.job?_cleanup, if_neg hother, hj], hl⟩

-- ---------------------------------------------------------------------------
-- Calls
-- ---------------------------------------------------------------------------

/-- The calls the scheduler makes: a request is submitted once, a task is
reported once and after its request was opened, and a charge names a task of
its request. -/
def Regular (load : Workload) (w : World Srtf) : Ask → Prop
  | .submitted plan => plan = load.plan plan.requestId ∧
      (∀ job, .opened plan.requestId job ∉ w.policy.books.log) ∧
      w.policy.requestSubmitSeq.get? plan.requestId = none
  | .runnable tasks => (tasks.map InferenceTask.taskId).Nodup ∧ ∀ task ∈ tasks, load.Has task ∧
      task.taskId ∉ (Roster.reported w.policy.roster).map idOf ∧
      ∃ job, .opened task.requestId job ∈ w.policy.books.log
  | .event event => event.kind.charges = true →
      event.taskId ∈ (load.plan event.requestId).tasks.keys
  | .acquire _ | .release _ => True

/-- No task is reported of a request that has ended, and requests end on the
group they are bound to. -/
def Prompt (w : World Srtf) : Ask → Prop
  | .runnable tasks => ∀ task ∈ tasks, ∃ job, w.policy.books.job? task.requestId = some job
  | .event event => event.kind.endsRequest = true →
      w.policy.books.InPlace event.requestId (w.policy.books.eventGroup event)
  | .submitted _ | .acquire _ | .release _ => True

def starts : SrtfEntry → Bool
  | .started _ _ => true
  | .reported _ _ | .launched _ | .ended _ | .closed _ => false

def Serves (rule : WorkBooks → List SrtfEntry → Posting → Prop) (w : World Srtf) (_ : Ask)
    (out : List InferenceTask) (w' : World Srtf) : Prop :=
  ∃ noted xs, (∀ entry ∈ noted, starts entry = false) ∧ out = xs.map Prod.fst ∧
    w'.policy.log = (xs.map fun x => .started x.1 x.2).reverse ++ (noted ++ w.policy.log) ∧
    Served (rule w'.policy.books) (noted ++ w.policy.log) xs

/-- The one task that a call dispatched was dispatched by the rule. -/
theorem Serves.only {rule : WorkBooks → List SrtfEntry → Posting → Prop}
    (h : Serves rule w ask out w') (task : InferenceTask) (groupId : String)
    (noted : List SrtfEntry)
    (hl : w'.policy.log = .started task groupId :: (noted ++ w.policy.log))
    (hn : ∀ entry ∈ noted, starts entry = false) :
    rule w'.policy.books (noted ++ w.policy.log) (task, groupId) := by
  obtain ⟨noted', xs, hn', -, hl', hserved⟩ := h
  rw [hl', ← List.append_assoc, ← List.cons_append] at hl
  have heq := List.append_cancel_right hl
  have hstarts : (xs.map fun x => SrtfEntry.started x.1 x.2).reverse = [.started task groupId] := by
    have hfilter := congrArg (List.filter starts) heq
    have hnone : ∀ entries : List SrtfEntry, (∀ entry ∈ entries, starts entry = false) →
        entries.filter starts = [] := fun entries he =>
      List.filter_eq_nil_iff.mpr fun entry hm => by rw [he entry hm]; simp
    rw [List.filter_append, hnone noted' hn', List.append_nil, List.filter_cons_of_pos rfl,
      hnone noted hn, List.filter_eq_self.mpr] at hfilter
    · exact hfilter
    · intro entry hm
      obtain ⟨x, -, rfl⟩ := List.mem_map.mp (List.mem_reverse.mp hm)
      rfl
  rw [hstarts] at heq
  obtain rfl : noted' = noted := List.tail_eq_of_cons_eq heq
  cases xs with
  | nil => cases hstarts
  | cons x rest =>
    have hone : rest = [] := by
      have hlen := congrArg List.length hstarts
      simpa using hlen
    subst hone
    obtain ⟨htask, hgroup⟩ := SrtfEntry.started.inj (List.head_eq_of_cons_eq hstarts)
    rw [← htask, ← hgroup]
    exact hserved.1

theorem noteEvent_log (p : Srtf) (event : WorkerEvent) :
    ∃ noted, (p.noteEvent event).log = noted ++ p.log ∧ ∀ entry ∈ noted, starts entry = false := by
  have hmark : ∀ taskId, (p.markTaskLaunchFinished taskId).log = .launched taskId :: p.log := by
    intro taskId
    unfold markTaskLaunchFinished
    simp only
    split <;> rfl
  cases hk : event.kind with
  | taskLaunchEnd =>
    refine ⟨[.launched event.taskId], ?_, by simp [starts]⟩
    simp only [noteEvent, hk]
    exact hmark event.taskId
  | taskExecEnd =>
    refine ⟨[.ended event.taskId, .launched event.taskId], ?_, by simp [starts]⟩
    simp only [noteEvent, hk]
    exact congrArg (SrtfEntry.ended event.taskId :: ·) (hmark event.taskId)
  | taskFailed =>
    refine ⟨[.ended event.taskId, .launched event.taskId], ?_, by simp [starts]⟩
    simp only [noteEvent, hk]
    exact congrArg (SrtfEntry.ended event.taskId :: ·) (hmark event.taskId)
  | requestFinished | requestFailed =>
    refine ⟨[.closed event.requestId], ?_, by simp [starts]⟩
    simp only [noteEvent, hk, endRequest_eq]
    rfl
  | taskLaunchBegin | taskExecBegin =>
    refine ⟨[], ?_, by simp⟩
    simp only [noteEvent, hk]
    rfl

theorem Reports.noted (h : Reports load estimator w w') :
    ∃ noted, w'.policy.log = noted ++ w.policy.log ∧ ∀ entry ∈ noted, starts entry = false := by
  obtain ⟨xs, hl⟩ := h.log
  refine ⟨_, hl, fun entry hm => ?_⟩
  obtain ⟨x, -, rfl⟩ := List.mem_map.mp hm
  rfl

theorem number_eq (p : Srtf) (requestId : String) : p.number requestId =
    { p with
      requestSubmitSeq := (p.number requestId).requestSubmitSeq
      submitCounter := (p.number requestId).submitCounter } := by
  unfold number
  split <;> rfl

structure Opens (load : Workload) (estimator : TaskRuntimeEstimator) (w : World Srtf)
    (requestId : String) (job : Backlog.Job String String ℚ) (w' : World Srtf) : Prop where
  sound : Sound load estimator w'
  topology : w'.topology = w.topology
  policy : w'.policy = { w.policy.number requestId with books := w'.policy.books }
  log : w'.policy.books.log = .opened requestId job :: w.policy.books.log
  remaining : w'.policy.books.requestRemainingWork =
    w.policy.books.requestRemainingWork.set requestId job.owed

structure Refuses (load : Workload) (estimator : TaskRuntimeEstimator) (w : World Srtf)
    (requestId : String) (w' : World Srtf) : Prop where
  sound : Sound load estimator w'
  policy : w'.policy = { w.policy.number requestId with books := w'.policy.books }
  log : w'.policy.books.log = w.policy.books.log
  remaining : w'.policy.books.requestRemainingWork = w.policy.books.requestRemainingWork

theorem Sound.setBooks (h : Sound load estimator w) {v : World WorkBooks}
    (hk : v.policy.Kept load estimator v.topology) (hp : v.policy.Pinned load v.tasks)
    (hl : ∀ requestId job, .opened requestId job ∈ w.policy.books.log →
      .opened requestId job ∈ v.policy.log)
    (hj : ∀ requestId job, .opened requestId job ∈ w.policy.books.log →
      v.policy.job? requestId = w.policy.books.job? requestId) :
    Sound load estimator { v with policy := { w.policy with books := v.policy } } := by
  refine ⟨hk, hp, h.queued.congr rfl rfl, h.fresh.of_sublist (List.Sublist.refl _) rfl rfl,
    h.counted.congr rfl rfl rfl rfl rfl rfl rfl, fun x hx => ?_, fun x hx => ?_⟩
  · obtain ⟨hhas, job, hm⟩ := h.told x hx
    exact ⟨hhas, job, hl _ _ hm⟩
  · obtain ⟨first, hm⟩ := (h.told x (h.fresh.reported x (List.mem_append_left _ hx))).2
    obtain ⟨job, hopen, hlane⟩ := h.fed x hx
    exact ⟨job, (hj _ _ hm).trans hopen, hlane⟩

theorem onTasksRunnable_reports (hc : Choice select) (h : Sound load estimator w)
    (hn : (tasks.map InferenceTask.taskId).Nodup)
    (hm : ∀ task ∈ tasks, load.Has task ∧
      task.taskId ∉ (Roster.reported w.policy.roster).map idOf ∧
      ∃ job, w.policy.books.job? task.requestId = some job) :
    wp (onTasksRunnable select tasks)
      (fun out w' => ∃ w₁ xs, Reports load estimator w w₁ ∧
        Pass select w₁.topology.groups w₁ xs w' ∧ out = xs.map Prod.fst ∧ Sound load estimator w')
      (fun _ _ => False) w := by
  simp only [onTasksRunnable, wp_bind]
  refine wp_mono (enqueueAll_reports h hn hm) (fun _ w₁ hr => ?_) fun _ _ he => he
  exact wp_mono (takeDispatchableTasks_pass hc hr.sound)
    (fun out w' ⟨xs, hp, ho, hw⟩ => ⟨w₁, xs, hr, hp, ho, hw⟩) fun _ _ he => he

theorem onRequestSubmitted_opens (hc : Choice select) (h : Sound load estimator w)
    (hn : ∀ job, .opened requestId job ∉ w.policy.books.log) :
    wp (onRequestSubmitted select (load.plan requestId))
      (fun out w' => ∃ job w₁ w₂ xs, Opens load estimator w requestId job w₁ ∧
        Reports load estimator w₁ w₂ ∧ Pass select w₂.topology.groups w₂ xs w' ∧
        out = xs.map Prod.fst ∧ Sound load estimator w')
      (fun _ w' => Refuses load estimator w requestId w') w := by
  have hnamed := load.named requestId
  have hnone : w.policy.books.job? requestId = none := by
    cases hj : w.policy.books.job? requestId with
    | none => rfl
    | some job =>
      obtain ⟨first, hm, -⟩ := Backlog.lane_of_jobs hj
      exact absurd hm (hn first)
  have hnumber : Sound load estimator { w with policy := w.policy.number requestId } := by
    rw [number_eq]
    exact h.aside rfl rfl rfl rfl rfl rfl rfl
  have hbooks : (w.policy.number requestId).books = w.policy.books := by rw [number_eq]
  simp only [onRequestSubmitted, onBooks, modifyPolicy, wp_bind, wp_modify, wp_zoom, hnamed,
    hbooks]
  refine wp_mono (WorkBooks.enterPlan_enters (specOf_reads load requestId)
    { w with policy := w.policy.books }) ?_ fun _ v hr => ?_
  · rintro _ v ⟨groupId, works, estimates, he⟩
    have hlog : v.policy.log = .opened requestId ⟨groupId, works⟩ :: w.policy.books.log := by
      rw [he.policy]
      simp only [WorkBooks.openJob, hnamed]
    have hjob : ∀ other, v.policy.job? other =
        if requestId = other then some ⟨groupId, works⟩ else w.policy.books.job? other := by
      intro other
      rw [WorkBooks.job?, hlog]
      exact Dict.get?_set ..
    have hsound : Sound load estimator
        { v with policy := { w.policy.number requestId with books := v.policy } } := by
      refine hnumber.setBooks (WorkBooks.Kept.enters h.kept hnone he)
        (WorkBooks.Pinned.enters h.pinned he hn) (fun other job hm => ?_) fun other job hm => ?_
      · rw [hlog]
        rw [hbooks] at hm
        exact List.mem_cons_of_mem _ hm
      · rw [hbooks] at hm
        have hne : requestId ≠ other := fun heq => hn job (heq ▸ hm)
        rw [hjob, if_neg hne, hbooks]
    have hopens : Opens load estimator w requestId ⟨groupId, works⟩
        { v with policy := { w.policy.number requestId with books := v.policy } } := by
      refine ⟨hsound, he.topology, rfl, hlog, ?_⟩
      show v.policy.requestRemainingWork = _
      rw [he.policy]
      simp only [WorkBooks.openJob, hnamed]
      rfl
    have hkeys := (load.plan requestId).tasks.keys_nodup
    rw [Workload.keys_eq] at hkeys
    refine wp_mono (onTasksRunnable_reports hc hsound
      (hkeys.sublist (List.filter_sublist.map _)) fun task hm => ?_) ?_ fun _ _ he => he.elim
    · have hmem := (List.mem_filter.mp hm).1
      have howner := (load.owned requestId task hmem).1
      refine ⟨.of_mem hmem, fun hid => ?_, ⟨groupId, works⟩, ?_⟩
      · obtain ⟨x, hx, hid⟩ := List.mem_map.mp hid
        obtain ⟨hhas, job, hj⟩ := hnumber.told x hx
        rw [hhas.eq (.of_mem hmem) hid, howner, hbooks] at hj
        exact hn job hj
      · show v.policy.job? task.requestId = _
        rw [howner, hjob, if_pos rfl]
    · rintro out w' ⟨w₂, xs, hr, hp, ho, hw⟩
      exact ⟨_, _, w₂, xs, hopens, hr, hp, ho, hw⟩
  · have hlog : v.policy.log = w.policy.books.log := by rw [hr.policy]
    refine ⟨?_, rfl, hlog, ?_⟩
    · refine hnumber.setBooks (WorkBooks.Kept.refuses h.kept hnone hr)
        (WorkBooks.Pinned.refuses h.pinned hr hn) (fun other job hm => ?_) fun other job hm => ?_
      · rwa [hlog, ← hbooks]
      · rw [WorkBooks.job?, hlog, WorkBooks.job?, hbooks]
    · show v.policy.requestRemainingWork = _
      rw [hr.policy]

theorem Sound.noteEvent (h : Sound load estimator w) (hr : Regular load w (.event event))
    (hp : Prompt w (.event event)) :
    Sound load estimator { w with policy := w.policy.noteEvent event } := by
  have hmark := h.mark event.taskId
  have hrelease := hmark.release (launching_mark w.policy event.taskId)
  cases hk : event.kind with
  | taskLaunchEnd =>
    simp only [Srtf.noteEvent, hk]
    exact hmark.charge (hr (by rw [hk]; rfl))
  | taskExecEnd =>
    simp only [Srtf.noteEvent, hk]
    exact hrelease.charge (hr (by rw [hk]; rfl))
  | taskFailed =>
    simp only [Srtf.noteEvent, hk]
    exact hrelease
  | requestFinished | requestFailed =>
    simp only [Srtf.noteEvent, hk]
    exact h.endRequest (hp (by rw [hk]; rfl))
  | taskLaunchBegin | taskExecBegin =>
    simp only [Srtf.noteEvent, hk]
    exact h

theorem onWorkerEvent_notes (hc : Choice select) (h : Sound load estimator w)
    (hr : Regular load w (.event event)) (hp : Prompt w (.event event)) :
    wp (onWorkerEvent select event)
      (fun out w' => ∃ groups xs,
        (event.kind ≠ .taskLaunchEnd → groups = w.topology.groups) ∧
        Pass select groups { w with policy := w.policy.noteEvent event } xs w' ∧
        out = xs.map Prod.fst ∧ Sound load estimator w')
      (fun _ _ => False) w := by
  have hnote := h.noteEvent hr hp
  simp only [onWorkerEvent, modifyPolicy, wp_bind, wp_modify, wp_ite, wp_pure]
  split
  · rename_i hk
    exact ⟨[], [], fun hne => absurd hk hne, .nil, rfl, hnote⟩
  · refine wp_mono (takeDispatchableTasks_pass hc hnote) ?_ fun _ _ he => he
    rintro out w' ⟨xs, hp, ho, hw⟩
    exact ⟨_, xs, fun _ => rfl, hp, ho, hw⟩

end Srtf

end GfDit
