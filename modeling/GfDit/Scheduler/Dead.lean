import GfDit.Scheduler.Links
import GfDit.Scheduler.Refcounts

/-!
# Failed requests

A request fails in the middle of a call: its task is marked, the policy is
asked for more work, told of the end of the request, and then its state is
cleaned up. Tasks of the request that the policy still has, or that it has
returned and that wait for their turn, can be dispatched in between or after.
When all tasks that were reported have been taken up before, nothing is
started for the request any more.
-/

namespace GfDit

open History Agenda

-- ---------------------------------------------------------------------------
-- What a failure meets
-- ---------------------------------------------------------------------------

def SchedulerEntry.fails? : SchedulerEntry → Option String
  | .failed requestId => some requestId
  | _ => none

def Dead (requestId : String) (entries : List SchedulerEntry) : Prop :=
  requestId ∈ entries.filterMap SchedulerEntry.fails?

instance (requestId : String) (entries : List SchedulerEntry) : Decidable (Dead requestId entries) :=
  inferInstanceAs (Decidable (requestId ∈ _))

def SchedulerEntry.starts : SchedulerEntry → Option InferenceTask
  | .dispatched task .. | .began task => some task
  | _ => none

/-- Nothing is started for a request that has failed before. -/
def StartsLive (entry : SchedulerEntry) (earlier : List SchedulerEntry) : Prop :=
  ∀ task ∈ entry.starts, ¬ Dead task.requestId earlier

instance (entry : SchedulerEntry) (earlier : List SchedulerEntry) :
    Decidable (StartsLive entry earlier) :=
  inferInstanceAs (Decidable (∀ task ∈ entry.starts, _))

/-- `_dispatch_tasks` has come to the task: it is dispatched, parked or started
as a RESHARD. -/
def SchedulerEntry.takes (task : InferenceTask) : SchedulerEntry → Bool
  | .dispatched other .. | .resharded other | .parked other .. => other = task
  | _ => false

def isTaken (entries : List SchedulerEntry) (task : InferenceTask) : Bool :=
  entries.any (SchedulerEntry.takes task)

def SchedulerEntry.reportedTasks : SchedulerEntry → List InferenceTask
  | .asked question .. => question.reported
  | _ => []

/-- When a request fails, its tasks that were reported are taken up. -/
def FailsTakenUp (entry : SchedulerEntry) (earlier : List SchedulerEntry) : Prop :=
  ∀ requestId ∈ entry.fails?, ∀ task ∈ earlier.flatMap SchedulerEntry.reportedTasks,
    task.requestId = requestId → isTaken earlier task = true

instance (entry : SchedulerEntry) (earlier : List SchedulerEntry) :
    Decidable (FailsTakenUp entry earlier) :=
  inferInstanceAs (Decidable (∀ requestId ∈ entry.fails?, _))

/-- A request that fails has been accepted. -/
def FailsKnown (entry : SchedulerEntry) (earlier : List SchedulerEntry) : Prop :=
  ∀ requestId ∈ entry.fails?, ∃ plan, .accepted plan ∈ earlier ∧ plan.requestId = requestId

theorem mem_reportedTasks : 0 < reported entries task ↔
    task ∈ entries.flatMap SchedulerEntry.reportedTasks := by
  unfold reported
  rw [total_pos, List.mem_flatMap]
  refine exists_congr fun entry => and_congr_right fun _ => ?_
  cases entry with
  | asked => exact List.count_pos_iff
  | _ => simp [SchedulerEntry.reports, SchedulerEntry.reportedTasks]

theorem isTaken_cons (entry : SchedulerEntry) (earlier : List SchedulerEntry)
    (task : InferenceTask) :
    isTaken (entry :: earlier) task = (entry.takes task || isTaken earlier task) := rfl

theorem isTaken_mono (h : isTaken earlier task = true) (hs : earlier <:+ entries) :
    isTaken entries task = true := by
  obtain ⟨entry, hm, ht⟩ := List.any_eq_true.mp h
  exact List.any_eq_true.mpr ⟨entry, hs.subset hm, ht⟩

theorem dead_cons (entry : SchedulerEntry) (earlier : List SchedulerEntry) :
    Dead requestId (entry :: earlier) ↔ entry.fails? = some requestId ∨ Dead requestId earlier := by
  unfold Dead
  rw [List.filterMap_cons]
  cases entry.fails? with
  | none => simp
  | some other => simp [eq_comm]

def SchedulerEntry.bland : SchedulerEntry → Bool
  | .accepted _ | .indexed _ | .received _ | .produced _ | .launched _ | .migrated .. | .cleaned _ =>
    true
  | _ => false

def Duty.begins? : Duty → Option InferenceTask
  | .input t _ | .held t .. | .start t => some t
  | _ => none

def Duty.waits? : Duty → Option InferenceTask
  | .retired m | .freed m => some m.waiter.task
  | _ => none

/-- The clean-up of the request comes before any migration of it is begun. -/
def Covered (requestId : String) : List Duty → Prop
  | [] => False
  | duty :: d => duty = .clean requestId ∨
      (∀ task ∈ duty.begins?, task.requestId ≠ requestId) ∧ Covered requestId d

theorem Covered.append {ds : List Duty} (h : Covered requestId d)
    (hb : ∀ duty ∈ ds, ∀ task ∈ duty.begins?, task.requestId ≠ requestId) :
    Covered requestId (ds ++ d) := by
  induction ds with
  | nil => exact h
  | cons duty ds ih =>
    obtain ⟨hhead, htail⟩ := List.forall_mem_cons.mp hb
    exact .inr ⟨hhead, ih htail⟩

theorem idle_duties (event : WorkerEvent) :
    ∀ duty ∈ event.duties, duty.begins? = none ∧ duty.waits? = none := by
  unfold WorkerEvent.duties
  cases event.kind <;> simp [Duty.begins?, Duty.waits?]

namespace Scheduler

variable {σ : Type} {rt : Runtime σ} {load : Workload} {s s' : Scheduler σ}

/-- Every request in `failed_requests` has been cleaned up. -/
def Tidy (s : Scheduler σ) : Prop :=
  ∀ requestId, s.failedRequests.contains requestId = true → requestId ∈ s.cleanedRequests

/-- A failed request that is not cleaned up is about to be. -/
def Barred (d : List Duty) (s : Scheduler σ) : Prop :=
  ∀ requestId, Dead requestId s.log → requestId ∉ s.cleanedRequests → Covered requestId d

/-- A migration of the task is in flight or has just ended. -/
def Waits (d : List Duty) (s : Scheduler σ) (task : InferenceTask) : Prop :=
  (∃ m ∈ s.migrations, m.waiter.task = task) ∨ ∃ duty ∈ d, duty.waits? = some task

structure Still (d : List Duty) (s : Scheduler σ) : Prop where
  marked : ∀ requestId, Dead requestId s.log →
    requestId ∈ s.cleanedRequests ∨ s.failedRequests.contains requestId = true
  known : Each FailsKnown s.log
  taken : ∀ task, Dead task.requestId s.log → 0 < reported s.log task →
    isTaken s.log task = true
  owed : ∀ task, isTaken s.log task = true →
    d.countP (Duty.owes task) + 1 ≤ returned s.log task
  begins : ∀ duty ∈ d, ∀ task ∈ duty.begins?, isTaken s.log task = true
  waiters : ∀ task, Waits d s task → isTaken s.log task = true ∧
    (task.requestId ∈ s.cleanedRequests → s.parkedPending.get? task.taskId = none)
  history : Each StartsLive s.log

namespace Still

theorem init (w : World σ) : Still [] (.init w : Scheduler σ) where
  marked := fun _ h => absurd h List.not_mem_nil
  known := trivial
  taken := fun _ h => absurd h List.not_mem_nil
  owed := fun _ h => by cases h
  begins := fun _ h => absurd h List.not_mem_nil
  waiters := fun _ h => by
    rcases h with ⟨_, h, -⟩ | ⟨_, h, -⟩
    · exact absurd h List.not_mem_nil
    · exact absurd h List.not_mem_nil
  history := trivial

-- Duties come and go.

theorem pop (h : Still (duty :: d) s) : Still d s := by
  refine { h with
    owed := fun task ht => le_trans ?_ (h.owed task ht)
    begins := fun other hm => h.begins other (List.mem_cons_of_mem _ hm)
    waiters := fun task hw => h.waiters task ?_ }
  · rw [List.countP_cons]
    omega
  · rcases hw with hw | ⟨other, hm, hw⟩
    · exact .inl hw
    · exact .inr ⟨other, List.mem_cons_of_mem _ hm, hw⟩

theorem push (h : Still d s) (ho : ∀ task, duty.owes task = false)
    (hb : ∀ task ∈ duty.begins?, isTaken s.log task = true)
    (hw : ∀ task ∈ duty.waits?, Waits d s task) : Still (duty :: d) s := by
  refine { h with
    owed := fun task ht => le_trans (le_of_eq ?_) (h.owed task ht)
    begins := List.forall_mem_cons.mpr ⟨hb, h.begins⟩
    waiters := fun task hwait => h.waiters task ?_ }
  · simp [ho]
  · rcases hwait with hwait | ⟨other, hm, hwait⟩
    · exact .inl hwait
    · rcases List.mem_cons.mp hm with rfl | hm
      · exact hw task hwait
      · exact .inr ⟨other, hm, hwait⟩

theorem pushIdle (h : Still d s) (ho : ∀ task, duty.owes task = false)
    (hb : duty.begins? = none) (hw : duty.waits? = none) : Still (duty :: d) s :=
  h.push ho (fun _ ht => by rw [hb] at ht; cases ht) fun _ ht => by rw [hw] at ht; cases ht

theorem pushAll {ds : List Duty} (h : Still d s) (ho : ∀ duty ∈ ds, ∀ task, duty.owes task = false)
    (hb : ∀ duty ∈ ds, ∀ task ∈ duty.begins?, isTaken s.log task = true)
    (hw : ∀ duty ∈ ds, duty.waits? = none) : Still (ds ++ d) s := by
  induction ds with
  | nil => exact h
  | cons duty ds ih =>
    obtain ⟨ho, hos⟩ := List.forall_mem_cons.mp ho
    obtain ⟨hb, hbs⟩ := List.forall_mem_cons.mp hb
    obtain ⟨hw, hws⟩ := List.forall_mem_cons.mp hw
    refine (ih hos hbs hws).push ho hb fun _ ht => ?_
    rw [hw] at ht
    cases ht

theorem swap (h : Still (duty :: d) s) (ho : ∀ task, other.owes task = false)
    (hb : ∀ task ∈ other.begins?, task ∈ duty.begins?)
    (hw : ∀ task ∈ other.waits?, task ∈ duty.waits?) : Still (other :: d) s := by
  refine { h.pop with
    owed := fun task ht => le_trans (le_of_eq ?_) (h.pop.owed task ht)
    begins := List.forall_mem_cons.mpr ⟨fun task ht => ?_, h.pop.begins⟩
    waiters := fun task hwait => h.waiters task (hwait.imp_right ?_) }
  · simp [ho]
  · exact h.begins duty (List.mem_cons_self ..) task (hb task ht)
  · rintro ⟨found, hm, hfound⟩
    rcases List.mem_cons.mp hm with rfl | hm
    · exact ⟨duty, List.mem_cons_self .., hw task hfound⟩
    · exact ⟨found, List.mem_cons_of_mem _ hm, hfound⟩

theorem drop (h : Still d s) : Still [] s := by
  induction d with
  | nil => exact h
  | cons duty d ih => exact ih h.pop

-- What the state says of a duty on top.

/-- A task that is owed is not taken up yet. -/
theorem not_taken (hr : Reports s) (honce : OncePerReport s.log) (h : Still (.task task :: d) s) :
    isTaken s.log task = false := by
  by_contra hne
  have hle := h.owed task (by simpa using hne)
  have hreport := (OncePerReport.le honce task).trans (hr.once task)
  simp only [List.countP_cons, Duty.owes, decide_true, if_true] at hle
  omega

/-- A task that is owed is of a live request. -/
theorem not_dead (hr : Reports s) (honce : OncePerReport s.log) (hbal : Balanced (.task task :: d) s)
    (h : Still (.task task :: d) s) : ¬ Dead task.requestId s.log := by
  intro hdead
  have hle := hbal.taken task (hbal.head task rfl)
  have hreport := OncePerReport.le honce task
  have howed : (Duty.task task :: d).countP (Duty.owes task) = d.countP (Duty.owes task) + 1 := by
    simp [Duty.owes]
  unfold Scheduler.taken at hle
  have htaken := h.taken task hdead (by omega)
  rw [not_taken hr honce h] at htaken
  cases htaken

-- Entries that start nothing.

theorem bland_quiet {entry : SchedulerEntry} (h : entry.bland = true) : entry.asks = false := by
  cases entry with
  | asked => cases h
  | _ => rfl

theorem bland_fails {entry : SchedulerEntry} (h : entry.bland = true) : entry.fails? = none := by
  cases entry with
  | failed => cases h
  | _ => rfl

theorem bland_starts {entry : SchedulerEntry} (h : entry.bland = true) : entry.starts = none := by
  cases entry with
  | dispatched | began => cases h
  | _ => rfl

theorem bland_takes {entry : SchedulerEntry} (h : entry.bland = true) (task : InferenceTask) :
    entry.takes task = false := by
  cases entry with
  | dispatched | resharded | parked => cases h
  | _ => rfl

theorem isTaken_quiet {entry : SchedulerEntry} (h : ∀ task, entry.takes task = false)
    (earlier : List SchedulerEntry) (task : InferenceTask) :
    isTaken (entry :: earlier) task = isTaken earlier task := by
  rw [isTaken_cons, h, Bool.false_or]

theorem of_entry (h : Still d s) (entry : SchedulerEntry) (hlog : s'.log = entry :: s.log)
    (ha : entry.asks = false) (hf : entry.fails? = none)
    (htakes : ∀ task, entry.takes task = true →
      d.countP (Duty.owes task) + 1 ≤ returned s.log task)
    (hlive : StartsLive entry s.log) (hc : s'.cleanedRequests = s.cleanedRequests)
    (hfail : s'.failedRequests = s.failedRequests) (hm : s'.migrations = s.migrations)
    (hp : ∀ task, Waits d s task → task.requestId ∈ s.cleanedRequests →
      s.parkedPending.get? task.taskId = none → s'.parkedPending.get? task.taskId = none) :
    Still d s' := by
  have hq : Quiet s s' := .entry hlog ha
  have hdead : ∀ requestId, Dead requestId s'.log → Dead requestId s.log := by
    intro requestId hd
    rw [hlog, dead_cons, hf] at hd
    exact hd.resolve_left nofun
  have hmono : ∀ task, isTaken s.log task = true → isTaken s'.log task = true :=
    fun task htk => isTaken_mono htk hq.suffix
  constructor
  · intro requestId hd
    rw [hc, hfail]
    exact h.marked requestId (hdead _ hd)
  · rw [hlog]
    exact ⟨fun _ he => (by rw [hf] at he; cases he), h.known⟩
  · intro task hd hpos
    rw [hq.reported] at hpos
    exact hmono task (h.taken task (hdead _ hd) hpos)
  · intro task htk
    rw [hq.returned]
    rw [hlog, isTaken_cons, Bool.or_eq_true] at htk
    exact htk.elim (htakes task) (h.owed task)
  · intro duty hd task hb
    exact hmono task (h.begins duty hd task hb)
  · intro task hw
    have hw' : Waits d s task := hw.imp_left fun ⟨m, hmem, hw⟩ => ⟨m, hm ▸ hmem, hw⟩
    obtain ⟨htk, hnone⟩ := h.waiters task hw'
    rw [hc]
    exact ⟨hmono task htk, fun hcl => hp task hw' hcl (hnone hcl)⟩
  · rw [hlog]
    exact ⟨hlive, h.history⟩

theorem of_bland (h : Still d s) (entry : SchedulerEntry) (hlog : s'.log = entry :: s.log)
    (he : entry.bland = true) (hc : s'.cleanedRequests = s.cleanedRequests)
    (hfail : s'.failedRequests = s.failedRequests) (hm : s'.migrations = s.migrations)
    (hp : s'.parkedPending = s.parkedPending) : Still d s' :=
  h.of_entry entry hlog (bland_quiet he) (bland_fails he)
    (fun task ht => by rw [bland_takes he] at ht; cases ht)
    (fun _ ht => by rw [bland_starts he] at ht; cases ht) hc hfail hm fun _ _ _ hnone => hp ▸ hnone

theorem of_eq (h : Still d s) (hlog : s'.log = s.log) (hc : s'.cleanedRequests = s.cleanedRequests)
    (hfail : s'.failedRequests = s.failedRequests) (hm : ∀ m ∈ s'.migrations, m ∈ s.migrations)
    (hp : ∀ taskId, s.parkedPending.get? taskId = none → s'.parkedPending.get? taskId = none) :
    Still d s' := by
  refine ⟨?_, ?_, ?_, ?_, ?_, fun task hw => ?_, ?_⟩
  · rw [hlog, hc, hfail]
    exact h.marked
  · rw [hlog]
    exact h.known
  · rw [hlog]
    exact h.taken
  · rw [hlog]
    exact h.owed
  · rw [hlog]
    exact h.begins
  · have hw' : Waits d s task := hw.imp_left fun ⟨m, hmem, hw⟩ => ⟨m, hm m hmem, hw⟩
    rw [hlog, hc]
    exact ⟨(h.waiters task hw').1, fun hcl => hp _ ((h.waiters task hw').2 hcl)⟩
  · rw [hlog]
    exact h.history

theorem same (h : Still d s) (hlog : s'.log = s.log) (hc : s'.cleanedRequests = s.cleanedRequests)
    (hfail : s'.failedRequests = s.failedRequests) (hm : s'.migrations = s.migrations)
    (hp : s'.parkedPending = s.parkedPending) : Still d s' :=
  h.of_eq hlog hc hfail (fun _ hmem => hm ▸ hmem) fun _ hnone => hp ▸ hnone

theorem unpark (h : Still d s) (task : InferenceTask) : Still d (s.unpark task) := by
  refine h.of_eq rfl rfl rfl (fun _ hm => hm) fun taskId hnone => ?_
  simp only [Scheduler.unpark, Dict.get?_erase]
  split
  · rfl
  · exact hnone

theorem Waits.indexed (hbal : Balanced d s) (h : Waits d s task) : .indexed task ∈ s.log := by
  rcases h with ⟨m, hm, rfl⟩ | ⟨duty, hm, hw⟩
  · exact hbal.migrations m hm
  · refine hbal.duties duty hm task ?_
    cases duty with
    | retired | freed => exact hw
    | _ => cases hw

theorem cleanup (hb : Base load s) (hbal : Balanced d s) (h : Still d s) (requestId : String) :
    Still d (s.cleanupRequestWorkerState requestId) := by
  unfold cleanupRequestWorkerState
  split
  · exact h
  · rename_i hnc
    have hq : Quiet s (s.enter (.cleaned requestId)) := .entry rfl rfl
    have hdead : ∀ r, Dead r (.cleaned requestId :: s.log) ↔ Dead r s.log := by
      intro r
      simp [dead_cons, SchedulerEntry.fails?]
    have htaken : ∀ task, isTaken (.cleaned requestId :: s.log) task = isTaken s.log task :=
      isTaken_quiet (fun _ => rfl) s.log
    constructor
    · intro r hd
      exact (h.marked r ((hdead r).mp hd)).imp_left (List.mem_cons_of_mem _)
    · exact ⟨fun _ he => (by cases he), h.known⟩
    · intro task hd hpos
      rw [htaken]
      exact h.taken task ((hdead _).mp hd) (hq.reported task ▸ hpos)
    · intro task htk
      rw [htaken] at htk
      exact (h.owed task htk).trans (le_of_eq (hq.returned task).symm)
    · intro duty hd task hbegin
      rw [htaken]
      exact h.begins duty hd task hbegin
    · intro task hw
      obtain ⟨htk, hnone⟩ := h.waiters task hw
      rw [htaken]
      refine ⟨htk, fun hcl => ?_⟩
      simp only [Dict.get?_eraseAll]
      split
      · rfl
      · rename_i hnm
        rcases List.mem_cons.mp hcl with heq | hcl
        · exact absurd ((hb.mem_plannedTasks (Waits.indexed hbal hw) hnc).mpr heq) hnm
        · exact hnone hcl
    · exact ⟨fun _ he => (by cases he), h.history⟩

/-- A request fails all of whose reported tasks are taken up. -/
theorem failRequest (h : Still d s) (message : String)
    (hknown : ∃ plan, .accepted plan ∈ s.log ∧ plan.requestId = requestId)
    (htaken : Each FailsTakenUp (s.failRequest requestId message).log) :
    Still d (s.failRequest requestId message) := by
  unfold Scheduler.failRequest at htaken ⊢
  split
  · exact h
  · rename_i hnot
    rw [if_neg hnot] at htaken
    have hq : Quiet s (s.enter (.failed requestId)) := .entry rfl rfl
    have hsame : ∀ task, isTaken (.failed requestId :: s.log) task = isTaken s.log task :=
      isTaken_quiet (fun _ => rfl) s.log
    constructor
    · intro r hd
      rcases (dead_cons _ _).mp hd with heq | hd
      · cases heq
        exact .inr (by simp [Dict.contains])
      · refine (h.marked r hd).imp_right fun hc => ?_
        simp only [Dict.contains, Dict.get?_set]
        split
        · rfl
        · exact hc
    · refine ⟨fun r he => ?_, h.known⟩
      cases he
      exact hknown
    · intro task hd hpos
      rw [hsame]
      have hpos : 0 < reported s.log task := hq.reported task ▸ hpos
      rcases (dead_cons _ _).mp hd with heq | hd
      · exact htaken.1 requestId rfl task (mem_reportedTasks.mp hpos) (Option.some.inj heq).symm
      · exact h.taken task hd hpos
    · intro task htk
      rw [hsame] at htk
      exact (h.owed task htk).trans (le_of_eq (hq.returned task).symm)
    · intro duty hm task hbegin
      rw [hsame]
      exact h.begins duty hm task hbegin
    · intro task hw
      rw [hsame]
      exact h.waiters task hw
    · exact ⟨fun _ he => (by cases he), h.history⟩

-- Tasks are taken up.

theorem takeDuty (hr : Reports s) (honce : OncePerReport s.log)
    (hbal : Balanced (.task task :: d) s) (h : Still (.task task :: d) s) (entry : SchedulerEntry)
    (hlog : s'.log = entry :: s.log) (ha : entry.asks = false) (hf : entry.fails? = none)
    (ht : ∀ other, entry.takes other = true → other = task)
    (hs : ∀ other ∈ entry.starts, other = task)
    (hc : s'.cleanedRequests = s.cleanedRequests) (hfail : s'.failedRequests = s.failedRequests)
    (hm : s'.migrations = s.migrations)
    (hp : ∀ other, Waits d s other → other.requestId ∈ s.cleanedRequests →
      s.parkedPending.get? other.taskId = none → s'.parkedPending.get? other.taskId = none) :
    Still d s' := by
  refine h.pop.of_entry entry hlog ha hf (fun other htk => ?_) (fun other ho => ?_) hc hfail hm hp
  · have hle := hbal.taken task (hbal.head task rfl)
    have howed : (Duty.task task :: d).countP (Duty.owes task) = d.countP (Duty.owes task) + 1 := by
      simp [Duty.owes]
    rw [ht other htk]
    unfold Scheduler.taken at hle
    omega
  · rw [hs other ho]
    exact h.not_dead hr honce hbal

theorem park (hb : Base load s) (hr : Reports s) (honce : OncePerReport s.log)
    (hbal : Balanced (.task task :: d) s) (h : Still (.task task :: d) s) (groupId : String)
    (cross : List ArtifactHandle) : Still (cross.map (.input task) ++ d) (s.park task groupId cross) := by
  have hstill : Still d (s.park task groupId cross) := by
    refine takeDuty hr honce hbal h (.parked task groupId cross) rfl rfl rfl ?_ (by simp [SchedulerEntry.starts]) rfl
      rfl rfl fun other hw _ hnone => ?_
    · intro other ht
      exact (by simpa [SchedulerEntry.takes] using ht : task = other).symm
    · -- a task with a migration in flight was taken up before
      have hne : task ≠ other := by
        rintro rfl
        have := (h.pop.waiters task hw).1
        rw [h.not_taken hr honce] at this
        cases this
      have hin : .indexed other ∈ s.log := Waits.indexed hbal.pop hw
      simpa [Scheduler.park, Dict.get?_set_ne _ (hb.id_ne (hbal.head task rfl) hin hne)] using hnone
  refine hstill.pushAll (fun duty hd _ => ?_) (fun duty hd t ht => ?_) fun duty hd => ?_
  · obtain ⟨artifact, -, rfl⟩ := List.mem_map.mp hd
    rfl
  · obtain ⟨artifact, -, rfl⟩ := List.mem_map.mp hd
    cases ht
    simp [Scheduler.park, isTaken_cons, SchedulerEntry.takes]
  · obtain ⟨artifact, -, rfl⟩ := List.mem_map.mp hd
    rfl

theorem land (h : Still d s) (hp : s.parkedPending.get? task.taskId = some n)
    (artifact : ArtifactHandle) (groupId : String) (rank : Rank) (left : Nat) :
    Still d (s.land task artifact groupId rank left) := by
  refine h.of_entry (.migrated _ _ _) rfl rfl rfl (fun _ ht => by cases ht)
    (fun _ ht => by cases ht) rfl rfl rfl fun other _ _ hnone => ?_
  have hne : task.taskId ≠ other.taskId := by
    intro heq
    rw [heq, hnone] at hp
    cases hp
  simp only [Scheduler.land]
  split
  · rw [Dict.get?_erase_ne _ hne]
    exact hnone
  · rw [Dict.get?_set_ne _ hne]
    exact hnone

theorem countMigration (h : Still d s) (hlive : ¬ Dead task.requestId s.log) :
    Still d (s.countMigration task) := by
  refine h.of_entry (.began task) rfl rfl rfl (fun _ ht => by cases ht) ?_ rfl rfl rfl
    fun _ _ _ hnone => hnone
  rintro _ ⟨⟩
  exact hlive

theorem addMigration (h : Still d s) (m : Migration) (htaken : isTaken s.log m.waiter.task = true)
    (hc : m.waiter.task.requestId ∉ s.cleanedRequests) : Still d (s.addMigration m) := by
  refine { h with waiters := fun task hw => ?_ }
  rcases hw with ⟨m', hm, rfl⟩ | hw
  · rcases List.mem_append.mp hm with hm | hm
    · exact h.waiters _ (.inl ⟨m', hm, rfl⟩)
    · rw [List.mem_singleton.mp hm]
      exact ⟨htaken, fun hcl => absurd hcl hc⟩
  · exact h.waiters task (.inr hw)

-- The policy is asked.

theorem asked (h : Still d s) (question : Ask)
    (hlive : ∀ task ∈ question.reported, ¬ Dead task.requestId s.log) (out : List InferenceTask)
    (w : World σ) : Still (out.map .task ++ d) (s.asked question out w) := by
  have hdead : ∀ requestId, Dead requestId (s.asked question out w).log → Dead requestId s.log :=
    fun requestId hd => ((dead_cons _ _).mp hd).resolve_left nofun
  have htaken : ∀ task, isTaken (s.asked question out w).log task = isTaken s.log task :=
    isTaken_quiet (fun _ => rfl) s.log
  have hidle : ∀ duty ∈ out.map Duty.task, duty.begins? = none ∧ duty.waits? = none := by
    intro duty hm
    obtain ⟨task, -, rfl⟩ := List.mem_map.mp hm
    exact ⟨rfl, rfl⟩
  constructor
  · exact fun requestId hd => h.marked requestId (hdead _ hd)
  · exact ⟨fun _ he => (by cases he), h.known⟩
  · intro task hd hpos
    rw [reported_asked] at hpos
    rw [htaken]
    refine h.taken task (hdead _ hd) ?_
    rwa [List.count_eq_zero_of_not_mem fun hm => hlive task hm (hdead _ hd), Nat.zero_add] at hpos
  · intro task htk
    rw [htaken] at htk
    rw [returned_asked, List.countP_append, countP_owes_map, Nat.add_assoc]
    exact Nat.add_le_add_left (h.owed task htk) _
  · intro duty hm task hb
    rw [htaken]
    rcases List.mem_append.mp hm with hm | hm
    · rw [(hidle duty hm).1] at hb
      cases hb
    · exact h.begins duty hm task hb
  · intro task hw
    rw [htaken]
    refine h.waiters task (hw.imp_right fun ⟨duty, hm, hw⟩ => ⟨duty, ?_, hw⟩)
    refine (List.mem_append.mp hm).resolve_left fun hm => ?_
    rw [(hidle duty hm).2] at hw
    cases hw
  · exact ⟨fun _ he => (by cases he), h.history⟩

theorem not_dead_of_taking (hk : Each FailsKnown entries) (ht : Taking plan entries) :
    ¬ Dead plan.requestId entries := by
  induction ht with
  | accepted hfresh =>
    intro hd
    have hd := ((dead_cons _ _).mp hd).resolve_left nofun
    obtain ⟨entry, hm, hf⟩ := List.mem_filterMap.mp hd
    obtain ⟨later, earlier, hsplit⟩ := List.append_of_mem hm
    obtain ⟨other, hacc, hid⟩ := hk.2.at hsplit plan.requestId hf
    refine hfresh other ?_ hid
    rw [hsplit]
    exact List.mem_append_right _ (List.mem_cons_of_mem _ hacc)
  | indexed _ ih => exact fun hd => ih hk.2 (((dead_cons _ _).mp hd).resolve_left nofun)

/-- The tasks reported are of live requests. -/
theorem reports_live (hclosed : load.Closed) (hb : Base load s) (hl : Linked s)
    (hbal : Balanced d s) (h : Still d s) (ho : Occasion d s question d' s') :
    ∀ task ∈ question.reported, ¬ Dead task.requestId s.log := by
  intro task ht hd
  cases ho with
  | submitted htaking =>
    have hin := (List.mem_filter.mp ht).1
    rw [hb.accepted _ htaking.accepted_mem] at hin
    rw [(load.owned _ task hin).1] at hd
    exact not_dead_of_taking h.known htaking hd
  | runnable hn =>
    rename_i launched event newly
    obtain ⟨hlive, hdep⟩ := newlyRunnable_depends hb hl hn ht
    obtain ⟨hin, -, hnc⟩ := (hb.index _ _).mp ((newlyRunnable_ok hb hn).2 task ht).1
    have hlaunched := hbal.head launched rfl
    rw [← hclosed.request_eq (hb.indexed task hin).1 (hb.indexed launched hlaunched).1 hdep] at hd hnc
    rcases h.marked _ hd with hcl | hf
    · exact hnc hcl
    · rw [hlive] at hf
      cases hf
  | launchEnd | ended | failed | finished | emitted | requested | acquire | refused | freed =>
    cases ht

/-- A request for which a migration may be begun is live. -/
theorem not_dead_of_begins (hb : Base load s) (hbar : Barred (duty :: d) s)
    (hbegin : duty.begins? = some task) (hp : s.plans.contains task.requestId = true) :
    ¬ Dead task.requestId s.log ∧ task.requestId ∉ s.cleanedRequests := by
  obtain ⟨plan, hplan⟩ := Option.isSome_iff_exists.mp hp
  have hnc := ((hb.plans _ _).mp hplan).2.2
  refine ⟨fun hd => ?_, hnc⟩
  rcases hbar _ hd hnc with rfl | ⟨hne, -⟩
  · cases hbegin
  · exact hne task hbegin rfl

theorem markFailed (hb : Base load s) (h : Still d s) (ht : s.taskIndex.get? taskId = some task)
    (message : String) (htaken : Each FailsTakenUp (s.markFailed task message).log) :
    Still d (s.markFailed task message) := by
  have hin := ((hb.index _ _).mp ht).1
  refine Still.failRequest ?_ _ ⟨_, (hb.indexed task hin).2, load.named _⟩ htaken
  exact h.same rfl rfl rfl rfl rfl

theorem occasion (hb : Base load s) (hbar : Barred d s) (h : Still d s)
    (ho : Occasion d s question d' s') (htaken : Each FailsTakenUp s'.log) : Still d' s' := by
  cases ho with
  | submitted | launchEnd | emitted => exact h
  | runnable => exact h.pop.of_bland (.launched _) rfl rfl rfl rfl rfl rfl
  | ended => exact (h.pop.pushIdle (fun _ => rfl) rfl rfl).same rfl rfl rfl rfl rfl
  | failed _ ht => exact (h.pop.pushIdle (fun _ => rfl) rfl rfl).markFailed hb ht _ htaken
  | finished | requested => exact h.pop
  | acquire | freed => exact h.swap (fun _ => rfl) (fun _ ht => ht) fun _ hw => hw
  | refused hp =>
    exact (h.pop.pushIdle (fun _ => rfl) rfl rfl).countMigration
      (not_dead_of_begins hb hbar rfl hp).1

theorem askOn (hclosed : load.Closed) (hb : Base load s) (hl : Linked s) (hbal : Balanced d s)
    (hbar : Barred d s) (h : Still d s) (ho : Occasion d s question d' s')
    {out : List InferenceTask} {w : World σ}
    (htaken : Each FailsTakenUp (s'.asked question out w).log) :
    Still (out.map .task ++ d') (s'.asked question out w) := by
  refine (h.occasion hb hbar ho htaken.2).asked question (fun task ht hd => ?_) out w
  refine reports_live hclosed hb hl hbal h ho task ht ?_
  cases ho with
  | submitted => exact hd
  | runnable => exact ((dead_cons _ _).mp hd).resolve_left nofun
  | _ => cases ht

-- Tasks are started.

theorem finalized (hr : Reports s) (honce : OncePerReport s.log)
    (hbal : Balanced (.task task :: d) s) (h : Still (.task task :: d) s)
    (groupId : Option String) : Still (.send task groupId :: d) (s.finalize task) := by
  refine Still.pushIdle ?_ (fun _ => rfl) rfl rfl
  exact h.takeDuty hr honce hbal (.dispatched _ _ _ _) rfl rfl rfl
    (fun other ht => (of_decide_eq_true ht).symm) (fun other ht => (Option.some.inj ht).symm)
    rfl rfl rfl fun _ _ _ hnone => hnone

theorem resharded (hr : Reports s) (honce : OncePerReport s.log)
    (hbal : Balanced (.task task :: d) s) (h : Still (.task task :: d) s) :
    Still (.start task :: d) (s.consumeReshard task) := by
  refine Still.push ?_ (fun _ => rfl) (fun other ht => ?_) fun _ hw => by cases hw
  · exact h.takeDuty hr honce hbal (.resharded _) rfl rfl rfl
      (fun other ht => (of_decide_eq_true ht).symm) (fun other ht => by cases ht)
      rfl rfl rfl fun _ _ _ hnone => hnone
  · cases ht
    simp [consumeReshard, isTaken_cons, SchedulerEntry.takes]

/-- A migration is begun for the task of a duty. -/
theorem begun (hb : Base load s) (hbar : Barred (duty :: d) s) (h : Still (duty :: d) s)
    (hbegin : duty.begins? = some task) (hp : s.plans.contains task.requestId = true)
    (m : Migration) (hm : m.waiter.task = task) :
    Still d ((s.countMigration task).addMigration m) := by
  obtain ⟨hlive, hnc⟩ := not_dead_of_begins hb hbar hbegin hp
  subst hm
  refine (h.pop.countMigration hlive).addMigration _ ?_ hnc
  exact isTaken_mono (h.begins _ (List.mem_cons_self ..) _ hbegin) (List.suffix_cons ..)

/-- The last input of a parked task of a live request has arrived. -/
theorem landedLast {m : Migration} {groupId : String} {ranks : List Rank}
    (h : Still (.freed m :: d) s) (hw : m.waiter = .input task artifact groupId ranks)
    (hp : s.parkedPending.get? task.taskId = some n)
    (hlive : s.failedRequests.contains task.requestId = false) (rank : Rank)
    (target : Option String) :
    Still (.send task target :: d) ((s.land task artifact groupId rank 0).finalize task) := by
  have hland := h.pop.land hp artifact groupId rank 0
  obtain ⟨htk, hnone⟩ := h.waiters task
    (.inr ⟨_, List.mem_cons_self .., by simp [Duty.waits?, hw, Waiter.task]⟩)
  refine Still.pushIdle ?_ (fun _ => rfl) rfl rfl
  refine hland.of_entry (.dispatched _ _ _ _) rfl rfl rfl (fun other ht => ?_) ?_ rfl rfl rfl
    fun _ _ _ hnone => hnone
  · rw [← of_decide_eq_true ht]
    exact hland.owed task (isTaken_mono htk (List.suffix_cons ..))
  · rintro _ ⟨⟩ hd
    have hd := ((dead_cons _ _).mp hd).resolve_left fun he => by cases he
    rcases h.marked _ hd with hcl | hf
    · rw [hnone hcl] at hp
      cases hp
    · rw [hlive] at hf
      cases hf

-- Events come in, and requests end.

theorem received (h : Still d s) (event : WorkerEvent) :
    Still (event.duties ++ d) (s.receive event) := by
  refine Still.of_bland (Still.pushAll h ?_ ?_ ?_) (.received event) rfl rfl rfl rfl rfl rfl
  · exact fun duty hd => (Balanced.about_duties event duty hd).2
  · intro duty hd task ht
    rw [(idle_duties event duty hd).1] at ht
    cases ht
  · exact fun duty hd => (idle_duties event duty hd).2

theorem retired {m : Migration} (h : Still d s) (hin : m ∈ s.migrations) :
    Still (.retired m :: d) (s.retire m.migrateId) := by
  refine Still.of_eq (s := s) ?_ rfl rfl rfl (fun _ hmem => List.mem_of_mem_filter hmem)
    fun _ hnone => hnone
  refine h.push (fun _ => rfl) (fun _ ht => by cases ht) fun task hw => ?_
  exact .inl ⟨_, hin, Option.some.inj hw⟩

theorem completeOutput (hb : Base load s) (hbal : Balanced d s) (h : Still d s)
    (requestId : String) (value : HostValue) : Still d (s.completeOutput requestId value) := by
  refine @Still.cleanup _ load _ _ ?_ ?_ ?_ _
  · exact hb.of_eq rfl rfl rfl rfl rfl rfl
  · exact hbal.of_eq rfl rfl rfl
  · exact h.same rfl rfl rfl rfl rfl

theorem notFetched (hb : Base load s) (hbal : Balanced d s) (h : Still d s)
    (hfetch : s.pendingOutputFetches.contains requestId = true) (message : String)
    (htaken : Each FailsTakenUp (({ s with
      pendingOutputFetches :=
        s.pendingOutputFetches.erase requestId }).failRequestFromFetchError requestId
          message).log) :
    Still d (({ s with
      pendingOutputFetches :=
        s.pendingOutputFetches.erase requestId }).failRequestFromFetchError requestId message) := by
  obtain ⟨plan, hplan⟩ := Option.isSome_iff_exists.mp (hb.fetches requestId hfetch)
  obtain ⟨hacc, hname, -⟩ := (hb.plans _ _).mp hplan
  refine @Still.cleanup _ load _ _ (Base.failRequest ?_ _ _) (Balanced.failRequest ?_ _ _)
    (Still.failRequest ?_ _ ?_ ?_) _
  · exact hb.eraseFetch _ rfl rfl rfl rfl rfl rfl
  · exact hbal.of_eq rfl rfl rfl
  · exact h.same rfl rfl rfl rfl rfl
  · exact ⟨plan, hacc, hname⟩
  · exact htaken.of_suffix (Quiet.cleanup ..).suffix

theorem released (hb : Base load s) (hbal : Balanced d s) (h : Still d s) (requestId : String) :
    Still d (s.releaseRequest requestId) := by
  have hclean := h.cleanup hb hbal requestId
  refine { hclean with marked := fun other hd => ?_ }
  by_cases heq : requestId = other
  · exact .inl ((mem_cleanup_cleaned ..).mpr (.inl heq.symm))
  · refine (hclean.marked other hd).imp_right fun hf => ?_
    simpa [releaseRequest, Dict.contains, Dict.get?_erase_ne _ heq] using hf

/-- What a move keeps, apart from what lies ahead of a clean-up. -/
theorem move (hclosed : load.Closed) (hb : Base load s) (hr : Reports s) (hl : Linked s)
    (honce : OncePerReport s.log) (hn : OfTasks d) (hbal : Balanced d s) (hbar : Barred d s)
    (h : Still d s) (htaken : Each FailsTakenUp s'.log) (hm : Move rt load d s d' s') :
    Still d' s' := by
  cases hm with
  -- submission and dispatch
  | asked ho => exact h.askOn hclosed hb hl hbal hbar ho htaken
  | accepted | indexed | produced => exact h.of_bland _ rfl rfl rfl rfl rfl rfl
  | finalized => exact h.finalized hr honce hbal _
  | resharded => exact h.resharded hr honce hbal
  | parked => exact h.park hb hr honce hbal _ _
  | begun hp => exact h.begun hb hbar rfl hp _ rfl
  | started hp =>
    rename_i task _ _
    have hb' : Base load (s.setStatus task .running) := hb.of_eq rfl rfl rfl rfl rfl rfl
    exact Still.begun (s := s.setStatus task .running) hb' hbar (h.same rfl rfl rfl rfl rfl) rfl
      hp _ rfl
  | notStarted hp =>
    refine Still.countMigration ?_ (not_dead_of_begins hb hbar rfl hp).1
    exact (h.pop.pushIdle (fun _ => rfl) rfl rfl).same rfl rfl rfl rfl rfl
  | sent => exact h.pop.same rfl rfl rfl rfl rfl
  -- events
  | received => exact h.received _
  | opened => exact h.pop.pushIdle (fun _ => rfl) rfl rfl
  | checked | notOpened | notFailed | notRequested => exact h.pop
  | failedRequest => exact absurd (List.mem_cons_self ..) (hn _)
  -- migrations
  | refused | abandoned => exact (h.pop.pushIdle (fun _ => rfl) rfl rfl).unpark _
  | retired hin => exact h.retired hin
  | landed _ hp => exact h.pop.land hp _ _ _ _
  | landedLast hw hp _ hlive => exact h.landedLast hw hp hlive _ _
  | reshardDone =>
    exact (h.pop.pushIdle (fun _ => rfl) rfl rfl).pushIdle (fun _ => rfl) rfl rfl
  | reshardFailed => exact h.pop.pushIdle (fun _ => rfl) rfl rfl
  -- outputs, release and time
  | cleaned => exact h.pop.cleanup hb hbal.pop _
  | completed => exact h.completeOutput hb hbal _ _
  | fetched =>
    refine @Still.completeOutput _ load _ _ ?_ ?_ ?_ _ _
    · exact hb.eraseFetch _ rfl rfl rfl rfl rfl rfl
    · exact hbal.of_eq rfl rfl rfl
    · exact h.same rfl rfl rfl rfl rfl
  | notFetched hfetch => exact h.notFetched hb hbal hfetch _ htaken
  | released => exact h.pop.released hb hbal.pop _
  | listed | running | delivered | fetching | clock => exact h.same rfl rfl rfl rfl rfl

theorem stop (hclosed : load.Closed) (hb : Base load s) (hl : Linked s) (hbal : Balanced d s)
    (hbar : Barred d s) (h : Still d s) (htaken : Each FailsTakenUp s'.log)
    (hs : Stop rt d s s') : Still [] s' := by
  cases hs with
  | here => exact h.drop
  | asked ho => exact (h.askOn hclosed hb hl hbal hbar ho htaken).drop
  | lost =>
    rename_i pending task event d e _
    have hlaunch : Still (.count task event :: d) (s.launch task pending) :=
      h.of_bland (.launched task) rfl rfl rfl rfl rfl rfl
    exact hlaunch.drop
  | starved hw hp =>
    rename_i n m d task artifact groupId rank refcounts ranks _
    exact Still.drop (Still.same (h.land hp artifact groupId rank 0) rfl rfl rfl rfl rfl)

theorem begin (h : Still [] s) (step : Step) : Still step.duties s := by
  cases step with
  | release => exact h.pushIdle (fun _ => rfl) rfl rfl
  | _ => exact h

end Still

-- ---------------------------------------------------------------------------
-- Clean-ups that lie ahead
-- ---------------------------------------------------------------------------

theorem dead_cleanup (h : Dead other (s.cleanupRequestWorkerState requestId).log) :
    Dead other s.log := by
  unfold cleanupRequestWorkerState at h
  split at h
  · exact h
  · exact ((dead_cons _ _).mp h).resolve_left fun he => by cases he

theorem dead_failRequest (h : Dead other (s.failRequest requestId message).log) :
    other = requestId ∨ Dead other s.log := by
  unfold Scheduler.failRequest at h
  split at h
  · exact .inr h
  · exact ((dead_cons _ _).mp h).imp_left fun he => (Option.some.inj he).symm

namespace Barred

theorem frame (h : Barred d s)
    (hd : ∀ requestId, Dead requestId s'.log → requestId ∉ s'.cleanedRequests →
      Dead requestId s.log ∧ requestId ∉ s.cleanedRequests) : Barred d s' :=
  fun requestId hdead hnc => h requestId (hd _ hdead hnc).1 (hd _ hdead hnc).2

theorem of_eq (h : Barred d s) (hlog : s'.log = s.log)
    (hc : s'.cleanedRequests = s.cleanedRequests) : Barred d s' :=
  h.frame fun _ hd hnc => ⟨hlog ▸ hd, hc ▸ hnc⟩

theorem of_entry (h : Barred d s) (entry : SchedulerEntry) (hlog : s'.log = entry :: s.log)
    (hf : entry.fails? = none) (hc : s'.cleanedRequests = s.cleanedRequests) : Barred d s' := by
  refine h.frame fun requestId hd hnc => ⟨?_, hc ▸ hnc⟩
  rw [hlog, dead_cons, hf] at hd
  exact hd.resolve_left nofun

theorem cleanup (h : Barred d s) (requestId : String) :
    Barred d (s.cleanupRequestWorkerState requestId) := by
  refine h.frame fun other hd hnc => ?_
  rw [mem_cleanup_cleaned, not_or] at hnc
  exact ⟨dead_cleanup hd, hnc.2⟩

theorem pop (h : Barred (duty :: d) s) (hclean : ∀ requestId, duty ≠ .clean requestId) :
    Barred d s := fun requestId hd hnc => ((h requestId hd hnc).resolve_left (hclean _)).2

theorem append {ds : List Duty} (h : Barred d s)
    (hb : ∀ duty ∈ ds, ∀ task ∈ duty.begins?, ¬ Dead task.requestId s.log) :
    Barred (ds ++ d) s := by
  intro requestId hd hnc
  refine (h requestId hd hnc).append fun duty hm task ht heq => ?_
  rw [← heq] at hd
  exact hb duty hm task ht hd

theorem push (h : Barred d s) (hb : duty.begins? = none) : Barred (duty :: d) s :=
  show Barred ([duty] ++ d) s from h.append (by simp [hb])

theorem swap (h : Barred (duty :: d) s) (hclean : ∀ requestId, duty ≠ .clean requestId)
    (hb : ∀ task ∈ other.begins?, task ∈ duty.begins?) : Barred (other :: d) s := by
  intro requestId hd hnc
  obtain ⟨hne, hrest⟩ := (h requestId hd hnc).resolve_left (hclean _)
  exact .inr ⟨fun task ht => hne task (hb task ht), hrest⟩

theorem asked (h : Barred d s) (question : Ask) (out : List InferenceTask) (w : World σ) :
    Barred (out.map .task ++ d) (s.asked question out w) := by
  refine Barred.append (h.of_entry (.asked _ _ _ _) rfl rfl rfl) fun duty hm task ht => ?_
  obtain ⟨_, -, rfl⟩ := List.mem_map.mp hm
  cases ht

theorem markFailed (h : Barred d s) (task : InferenceTask) (message : String) :
    Barred (.clean task.requestId :: d) (s.markFailed task message) := by
  intro requestId hd hnc
  rcases dead_failRequest hd with rfl | hd
  · exact .inl rfl
  · refine .inr ⟨nofun, h requestId hd ?_⟩
    simpa [Scheduler.markFailed, setStatus] using hnc

theorem occasion (h : Barred d s) (ho : Occasion d s question d' s') : Barred d' s' := by
  cases ho with
  | submitted | launchEnd | emitted => exact h
  | runnable => exact (h.pop (by simp)).of_entry (.launched _) rfl rfl rfl
  | ended => exact ((h.pop (by simp)).push rfl).of_eq rfl rfl
  | failed => exact (h.pop (by simp)).markFailed _ _
  | finished | requested => exact h.pop (by simp)
  | acquire | freed => exact h.swap (by simp) fun _ ht => ht
  | refused => exact ((h.pop (by simp)).push rfl).of_entry (.began _) rfl rfl rfl

theorem move (hr : Reports s) (honce : OncePerReport s.log) (hn : OfTasks d)
    (hbal : Balanced d s) (hstill : Still d s) (h : Barred d s) (hm : Move rt load d s d' s') :
    Barred d' s' := by
  cases hm with
  | asked ho => exact (h.occasion ho).asked _ _ _
  | accepted | indexed | produced => exact h.of_entry _ rfl rfl rfl
  | finalized => exact ((h.pop (by simp)).push rfl).of_entry (.dispatched _ _ _ _) rfl rfl rfl
  | resharded =>
    have hlive := hstill.not_dead hr honce hbal
    refine Barred.of_entry (h.pop (by simp) |>.append ?_ : Barred ([.start _] ++ _) _) (.resharded _)
      rfl rfl rfl
    intro duty hd task ht
    rw [List.mem_singleton.mp hd] at ht
    cases ht
    exact hlive
  | parked =>
    have hlive := hstill.not_dead hr honce hbal
    refine Barred.of_entry (Barred.append (h.pop (by simp)) ?_) (.parked _ _ _) rfl rfl rfl
    intro duty hd task ht
    obtain ⟨_, -, rfl⟩ := List.mem_map.mp hd
    cases ht
    exact hlive
  | begun => exact (h.pop (by simp)).of_entry (.began _) rfl rfl rfl
  | started => exact (h.pop (by simp)).of_entry (.began _) rfl rfl rfl
  | notStarted => exact ((h.pop (by simp)).push rfl).of_entry (.began _) rfl rfl rfl
  | received =>
    rename_i event
    refine Barred.of_entry (Barred.append h ?_) (.received event) rfl rfl rfl
    intro duty hd task ht
    rw [(idle_duties event duty hd).1] at ht
    cases ht
  | opened | reshardFailed => exact (h.pop (by simp)).push rfl
  | checked | notOpened | notFailed | notRequested => exact h.pop (by simp)
  | failedRequest => exact absurd (List.mem_cons_self ..) (hn _)
  | refused | abandoned => exact ((h.pop (by simp)).push rfl).of_eq rfl rfl
  | cleaned =>
    rename_i requestId
    intro other hd hnc
    have hclean : Barred (.clean requestId :: d') (s.cleanupRequestWorkerState requestId) :=
      h.cleanup requestId
    rw [mem_cleanup_cleaned, not_or] at hnc
    refine ((hclean other hd ?_).resolve_left fun heq => hnc.1 ?_).2
    · rw [mem_cleanup_cleaned, not_or]
      exact hnc
    · cases heq
      rfl
  | retired => exact (h.push rfl).of_eq rfl rfl
  | landed => exact (h.pop (by simp)).of_entry (.migrated _ _ _) rfl rfl rfl
  | landedLast =>
    refine Barred.push ?_ rfl
    refine Barred.of_entry (s := land _ _ _ _ 0 s) ?_ (.dispatched _ _ _ _) rfl rfl rfl
    exact (h.pop (by simp)).of_entry (.migrated _ _ _) rfl rfl rfl
  | reshardDone => exact ((h.pop (by simp)).push rfl).push rfl
  | completed | fetched =>
    refine Barred.cleanup ?_ _
    exact h.of_eq rfl rfl
  | notFetched =>
    refine h.frame fun other hd hnc => ?_
    simp only [failRequestFromFetchError, mem_cleanup_cleaned, not_or] at hnc
    exact ⟨(dead_failRequest (dead_cleanup hd)).resolve_left hnc.1, by simpa using hnc.2⟩
  | released => exact Barred.of_eq ((h.pop (by simp)).cleanup _) rfl rfl
  | sent => exact (h.pop (by simp)).of_eq rfl rfl
  | listed | running | delivered | fetching | clock => exact h.of_eq rfl rfl

theorem begin (h : Barred [] s) (step : Step) : Barred step.duties s := by
  cases step with
  | release => exact h.push rfl
  | _ => exact h

end Barred

-- ---------------------------------------------------------------------------
-- Every run
-- ---------------------------------------------------------------------------

/-- The history is of task events, of a policy that returns a task once for a
report, and of requests that fail with their reported tasks taken up. -/
def Orderly (entries : List SchedulerEntry) : Prop :=
  TaskEvents entries ∧ OncePerReport entries ∧ Each FailsTakenUp entries

theorem Orderly.hereditary : Hereditary Orderly := fun hs h =>
  ⟨TaskEvents.hereditary hs h.1, OncePerReport.hereditary hs h.2.1, h.2.2.of_suffix hs⟩

structure Within (load : Workload) (d : List Duty) (s : Scheduler σ) : Prop where
  base : Base load s
  reports : Reports s
  linked : Linked s
  orderly : Orderly s.log → OfTasks d ∧ Balanced d s ∧ Barred d s ∧ Still d s

structure Between (load : Workload) (s : Scheduler σ) : Prop where
  base : Base load s
  reports : Reports s
  linked : Linked s
  orderly : Orderly s.log → Balanced [] s ∧ Still [] s

theorem Within.move (hclosed : load.Closed) (h : Within load d s) (hm : Move rt load d s d' s') :
    Within load d' s' where
  base := h.base.move hm
  reports := h.reports.move h.base hm
  linked := h.linked.move h.base hm
  orderly ho := by
    have hbefore := Orderly.hereditary hm.log_suffix ho
    obtain ⟨hn, hbal, hbar, hstill⟩ := h.orderly hbefore
    have honce := hbefore.2.1
    exact ⟨hn.move ho.1 hm, hbal.move h.base (h.reports.move h.base hm) ho.2.1 hm,
      hbar.move h.reports honce hn hbal hstill hm,
      hstill.move hclosed h.base h.reports h.linked honce hn hbal hbar ho.2.2 hm⟩

theorem Within.stop (hclosed : load.Closed) (h : Within load d s) (hs : Stop rt d s s') :
    Between load s' where
  base := h.base.stop hs
  reports := h.reports.stop h.base hs
  linked := h.linked.stop hs
  orderly ho := by
    obtain ⟨hn, hbal, hbar, hstill⟩ := h.orderly (Orderly.hereditary hs.log_suffix ho)
    exact ⟨hbal.stop h.base (h.reports.stop h.base hs) ho.2.1 hs,
      hstill.stop hclosed h.base h.linked hbal hbar ho.2.2 hs⟩

theorem Between.begin (h : Between load s) (htidy : Tidy s) (step : Step) :
    Within load step.duties s where
  base := h.base
  reports := h.reports
  linked := h.linked
  orderly ho := by
    obtain ⟨hbal, hstill⟩ := h.orderly ho
    have hbar : Barred [] s := by
      intro requestId hd hnc
      rcases hstill.marked requestId hd with hcl | hf
      · exact absurd hcl hnc
      · exact absurd (htidy requestId hf) hnc
    exact ⟨.duties step, hbal.begin step, hbar.begin step, hstill.begin step⟩

/-- Nothing is started for a failed request, in every run in which failed
requests are cleaned up between the calls and, when they fail, have all their
reported tasks taken up. -/
theorem no_work_for_dead (rt : Runtime σ) (load : Workload) (hclosed : load.Closed)
    (s : Scheduler σ) (h : Reach rt load (fun s _ => Tidy s) s) (hevents : TaskEvents s.log)
    (honce : OncePerReport s.log) (htaken : Each FailsTakenUp s.log) : Each StartsLive s.log := by
  have hbetween : Between load s := h.of_moves (I := Within load)
    (fun w _ => ⟨.init w, .init w, .init w, fun _ => ⟨.init w, .init w⟩⟩)
    (fun hk htidy => hk.begin htidy _) (fun hw hm => hw.move hclosed hm)
    (fun hw hs => hw.stop hclosed hs) fun hw => ⟨hw.base, hw.reports, hw.linked, fun ho =>
      ⟨(hw.orderly ho).2.1, (hw.orderly ho).2.2.2⟩⟩
  exact (hbetween.orderly ⟨hevents, honce, htaken⟩).2.history

def sharedFailure : WorkerEvent := ⟨"p", "r", "g", .taskFailed, 0, "no memory", []⟩

def sharedSubmitted : Scheduler DynamicStepFcfs :=
  Prog.after ((Step.submit "r").run fcfsRuntime sharedLoad) (.init (soloStart "g"))

def sharedFailed : Scheduler DynamicStepFcfs :=
  Prog.after ((Step.event sharedFailure).run fcfsRuntime sharedLoad) sharedSubmitted

/-- The first task fails while the others still wait for it. -/
theorem shared_no_work : Dead "r" sharedFailed.log ∧ Each StartsLive sharedFailed.log := by
  have hclosed : sharedLoad.Closed := by
    intro requestId task ht
    simp only [sharedLoad, Workload.solo] at ht ⊢
    split at ht
    · rename_i heq
      simp only [if_pos heq]
      revert task
      decide
    · exact absurd ht List.not_mem_nil
  have hreach : Reach fcfsRuntime sharedLoad (fun s _ => Tidy s) sharedFailed := by
    refine .step (.step (.start rfl) ⟨fun _ h => absurd h List.not_mem_nil, List.not_mem_nil⟩ ?_)
      trivial ?_
    · intro requestId h
      cases h
    · intro requestId h
      have hnone : sharedSubmitted.failedRequests = ∅ := rfl
      rw [hnone] at h
      cases h
  have hplays : Plays fcfsRuntime sharedLoad [.submit "r", .event sharedFailure]
      (.init (soloStart "g")) :=
    ⟨⟨fun _ h => absurd h List.not_mem_nil, List.not_mem_nil⟩, trivial, trivial⟩
  have honce : OncePerReport sharedFailed.log := by
    have hplay : sharedFailed = play fcfsRuntime sharedLoad [.submit "r", .event sharedFailure]
        (.init (soloStart "g")) := by
      simp only [sharedFailed, sharedSubmitted, play, List.foldl_cons, List.foldl_nil]
    rw [hplay]
    exact oncePerReport_of_holds DynamicStepFcfs.holds rfl hplays
  exact ⟨by decide +kernel, no_work_for_dead fcfsRuntime sharedLoad hclosed sharedFailed hreach
    (by decide +kernel) honce (by decide +kernel)⟩

def forkFailure : WorkerEvent := ⟨"a", "r", "g", .taskFailed, 0, "no memory", []⟩

def forkFailed : Scheduler DynamicStepFcfs :=
  play fcfsRuntime (forkLoad ["a", "b"]) [.submit "r", .event forkFailure] (.init (soloStart "g"))

/-- Of two tasks of a request on one rank the first fails, and the second is
dispatched in its place. -/
theorem fork_dead_dispatch : ¬ ∀ (σ : Type) (rt : Runtime σ) (load : Workload) (s : Scheduler σ),
    Reach rt load anyStep s → TaskEvents s.log → Each StartsLive s.log := by
  intro h
  have hreach : Reach fcfsRuntime (forkLoad ["a", "b"]) anyStep forkFailed :=
    Reach.play (.start rfl) ⟨⟨fun _ h => absurd h List.not_mem_nil, List.not_mem_nil⟩, trivial,
      trivial⟩
  exact absurd (h _ _ _ _ hreach (by decide +kernel)) (by decide +kernel)

end Scheduler

end GfDit
