import GfDit.Lib.History
import GfDit.Scheduler.Runs

/-!
# Reports

The scheduler reports a task runnable at most once: a task without
dependencies when its plan is submitted, any other when its count of pending
dependencies comes down to zero, and that count never rises. What a policy
then may do with a report is up to it; `OncePerReport` is the one thing the
results about dispatch ask of it.
-/

namespace GfDit

open History Agenda

-- ---------------------------------------------------------------------------
-- Counting
-- ---------------------------------------------------------------------------

def SchedulerEntry.reports (task : InferenceTask) : SchedulerEntry → Nat
  | .asked question .. => question.reported.count task
  | _ => 0

def SchedulerEntry.returns (task : InferenceTask) : SchedulerEntry → Nat
  | .asked _ out .. => out.count task
  | _ => 0

def reported (entries : List SchedulerEntry) (task : InferenceTask) : Nat :=
  total (SchedulerEntry.reports task) entries

def returned (entries : List SchedulerEntry) (task : InferenceTask) : Nat :=
  total (SchedulerEntry.returns task) entries

/-- At no time has the policy returned a task more often than it was
reported. -/
def OncePerReport (entries : List SchedulerEntry) : Prop :=
  ∀ earlier, earlier <:+ entries → ∀ task, returned earlier task ≤ reported earlier task

def SchedulerEntry.out : SchedulerEntry → List InferenceTask
  | .asked _ out .. => out
  | _ => []

/-- What the policy returns has been reported often enough. -/
def ReturnsReported (entry : SchedulerEntry) (earlier : List SchedulerEntry) : Prop :=
  ∀ task ∈ entry.out, returned (entry :: earlier) task ≤ reported (entry :: earlier) task

instance (entry : SchedulerEntry) (earlier : List SchedulerEntry) :
    Decidable (ReturnsReported entry earlier) :=
  inferInstanceAs (Decidable (∀ task ∈ entry.out, _))

theorem SchedulerEntry.returns_eq_zero {entry : SchedulerEntry} (h : task ∉ entry.out) :
    entry.returns task = 0 := by
  cases entry with
  | asked => exact List.count_eq_zero_of_not_mem h
  | _ => rfl

/-- It is enough to look at what each call returns. -/
theorem oncePerReport_of_each {entries : List SchedulerEntry} (h : Each ReturnsReported entries) :
    OncePerReport entries := by
  induction entries with
  | nil =>
    intro earlier he task
    rw [List.suffix_nil.mp he]
    exact Nat.zero_le _
  | cons entry entries ih =>
    intro earlier he task
    rcases List.suffix_cons_iff.mp he with rfl | he
    · by_cases hm : task ∈ entry.out
      · exact h.1 task hm
      · have hle := ih h.2 entries List.suffix_rfl task
        have hzero := SchedulerEntry.returns_eq_zero hm
        simp only [returned, reported, total_cons, hzero] at hle ⊢
        omega
    · exact ih h.2 earlier he task

theorem total_quiet {f : SchedulerEntry → Nat} {entries : List SchedulerEntry}
    (hf : ∀ entry : SchedulerEntry, entry.asks = false → f entry = 0)
    (he : ∀ entry ∈ entries, SchedulerEntry.asks entry = false) (earlier : List SchedulerEntry) :
    total f (entries ++ earlier) = total f earlier := by
  induction entries with
  | nil => rfl
  | cons entry entries ih =>
    rw [List.cons_append, total_cons, hf entry (he entry (List.mem_cons_self ..)), Nat.zero_add]
    exact ih fun e hm => he e (List.mem_cons_of_mem _ hm)

namespace Scheduler

variable {σ : Type} {rt : Runtime σ} {load : Workload} {s s' : Scheduler σ}

theorem OncePerReport.hereditary : Hereditary OncePerReport :=
  fun hs h earlier he => h earlier (he.trans hs)

theorem OncePerReport.le {entries : List SchedulerEntry} (h : OncePerReport entries)
    (task : InferenceTask) : returned entries task ≤ reported entries task :=
  h entries List.suffix_rfl task

theorem Quiet.reported (h : Quiet s s') (task : InferenceTask) :
    GfDit.reported s'.log task = GfDit.reported s.log task := by
  obtain ⟨entries, hlog, he⟩ := h
  rw [hlog]
  refine total_quiet (fun entry hq => ?_) he _
  cases entry with
  | asked => cases hq
  | _ => rfl

theorem Quiet.returned (h : Quiet s s') (task : InferenceTask) :
    GfDit.returned s'.log task = GfDit.returned s.log task := by
  obtain ⟨entries, hlog, he⟩ := h
  rw [hlog]
  refine total_quiet (fun entry hq => ?_) he _
  cases entry with
  | asked => cases hq
  | _ => rfl

theorem reported_asked (question : Ask) (out : List InferenceTask) (w : World σ)
    (task : InferenceTask) : GfDit.reported (s.asked question out w).log task =
      question.reported.count task + GfDit.reported s.log task := total_cons ..

theorem returned_asked (question : Ask) (out : List InferenceTask) (w : World σ)
    (task : InferenceTask) : GfDit.returned (s.asked question out w).log task =
      out.count task + GfDit.returned s.log task := total_cons ..

-- ---------------------------------------------------------------------------
-- Counting dependencies down
-- ---------------------------------------------------------------------------

/-- Every count that is left is at most what it was. -/
def Lowered (left pending : Dict String Int) : Prop :=
  ∀ taskId n, left.get? taskId = some n → ∃ n', pending.get? taskId = some n' ∧ n ≤ n'

theorem Lowered.refl (pending : Dict String Int) : Lowered pending pending :=
  fun _ n h => ⟨n, h, le_refl n⟩

theorem Lowered.trans (h : Lowered left middle) (h' : Lowered middle pending) :
    Lowered left pending := by
  intro taskId n hn
  obtain ⟨n', hn', hle⟩ := h taskId n hn
  obtain ⟨n'', hn'', hle'⟩ := h' taskId n' hn'
  exact ⟨n'', hn'', hle.trans hle'⟩

theorem Lowered.set {pending : Dict String Int} (h : pending.get? taskId = some n) :
    Lowered (pending.set taskId (n - 1)) pending := by
  intro other m hm
  rw [Dict.get?_set] at hm
  split at hm
  · rename_i heq
    cases hm
    exact ⟨n, heq ▸ h, by omega⟩
  · exact ⟨m, hm, le_refl m⟩

theorem countDown_lowered (index : Dict String InferenceTask) (dependents : List String)
    (pending : Dict String Int) : Lowered (countDown index dependents pending).1 pending := by
  induction dependents generalizing pending with
  | nil => exact .refl _
  | cons dependent rest ih =>
    unfold countDown
    cases hn : pending.get? dependent with
    | none => exact ih pending
    | some n =>
      simp only
      split
      · cases index.get? dependent with
        | none => exact .set hn
        | some task => exact (ih _).trans (.set hn)
      · exact (ih _).trans (.set hn)

theorem countDown_runnable {index : Dict String InferenceTask}
    (hi : ∀ taskId task, index.get? taskId = some task → task.taskId = taskId)
    {dependents : List String} {pending left : Dict String Int}
    (h : countDown index dependents pending = (left, .ok newly)) :
    newly.Nodup ∧ ∀ task ∈ newly, index.get? task.taskId = some task ∧
      (∃ n, pending.get? task.taskId = some n ∧ 0 < n) ∧
      ∀ n, left.get? task.taskId = some n → n ≤ 0 := by
  induction dependents generalizing pending left newly with
  | nil =>
    cases h
    exact ⟨List.nodup_nil, by simp⟩
  | cons dependent rest ih =>
    unfold countDown at h
    cases hn : pending.get? dependent with
    | none =>
      rw [hn] at h
      exact ih h
    | some n =>
      rw [hn] at h
      simp only at h
      -- a task found later still has a count above zero
      have hlater : ∀ {newly left}, countDown index rest (pending.set dependent (n - 1)) =
          (left, .ok newly) → newly.Nodup ∧ ∀ task ∈ newly, index.get? task.taskId = some task ∧
            (∃ n, pending.get? task.taskId = some n ∧ 0 < n) ∧
            (∀ n, left.get? task.taskId = some n → n ≤ 0) ∧
            (task.taskId = dependent → 0 < n - 1) := by
        intro newly left hrest
        obtain ⟨hnodup, hall⟩ := ih hrest
        refine ⟨hnodup, fun task ht => ?_⟩
        obtain ⟨hget, ⟨m, hm, hpos⟩, hleft⟩ := hall task ht
        rw [Dict.get?_set] at hm
        split at hm
        · rename_i heq
          cases hm
          exact ⟨hget, ⟨n, heq ▸ hn, by omega⟩, hleft, fun _ => hpos⟩
        · rename_i hne
          exact ⟨hget, ⟨m, hm, hpos⟩, hleft, fun heq => absurd heq.symm hne⟩
      split at h
      · rename_i hzero
        cases hd : index.get? dependent with
        | none =>
          rw [hd] at h
          cases h
        | some task =>
          rw [hd] at h
          cases hrest : countDown index rest (pending.set dependent (n - 1)) with
          | mk left' result =>
            rw [hrest] at h
            cases result with
            | error e => cases h
            | ok found =>
              obtain ⟨rfl, hok⟩ := Prod.mk.inj h
              cases hok
              obtain ⟨hnodup, hall⟩ := hlater hrest
              have hid := hi dependent task hd
              refine ⟨List.nodup_cons.mpr ⟨fun hm => ?_, hnodup⟩, ?_⟩
              · have := (hall task hm).2.2.2 hid
                omega
              · refine List.forall_mem_cons.mpr ⟨?_, fun t ht => ?_⟩
                · refine ⟨hid ▸ hd, ⟨n, hid ▸ hn, by omega⟩, fun m hm => ?_⟩
                  have hlow := countDown_lowered index rest (pending.set dependent (n - 1))
                  rw [hrest] at hlow
                  obtain ⟨m', hm', hle⟩ := hlow _ m hm
                  rw [hid, Dict.get?_set_self] at hm'
                  cases hm'
                  omega
                · obtain ⟨hget, hpos, hleft, -⟩ := hall t ht
                  exact ⟨hget, hpos, hleft⟩
      · obtain ⟨hnodup, hall⟩ := hlater h
        exact ⟨hnodup, fun t ht => ⟨(hall t ht).1, (hall t ht).2.1, (hall t ht).2.2.1⟩⟩

theorem newlyRunnable_lowered (s : Scheduler σ) (task : InferenceTask) :
    Lowered (s.newlyRunnable task).1 s.pendingDependencies := by
  unfold newlyRunnable
  split
  · exact .refl _
  · exact countDown_lowered _ _ _

theorem newlyRunnable_ok (hb : Base load s) (h : s.newlyRunnable task = (left, .ok newly)) :
    newly.Nodup ∧ ∀ t ∈ newly, s.taskIndex.get? t.taskId = some t ∧
      (∃ n, s.pendingDependencies.get? t.taskId = some n ∧ 0 < n) ∧
      ∀ n, left.get? t.taskId = some n → n ≤ 0 := by
  unfold newlyRunnable at h
  split at h
  · obtain ⟨-, hok⟩ := Prod.mk.inj h
    cases hok
    exact ⟨List.nodup_nil, by simp⟩
  · exact countDown_runnable (fun taskId t ht => ((hb.index _ _).mp ht).2.1) h

-- ---------------------------------------------------------------------------
-- A task is reported at most once
-- ---------------------------------------------------------------------------

structure Reports (s : Scheduler σ) : Prop where
  once : ∀ task, reported s.log task ≤ 1
  indexed : ∀ task, 0 < reported s.log task → .indexed task ∈ s.log
  bounded : ∀ task n, .indexed task ∈ s.log → s.pendingDependencies.get? task.taskId = some n →
    n ≤ task.dependencies.length
  counted : ∀ task n, 0 < reported s.log task →
    s.pendingDependencies.get? task.taskId = some n → n ≤ 0
  fresh : ∀ plan, Taking plan s.log → ∀ task, task.requestId = plan.requestId →
    reported s.log task = 0

namespace Reports

theorem init (w : World σ) : Reports (.init w : Scheduler σ) where
  once := fun _ => Nat.zero_le _
  indexed := fun _ h => by cases h
  bounded := fun _ _ h => by cases h
  counted := fun _ _ h => by cases h
  fresh := fun _ h => by cases h

theorem frame (h : Reports s) (hq : Quiet s s')
    (hi : ∀ task, .indexed task ∈ s'.log → .indexed task ∈ s.log)
    (ht : ∀ plan, Taking plan s'.log → ∀ task, task.requestId = plan.requestId →
      reported s.log task = 0)
    (hlow : Lowered s'.pendingDependencies s.pendingDependencies) : Reports s' where
  once task := by
    rw [hq.reported]
    exact h.once task
  indexed task hr := by
    rw [hq.reported] at hr
    exact hq.suffix.subset (h.indexed task hr)
  bounded task n hin hn := by
    obtain ⟨n', hn', hle⟩ := hlow _ n hn
    exact hle.trans (h.bounded task n' (hi task hin) hn')
  counted task n hr hn := by
    rw [hq.reported] at hr
    obtain ⟨n', hn', hle⟩ := hlow _ n hn
    exact hle.trans (h.counted task n' hr hn')
  fresh plan htaking task hr := by
    rw [hq.reported]
    exact ht plan htaking task hr

theorem of_eq (h : Reports s) (hlog : s'.log = s.log)
    (hpending : s'.pendingDependencies = s.pendingDependencies) : Reports s' :=
  h.frame (.of_eq hlog) (fun _ hi => hlog ▸ hi) (fun plan ht => h.fresh plan (hlog ▸ ht))
    (hpending ▸ .refl _)

theorem of_entry (h : Reports s) (entry : SchedulerEntry) (hlog : s'.log = entry :: s.log)
    (hm : entry.minor = true) (ha : entry.asks = false)
    (hlow : Lowered s'.pendingDependencies s.pendingDependencies) : Reports s' := by
  refine h.frame (.entry hlog ha) (fun task hi => ?_) (fun plan ht => ?_) hlow
  · rw [hlog] at hi
    rcases List.mem_cons.mp hi with rfl | hi
    · cases hm
    · exact hi
  · rw [hlog] at ht
    have := ht.not_minor
    rw [hm] at this
    cases this

theorem cleanup (h : Reports s) (requestId : String) :
    Reports (s.cleanupRequestWorkerState requestId) := by
  unfold cleanupRequestWorkerState
  split
  · exact h
  · refine h.frame (.entry rfl rfl) (fun task hi => ?_) (fun plan ht => ?_) fun taskId n hn => ?_
    · simpa using hi
    · cases ht
    · simp only [Dict.get?_eraseAll] at hn
      split at hn
      · cases hn
      · exact ⟨n, hn, le_refl n⟩

theorem failRequest (h : Reports s) (requestId message : String) :
    Reports (s.failRequest requestId message) := by
  unfold Scheduler.failRequest
  split
  · exact h
  · exact h.of_entry (.failed requestId) rfl rfl rfl (.refl _)

theorem launch (h : Reports s) {task : InferenceTask}
    (hn : s.newlyRunnable task = (left, newly)) : Reports (s.launch task left) := by
  refine h.of_entry (.launched task) rfl rfl rfl ?_
  have hlow := newlyRunnable_lowered s task
  rw [hn] at hlow
  exact hlow

theorem asked (h : Reports s) (question : Ask) (hr : question.reported = []) (out : List InferenceTask)
    (w : World σ) : Reports (s.asked question out w) := by
  have hsame : ∀ task, reported (s.asked question out w).log task = reported s.log task := by
    intro task
    rw [reported_asked, hr, List.count_nil, Nat.zero_add]
  constructor
  · exact fun task => by rw [hsame]; exact h.once task
  · intro task hpos
    rw [hsame] at hpos
    exact List.mem_cons_of_mem _ (h.indexed task hpos)
  · intro task n hi hn
    exact h.bounded task n (by simpa [Scheduler.asked] using hi) hn
  · intro task n hpos hn
    rw [hsame] at hpos
    exact h.counted task n hpos hn
  · intro plan ht
    cases ht

theorem report (h : Reports s) (question : Ask) (hnodup : question.reported.Nodup)
    (hnew : ∀ task ∈ question.reported, reported s.log task = 0 ∧ .indexed task ∈ s.log ∧
      ∀ n, s.pendingDependencies.get? task.taskId = some n → n ≤ 0)
    (out : List InferenceTask) (w : World σ) : Reports (s.asked question out w) := by
  have hone := fun task => List.nodup_iff_count_le_one.mp hnodup task
  constructor
  · intro task
    rw [reported_asked]
    by_cases hm : task ∈ question.reported
    · have := hone task
      rw [(hnew task hm).1]
      omega
    · rw [List.count_eq_zero_of_not_mem hm]
      simpa using h.once task
  · intro task hpos
    rw [reported_asked] at hpos
    by_cases hm : task ∈ question.reported
    · exact List.mem_cons_of_mem _ (hnew task hm).2.1
    · rw [List.count_eq_zero_of_not_mem hm, Nat.zero_add] at hpos
      exact List.mem_cons_of_mem _ (h.indexed task hpos)
  · intro task n hi hn
    exact h.bounded task n (by simpa [Scheduler.asked] using hi) hn
  · intro task n hpos hn
    rw [reported_asked] at hpos
    by_cases hm : task ∈ question.reported
    · exact (hnew task hm).2.2 n hn
    · rw [List.count_eq_zero_of_not_mem hm, Nat.zero_add] at hpos
      exact h.counted task n hpos hn
  · intro plan ht
    cases ht

theorem occasion (hb : Base load s) (h : Reports s) (ho : Occasion d s question d' s')
    (out : List InferenceTask) (w : World σ) : Reports (s'.asked question out w) := by
  cases ho with
  | submitted htaking hall =>
    rename_i plan
    have heq := hb.accepted plan htaking.accepted_mem
    have hvalues : plan.tasks.values.Nodup := by
      rw [heq]
      exact load.values_nodup _
    refine h.report (.submitted plan) (hvalues.sublist List.filter_sublist) (fun task ht => ?_) out w
    obtain ⟨hm, hroot⟩ := List.mem_filter.mp ht
    have howner : task.requestId = plan.requestId := by
      rw [heq] at hm
      exact (load.owned _ task hm).1
    refine ⟨h.fresh plan htaking task howner, hall task hm, fun n hn => ?_⟩
    have hle := h.bounded task n (hall task hm) hn
    simp only [decide_eq_true_eq] at hroot
    simpa [hroot] using hle
  | runnable hn =>
    rename_i left task event newly
    obtain ⟨hnodup, hall⟩ := newlyRunnable_ok hb hn
    refine (h.launch hn).report (.runnable _) hnodup (fun t ht => ?_) out w
    obtain ⟨hget, ⟨n, hpend, hpos⟩, hleft⟩ := hall t ht
    refine ⟨?_, List.mem_cons_of_mem _ ((hb.index _ _).mp hget).1, hleft⟩
    -- a task reported before would have no dependency left
    have hquiet : Quiet s (s.launch task left) := .entry rfl rfl
    rw [hquiet.reported]
    by_contra hne
    have := h.counted t n (Nat.pos_of_ne_zero hne) hpend
    omega
  | failed =>
    refine Reports.asked ?_ _ rfl out w
    refine Reports.failRequest ?_ _ _
    exact h.of_eq rfl rfl
  | refused =>
    refine Reports.asked ?_ _ rfl out w
    exact h.of_entry (.began _) rfl rfl rfl (.refl _)
  | ended =>
    refine Reports.asked ?_ _ rfl out w
    exact h.of_eq rfl rfl
  | launchEnd | finished | emitted | requested | acquire | freed => exact h.asked _ rfl out w

theorem accept (hb : Base load s) (h : Reports s) (hf : Fresh requestId s) :
    Reports (s.accept (load.plan requestId)) := by
  refine h.frame (.entry rfl rfl) (fun task hi => ?_) (fun plan ht task hr => ?_) (.refl _)
  · simpa [Scheduler.accept] using hi
  · cases ht with
    | accepted =>
      by_contra hne
      have hin := h.indexed task (Nat.pos_of_ne_zero hne)
      refine hf.1 _ (hb.indexed task hin).2 ?_
      rw [load.named, hr, load.named]

theorem indexTask (hb : Base load s) (h : Reports s) (ht : Taking plan s.log)
    (hm : task ∈ plan.tasks.values) : Reports (s.indexTask task) := by
  have hq : Quiet s (s.indexTask task) := .entry rfl rfl
  have heq := hb.accepted plan ht.accepted_mem
  rw [heq] at hm
  have hhas : load.Has task := .of_mem hm
  have hnone : reported s.log task = 0 := h.fresh plan ht task (load.owned _ task hm).1
  have hpending : ∀ other n, load.Has other →
      (s.indexTask task).pendingDependencies.get? other.taskId = some n →
      other = task ∧ n = task.dependencies.length ∨
        s.pendingDependencies.get? other.taskId = some n := by
    intro other n ho hn
    simp only [Scheduler.indexTask, Dict.get?_set] at hn
    split at hn
    · rename_i hid
      cases hn
      exact .inl ⟨ho.eq hhas hid.symm, rfl⟩
    · exact .inr hn
  constructor
  · intro other
    rw [hq.reported]
    exact h.once other
  · intro other hr
    rw [hq.reported] at hr
    exact hq.suffix.subset (h.indexed other hr)
  · intro other n hi hn
    rcases List.mem_cons.mp hi with hi | hi
    · cases hi
      simp only [Scheduler.indexTask, Dict.get?_set_self, Option.some.injEq] at hn
      omega
    · rcases hpending other n (hb.indexed other hi).1 hn with ⟨rfl, rfl⟩ | hn
      · exact le_refl _
      · exact h.bounded other n hi hn
  · intro other n hr hn
    rw [hq.reported] at hr
    rcases hpending other n (hb.indexed other (h.indexed other hr)).1 hn with ⟨rfl, -⟩ | hn
    · omega
    · exact h.counted other n hr hn
  · intro other htaking
    cases htaking with
    | indexed htaking =>
      intro t hr
      rw [hq.reported]
      exact h.fresh other htaking t hr

theorem move (hb : Base load s) (h : Reports s) (hm : Move rt load d s d' s') : Reports s' := by
  cases hm with
  | asked ho => exact h.occasion hb ho _ _
  | accepted hf => exact h.accept hb hf
  | indexed ht hin => exact h.indexTask hb ht hin
  | finalized | landed | produced | received | parked | resharded | begun =>
    exact h.of_entry _ rfl rfl rfl (.refl _)
  | started | notStarted => exact h.of_entry (.began _) rfl rfl rfl (.refl _)
  | landedLast =>
    refine Reports.of_entry (s := land _ _ _ _ 0 s) ?_ (.dispatched _ _ _ _) rfl rfl rfl (.refl _)
    exact h.of_entry (.migrated _ _ _) rfl rfl rfl (.refl _)
  | failedRequest => exact h.failRequest _ _
  | cleaned => exact h.cleanup _
  | completed | fetched =>
    refine Reports.cleanup ?_ _
    exact h.of_eq rfl rfl
  | notFetched =>
    refine Reports.cleanup (Reports.failRequest ?_ _ _) _
    exact h.of_eq rfl rfl
  | released => exact Reports.of_eq (h.cleanup _) rfl rfl
  | _ => exact h.of_eq rfl rfl

theorem stop (hb : Base load s) (h : Reports s) (hs : Stop rt d s s') : Reports s' := by
  cases hs with
  | here => exact h
  | asked ho => exact h.occasion hb ho _ _
  | lost hn => exact h.launch hn
  | starved => exact h.of_entry (.migrated _ _ _) rfl rfl rfl (.refl _)

/-- A task is reported at most once, whatever the policy does. -/
theorem invariant (rt : Runtime σ) (load : Workload) :
    Invariant (machine rt load) fun _ s => Base load s ∧ Reports s :=
  (Base.invariant rt load).under (fun hb h hm => h.move hb hm) fun hb h hs => h.stop hb hs

end Reports

end Scheduler

end GfDit
