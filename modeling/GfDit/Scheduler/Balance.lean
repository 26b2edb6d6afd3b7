import GfDit.Scheduler.Reports

/-!
# A task returned once is consumed at most once

A task that the policy returns waits in the call that asked, may be parked
behind migrations of its inputs, and is consumed when it is handed to the
pool or started as a RESHARD. What was consumed, is still owed and is parked
never adds up to more than what was returned.
-/

namespace GfDit

open History Agenda

def SchedulerEntry.consumes (task : InferenceTask) : SchedulerEntry → Nat
  | .dispatched other .. | .resharded other => if other = task then 1 else 0
  | _ => 0

def consumed (entries : List SchedulerEntry) (task : InferenceTask) : Nat :=
  total (SchedulerEntry.consumes task) entries

def Duty.about : Duty → Option InferenceTask
  | .task t | .input t _ | .held t .. | .refused t | .start t | .send t _ | .count t _
  | .check t => some t
  | .retired m | .freed m => some m.waiter.task
  | .launch _ | .finish _ | .request _ | .clean _ | .release _ => none

def Duty.owes (task : InferenceTask) : Duty → Bool
  | .task t => t = task
  | _ => false

theorem countP_owes_map (task : InferenceTask) (out : List InferenceTask) :
    (out.map Duty.task).countP (Duty.owes task) = out.count task := by
  rw [List.countP_map]
  refine List.countP_congr fun t _ => ?_
  simp [Duty.owes]

namespace Scheduler

variable {σ : Type} {rt : Runtime σ} {load : Workload} {s s' : Scheduler σ}

def parks (s : Scheduler σ) (task : InferenceTask) : Nat :=
  if s.parkedPending.contains task.taskId then 1 else 0

def taken (d : List Duty) (s : Scheduler σ) (task : InferenceTask) : Nat :=
  consumed s.log task + d.countP (Duty.owes task) + s.parks task

theorem parks_le (s : Scheduler σ) (task : InferenceTask) : s.parks task ≤ 1 := by
  unfold parks
  split <;> omega

theorem parks_congr (h : s'.parkedPending.get? task.taskId = s.parkedPending.get? task.taskId) :
    s'.parks task = s.parks task := by
  unfold parks Dict.contains
  rw [h]

theorem parks_eq_one (h : s.parkedPending.get? task.taskId = some n) : s.parks task = 1 := by
  simp [parks, Dict.contains, h]

theorem Base.id_ne (hb : Base load s) (hi : .indexed task ∈ s.log) (ho : .indexed other ∈ s.log)
    (hne : task ≠ other) : task.taskId ≠ other.taskId :=
  fun hid => hne ((hb.indexed task hi).1.eq (hb.indexed other ho).1 hid)

structure Balanced (d : List Duty) (s : Scheduler σ) : Prop where
  duties : ∀ duty ∈ d, ∀ task ∈ duty.about, .indexed task ∈ s.log
  migrations : ∀ m ∈ s.migrations, .indexed m.waiter.task ∈ s.log
  parked : ∀ taskId, (s.parkedPending.get? taskId).isSome = true →
    ∃ task, .indexed task ∈ s.log ∧ task.taskId = taskId
  consumed : ∀ task, 0 < consumed s.log task → .indexed task ∈ s.log
  taken : ∀ task, .indexed task ∈ s.log → s.taken d task ≤ returned s.log task

namespace Balanced

theorem init (w : World σ) : Balanced [] (.init w : Scheduler σ) where
  duties := fun _ h => absurd h List.not_mem_nil
  migrations := fun _ h => absurd h List.not_mem_nil
  parked := fun _ h => by cases h
  consumed := fun _ h => by cases h
  taken := fun _ h => absurd h List.not_mem_nil

-- Duties come and go.

theorem pop (h : Balanced (duty :: d) s) : Balanced d s := by
  refine { h with
    duties := fun other hm => h.duties other (List.mem_cons_of_mem _ hm)
    taken := fun task hi => le_trans ?_ (h.taken task hi) }
  simp only [Scheduler.taken, List.countP_cons]
  omega

theorem push (h : Balanced d s) (ha : ∀ task ∈ duty.about, .indexed task ∈ s.log)
    (ho : ∀ task, duty.owes task = false) : Balanced (duty :: d) s := by
  refine { h with
    duties := List.forall_mem_cons.mpr ⟨ha, h.duties⟩
    taken := fun task hi => le_trans (le_of_eq ?_) (h.taken task hi) }
  simp [Scheduler.taken, ho]

theorem pushAll {ds : List Duty} (h : Balanced d s)
    (ha : ∀ duty ∈ ds, ∀ task ∈ duty.about, .indexed task ∈ s.log)
    (ho : ∀ duty ∈ ds, ∀ task, duty.owes task = false) : Balanced (ds ++ d) s := by
  induction ds with
  | nil => exact h
  | cons duty ds ih =>
    obtain ⟨ha, hall⟩ := List.forall_mem_cons.mp ha
    obtain ⟨ho, hold⟩ := List.forall_mem_cons.mp ho
    exact (ih hall hold).push ha ho

theorem head (h : Balanced (duty :: d) s) : ∀ task ∈ duty.about, .indexed task ∈ s.log :=
  h.duties duty (List.mem_cons_self ..)

theorem swap (h : Balanced (duty :: d) s) (ha : ∀ task ∈ other.about, task ∈ duty.about)
    (ho : ∀ task, other.owes task = false) : Balanced (other :: d) s :=
  h.pop.push (fun task ht => h.head task (ha task ht)) ho

theorem idle (h : Balanced d s) (hq : Quiet s s')
    (hi : ∀ task, .indexed task ∈ s'.log → .indexed task ∈ s.log)
    (hc : ∀ task, GfDit.consumed s'.log task = GfDit.consumed s.log task)
    (hm : ∀ m ∈ s'.migrations, m ∈ s.migrations)
    (hp : ∀ taskId, (s'.parkedPending.get? taskId).isSome = true →
      (s.parkedPending.get? taskId).isSome = true) : Balanced d s' where
  duties duty hd task ht := hq.suffix.subset (h.duties duty hd task ht)
  migrations m hmem := hq.suffix.subset (h.migrations m (hm m hmem))
  parked taskId hs := by
    obtain ⟨task, hin, hid⟩ := h.parked taskId (hp taskId hs)
    exact ⟨task, hq.suffix.subset hin, hid⟩
  consumed task hpos := by
    rw [hc] at hpos
    exact hq.suffix.subset (h.consumed task hpos)
  taken task hin := by
    rw [hq.returned]
    refine le_trans ?_ (h.taken task (hi task hin))
    have hle : s'.parks task ≤ s.parks task := by
      unfold parks Dict.contains
      split
      · rename_i hs
        rw [if_pos (hp _ hs)]
      · exact Nat.zero_le _
    simp only [Scheduler.taken, hc]
    omega

theorem of_eq (h : Balanced d s) (hlog : s'.log = s.log) (hm : s'.migrations = s.migrations)
    (hp : s'.parkedPending = s.parkedPending) : Balanced d s' :=
  h.idle (.of_eq hlog) (fun _ hi => hlog ▸ hi) (fun _ => by rw [hlog]) (fun _ hmem => hm ▸ hmem)
    fun _ hs => hp ▸ hs

theorem of_entry (h : Balanced d s) (entry : SchedulerEntry) (hlog : s'.log = entry :: s.log)
    (ha : entry.asks = false) (hi : ∀ task, entry ≠ .indexed task)
    (hc : ∀ task, entry.consumes task = 0) (hm : s'.migrations = s.migrations)
    (hp : ∀ taskId, (s'.parkedPending.get? taskId).isSome = true →
      (s.parkedPending.get? taskId).isSome = true) : Balanced d s' := by
  refine h.idle (.entry hlog ha) (fun task hin => ?_) (fun task => ?_) (fun _ hmem => hm ▸ hmem) hp
  · rw [hlog] at hin
    exact (List.mem_cons.mp hin).resolve_left fun heq => hi task heq.symm
  · rw [hlog, GfDit.consumed, total_cons, hc, Nat.zero_add]
    rfl

theorem cleanup (h : Balanced d s) (requestId : String) :
    Balanced d (s.cleanupRequestWorkerState requestId) := by
  unfold cleanupRequestWorkerState
  split
  · exact h
  · refine h.of_entry (.cleaned requestId) rfl rfl (by simp) (fun _ => rfl) rfl fun taskId hs => ?_
    simp only [Dict.get?_eraseAll] at hs
    split at hs
    · cases hs
    · exact hs

theorem failRequest (h : Balanced d s) (requestId message : String) :
    Balanced d (s.failRequest requestId message) := by
  unfold Scheduler.failRequest
  split
  · exact h
  · exact h.of_entry (.failed requestId) rfl rfl (by simp) (fun _ => rfl) rfl fun _ hs => hs

theorem unpark (h : Balanced d s) (task : InferenceTask) : Balanced d (s.unpark task) := by
  refine h.idle (.of_eq rfl) (fun _ hi => hi) (fun _ => rfl) (fun _ hm => hm) fun taskId hs => ?_
  simp only [Scheduler.unpark, Dict.get?_erase] at hs
  split at hs
  · cases hs
  · exact hs

-- Tasks are parked, consumed and begun.

theorem park (hb : Base load s) (h : Balanced (.task task :: d) s) (groupId : String)
    (cross : List ArtifactHandle) : Balanced d (s.park task groupId cross) := by
  have hin := h.head task rfl
  have hq : Quiet s (s.park task groupId cross) := .entry rfl rfl
  have hc : ∀ t, GfDit.consumed (s.park task groupId cross).log t = GfDit.consumed s.log t := by
    intro t
    simp [GfDit.consumed, Scheduler.park, SchedulerEntry.consumes]
  refine ⟨fun duty hd t ht => hq.suffix.subset (h.pop.duties duty hd t ht),
    fun m hm => hq.suffix.subset (h.migrations m hm), fun taskId hs => ?_, fun t hpos => ?_,
    fun t hi => ?_⟩
  · simp only [Scheduler.park, Dict.get?_set] at hs
    split at hs
    · rename_i hid
      exact ⟨task, hq.suffix.subset hin, hid⟩
    · obtain ⟨t, ht, hid⟩ := h.parked taskId hs
      exact ⟨t, hq.suffix.subset ht, hid⟩
  · rw [hc] at hpos
    exact hq.suffix.subset (h.consumed t hpos)
  · have hold : .indexed t ∈ s.log := by simpa [Scheduler.park] using hi
    rw [hq.returned]
    refine le_trans ?_ (h.taken t hold)
    simp only [Scheduler.taken, hc, List.countP_cons, Duty.owes, decide_eq_true_eq]
    by_cases heq : task = t
    · subst heq
      have := (s.park task groupId cross).parks_le task
      rw [if_pos rfl]
      omega
    · have hsame : (s.park task groupId cross).parks t = s.parks t :=
        parks_congr (Dict.get?_set_ne _ (hb.id_ne hin hold heq) _)
      rw [hsame]
      omega

theorem consume (h : Balanced d s) (task : InferenceTask) (entry : SchedulerEntry) (hlog : s'.log = entry :: s.log)
    (ha : entry.asks = false) (hi : ∀ t, entry ≠ .indexed t)
    (hc : ∀ t, entry.consumes t = if task = t then 1 else 0) (hin : .indexed task ∈ s.log)
    (hm : s'.migrations = s.migrations)
    (hp : ∀ taskId, (s'.parkedPending.get? taskId).isSome = true →
      (s.parkedPending.get? taskId).isSome = true)
    (hd : ∀ duty ∈ d', duty ∈ d)
    (ht : ∀ t, .indexed t ∈ s.log →
      (if task = t then 1 else 0) + d'.countP (Duty.owes t) + s'.parks t ≤
        d.countP (Duty.owes t) + s.parks t) : Balanced d' s' := by
  have hq : Quiet s s' := .entry hlog ha
  have hcons : ∀ t, GfDit.consumed s'.log t = (if task = t then 1 else 0) + GfDit.consumed s.log t := by
    intro t
    rw [hlog, GfDit.consumed, total_cons, hc]
    rfl
  have hold : ∀ t, .indexed t ∈ s'.log → .indexed t ∈ s.log := by
    intro t hmem
    rw [hlog] at hmem
    exact (List.mem_cons.mp hmem).resolve_left fun heq => hi t heq.symm
  refine ⟨fun duty hmem t hab => hq.suffix.subset (h.duties duty (hd duty hmem) t hab),
    fun m hmem => hq.suffix.subset (h.migrations m (hm ▸ hmem)), fun taskId hs => ?_,
    fun t hpos => ?_, fun t hmem => ?_⟩
  · obtain ⟨t, hmem, hid⟩ := h.parked taskId (hp taskId hs)
    exact ⟨t, hq.suffix.subset hmem, hid⟩
  · rw [hcons] at hpos
    split at hpos
    · rename_i heq
      exact hq.suffix.subset (heq ▸ hin)
    · rw [Nat.zero_add] at hpos
      exact hq.suffix.subset (h.consumed t hpos)
  · rw [hq.returned]
    have hsum := ht t (hold t hmem)
    have hle := h.taken t (hold t hmem)
    simp only [Scheduler.taken, hcons] at hle ⊢
    omega

theorem consumeDuty (h : Balanced (.task task :: d) s) (entry : SchedulerEntry)
    (hlog : s'.log = entry :: s.log) (ha : entry.asks = false) (hi : ∀ t, entry ≠ .indexed t)
    (hc : ∀ t, entry.consumes t = if task = t then 1 else 0) (hm : s'.migrations = s.migrations)
    (hp : s'.parkedPending = s.parkedPending) : Balanced d s' := by
  refine h.consume task entry hlog ha hi hc (h.head task rfl) hm (fun _ hs => hp ▸ hs)
    (fun _ => List.mem_cons_of_mem _) fun t _ => ?_
  have hsame : s'.parks t = s.parks t := parks_congr (by rw [hp])
  rw [List.countP_cons, hsame]
  simp only [Duty.owes, decide_eq_true_eq]
  omega

theorem land_parked (hp : s.parkedPending.get? task.taskId = some n)
    (hs : ((s.land task artifact groupId rank left).parkedPending.get? taskId).isSome = true) :
    (s.parkedPending.get? taskId).isSome = true := by
  simp only [land] at hs
  split at hs
  · rw [Dict.get?_erase] at hs
    split at hs
    · cases hs
    · exact hs
  · rw [Dict.get?_set] at hs
    split at hs
    · rename_i hid
      rw [← hid, hp]
      rfl
    · exact hs

/-- A parked task is consumed when its last input has landed. -/
theorem landLast (hb : Base load s) (h : Balanced d s) (hin : .indexed task ∈ s.log)
    (hp : s.parkedPending.get? task.taskId = some n) (artifact : ArtifactHandle) (groupId : String)
    (rank : Rank) : Balanced d ((s.land task artifact groupId rank 0).finalize task) := by
  -- the input lands while the task is still parked
  have hland : Balanced d
      { s.land task artifact groupId rank 0 with parkedPending := s.parkedPending } :=
    h.of_entry (.migrated _ _ _) rfl rfl (by simp) (fun _ => rfl) rfl fun _ hs => hs
  have hin' : .indexed task ∈ (s.land task artifact groupId rank 0).log :=
    List.mem_cons_of_mem _ hin
  have hleft : ∀ taskId, (((s.land task artifact groupId rank 0).finalize task).parkedPending.get?
      taskId).isSome = true → (s.parkedPending.get? taskId).isSome = true := by
    intro taskId hs
    have hs' : ((s.land task artifact groupId rank 0).parkedPending.get? taskId).isSome = true := hs
    exact land_parked hp hs'
  refine hland.consume task (.dispatched _ _ _ _) rfl rfl (by simp) (fun _ => rfl) hin' rfl hleft
    (fun _ hd => hd) fun t ht => ?_
  have hold : .indexed t ∈ s.log := by simpa [land] using ht
  by_cases heq : task = t
  · subst heq
    have hone : ({ s.land task artifact groupId rank 0 with
        parkedPending := s.parkedPending } : Scheduler σ).parks task = 1 := parks_eq_one hp
    have hzero : ((s.land task artifact groupId rank 0).finalize task).parks task = 0 := by
      simp [parks, finalize, land, Dict.contains]
    rw [hone, hzero, if_pos rfl]
    omega
  · have hsame : ((s.land task artifact groupId rank 0).finalize task).parks t =
        ({ s.land task artifact groupId rank 0 with
          parkedPending := s.parkedPending } : Scheduler σ).parks t := by
      refine parks_congr ?_
      simp only [finalize, land, if_true]
      exact Dict.get?_erase_ne _ (hb.id_ne hin hold heq)
    rw [hsame, if_neg heq]
    omega

theorem addMigration (h : Balanced d s) (m : Migration) (hm : .indexed m.waiter.task ∈ s.log) :
    Balanced d (s.addMigration m) := by
  refine { h with migrations := fun m' hmem => ?_ }
  rcases List.mem_append.mp hmem with hmem | hmem
  · exact h.migrations m' hmem
  · rw [List.mem_singleton.mp hmem]
    exact hm

theorem countMigration (h : Balanced d s) (task : InferenceTask) :
    Balanced d (s.countMigration task) :=
  h.of_entry (.began task) rfl rfl (by simp) (fun _ => rfl) rfl fun _ hs => hs

theorem indexTask (hb : Base load s) (h : Balanced d s) (ht : Taking plan s.log)
    (hm : task ∈ plan.tasks.values) (hn : .indexed task ∉ s.log) :
    Balanced d (s.indexTask task) := by
  have heq := hb.accepted plan ht.accepted_mem
  rw [heq] at hm
  have hhas : load.Has task := .of_mem hm
  have hq : Quiet s (s.indexTask task) := .entry rfl rfl
  have hc : ∀ t, GfDit.consumed (s.indexTask task).log t = GfDit.consumed s.log t := by
    intro t
    simp [GfDit.consumed, Scheduler.indexTask, SchedulerEntry.consumes]
  refine ⟨fun duty hd t hab => hq.suffix.subset (h.duties duty hd t hab),
    fun m hmem => hq.suffix.subset (h.migrations m hmem), fun taskId hs => ?_, fun t hpos => ?_,
    fun t hmem => ?_⟩
  · obtain ⟨t, hmem, hid⟩ := h.parked taskId hs
    exact ⟨t, hq.suffix.subset hmem, hid⟩
  · rw [hc] at hpos
    exact hq.suffix.subset (h.consumed t hpos)
  · rw [hq.returned]
    rcases List.mem_cons.mp hmem with hmem | hmem
    · -- nothing is known of a task before it is indexed
      cases hmem
      have hcons : GfDit.consumed s.log task = 0 := by
        by_contra hne
        exact hn (h.consumed task (Nat.pos_of_ne_zero hne))
      have howes : d.countP (Duty.owes task) = 0 := by
        refine List.countP_eq_zero.mpr fun duty hd ho => hn (h.duties duty hd task ?_)
        cases duty with
        | task t =>
          have : t = task := by simpa [Duty.owes] using ho
          rw [this]
          rfl
        | _ => cases ho
      have hpark : s.parks task = 0 := by
        unfold parks
        rw [if_neg]
        intro hs
        obtain ⟨t, hmem, hid⟩ := h.parked task.taskId hs
        exact hn ((hb.indexed t hmem).1.eq hhas hid ▸ hmem)
      have hsame : (s.indexTask task).parks task = s.parks task := parks_congr rfl
      simp only [Scheduler.taken, hc, hcons, howes, hsame, hpark]
      exact Nat.zero_le _
    · have hsame : (s.indexTask task).parks t = s.parks t := parks_congr rfl
      have hle := h.taken t hmem
      simp only [Scheduler.taken, hc, hsame] at hle ⊢
      exact hle

-- Every move.

theorem asked (h : Balanced d s) (hr : Reports (s.asked question out w))
    (honce : OncePerReport (s.asked question out w).log) :
    Balanced (out.map .task ++ d) (s.asked question out w) := by
  have hs : s.log <:+ (s.asked question out w).log := List.suffix_cons ..
  have hc : ∀ t, GfDit.consumed (s.asked question out w).log t = GfDit.consumed s.log t := by
    intro t
    simp [GfDit.consumed, Scheduler.asked, SchedulerEntry.consumes]
  have hout : ∀ task ∈ out, .indexed task ∈ (s.asked question out w).log := by
    intro task hm
    refine hr.indexed task (lt_of_lt_of_le ?_ (OncePerReport.le honce task))
    rw [returned_asked]
    exact Nat.add_pos_left (List.count_pos_iff.mpr hm) _
  refine ⟨fun duty hd t hab => ?_, fun m hm => hs.subset (h.migrations m hm), fun taskId hp => ?_,
    fun t hpos => ?_, fun t hi => ?_⟩
  · rcases List.mem_append.mp hd with hd | hd
    · obtain ⟨task, hm, rfl⟩ := List.mem_map.mp hd
      cases hab
      exact hout t hm
    · exact hs.subset (h.duties duty hd t hab)
  · obtain ⟨t, hm, hid⟩ := h.parked taskId hp
    exact ⟨t, hs.subset hm, hid⟩
  · rw [hc] at hpos
    exact hs.subset (h.consumed t hpos)
  · have hle := h.taken t (by simpa [Scheduler.asked] using hi)
    have hsame : (s.asked question out w).parks t = s.parks t := parks_congr rfl
    simp only [Scheduler.taken, hc, hsame, returned_asked, List.countP_append,
      countP_owes_map] at hle ⊢
    omega

theorem occasion (hb : Base load s) (h : Balanced d s) (ho : Occasion d s question d' s') :
    Balanced d' s' := by
  cases ho with
  | submitted | launchEnd | emitted => exact h
  | finished | requested => exact h.pop
  | runnable =>
    exact h.pop.of_entry (.launched _) rfl rfl (by simp) (fun _ => rfl) rfl fun _ hs => hs
  | ended _ ht =>
    refine Balanced.of_eq (h.pop.push ?_ fun _ => rfl) rfl rfl rfl
    rintro t ⟨⟩
    exact ((hb.index _ _).mp ht).1
  | failed =>
    refine Balanced.push ?_ (fun _ ht => by cases ht) fun _ => rfl
    refine Balanced.failRequest ?_ _ _
    exact h.pop.of_eq rfl rfl rfl
  | acquire | freed => exact h.swap (fun _ ht => ht) fun _ => rfl
  | refused =>
    exact Balanced.swap (h.countMigration _) (fun _ ht => ht) fun _ => rfl

theorem about_duties (event : WorkerEvent) :
    ∀ duty ∈ event.duties, duty.about = none ∧ ∀ task, duty.owes task = false := by
  unfold WorkerEvent.duties
  cases event.kind <;> simp [Duty.about, Duty.owes]

theorem move (hb : Base load s) (hr : Reports s') (h : Balanced d s)
    (honce : OncePerReport s'.log) (hm : Move rt load d s d' s') : Balanced d' s' := by
  cases hm with
  | asked ho => exact (h.occasion hb ho).asked hr honce
  | accepted => exact h.of_entry (.accepted _) rfl rfl (by simp) (fun _ => rfl) rfl fun _ hs => hs
  | indexed ht hin hn => exact h.indexTask hb ht hin hn
  | finalized =>
    refine Balanced.push ?_ (fun t ht => List.mem_cons_of_mem _ (h.head t ht)) fun _ => rfl
    exact h.consumeDuty (.dispatched _ _ _ _) rfl rfl (by simp) (fun _ => rfl) rfl rfl
  | resharded =>
    refine Balanced.push ?_ (fun t ht => List.mem_cons_of_mem _ (h.head t ht)) fun _ => rfl
    exact h.consumeDuty (.resharded _) rfl rfl (by simp) (fun _ => rfl) rfl rfl
  | parked =>
    have hin := h.head _ rfl
    refine (h.park hb _ _).pushAll (fun duty hd t ht => ?_) fun duty hd t => ?_
    · obtain ⟨artifact, -, rfl⟩ := List.mem_map.mp hd
      cases ht
      exact List.mem_cons_of_mem _ hin
    · obtain ⟨artifact, -, rfl⟩ := List.mem_map.mp hd
      rfl
  | begun =>
    exact (h.pop.countMigration _).addMigration _ (List.mem_cons_of_mem _ (h.head _ rfl))
  | started =>
    refine Balanced.addMigration (Balanced.countMigration ?_ _) _
      (List.mem_cons_of_mem _ (h.head _ rfl))
    exact h.pop.of_eq rfl rfl rfl
  | notStarted =>
    refine Balanced.countMigration ?_ _
    exact (h.swap (fun _ ht => by cases ht) fun _ => rfl).of_eq rfl rfl rfl
  | received =>
    rename_i event
    refine Balanced.of_entry ?_ (.received event) rfl rfl (by simp) (fun _ => rfl) rfl fun _ hs => hs
    refine h.pushAll (fun duty hd t ht => ?_) fun duty hd => (about_duties event duty hd).2
    rw [(about_duties event duty hd).1] at ht
    cases ht
  | opened ht =>
    refine h.pop.push ?_ fun _ => rfl
    rintro t ⟨⟩
    exact ((hb.index _ _).mp ht).1
  | produced => exact h.of_entry (.produced _) rfl rfl (by simp) (fun _ => rfl) rfl fun _ hs => hs
  | failedRequest =>
    refine Balanced.failRequest ?_ _ _
    exact (h.pop.push (fun _ ht => by cases ht) fun _ => rfl).push (fun _ ht => by cases ht)
      fun _ => rfl
  | refused => exact Balanced.unpark (h.swap (fun _ ht => by cases ht) fun _ => rfl) _
  | abandoned => exact Balanced.unpark (h.swap (fun _ ht => by cases ht) fun _ => rfl) _
  | cleaned => exact h.pop.cleanup _
  | retired hin =>
    refine Balanced.push ?_ (fun t ht => ?_) fun _ => rfl
    · exact h.idle (.of_eq rfl) (fun _ hi => hi) (fun _ => rfl)
        (fun m hmem => List.mem_of_mem_filter hmem) fun _ hs => hs
    · cases ht
      exact h.migrations _ hin
  | landed hw hp =>
    exact h.pop.of_entry (.migrated _ _ _) rfl rfl (by simp) (fun _ => rfl) rfl
      fun _ hs => land_parked hp hs
  | landedLast hw hp hlast hlive hst =>
    rename_i n m d task artifact groupId rank ranks
    have hin : .indexed task ∈ s.log := h.head task (by simp [Duty.about, hw, Waiter.task])
    refine Balanced.push (h.pop.landLast hb hin hp artifact groupId rank) (fun t ht => ?_)
      fun _ => rfl
    cases ht
    exact List.mem_cons_of_mem _ (List.mem_cons_of_mem _ hin)
  | reshardDone =>
    exact (h.pop.push (fun _ ht => by cases ht) fun _ => rfl).push (fun _ ht => by cases ht)
      fun _ => rfl
  | reshardFailed => exact h.swap (fun _ ht => by cases ht) fun _ => rfl
  | notOpened | notFailed | checked | notRequested => exact h.pop
  | completed | fetched =>
    refine Balanced.cleanup ?_ _
    exact h.of_eq rfl rfl rfl
  | notFetched =>
    refine Balanced.cleanup (Balanced.failRequest ?_ _ _) _
    exact h.of_eq rfl rfl rfl
  | released => exact Balanced.of_eq (h.pop.cleanup _) rfl rfl rfl
  | sent => exact h.pop.of_eq rfl rfl rfl
  | listed | running | delivered | fetching | clock => exact h.of_eq rfl rfl rfl

theorem stop (hb : Base load s) (hr : Reports s') (h : Balanced d s)
    (honce : OncePerReport s'.log) (hs : Stop rt d s s') : Balanced [] s' := by
  have hnil : ∀ {d : List Duty} {s : Scheduler σ}, Balanced d s → Balanced [] s := by
    intro d s hd
    induction d with
    | nil => exact hd
    | cons duty d ih => exact ih hd.pop
  cases hs with
  | here => exact hnil h
  | asked ho =>
    have := (h.occasion hb ho).asked hr honce
    exact hnil this
  | lost =>
    refine hnil (Balanced.of_entry h (.launched _) rfl rfl (by simp) (fun _ => rfl) rfl ?_)
    exact fun _ hs => hs
  | starved hw hp hst =>
    rename_i n m d task artifact groupId rank refcounts ranks
    refine hnil (Balanced.of_entry h (.migrated _ _ _) rfl rfl (by simp) (fun _ => rfl) rfl ?_)
    intro taskId hs
    have hs' : ((s.land task artifact groupId rank 0).parkedPending.get? taskId).isSome = true := hs
    exact land_parked hp hs'

theorem invariant (rt : Runtime σ) (load : Workload) :
    Invariant (machine rt load) fun d s =>
      (Base load s ∧ Reports s) ∧ (OncePerReport s.log → Balanced d s) :=
  invariant_given OncePerReport.hereditary (Reports.invariant rt load)
    (fun hi h honce hm => h.move hi.1 (hi.2.move hi.1 hm) honce hm)
    fun hi h honce hs => h.stop hi.1 (hi.2.stop hi.1 hs) honce hs

/-- A task that is owed or parked was not consumed before. -/
theorem not_consumed (hr : Reports s) (honce : OncePerReport s.log) (h : Balanced d s)
    (hi : .indexed task ∈ s.log) (hpos : 0 < d.countP (Duty.owes task) + s.parks task) :
    GfDit.consumed s.log task = 0 := by
  have hle := h.taken task hi
  have hreport := (OncePerReport.le honce task).trans (hr.once task)
  unfold Scheduler.taken at hle
  omega

theorem begin (h : Balanced [] s) (step : Step) : Balanced step.duties s := by
  cases step with
  | release => exact h.push (fun _ ht => by cases ht) fun _ => rfl
  | _ => exact h

end Balanced

end Scheduler

end GfDit
