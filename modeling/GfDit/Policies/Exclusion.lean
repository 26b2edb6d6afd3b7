import GfDit.Policies.EdfBooks
import GfDit.Policies.WaveBooks

/-!
# Rank mutual exclusion

The four rank-accounting policies under any sequence of calls. What the
scheduler can rely on is one contract, `KeepsBooks`, which each policy meets;
the counters are then right in every reachable state.

The dynamic-step FCFS and the wave-stress policy tell a RESHARD from an
ordinary task by the text entered for it, `"__reshard__"` or the group's id.
A group of that name is taken for a RESHARD when its task ends, so for these
two the counters are right for topologies without such a group.
-/

namespace GfDit

open Prog

-- ---------------------------------------------------------------------------
-- The contract
-- ---------------------------------------------------------------------------

structure KeepsBooks (policy : SchedulerPolicy σ) (accounts : σ → RankAccounts)
    (known : String → InferenceTask) (sound : World σ → Prop) : Prop where
  booked : ∀ {w}, sound w → Booked known w.topology w.tasks (accounts w.policy)
  submitted : ∀ {w plan}, sound w → (∀ task ∈ plan.rootTasks, known task.taskId = task) →
    wp (policy.onRequestSubmitted plan) (Ticks known sound accounts w)
      (fun _ => Keeps known sound w) w
  runnable : ∀ {w tasks}, sound w → (∀ task ∈ tasks, known task.taskId = task) →
    wp (policy.onTasksRunnable tasks) (Ticks known sound accounts w)
      (fun _ => Keeps known sound w) w
  event : ∀ {w} event, sound w →
    wp (policy.onWorkerEvent event) (Answers known sound accounts event w)
      (fun _ => Keeps known sound w) w
  acquire : ∀ {w ranks}, sound w → ranks.Nodup →
    wp (policy.acquireMigrationHold ranks) (fun _ w' => Keeps known sound w w' ∧
      (accounts w'.policy).log = .held ranks :: (accounts w.policy).log) (fun _ _ => False) w
  release : ∀ {w ranks}, sound w → ranks ∈ holds (accounts w.policy).log →
    wp (policy.releaseMigrationHold ranks) (fun _ w' => Keeps known sound w w' ∧
      (accounts w'.policy).log = .unheld ranks :: (accounts w.policy).log) (fun _ _ => False) w
  status : ∀ {w task} status, sound w → known task.taskId = task → sound (w.setStatus task status)
  clock : ∀ {w} clockNs, sound w → sound { w with clockNs }

theorem DynamicStepFcfs.keepsBooks (known : String → InferenceTask) :
    KeepsBooks DynamicStepFcfs.policy accounts known (Sound known) where
  booked := Sound.booked
  submitted := onRequestSubmitted_ticks
  runnable := onTasksRunnable_ticks
  event := fun event h => onWorkerEvent_answers h event
  acquire := fun h hn => ⟨⟨{ h with booked := h.booked.acquireMigrationHold hn }, .refl,
    fun _ hm => hm⟩, rfl⟩
  release := fun h hm => ⟨⟨{ h with booked := h.booked.releaseMigrationHold hm }, .refl,
    fun _ hm => hm⟩, rfl⟩
  status := fun status h hk => h.settle (.setStatus hk status)
  clock := fun _ h => ⟨h.booked, h.unnamed, h.queued, h.reshards⟩

theorem WaveStress.keepsBooks (known : String → InferenceTask) :
    KeepsBooks WaveStress.policy accounts known (Sound known) where
  booked := fun h => h.base.booked
  submitted := onRequestSubmitted_ticks
  runnable := onTasksRunnable_ticks
  event := fun event h => onWorkerEvent_answers h event
  acquire := fun h hn => ⟨⟨{ h with base := { h.base with
    booked := h.base.booked.acquireMigrationHold hn } }, .refl, fun _ hm => hm⟩, rfl⟩
  release := fun h hm => ⟨⟨{ h with base := { h.base with
    booked := h.base.booked.releaseMigrationHold hm } }, .refl, fun _ hm => hm⟩, rfl⟩
  status := fun status h hk => h.settle (.setStatus hk status)
  clock := fun _ h => ⟨⟨h.base.booked, h.base.unnamed, h.base.queued, h.base.reshards⟩, h.waiting,
    h.held⟩

namespace Edf

variable {policy : SchedulerPolicy Edf} {known : String → InferenceTask} {w : World Edf}

theorem acquire_holds (h : Sound known w) (hn : ranks.Nodup) :
    Sound known { w with policy := { w.policy with
      accounts := w.policy.accounts.acquireMigrationHold ranks } } :=
  { h with booked := h.booked.acquireMigrationHold hn }

theorem release_holds (h : Sound known w) (hm : ranks ∈ holds w.policy.accounts.log) :
    Sound known { w with policy := { w.policy with
      accounts := w.policy.accounts.releaseMigrationHold ranks } } :=
  { h with booked := h.booked.releaseMigrationHold hm }

theorem greedy_keepsBooks (known : String → InferenceTask) :
    KeepsBooks edfGreedyPolicy accounts known (Sound known) where
  booked := Sound.booked
  submitted := onRequestSubmittedWith_ticks takeDispatchableTasks_ticks metaFromPlan_ticks
  runnable := onTasksRunnableWith_ticks takeDispatchableTasks_ticks
  event := fun event h => onWorkerEventWith_answers takeDispatchableTasks_ticks h event
  acquire := fun h hn => ⟨⟨acquire_holds h hn, .refl, fun _ hm => hm⟩, rfl⟩
  release := fun h hm => ⟨⟨release_holds h hm, .refl, fun _ hm => hm⟩, rfl⟩
  status := fun status h hk => h.setStatus hk status
  clock := fun _ h => ⟨h.booked, h.ordinary, h.queued, h.unplaced⟩

theorem bestFit_keepsBooks (known : String → InferenceTask) :
    KeepsBooks edfBestFitPolicy accounts known (Sound known) where
  booked := Sound.booked
  submitted := bestFitOnRequestSubmitted_ticks
  runnable := onTasksRunnableWith_ticks bestFitTake_ticks
  event := fun event h => onWorkerEventWith_answers bestFitTake_ticks h event
  acquire := fun h hn => ⟨⟨acquire_holds h hn, .refl, fun _ hm => hm⟩, rfl⟩
  release := fun h hm => ⟨⟨release_holds h hm, .refl, fun _ hm => hm⟩, rfl⟩
  status := fun status h hk => h.setStatus hk status
  clock := fun _ h => ⟨h.booked, h.ordinary, h.queued, h.unplaced⟩

end Edf

-- ---------------------------------------------------------------------------
-- The family
-- ---------------------------------------------------------------------------

inductive RankPolicy
  | dynamicStepFcfs | edfGreedy | edfBestFit | waveStress
  deriving DecidableEq, Repr

namespace RankPolicy

def State : RankPolicy → Type
  | dynamicStepFcfs => DynamicStepFcfs
  | edfGreedy | edfBestFit => Edf
  | waveStress => WaveStress

def policy : (k : RankPolicy) → SchedulerPolicy k.State
  | dynamicStepFcfs => DynamicStepFcfs.policy
  | edfGreedy => edfGreedyPolicy
  | edfBestFit => edfBestFitPolicy
  | waveStress => WaveStress.policy

def accounts : (k : RankPolicy) → k.State → RankAccounts
  | dynamicStepFcfs => DynamicStepFcfs.accounts
  | edfGreedy | edfBestFit => Edf.accounts
  | waveStress => WaveStress.accounts

/-- What each policy keeps between calls. -/
def Sound : (k : RankPolicy) → (String → InferenceTask) → World k.State → Prop
  | dynamicStepFcfs => DynamicStepFcfs.Sound
  | edfGreedy | edfBestFit => Edf.Sound
  | waveStress => WaveStress.Sound

theorem keepsBooks (known : String → InferenceTask) :
    (k : RankPolicy) → KeepsBooks k.policy k.accounts known (k.Sound known)
  | dynamicStepFcfs => DynamicStepFcfs.keepsBooks known
  | edfGreedy => Edf.greedy_keepsBooks known
  | edfBestFit => Edf.bestFit_keepsBooks known
  | waveStress => WaveStress.keepsBooks known

/-- Whether the policy reads from the entry what kind of task has ended. -/
def readsEntry : RankPolicy → Bool
  | dynamicStepFcfs | waveStress => true
  | edfGreedy | edfBestFit => false

/-- A world just after the policy was constructed over a topology. -/
def Started (topology : RuntimeTopology) : (k : RankPolicy) → World k.State → Prop
  | dynamicStepFcfs, w => w.tasks = ∅ ∧ w.topology = topology ∧
      ∃ ids schedule, w.policy = DynamicStepFcfs.init ids schedule
  | edfGreedy, w | edfBestFit, w => w.tasks = ∅ ∧ w.topology = topology ∧
      ∃ estimator allowed sizes, Edf.normalizeAllowedSpSizes topology.workers allowed = .ok sizes ∧
        w.policy = Edf.init estimator sizes
  | waveStress, w => w.tasks = ∅ ∧
      ∃ ids schedule warmupReqs waveSize auxGroupId backend requireGfc,
        WaveStress.make topology (.init ids schedule) warmupReqs waveSize auxGroupId backend
          requireGfc = .ok (w.topology, w.policy)

end RankPolicy

-- ---------------------------------------------------------------------------
-- Runs
-- ---------------------------------------------------------------------------

/-- The tasks there are, by id. A RESHARD comes without a group, which
`submit_request` checks. -/
structure Catalog where
  task : String → InferenceTask
  reshard_unplaced : ∀ taskId, (task taskId).kind = .reshard → (task taskId).groupId = none

inductive PolicyCall
  | submitted (plan : RequestExecutionPlan)
  | runnable (tasks : List InferenceTask)
  | event (event : WorkerEvent)
  | acquire (ranks : List Rank)
  | release (ranks : List Rank)
  -- what others do to the shared state: a task's status, the clock
  | status (task : InferenceTask) (status : TaskStatus)
  | clock (clockNs : Nat)

def PolicyCall.run (policy : SchedulerPolicy σ) : PolicyCall → PolicyM σ Unit
  | .submitted plan => (fun _ => ()) <$> policy.onRequestSubmitted plan
  | .runnable tasks => (fun _ => ()) <$> policy.onTasksRunnable tasks
  | .event e => (fun _ => ()) <$> policy.onWorkerEvent e
  | .acquire ranks => policy.acquireMigrationHold ranks
  | .release ranks => policy.releaseMigrationHold ranks
  | .status task s => modify fun w => w.setStatus task s
  | .clock clockNs => modify fun w => { w with clockNs }

def PolicyCall.Fits (catalog : Catalog) (log : List AccountEntry) : PolicyCall → Prop
  | .submitted plan => ∀ task ∈ plan.tasks.values, catalog.task task.taskId = task
  | .runnable tasks => ∀ task ∈ tasks, catalog.task task.taskId = task
  | .acquire ranks => ranks.Nodup
  | .release ranks => ranks ∈ holds log
  | .status task _ => catalog.task task.taskId = task
  | .event _ | .clock _ => True

/-- The states of a policy over a topology. A call that raises leaves the
state it has reached. -/
inductive RankPolicy.Reach (k : RankPolicy) (catalog : Catalog) (topology : RuntimeTopology) :
    World k.State → Prop
  | start : k.Started topology w → Reach k catalog topology w
  | call (call : PolicyCall) : Reach k catalog topology w →
      call.Fits catalog (k.accounts w.policy).log →
      Reach k catalog topology (after (call.run k.policy) w)

-- ---------------------------------------------------------------------------
-- Every reachable state
-- ---------------------------------------------------------------------------

theorem WaveStress.stressGroups_fit : ∀ group ∈ stressGroups,
    group.ranks.Nodup ∧ group.groupId ≠ reshardTarget := by decide

theorem WaveStress.ensureStressSubgroups_fit {topology topology' : RuntimeTopology}
    {groups : List ExecutionGroupSpec}
    (hg : ∀ group ∈ groups, group.ranks.Nodup ∧ group.groupId ≠ reshardTarget)
    (hd : ∀ group ∈ topology.groups, group.ranks.Nodup)
    (hs : topology.find reshardTarget = none)
    (h : ensureStressSubgroups topology groups = .ok topology') :
    (∀ group ∈ topology'.groups, group.ranks.Nodup) ∧ topology'.find reshardTarget = none := by
  induction groups generalizing topology with
  | nil =>
    obtain rfl := Except.pure_eq_ok.mp h
    exact ⟨hd, hs⟩
  | cons group groups ih =>
    obtain ⟨⟨result, middle⟩, he, h⟩ := Except.bind_eq_ok.mp h
    obtain ⟨-, -, -, hgroups⟩ := RuntimeTopology.ensureGroup_ok he
    have hfit := hg group (List.mem_cons_self ..)
    refine ih (fun g hm => hg g (List.mem_cons_of_mem _ hm)) (fun g hm => ?_) ?_ h
    · rcases (hgroups g).mp hm with hm | rfl
      · exact hd g hm
      · exact hfit.1
    · cases hf : middle.find reshardTarget with
      | none => rfl
      | some found =>
        obtain ⟨hm, hid⟩ := RuntimeTopology.find_eq_some.mp hf
        rcases (hgroups found).mp hm with hm | rfl
        · rw [RuntimeTopology.find_eq_some.mpr ⟨hm, hid⟩] at hs
          cases hs
        · exact absurd hid hfit.2

theorem WaveStress.make_ok {topology topology' : RuntimeTopology} {parent : DynamicStepFcfs}
    {p : WaveStress}
    (h : WaveStress.make topology parent warmup size aux backend gfc = .ok (topology', p)) :
    ensureStressSubgroups topology stressGroups = .ok topology' ∧ p.base = parent ∧
      p.heldPlans = [] ∧ p.waveReadyByReq = ∅ := by
  obtain ⟨_, -, h⟩ := Except.bind_eq_ok.mp h
  obtain ⟨topology, hgroups, h⟩ := Except.bind_eq_ok.mp h
  obtain ⟨_, -, h⟩ := Except.bind_eq_ok.mp h
  obtain ⟨rfl, rfl⟩ := Prod.mk.inj (Except.pure_eq_ok.mp h)
  exact ⟨hgroups, rfl, rfl, rfl⟩

theorem RankPolicy.Started.sound {k : RankPolicy} {topology : RuntimeTopology} {w : World k.State}
    (h : k.Started topology w) (catalog : Catalog)
    (hd : ∀ group ∈ topology.groups, group.ranks.Nodup)
    (hs : k.readsEntry = true → topology.find reshardTarget = none) :
    k.Sound catalog.task w := by
  have hunplaced : w.tasks = ∅ → ∀ task : InferenceTask, catalog.task task.taskId = task →
      task.kind = .reshard → w.tasks.groupId task = none := by
    intro he task hk hr
    rw [he]
    show task.groupId = none
    have hfree := catalog.reshard_unplaced task.taskId
    rw [hk] at hfree
    exact hfree hr
  cases k with
  | dynamicStepFcfs =>
    obtain ⟨-, rfl, ids, schedule, hp⟩ := h
    exact DynamicStepFcfs.Sound.init hd (hs rfl) hp
  | edfGreedy | edfBestFit =>
    obtain ⟨he, rfl, estimator, allowed, sizes, -, hp⟩ := h
    exact Edf.Sound.init hd (hunplaced he) hp
  | waveStress =>
    obtain ⟨he, ids, schedule, warmup, size, aux, backend, gfc, hmake⟩ := h
    obtain ⟨hgroups, hbase, hheld, hwave⟩ := WaveStress.make_ok hmake
    obtain ⟨hd', hs'⟩ :=
      WaveStress.ensureStressSubgroups_fit WaveStress.stressGroups_fit hd (hs rfl) hgroups
    exact ⟨DynamicStepFcfs.Sound.init hd' hs' hbase, by simp [hwave], by simp [hheld]⟩

theorem KeepsBooks.call {policy : SchedulerPolicy σ} {accounts : σ → RankAccounts}
    {sound : World σ → Prop} {catalog : Catalog} {w : World σ}
    (hb : KeepsBooks policy accounts catalog.task sound) (h : sound w) {call : PolicyCall}
    (hf : call.Fits catalog (accounts w.policy).log) : sound (after (call.run policy) w) := by
  refine after_of_wp ?_
  cases call with
  | submitted plan =>
    refine (wp_map ..).mpr (wp_mono (hb.submitted h fun task hm => hf task ?_)
      (fun _ _ ht => ht.sound) fun _ _ he => he.sound)
    exact List.mem_of_mem_filter hm
  | runnable tasks =>
    exact (wp_map ..).mpr (wp_mono (hb.runnable h hf) (fun _ _ ht => ht.sound)
      fun _ _ he => he.sound)
  | event e =>
    exact (wp_map ..).mpr (wp_mono (hb.event e h) (fun _ _ ht => ht.sound) fun _ _ he => he.sound)
  | acquire ranks =>
    exact wp_mono (hb.acquire h hf) (fun _ _ ht => ht.1.sound) fun _ _ he => he.elim
  | release ranks =>
    exact wp_mono (hb.release h hf) (fun _ _ ht => ht.1.sound) fun _ _ he => he.elim
  | status task s => exact hb.status s h hf
  | clock clockNs => exact hb.clock clockNs h

theorem RankPolicy.Reach.sound {k : RankPolicy} {catalog : Catalog} {topology : RuntimeTopology}
    (hd : ∀ group ∈ topology.groups, group.ranks.Nodup)
    (hs : k.readsEntry = true → topology.find reshardTarget = none) {w : World k.State}
    (h : k.Reach catalog topology w) : k.Sound catalog.task w := by
  induction h with
  | start hstart => exact hstart.sound catalog hd hs
  | call call _ hf ih => exact (k.keepsBooks catalog.task).call ih hf

/-- A rank's count is the number of ordinary tasks dispatched on it and not
released, at most one; its hold count is the number of RESHARD tasks in
flight and migration holds on it; and every task was dispatched on ranks free
of both. -/
def RanksExclusive (a : RankAccounts) : Prop :=
  (∀ rank,
    a.outstandingPerRank.getD rank 0 = (claims a.log).countP (Claim.ordinaryOn rank) ∧
    a.outstandingPerRank.getD rank 0 ≤ 1 ∧
    a.reshardHoldsByRank.getD rank 0 =
      (claims a.log).countP (Claim.reshardOn rank) + (holds a.log).countP (rank ∈ ·)) ∧
  FreeBefore a.log

/-- Rank mutual exclusion, in every reachable state of the four policies. -/
theorem rank_mutual_exclusion (k : RankPolicy) (catalog : Catalog) (topology : RuntimeTopology)
    (hd : ∀ group ∈ topology.groups, group.ranks.Nodup)
    (hs : k.readsEntry = true → topology.find reshardTarget = none) (w : World k.State)
    (h : k.Reach catalog topology w) : RanksExclusive (k.accounts w.policy) := by
  have hb := (k.keepsBooks catalog.task).booked (h.sound hd hs)
  exact ⟨fun rank => ⟨hb.perRank rank, hb.once rank, hb.held rank⟩, hb.free⟩

-- One group of one rank, and a task pinned to it that runs and ends.

def soloGroup (groupId : String) : ExecutionGroupSpec :=
  soloSpec groupId 0 [.textEncode]

def soloTopology (groupId : String) : RuntimeTopology :=
  ⟨[0], [soloGroup groupId], one_worker, List.nodup_singleton _, by simp [soloGroup, soloSpec]⟩

def soloTask (groupId : String) : InferenceTask :=
  ⟨"t", "r", .textEncode, some groupId, .pending, 0, [], [], [], none, ∅⟩

def soloCatalog (groupId : String) : Catalog :=
  ⟨fun _ => soloTask groupId, fun _ h => by cases h⟩

def soloStart (groupId : String) : World DynamicStepFcfs :=
  ⟨soloTopology groupId, ∅, 0, .init none []⟩

def soloEnd : WorkerEvent := ⟨"t", "r", "", .taskExecEnd, 0, "", []⟩

def soloDispatched (groupId : String) : World DynamicStepFcfs :=
  after ((PolicyCall.runnable [soloTask groupId]).run DynamicStepFcfs.policy) (soloStart groupId)

def soloEnded (groupId : String) : World DynamicStepFcfs :=
  after ((PolicyCall.event soloEnd).run DynamicStepFcfs.policy) (soloDispatched groupId)

theorem soloEnded_reach (groupId : String) :
    RankPolicy.dynamicStepFcfs.Reach (soloCatalog groupId) (soloTopology groupId)
      (soloEnded groupId) := by
  refine .call (.event soloEnd) (.call (.runnable [soloTask groupId]) (.start ?_) ?_) trivial
  · exact ⟨rfl, rfl, none, [], rfl⟩
  · intro task hm
    rw [List.mem_singleton.mp hm]
    rfl

/-- The books of a task that was dispatched and has ended. -/
theorem solo_exclusive : (soloDispatched "g").policy.accounts.outstandingPerRank.getD 0 0 = 1 ∧
    RanksExclusive (soloEnded "g").policy.accounts :=
  ⟨by decide, rank_mutual_exclusion .dynamicStepFcfs (soloCatalog "g") (soloTopology "g")
    (by decide) (fun _ => by decide) (soloEnded "g") (soloEnded_reach "g")⟩

/-- On a group that goes by the name of the RESHARD entry the rank stays
counted after its only task has ended. -/
theorem reshard_named_group_stranded :
    ¬ ∀ (k : RankPolicy) (catalog : Catalog) (topology : RuntimeTopology),
      (∀ group ∈ topology.groups, group.ranks.Nodup) → ∀ w : World k.State,
        k.Reach catalog topology w → RanksExclusive (k.accounts w.policy) := by
  intro h
  have hx := h .dynamicStepFcfs (soloCatalog reshardTarget) (soloTopology reshardTarget) (by decide)
    (soloEnded reshardTarget) (soloEnded_reach reshardTarget)
  have hcount := (hx.1 0).1
  exact absurd hcount (by decide)

end GfDit
