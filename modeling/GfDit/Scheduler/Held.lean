import GfDit.Scheduler.Reports
import Mathlib.Data.List.Flatten

/-!
# What a policy holds

A policy that gives out only what it was told of keeps the rest in its queues.
`Holds` says so of one call, with the queues as a list; every run of the
scheduler with such a policy is `OncePerReport`, also when calls raise. The
dynamic-step FCFS policy is one.
-/

namespace GfDit

open History Prog Agenda

-- ---------------------------------------------------------------------------
-- A policy along a run
-- ---------------------------------------------------------------------------

section

variable {σ : Type} {held : σ → List InferenceTask} {w w' w'' : World σ}

def Passes (held : σ → List InferenceTask) (told : List InferenceTask) (w : World σ)
    (out : List InferenceTask) (w' : World σ) : Prop :=
  ∀ task, out.count task + (held w'.policy).count task ≤
    (held w.policy).count task + told.count task

namespace Passes

theorem of_held (h : held w'.policy = held w.policy) : Passes held told w [] w' := fun task => by
  rw [h, List.count_nil]
  omega

theorem trans (h : Passes held told w out w') (h' : Passes held told' w' rest w'') :
    Passes held (told ++ told') w (out ++ rest) w'' := fun task => by
  have hfirst := h task
  have hsecond := h' task
  rw [List.count_append, List.count_append]
  omega

/-- What raises after some were given out does not have them back. -/
theorem drop (h : Passes held told w out w') : Passes held told w [] w' := fun task => by
  have htask := h task
  rw [List.count_nil]
  omega

theorem more (h : Passes held told w out w') (later : List InferenceTask) :
    Passes held (told ++ later) w out w' := fun task => by
  have htask := h task
  rw [List.count_append]
  omega

end Passes

/-- Every call of the policy gives out no more than it held and was told. -/
structure Holds (policy : SchedulerPolicy σ) (held : σ → List InferenceTask) : Prop where
  call : ∀ (question : Ask) (w : World σ), wp (question.run policy)
    (Passes held question.reported w) (fun _ => Passes held question.reported w []) w

end

namespace Scheduler

variable {σ : Type} {rt : Runtime σ} {load : Workload} {held : σ → List InferenceTask}
  {s s' : Scheduler σ}

/-- What was reported covers what was returned and what is held. -/
structure Accounted (held : σ → List InferenceTask) (s : Scheduler σ) : Prop where
  each : Each ReturnsReported s.log
  left : ∀ task, returned s.log task + (held s.world.policy).count task ≤ reported s.log task

theorem Accounted.quiet (h : Accounted held s) (hq : Quiet s s')
    (hp : s'.world.policy = s.world.policy) : Accounted held s' where
  each := by
    obtain ⟨entries, hlog, hasks⟩ := hq
    rw [hlog]
    refine h.each.append fun entry hm before task hout => ?_
    cases entry with
    | asked => cases hasks _ hm
    | _ => cases hout
  left task := by
    rw [hq.returned, hq.reported, hp]
    exact h.left task

theorem Accounted.asked (h : Accounted held s) {question : Ask} {out : List InferenceTask}
    {w : World σ} (hcall : Passes held question.reported s.world out w) :
    Accounted held (s.asked question out w) := by
  have hleft : ∀ task, returned (s.asked question out w).log task + (held w.policy).count task ≤
      reported (s.asked question out w).log task := by
    intro task
    have hbefore := h.left task
    have hnow := hcall task
    rw [returned_asked, reported_asked]
    omega
  exact ⟨⟨fun task _ => (Nat.le_add_right ..).trans (hleft task), h.each⟩, hleft⟩

theorem Accounted.invariant (hp : Holds rt.policy held) :
    Invariant (machine rt load) fun _ s => Accounted held s where
  move h hm := by
    rcases Move.asked_or_quiet hm with ⟨question, _, s₁, out, w, ho, hr, -, rfl⟩ | ⟨hq, hpolicy⟩
    · have hcall := hp.call question s₁.world
      rw [wp, hr] at hcall
      exact (h.quiet ho.quiet ho.policy_eq).asked hcall
    · exact h.quiet hq hpolicy
  stop h hs := by
    cases hs with
    | here => exact h
    | lost | starved => exact h.quiet (.entry rfl rfl) rfl
    | asked ho hr =>
      rename_i question d' s₁ w
      obtain ⟨e, hr⟩ := hr
      have hcall := hp.call question s₁.world
      rw [wp, hr] at hcall
      exact (h.quiet ho.quiet ho.policy_eq).asked hcall

/-- With a policy that starts without tasks, every run keeps to the reports. -/
theorem oncePerReport_of_holds (hp : Holds rt.policy held) {w : World σ}
    (hempty : held w.policy = []) {steps : List Step} (hplays : Plays rt load steps (.init w)) :
    OncePerReport (play rt load steps (.init w)).log := by
  have hrun : ∀ {steps : List Step} {s : Scheduler σ}, Base load s → Accounted held s →
      Plays rt load steps s → Accounted held (play rt load steps s) := by
    intro steps
    induction steps with
    | nil => exact fun _ hc _ => hc
    | cons step steps ih =>
      intro s hb hc hplays
      refine ih (base_step hb hplays.1) ?_ hplays.2
      exact after_of_wp ((Accounted.invariant hp).wp (does_step hb hplays.1) hc)
  have hstart : Accounted held (.init w) :=
    ⟨trivial, fun task => by simp [Scheduler.init, hempty, returned]⟩
  exact oncePerReport_of_each (hrun (.init w) hstart hplays).each

end Scheduler

-- ---------------------------------------------------------------------------
-- The dynamic-step FCFS policy
-- ---------------------------------------------------------------------------

/-- Overwriting a queue trades its tasks for those of the new one. -/
theorem count_flatten_set {κ α : Type} [DecidableEq κ] [DecidableEq α] (d : Dict κ (List α))
    (key : κ) (queue : List α) (a : α) :
    (d.set key queue).values.flatten.count a + (d.getD key []).count a =
      d.values.flatten.count a + queue.count a := by
  have hin : ∀ entries : List (κ × List α),
      ((Dict.setIn entries key queue).map Prod.snd).flatten.count a +
          ((Dict.lookupIn entries key).getD []).count a =
        (entries.map Prod.snd).flatten.count a + queue.count a := by
    intro entries
    induction entries with
    | nil => simp [Dict.setIn, Dict.lookupIn]
    | cons entry rest ih =>
      obtain ⟨k, v⟩ := entry
      by_cases hk : k = key
      · simp only [Dict.setIn, Dict.lookupIn, hk, if_true, List.map_cons, List.flatten_cons,
          List.count_append, Option.getD_some]
        omega
      · simp only [Dict.setIn, Dict.lookupIn, hk, if_false, List.map_cons, List.flatten_cons,
          List.count_append]
        omega
  exact hin d.entries

theorem count_flatten_erase {κ α : Type} [DecidableEq κ] [DecidableEq α] (d : Dict κ (List α))
    (key : κ) (a : α) : (d.erase key).values.flatten.count a ≤ d.values.flatten.count a :=
  (List.Sublist.flatten (List.filter_sublist.map Prod.snd)).count_le a

namespace DynamicStepFcfs

variable {w w' : World DynamicStepFcfs}

def held (p : DynamicStepFcfs) : List InferenceTask := p.reshardReady ++ p.groupReady.values.flatten

theorem takeQueue_passes (hq : w.policy.groupReady.getD groupId [] = queue) :
    wp (takeQueue groupId ranks queue) (Passes held [] w) (fun _ _ => False) w := by
  induction queue generalizing w with
  | nil => exact .of_held rfl
  | cons task rest ih =>
    simp only [takeQueue, wp_bind, wp_get, wp_ite, wp_modify, wp_pure]
    split
    · have hhead (accounts : RankAccounts) : Passes held [] w [task]
          { w.setStatus task .dispatched with policy := { w.policy with
            groupReady := w.policy.groupReady.set groupId rest, accounts } } := fun other => by
        have hset := count_flatten_set w.policy.groupReady groupId rest other
        rw [hq, List.count_cons] at hset
        simp only [held, List.count_append, List.count_cons, List.count_nil]
        omega
      exact wp_mono (ih (by simp [Dict.getD])) (fun _ _ hrest => (hhead _).trans hrest)
        fun _ _ he => he
    · exact .of_held rfl

theorem popEmpty_held (p : DynamicStepFcfs) (groupId : String) (task : InferenceTask) :
    (p.popEmpty groupId).held.count task ≤ p.held.count task := by
  unfold popEmpty
  split
  · simp only [held, List.count_append]
    exact Nat.add_le_add_left (count_flatten_erase ..) _
  · exact le_rfl

theorem takeGroups_passes (groups : List ExecutionGroupSpec) :
    wp (takeGroups groups) (Passes held [] w) (fun _ _ => False) w := by
  induction groups generalizing w with
  | nil => exact .of_held rfl
  | cons group groups ih =>
    simp only [takeGroups, wp_bind, wp_get, wp_ite, wp_modify, wp_pure]
    split
    · exact ih
    · refine wp_mono (takeQueue_passes rfl) (fun out w₁ hqueue => ?_) fun _ _ he => he
      have hpopped : Passes held [] w out
          { w₁ with policy := w₁.policy.popEmpty group.groupId } := fun task =>
        (Nat.add_le_add_left (popEmpty_held ..) _).trans (hqueue task)
      exact wp_mono ih (fun _ _ hrest => hpopped.trans hrest) fun _ _ he => he

theorem takeReshards_passes (hq : w.policy.reshardReady = queue) :
    wp (takeReshards queue) (Passes held [] w) (fun _ => Passes held [] w []) w := by
  induction queue generalizing w with
  | nil => exact .of_held rfl
  | cons task rest ih =>
    simp only [takeReshards, reshardRanks, wp_bind, wp_get, wp_ite, wp_modify, wp_pure]
    split
    · refine wp_check (fun src _ => ?_) fun _ _ => .of_held rfl
      refine wp_check (fun dst _ => ?_) fun _ _ => .of_held rfl
      refine World.wp_getGroup (fun srcGroup _ => ?_) fun _ => .of_held rfl
      refine World.wp_getGroup (fun dstGroup _ => ?_) fun _ => .of_held rfl
      have hhead (accounts : RankAccounts) : Passes held [] w [task]
          { w.setStatus task .dispatched with
            policy := { w.policy with reshardReady := rest, accounts } } := fun other => by
        simp only [held, hq, List.cons_append, List.count_cons, List.count_nil]
        omega
      split
      · exact wp_mono (ih rfl) (fun _ _ hrest => (hhead _).trans hrest)
          fun _ _ hrest => ((hhead _).trans hrest).drop
      · exact .of_held rfl
    · exact .of_held rfl

theorem takeDispatchableTasks_passes :
    wp takeDispatchableTasks (Passes held [] w) (fun _ => Passes held [] w []) w := by
  simp only [takeDispatchableTasks, wp_bind, wp_get, wp_pure]
  refine wp_mono (takeReshards_passes rfl) (fun reshards w₁ hreshards => ?_) fun _ _ he => he
  exact wp_mono (takeGroups_passes _) (fun ordinary w₂ hgroups => hreshards.trans hgroups)
    fun _ _ he => he.elim

theorem enqueue_held (p : DynamicStepFcfs) (task : InferenceTask) (groupId : Option String)
    (other : InferenceTask) :
    (p.enqueue task groupId).held.count other ≤ p.held.count other + [task].count other := by
  unfold enqueue
  split
  · simp only [held, List.count_append]
    omega
  · next groupId _ =>
    have hset := count_flatten_set p.groupReady groupId
      (p.groupReady.getD groupId [] ++ [task]) other
    rw [List.count_append] at hset
    simp only [held, List.count_append]
    omega
  · exact Nat.le_add_right ..

theorem enqueueRunnable_passes (task : InferenceTask) :
    wp (enqueueRunnable task) (fun _ => Passes held [task] w [])
      (fun _ => Passes held [task] w []) w := by
  have hassign : wp (assignGroup task) (fun _ w' => w'.policy = w.policy)
      (fun _ w' => w'.policy = w.policy) w := by
    simp only [assignGroup, wp_bind, wp_get, wp_ite, wp_modify, wp_pure]
    split
    · exact wp_check (fun _ _ => rfl) fun _ _ => rfl
    · trivial
  simp only [enqueueRunnable, wp_bind, wp_get, wp_modify]
  refine wp_mono hassign (fun _ w₁ hsame => ?_) fun _ _ hsame => .of_held (congrArg held hsame)
  refine wp_check (fun _ _ other => ?_) fun _ _ => .of_held (congrArg held hsame)
  rw [List.count_nil, Nat.zero_add, ← hsame]
  exact enqueue_held ..

theorem enqueueAll_passes (tasks : List InferenceTask) :
    wp (tasks.forM enqueueRunnable) (fun _ => Passes held tasks w [])
      (fun _ => Passes held tasks w []) w := by
  induction tasks generalizing w with
  | nil => exact Passes.of_held rfl
  | cons task tasks ih =>
    show wp (enqueueRunnable task >>= fun _ => tasks.forM enqueueRunnable) _ _ w
    rw [wp_bind]
    refine wp_mono (enqueueRunnable_passes task) (fun _ w₁ hfirst => ?_)
      fun _ _ hfirst => hfirst.more tasks
    exact wp_mono ih (fun _ _ hrest => hfirst.trans hrest) fun _ _ hrest => hfirst.trans hrest

theorem onTasksRunnable_passes (tasks : List InferenceTask) :
    wp (onTasksRunnable tasks) (Passes held tasks w) (fun _ => Passes held tasks w []) w := by
  simp only [onTasksRunnable, wp_bind]
  refine wp_mono (enqueueAll_passes tasks) (fun _ w₁ htold => ?_) fun _ _ he => he
  have hdone {out : List InferenceTask} {w₂ : World DynamicStepFcfs}
      (hout : Passes held [] w₁ out w₂) : Passes held tasks w out w₂ := by
    simpa using htold.trans hout
  exact wp_mono takeDispatchableTasks_passes (fun _ _ => hdone) fun _ _ => hdone

theorem dropFromQueues_held (requestId : String) (queues : Dict String (List InferenceTask))
    (groupId : String) (task : InferenceTask) :
    (dropFromQueues requestId queues groupId).values.flatten.count task ≤
      queues.values.flatten.count task := by
  simp only [dropFromQueues]
  split
  · split
    · exact count_flatten_erase ..
    · have hset := count_flatten_set queues groupId
        ((queues.getD groupId []).filter fun other => other.requestId ≠ requestId) task
      have hkept := (List.filter_sublist (l := queues.getD groupId [])
        (p := fun other => other.requestId ≠ requestId)).count_le task
      omega
  · exact le_rfl

theorem dropRequest_held (p : DynamicStepFcfs) (requestId : String) (task : InferenceTask) :
    (p.dropRequest requestId).held.count task ≤ p.held.count task := by
  have hqueues : ∀ (keys : List String) (queues : Dict String (List InferenceTask)),
      (keys.foldl (dropFromQueues requestId) queues).values.flatten.count task ≤
        queues.values.flatten.count task := by
    intro keys
    induction keys with
    | nil => exact fun _ => le_rfl
    | cons key keys ih => exact fun queues => (ih _).trans (dropFromQueues_held ..)
  simp only [dropRequest, held, List.count_append]
  exact Nat.add_le_add (List.filter_sublist.count_le _) (hqueues ..)

theorem onWorkerEvent_passes (event : WorkerEvent) :
    wp (onWorkerEvent event) (Passes held [] w) (fun _ => Passes held [] w []) w := by
  have htake {w' : World DynamicStepFcfs}
      (hheld : ∀ task, w'.policy.held.count task ≤ w.policy.held.count task) :
      wp takeDispatchableTasks (Passes held [] w) (fun _ => Passes held [] w []) w' :=
    wp_mono takeDispatchableTasks_passes
      (fun _ _ h task => (h task).trans (Nat.add_le_add_right (hheld task) _))
      fun _ _ h task => (h task).trans (Nat.add_le_add_right (hheld task) _)
  simp only [onWorkerEvent, releaseTask, wp_bind, wp_ite, wp_modify]
  split
  · split
    · exact htake fun task => dropRequest_held _ event.requestId task
    · exact htake fun _ => le_rfl
  · split
    · exact htake fun task => dropRequest_held _ event.requestId task
    · exact htake fun _ => le_rfl

/-- Told of a task, the policy gives it out once at most. -/
theorem holds : Holds policy held where
  call question w := by
    cases question with
    | submitted plan => exact onTasksRunnable_passes plan.rootTasks
    | runnable tasks => exact onTasksRunnable_passes tasks
    | event event => exact onWorkerEvent_passes event
    | acquire ranks | release ranks => exact Passes.of_held rfl

end DynamicStepFcfs

end GfDit
