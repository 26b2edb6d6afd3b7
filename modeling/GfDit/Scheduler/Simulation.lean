import GfDit.Scheduler.Machine

/-!
# Every method is a run of the machine

One lemma for each method: the duties it takes from the agenda and the moves
by which it does them. The recursion through the failure of a task is an
induction on its depth.
-/

namespace GfDit

open Prog Agenda

theorem ArtifactStore.find_eq_ok {store : ArtifactStore} :
    store.find artifact = .ok value ↔ store.get? artifact.key = some value := by
  unfold ArtifactStore.find
  cases store.get? artifact.key <;> simp [pure, Except.pure, throw, throwThe, MonadExceptOf.throw]

theorem ArtifactStore.find_eq_error {store : ArtifactStore} (h : store.find artifact = .error e) :
    store.get? artifact.key = none := by
  unfold ArtifactStore.find at h
  cases hg : store.get? artifact.key with
  | none => rfl
  | some value =>
    rw [hg] at h
    cases h

namespace Scheduler

variable {σ : Type} {rt : Runtime σ} {load : Workload} {reenter : WorkerEvent → SchedM σ Unit}

-- ---------------------------------------------------------------------------
-- Calls of the policy
-- ---------------------------------------------------------------------------

theorem doesFrom_askBind {f : List InferenceTask → SchedM σ β} {start s : Scheduler σ}
    (d' : List Duty) (ho : ∀ below, Occasion (d ++ below) start question (d' ++ below) s)
    (hf : ∀ out w, Returns rt question s.world out w →
      Does (machine rt load) (out.map .task ++ d') (f out) left (s.asked question out w)) :
    DoesFrom (machine rt load) d start (ask rt.policy question >>= f) left s := by
  intro below
  rw [wp_bind]
  refine wp_ask (fun out w h => ?_) fun e w h => .of (.asked (ho below) ⟨e, h⟩)
  refine DoesFrom.move (M := machine rt load) (out.map .task ++ d') _ (fun below => ?_) (hf out w h) below
  rw [List.append_assoc]
  exact .asked (ho below) h

theorem Returns.acquire_nil {w : World σ} (h : Returns rt (.acquire ranks) w out w') :
    out = [] := by
  unfold Returns Ask.run at h
  show out = _
  simp only [Functor.map, EStateM.map] at h
  split at h
  · cases h
    rfl
  · cases h

theorem Returns.release_nil {w : World σ} (h : Returns rt (.release ranks) w out w') :
    out = [] := by
  unfold Returns Ask.run at h
  simp only [Functor.map, EStateM.map] at h
  split at h
  · cases h
    rfl
  · cases h

theorem does_readBind {g : Scheduler σ → Except PyError α} {f : α → SchedM σ β} {s : Scheduler σ}
    (h : ∀ a, g s = .ok a → Does (machine rt load) d (f a) left s) :
    Does (machine rt load) d ((get >>= fun s => check (g s)) >>= f) left s := by
  intro below
  rw [wp_bind, wp_bind, wp_get]
  exact wp_check (fun a ha => h a ha below) fun _ _ => .here _

-- ---------------------------------------------------------------------------
-- Finalizing
-- ---------------------------------------------------------------------------

theorem stored_cons {store : ArtifactStore} :
    Stored store (artifact :: artifacts) ↔
      (store.get? artifact.key).isSome = true ∧ Stored store artifacts := by
  simp [Stored]

theorem wp_finalizeInputs (inputs : List ArtifactHandle) (s : Scheduler σ) :
    wp (finalizeInputs inputs)
      (fun result s' => Stored s.artifactStore inputs ∧
        result = (inlineInputs s.artifactStore inputs,
          releasedInputs s.artifactRefcounts inputs) ∧
        s' = { s with artifactRefcounts := consumeInputs s.artifactRefcounts inputs })
      (fun _ s' => ¬ Stored s.artifactStore inputs ∧
        ∃ refcounts, s' = { s with artifactRefcounts := refcounts }) s := by
  induction inputs generalizing s with
  | nil => exact ⟨fun _ h => (List.not_mem_nil h).elim, rfl, rfl⟩
  | cons artifact artifacts ih =>
    unfold finalizeInputs storeFind
    simp only [wp_bind, wp_get]
    refine wp_check (fun stored hs => ?_) fun e he => ?_
    · have hs := ArtifactStore.find_eq_ok.mp hs
      simp only [wp_modify]
      refine wp_mono (ih _) ?_ ?_
      · rintro _ _ ⟨hrest, rfl, rfl⟩
        refine ⟨stored_cons.mpr ⟨by rw [hs]; rfl, hrest⟩, ?_, rfl⟩
        rw [inlineInputs, hs, releasedInputs]
        cases stored <;> rfl
      · rintro _ _ ⟨hrest, refcounts, rfl⟩
        exact ⟨fun h => hrest (stored_cons.mp h).2, refcounts, rfl⟩
    · have hn := ArtifactStore.find_eq_error he
      refine ⟨fun h => ?_, s.artifactRefcounts, rfl⟩
      have := (stored_cons.mp h).1
      rw [hn] at this
      cases this

theorem does_sendTask (task : InferenceTask) (groupId : Option String) (s : Scheduler σ) :
    Does (machine rt load) [.send task groupId] (sendTask task groupId) nothing s := by
  cases groupId with
  | none => exact .raise _
  | some groupId => exact does_readBind fun _ _ => .change fun _ => .sent

theorem doesFrom_finalize {start s : Scheduler σ} {task : InferenceTask}
    (hok : Stored s.artifactStore task.inputs → ∀ below, Move rt load (d ++ below) start
      (.send task (s.world.tasks.groupId task) :: below) (s.finalize task))
    (herr : ¬ Stored s.artifactStore task.inputs → ∀ refcounts below,
      Stop rt (d ++ below) start { s with artifactRefcounts := refcounts }) :
    DoesFrom (machine rt load) d start (finalizeTaskDispatch task) nothing s := by
  intro below
  unfold finalizeTaskDispatch
  rw [wp_bind]
  refine wp_mono (wp_finalizeInputs task.inputs s) ?_ ?_
  · rintro _ _ ⟨hst, rfl, rfl⟩
    exact DoesFrom.getBind (.modifyBind (.move [.send task (s.world.tasks.groupId task)] _
      (hok hst) (does_sendTask task _ _))) below
  · rintro _ _ ⟨hst, refcounts, rfl⟩
    exact .of (herr hst refcounts below)

-- ---------------------------------------------------------------------------
-- Failing a task
-- ---------------------------------------------------------------------------

def Handles (rt : Runtime σ) (load : Workload) (handler : WorkerEvent → SchedM σ Unit) : Prop :=
  ∀ event s, Does (machine rt load) event.duties (handler event) nothing s

theorem does_failParkedTask (hr : Handles rt load reenter) (task : InferenceTask) (reason : String)
    (groupId : Option String) (s : Scheduler σ) :
    Does (machine rt load) [.finish task.taskId] (failParkedTask reenter task reason groupId) nothing
      s := by
  refine .getBind ?_
  split
  · rename_i hf
    exact .move [] s (fun _ => .notFailed (.inr (.inl hf))) (.done ())
  · exact .getBind (.getBind (hr _ _))

theorem doesFrom_releaseBind {f : List InferenceTask → SchedM σ β} {start s : Scheduler σ}
    (d' : List Duty) (ho : ∀ below, Occasion (d ++ below) start (.release ranks) (d' ++ below) s)
    (hf : ∀ w, Does (machine rt load) d' (f []) left (s.asked (.release ranks) [] w)) :
    DoesFrom (machine rt load) d start (ask rt.policy (.release ranks) >>= f) left s := by
  refine doesFrom_askBind d' ho fun out w h => ?_
  obtain rfl := h.release_nil
  exact hf w

-- ---------------------------------------------------------------------------
-- Dispatch
-- ---------------------------------------------------------------------------

theorem wp_beginMigration {plan : MigrateArtifactsPlan} {waiter : Waiter} {s : Scheduler σ}
    {Q : Unit → Scheduler σ → Prop} {E : PyError → Scheduler σ → Prop}
    (hok : Q () ((s.countMigration waiter.task).addMigration ⟨s.migrationsBegun, plan, waiter⟩))
    (herr : ∀ e, E e (s.countMigration waiter.task)) : wp (beginMigration rt plan waiter) Q E s := by
  unfold beginMigration getGroup
  simp only [wp_bind, wp_get, wp_modify]
  split
  · exact herr _
  · simp only [wp_bind, wp_get]
    refine wp_check (fun _ _ => ?_) fun e _ => herr e
    refine wp_check (fun _ _ => ?_) fun e _ => herr e
    exact wp_check (fun _ _ => hok) fun e _ => herr e

theorem doesFrom_beginMigration {plan : MigrateArtifactsPlan} {waiter : Waiter}
    {handler : PyError → SchedM σ Unit} {start s : Scheduler σ}
    (hok : ∀ below, Move rt load (d ++ below) start below
      ((s.countMigration waiter.task).addMigration ⟨s.migrationsBegun, plan, waiter⟩))
    (herr : ∀ e, DoesFrom (machine rt load) d start (handler e) nothing
      (s.countMigration waiter.task)) :
    DoesFrom (machine rt load) d start (catching (beginMigration rt plan waiter) handler) nothing s := by
  intro below
  rw [wp_catching]
  exact wp_beginMigration (.single (hok below)) fun e => herr e below

theorem does_beginImplicitMigration (hr : Handles rt load reenter) (task : InferenceTask)
    (artifact : ArtifactHandle) (s : Scheduler σ) :
    Does (machine rt load) [.input task artifact] (beginImplicitMigration rt reenter task artifact)
      nothing s := by
  refine does_readBind fun stored _ => ?_
  cases stored with
  | host => exact .raise _
  | workerLocal stored =>
    refine .getBind ?_
    cases hg : s.world.tasks.groupId task with
    | none => exact .raise _
    | some groupId =>
      show Does _ _ (if _ then _ else _) _ _
      split
      · refine does_readBind fun src _ => does_readBind fun dst _ => ?_
        refine doesFrom_askBind [.held task artifact groupId (sortedUnion src.ranks dst.ranks)]
          (fun _ => .acquire hg) fun out w hret => ?_
        obtain rfl := hret.acquire_nil
        refine .checkBind fun spec _ => .getBind ?_
        split
        · rename_i hplan
          refine .checkBind fun plan _ => doesFrom_beginMigration (fun _ => .begun hplan) fun e => ?_
          refine doesFrom_releaseBind [.refused task] (fun _ => .refused hplan) fun w => ?_
          exact .changeBind [.finish task.taskId] (fun _ => .refused)
            (does_failParkedTask hr task _ _ _)
        · exact .raise _
      · exact .raise _

theorem does_dispatchReshardTask (hr : Handles rt load reenter) (task : InferenceTask)
    (hk : task.kind = .reshard) (s : Scheduler σ) :
    Does (machine rt load) [.task task] (dispatchReshardTask rt reenter task) nothing s := by
  refine .getBind (.checkBind fun checked hc => ?_)
  refine .changeBind [.start task] (fun _ => .resharded hk hc) (.getBind ?_)
  split
  · rename_i hplan
    refine .checkBind fun plan _ => .modifyBind ?_
    refine doesFrom_beginMigration (fun _ => .started hplan) fun e => ?_
    exact .move [.finish task.taskId] _ (fun _ => .notStarted hplan)
      (does_failParkedTask hr task _ _ _)
  · exact .raise _

theorem stored_of_crossGroup {store : ArtifactStore}
    (h : crossGroup store groupId inputs = .ok cross) : Stored store inputs := by
  induction inputs generalizing cross with
  | nil => exact fun _ h => (List.not_mem_nil h).elim
  | cons artifact artifacts ih =>
    obtain ⟨stored, hs, h⟩ := Except.bind_eq_ok.mp h
    obtain ⟨rest, hrest, -⟩ := Except.bind_eq_ok.mp h
    exact stored_cons.mpr ⟨by rw [ArtifactStore.find_eq_ok.mp hs]; rfl, ih hrest⟩

theorem does_dispatchTask (hr : Handles rt load reenter) (task : InferenceTask) (s : Scheduler σ) :
    Does (machine rt load) [.task task] (dispatchTask rt reenter task) nothing s := by
  unfold dispatchTask
  split
  · rename_i hk
    exact does_dispatchReshardTask hr task hk s
  · rename_i hk
    refine .getBind ?_
    cases hg : s.world.tasks.groupId task with
    | none => exact .raise _
    | some groupId =>
      refine does_readBind fun group _ => .getBind (.checkBind fun cross hc => ?_)
      split
      · rename_i hnil
        subst hnil
        refine doesFrom_finalize (fun _ below => ?_) fun hst => ?_
        · rw [hg]
          exact .finalized hk hg hc
        · exact absurd (stored_of_crossGroup hc) hst
      · rename_i hne
        refine .changeBind (cross.map (.input task)) (fun _ => .parked hk hg hc hne) ?_
        rw [← List.flatMap_pure_eq_map]
        exact .forM fun artifact _ s => does_beginImplicitMigration hr task artifact s

theorem does_dispatchTasks (hr : Handles rt load reenter) (tasks : List InferenceTask)
    (s : Scheduler σ) :
    Does (machine rt load) (tasks.map .task) (dispatchTasks rt reenter tasks) nothing s := by
  rw [← List.flatMap_pure_eq_map]
  exact .forM fun task _ s => does_dispatchTask hr task s

-- ---------------------------------------------------------------------------
-- Events
-- ---------------------------------------------------------------------------

theorem doesFrom_passEvent (hr : Handles rt load reenter) {event : WorkerEvent} {start s : Scheduler σ}
    (d' : List Duty) (ho : ∀ below, Occasion (d ++ below) start (.event event) (d' ++ below) s) :
    DoesFrom (machine rt load) d start (passEvent rt reenter event) (fun _ => d') s := by
  refine doesFrom_askBind d' ho fun out w hret below => ?_
  rw [List.append_assoc]
  exact does_dispatchTasks hr out _ (d' ++ below)

theorem does_markDelivered {f : Bool → SchedM σ Unit} {left : Unit → List Duty} {s : Scheduler σ}
    (h : Does (machine rt load) d (f true) left (s.deliver requestId kind))
    (h' : Does (machine rt load) d (f false) left s) :
    Does (machine rt load) d (markRequestEventDelivered requestId kind >>= f) left s := by
  intro below
  unfold markRequestEventDelivered
  rw [wp_bind, wp_bind, wp_get]
  split
  · exact h' below
  · rw [wp_bind, wp_modify]
    exact DoesFrom.move (M := machine rt load) d _ (fun _ => .delivered) h below

theorem does_emitFinished (hr : Handles rt load reenter) {task : InferenceTask} (groupId : String)
    {s : Scheduler σ} (hp : s.plans.get? task.requestId = some plan)
    (ht : task.taskId ∈ plan.terminalTaskIds) :
    Does (machine rt load) [.check task]
      (emitRequestEvent rt reenter task.requestId groupId .requestFinished "") nothing s :=
  does_markDelivered
    (.getBind (doesFrom_passEvent hr [] fun _ => .finished rfl rfl hp ht))
    (.move [] s (fun _ => .checked) (.done ()))

theorem does_emitFailed (hr : Handles rt load reenter) (requestId groupId message : String)
    (d : List Duty) (s : Scheduler σ) :
    Does (machine rt load) d (emitRequestEvent rt reenter requestId groupId .requestFailed message)
      (fun _ => d) s :=
  does_markDelivered (.getBind (doesFrom_passEvent hr d fun _ => .emitted rfl)) fun _ => .refl

theorem goes_publish (refs : List WorkerLocalArtifactRef) {event : WorkerEvent}
    {task : InferenceTask} (h : ∀ ref ∈ refs, ref ∈ event.publishedOutputs) (d : List Duty)
    (s : Scheduler σ) :
    Goes (machine rt load) (.count task event :: d) s (.count task event :: d) (refs.foldl publish s) := by
  induction refs generalizing s with
  | nil => exact .refl
  | cons ref refs ih =>
    have hhead := h ref (List.mem_cons_self ..)
    exact (Goes.single (M := machine rt load) (.produced hhead)).trans
      (ih (fun r hr => h r (List.mem_cons_of_mem _ hr)) _)

theorem does_countDown (hr : Handles rt load reenter) (task : InferenceTask) (event : WorkerEvent)
    (s : Scheduler σ) :
    Does (machine rt load) [.count task event]
      (do
        let (pending, newly) := (← get).newlyRunnable task
        modify (launch task pending)
        let tasks ← ask rt.policy (.runnable (← Prog.check newly))
        dispatchTasks rt reenter tasks)
      nothing s := by
  refine .getBind ?_
  cases hn : s.newlyRunnable task with
  | mk pending newly =>
    refine .modifyBind (.checkBindOr (fun newly hok => ?_) fun e he _ => ?_)
    · rw [hok] at hn
      refine doesFrom_askBind [] (fun _ => .runnable hn) fun out w _ => ?_
      rw [List.append_nil]
      exact does_dispatchTasks hr out _
    · rw [he] at hn
      exact Stop.lost hn

theorem does_handleLaunchEnd (hr : Handles rt load reenter) {task : InferenceTask} {event : WorkerEvent}
    (hk : event.kind = .taskLaunchEnd) (s : Scheduler σ) :
    Does (machine rt load) [.count task event] (handleLaunchEnd rt reenter task event) nothing s := by
  intro below
  unfold handleLaunchEnd
  rw [wp_bind]
  have hpass : Does (machine rt load) [.count task event] (passEvent rt reenter event)
      (fun _ => [.count task event]) s := doesFrom_passEvent hr _ fun _ => .launchEnd hk
  refine wp_mono (hpass below) (fun _ s' hg => ?_) fun _ _ hs => hs
  rw [wp_bind, wp_modify]
  have hpub := hg.trans (goes_publish event.publishedOutputs (fun _ h => h) below s')
  exact wp_mono (does_countDown hr task event _ below) (fun _ _ hg' => hpub.trans hg')
    fun _ _ hs => .after hpub hs

theorem does_handleExecEnd (hr : Handles rt load reenter) {task : InferenceTask} {event : WorkerEvent}
    (hk : event.kind = .taskExecEnd) {s : Scheduler σ}
    (ht : s.taskIndex.get? event.taskId = some task) :
    Does (machine rt load) [.finish event.taskId] (handleExecEnd rt reenter task event) nothing s := by
  refine .modifyBind (.bind (doesFrom_passEvent hr [.check task] fun _ => .ended hk ht)
    fun _ s' => .getBind ?_)
  cases hp : s'.plans.get? task.requestId with
  | none => exact .raise _
  | some plan =>
    show Does _ _ (if _ then _ else _) _ _
    split
    · rename_i hterm
      exact does_emitFinished hr _ hp hterm
    · exact .move [] s' (fun _ => .checked) (.done ())

theorem does_handleTaskFailed (hr : Handles rt load reenter) {task : InferenceTask}
    {event : WorkerEvent} (hk : event.kind = .taskFailed) {s : Scheduler σ}
    (ht : s.taskIndex.get? event.taskId = some task) :
    Does (machine rt load) [.finish event.taskId] (handleTaskFailed rt reenter task event) nothing s := by
  refine .getBind ?_
  split
  · rename_i hf
    exact .move [] s (fun _ => .notFailed (.inr (.inr ⟨task, ht, hf⟩))) (.done ())
  · rename_i hf
    refine .modifyBind (.bind (doesFrom_passEvent hr [.clean task.requestId]
      fun _ => .failed hk ht hf) fun _ s' => ?_)
    refine .bind (does_emitFailed hr _ _ _ [.clean task.requestId] _) fun _ s'' => ?_
    exact .change fun _ => .cleaned

theorem does_handleRequestFinished (hr : Handles rt load reenter) {event : WorkerEvent}
    (hk : event.kind = .requestFinished) (s : Scheduler σ) :
    Does (machine rt load) [.request event] (handleRequestFinished rt reenter event) nothing s :=
  does_markDelivered (doesFrom_passEvent hr [] fun _ => .requested (by rw [hk]; rfl))
    (.move [] s (fun _ => .notRequested) (.done ()))

theorem does_handleRequestFailed (hr : Handles rt load reenter) {event : WorkerEvent}
    (hk : event.kind = .requestFailed) (s : Scheduler σ) :
    Does (machine rt load) [.request event] (handleRequestFailed rt reenter event) nothing s := by
  refine does_markDelivered ?_ (.move [] s (fun _ => .notRequested) (.done ()))
  refine .changeBind [.request event, .clean event.requestId] (fun _ => .failedRequest hk)
    (.bind (doesFrom_passEvent hr [.clean event.requestId] fun _ => .requested (by rw [hk]; rfl))
      fun _ s'' => ?_)
  exact .change fun _ => .cleaned

theorem does_handleTaskEvent (hr : Handles rt load reenter) {task : InferenceTask}
    {event : WorkerEvent} {s : Scheduler σ} (ha : event.kind.endsRequest = false)
    (ht : s.taskIndex.get? event.taskId = some task) :
    Does (machine rt load) event.duties (handleTaskEvent rt reenter task event) nothing s := by
  unfold handleTaskEvent WorkerEvent.duties
  cases hk : event.kind with
  | taskExecBegin => exact .change fun _ => .running ht
  | taskLaunchEnd =>
    exact .move [.count task event] s (fun _ => .opened ht) (does_handleLaunchEnd hr hk s)
  | taskExecEnd => exact does_handleExecEnd hr hk ht
  | taskFailed => exact does_handleTaskFailed hr hk ht
  | taskLaunchBegin => exact .done ()
  | requestFinished | requestFailed =>
    rw [hk] at ha
    cases ha

/-- The event of a task that is not in the index changes nothing. -/
theorem does_ignored {event : WorkerEvent} {s : Scheduler σ}
    (ha : event.kind.endsRequest = false) (ht : s.taskIndex.get? event.taskId = none) :
    Does (machine rt load) event.duties (pure () : SchedM σ Unit) nothing s := by
  unfold WorkerEvent.duties
  cases hk : event.kind with
  | taskLaunchEnd => exact .move [] s (fun _ => .notOpened ht) (.done ())
  | taskExecEnd | taskFailed => exact .move [] s (fun _ => .notFailed (.inl ht)) (.done ())
  | taskLaunchBegin | taskExecBegin => exact .done ()
  | requestFinished | requestFailed =>
    rw [hk] at ha
    cases ha

theorem does_lookUpTask (hr : Handles rt load reenter) (ha : event.kind.endsRequest = false)
    (s : Scheduler σ) :
    Does (machine rt load) event.duties
      (do
        match (← get).taskIndex.get? event.taskId with
        | none => pure ()
        | some task => handleTaskEvent rt reenter task event)
      nothing s := by
  refine .getBind ?_
  cases ht : s.taskIndex.get? event.taskId with
  | none => exact does_ignored ha ht
  | some task => exact does_handleTaskEvent hr ha ht

theorem handles_handleWith (hr : Handles rt load reenter) : Handles rt load (handleWith rt reenter) := by
  intro event s
  unfold handleWith
  cases hk : event.kind with
  | requestFinished =>
    have hd : event.duties = [.request event] := by simp [WorkerEvent.duties, hk]
    rw [hd]
    exact does_handleRequestFinished hr hk s
  | requestFailed =>
    have hd : event.duties = [.request event] := by simp [WorkerEvent.duties, hk]
    rw [hd]
    exact does_handleRequestFailed hr hk s
  | taskLaunchBegin | taskLaunchEnd | taskExecBegin | taskExecEnd | taskFailed =>
    exact does_lookUpTask hr (by rw [hk]; rfl) s

theorem handles_handleDepth (rt : Runtime σ) (load : Workload) (depth : Nat) : Handles rt load (handleDepth rt depth) := by
  induction depth with
  | zero => exact fun _ _ => .raise _
  | succ depth ih => exact handles_handleWith ih

theorem handles_handleWorkerEvent (rt : Runtime σ) (load : Workload) : Handles rt load (handleWorkerEvent rt) :=
  fun event s => .getBind (handles_handleDepth rt load _ event s)

-- ---------------------------------------------------------------------------
-- Migration callbacks
-- ---------------------------------------------------------------------------

theorem does_inputMigrationDone {m : Migration} {task : InferenceTask} {artifact : ArtifactHandle}
    {groupId : String} {ranks : List Rank} (hm : m.waiter = .input task artifact groupId ranks)
    (s : Scheduler σ) :
    Does (machine rt load) [.retired m] (inputMigrationDone rt task artifact groupId ranks) nothing
      s := by
  have habandon : ∀ s' : Scheduler σ, Does (machine rt load) [.freed m]
      (do
        modify (unpark task)
        failParkedTask (handleWorkerEvent rt) task "request failed during implicit migration" none)
      nothing s' := by
    intro s'
    have htask : m.waiter.task = task := by rw [hm]; rfl
    refine .changeBind [.finish task.taskId] (fun _ => ?_)
      (does_failParkedTask (handles_handleWorkerEvent rt load) task _ _ _)
    rw [← htask]
    exact .abandoned
  refine doesFrom_releaseBind [.freed m] (fun _ => .freed hm) fun w => .getBind ?_
  cases hp : (s.asked (.release ranks) [] w).parkedPending.get? task.taskId with
  | none => exact habandon _
  | some n =>
    cases hfr : (s.asked (.release ranks) [] w).failedRequests.contains task.requestId with
    | true => exact habandon _
    | false =>
      refine does_readBind fun rank _ => .modifyBind ?_
      split
      · rename_i hlast
        rw [hlast]
        exact doesFrom_finalize (fun hst _ => .landedLast hm hp hlast hfr hst)
          fun hst refcounts _ => .starved hm hp hst
      · rename_i hmore
        exact .move [] _ (fun _ => .landed hm hp hmore hfr) (.done ())

theorem does_reshardDone {m : Migration} {task : InferenceTask} {groupId : String}
    (hm : m.waiter = .reshard task groupId) (s : Scheduler σ) :
    Does (machine rt load) [.retired m] (reshardDone rt task groupId) nothing s := by
  refine .getBind ?_
  split
  · exact .move [.finish task.taskId] s (fun _ => .reshardFailed hm)
      (does_failParkedTask (handles_handleWorkerEvent rt load) task _ _ _)
  · refine does_readBind fun rank _ => ?_
    -- the event that publishes the outputs, and then the end of the task
    let event : WorkerEvent := ⟨task.taskId, task.requestId, groupId, .taskLaunchEnd,
      s.world.clockNs, "", task.outputs.map fun output => ⟨output, groupId, rank⟩⟩
    have houts : ∀ ref ∈ event.publishedOutputs, ref.handle ∈ task.outputs := by
      intro ref hr
      obtain ⟨output, ho, rfl⟩ := List.mem_map.mp hr
      exact ho
    refine .move [.launch event, .finish task.taskId] s
      (fun _ => .reshardDone hm rfl rfl houts) ?_
    intro below
    rw [wp_bind]
    refine wp_mono (DoesFrom.getBind (handles_handleWorkerEvent rt load event s)
      ([.finish task.taskId] ++ below)) (fun _ s' hg => ?_) fun _ _ hs => hs
    refine wp_mono (DoesFrom.getBind (handles_handleWorkerEvent rt load ⟨task.taskId, task.requestId,
      groupId, .taskExecEnd, s'.world.clockNs, "", []⟩ s') below) (fun _ _ hg' => hg.trans hg')
      fun _ _ hs => .after hg hs

theorem does_migrationDone {m : Migration} {s : Scheduler σ} (hm : m ∈ s.migrations) :
    Does (machine rt load) [] (migrationDone rt m) nothing s := by
  refine .changeBind [.retired m] (fun _ => .retired hm) ?_
  cases hw : m.waiter with
  | input task artifact groupId ranks => exact does_inputMigrationDone hw _
  | reshard task groupId => exact does_reshardDone hw _

theorem does_migrationFailed {m : Migration} (e : PyError) {s : Scheduler σ}
    (hm : m ∈ s.migrations) : Does (machine rt load) [] (migrationFailed rt m e) nothing s := by
  refine .changeBind [.retired m] (fun _ => .retired hm) ?_
  cases hw : m.waiter with
  | input task artifact groupId ranks =>
    have htask : m.waiter.task = task := by rw [hw]; rfl
    refine doesFrom_releaseBind [.freed m] (fun _ => .freed hw) fun w =>
      .changeBind [.finish task.taskId] (fun _ => ?_)
        (does_failParkedTask (handles_handleWorkerEvent rt load) task _ _ _)
    rw [← htask]
    exact .abandoned
  | reshard task groupId =>
    exact .move [.finish task.taskId] _ (fun _ => .reshardFailed hw)
      (does_failParkedTask (handles_handleWorkerEvent rt load) task _ _ _)

-- ---------------------------------------------------------------------------
-- Submission
-- ---------------------------------------------------------------------------

theorem wp_indexTasks {plan : RequestExecutionPlan} {tasks : List InferenceTask}
    {s : Scheduler σ} (hp : Taking plan s.log) (ht : ∀ task ∈ tasks, task ∈ plan.tasks.values)
    (hn : tasks.Nodup) (hi : ∀ task ∈ tasks, .indexed task ∉ s.log) (below : List Duty) :
    wp (indexTasks tasks)
      (fun _ s' => Goes (machine rt load) below s below s' ∧ Taking plan s'.log ∧
        ∀ task, .indexed task ∈ s.log ∨ task ∈ tasks → .indexed task ∈ s'.log)
      (fun _ s' => Stops (machine rt load) below s s') s := by
  induction tasks generalizing s with
  | nil => exact ⟨.refl, hp, fun task h => h.elim id fun h => (List.not_mem_nil h).elim⟩
  | cons task tasks ih =>
    unfold indexTasks
    rw [wp_bind, wp_get, wp_bind]
    refine wp_check (fun _ _ => ?_) fun _ _ => .here _
    rw [wp_bind, wp_modify]
    have hhead : task ∈ plan.tasks.values := ht task (List.mem_cons_self ..)
    have hg : Goes (machine rt load) below s below (s.indexTask task) :=
      .single (.indexed hp hhead (hi task (List.mem_cons_self ..)))
    have hlog : (s.indexTask task).log = .indexed task :: s.log := rfl
    refine wp_mono (ih (s := s.indexTask task) (.indexed hp) ?_ (List.nodup_cons.mp hn).2 ?_) ?_
      fun _ _ hs => .after hg hs
    · exact fun t h => ht t (List.mem_cons_of_mem _ h)
    · intro t h hm
      rw [hlog] at hm
      rcases List.mem_cons.mp hm with heq | hm
      · cases heq
        exact (List.nodup_cons.mp hn).1 h
      · exact hi t (List.mem_cons_of_mem _ h) hm
    · rintro _ s' ⟨hg', hp', hi'⟩
      refine ⟨hg.trans hg', hp', fun t h => hi' t ?_⟩
      rcases h with h | h
      · exact .inl (List.mem_cons_of_mem _ h)
      · rcases List.mem_cons.mp h with rfl | h
        · exact .inl (List.mem_cons_self ..)
        · exact .inr h

theorem does_submitRequest {requestId : String} {s : Scheduler σ} (hf : Fresh requestId s)
    (hi : ∀ task ∈ (load.plan requestId).tasks.values, .indexed task ∉ s.log) :
    Does (machine rt load) [] (submitRequest rt (load.plan requestId)) nothing s := by
  refine .changeBind [] (fun _ => .accepted hf) fun below => ?_
  have hlog : (s.accept (load.plan requestId)).log = .accepted (load.plan requestId) :: s.log := rfl
  have htaking : Taking (load.plan requestId) (s.accept (load.plan requestId)).log := by
    refine .accepted fun other ho => ?_
    rw [load.named]
    exact hf.1 other ho
  rw [wp_bind]
  refine wp_mono (wp_indexTasks htaking (fun _ h => h) (load.values_nodup requestId) ?_
    ([] ++ below)) ?_ fun _ _ hs => hs
  · intro task ht hm
    rw [hlog] at hm
    rcases List.mem_cons.mp hm with heq | hm
    · cases heq
    · exact hi task ht hm
  · rintro _ s' ⟨hg, hp, hall⟩
    rw [wp_bind, wp_modify]
    have hindexed : ∀ task ∈ (load.plan requestId).tasks.values, .indexed task ∈ s'.log :=
      fun task ht => hall task (.inr ht)
    have hlist : Goes (machine rt load) ([] ++ below) (s.accept (load.plan requestId))
        ([] ++ below) (s'.listArtifacts (load.plan requestId)) := hg.tail (.listed hp)
    have hdone : Does (machine rt load) []
        (ask rt.policy (.submitted (load.plan requestId)) >>= fun tasks =>
          dispatchTasks rt (handleWorkerEvent rt) tasks) nothing
        (s'.listArtifacts (load.plan requestId)) := by
      refine doesFrom_askBind [] (fun _ => .submitted hp hindexed) fun out w _ => ?_
      rw [List.append_nil]
      exact does_dispatchTasks (handles_handleWorkerEvent rt load) out _
    exact wp_mono (hdone below) (fun _ _ hg' => hlist.trans hg') fun _ _ hs => .after hlist hs

-- ---------------------------------------------------------------------------
-- Status, release and time
-- ---------------------------------------------------------------------------

theorem goes_tryFinish {requestId : String} {fetch : Option FetchArtifactsResult}
    (hf : ∀ result ∈ fetch, ∀ artifact ∈ result.artifacts, artifact.handle.requestId = requestId)
    (d : List Duty) {s : Scheduler σ} (hn : s.failedRequests.get? requestId = none)
    (hc : s.completedOutputs.get? requestId = none) :
    Goes (machine rt load) d s d (s.tryFinishRequestOutputFetch requestId fetch) := by
  unfold tryFinishRequestOutputFetch
  split
  · rename_i pending result hp
    have hpending : s.pendingOutputFetches.contains requestId = true := by simp [Dict.contains, hp]
    split
    · exact .single (.notFetched hpending hn hc)
    · exact .single (.notFetched hpending hn hc)
    · rename_i artifact rest _ ha
      refine .single (.fetched hpending hn hc (hf result rfl artifact ?_))
      rw [ha]
      exact List.mem_cons_self ..
  · exact .refl

theorem cleanup_cleaned (requestId : String) (s : Scheduler σ) :
    requestId ∈ (s.cleanupRequestWorkerState requestId).cleanedRequests := by
  unfold cleanupRequestWorkerState
  split
  · assumption
  · exact List.mem_cons_self ..

theorem tryFinish_failed {requestId : String} {fetch : Option FetchArtifactsResult}
    {s : Scheduler σ} (hn : s.failedRequests.get? requestId = none) :
    (s.tryFinishRequestOutputFetch requestId fetch).failedRequests.get? requestId = none ∨
      requestId ∈ (s.tryFinishRequestOutputFetch requestId fetch).cleanedRequests := by
  unfold tryFinishRequestOutputFetch
  split
  · split
    · exact .inr (cleanup_cleaned ..)
    · exact .inr (cleanup_cleaned ..)
    · exact .inr (cleanup_cleaned ..)
  · exact .inl hn

theorem does_tryStart {requestId : String} {s : Scheduler σ}
    (hn : s.failedRequests.get? requestId = none ∨ requestId ∈ s.cleanedRequests)
    (hc : s.completedOutputs.get? requestId = none) :
    Does (machine rt load) [] (tryStartRequestOutputFetch requestId) nothing s := by
  refine .getBind ?_
  split
  · exact .raise _
  · rename_i plan hplan
    refine .checkBind fun finished hfin => ?_
    split
    · rename_i htrue
      rw [htrue] at hfin
      split
      · exact .done ()
      · split
        · exact .raise _
        · split
          · exact .raise _
          · split
            · exact .done ()
            · refine does_readBind fun stored _ => ?_
              split
              · exact does_readBind fun _ _ => .change fun _ => .fetching hplan hfin hn hc
              · exact .change fun _ => .completed hplan hfin hn hc
    · exact .done ()

theorem does_getRequestStatus {requestId : String} {fetch : Option FetchArtifactsResult}
    (hf : ∀ result ∈ fetch, ∀ artifact ∈ result.artifacts, artifact.handle.requestId = requestId)
    (s : Scheduler σ) :
    Does (machine rt load) [] (getRequestStatus requestId fetch) nothing s := by
  refine .getBind ?_
  split
  · exact .done _
  · exact .done _
  · rename_i hn hc
    split
    · exact .done _
    · refine .bind (?_ : Does _ _ _ nothing _) fun _ s' => .getBind ?_
      · intro below
        unfold tryCollectRequestOutput
        rw [wp_bind, wp_modify, wp_bind, wp_get]
        have hg : Goes (machine rt load) ([] ++ below) s ([] ++ below) _ := goes_tryFinish hf _ hn hc
        split
        · exact hg
        · rename_i hstart
          refine wp_mono (does_tryStart (tryFinish_failed hn) ?_ below)
            (fun _ _ hg' => hg.trans hg') fun _ _ hs => .after hg hs
          simpa [Dict.contains] using fun h => hstart (.inl h)
      · split <;> exact .done _

end Scheduler

end GfDit
