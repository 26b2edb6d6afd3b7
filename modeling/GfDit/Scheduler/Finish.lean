import GfDit.Lib.History
import GfDit.Policies.Exclusion
import GfDit.Scheduler.Runs

/-!
# When a request is told to be finished

The scheduler tells the policy REQUEST_FINISHED from the handler of a task's
end, as soon as that task is one of the plan's terminal tasks. It collects
the output only when all of them have ended. The two agree for plans with one
terminal task; with two, the first to end finishes the request.
-/

namespace GfDit

open History Agenda

def SchedulerEntry.execEnd? : SchedulerEntry → Option String
  | .asked (.event event) .. => if event.kind = .taskExecEnd then some event.taskId else none
  | _ => none

def ExecEnded (taskId : String) (entries : List SchedulerEntry) : Prop :=
  taskId ∈ entries.filterMap SchedulerEntry.execEnd?

instance (taskId : String) (entries : List SchedulerEntry) : Decidable (ExecEnded taskId entries) :=
  inferInstanceAs (Decidable (taskId ∈ _))

theorem ExecEnded.mono (h : ExecEnded taskId earlier) (hs : earlier <:+ entries) :
    ExecEnded taskId entries := (hs.sublist.filterMap _).subset h

theorem execEnded_cons {event : WorkerEvent} (hk : event.kind = .taskExecEnd)
    (hid : event.taskId = taskId) :
    ExecEnded taskId (.asked (.event event) out before after :: earlier) := by
  unfold ExecEnded
  rw [List.filterMap_cons_some (b := taskId) (by simp [SchedulerEntry.execEnd?, hk, hid])]
  exact List.mem_cons_self ..

def SchedulerEntry.finishes? : SchedulerEntry → Option String
  | .asked (.event event) .. =>
    if event.kind = .requestFinished then some event.requestId else none
  | _ => none

/-- REQUEST_FINISHED comes after the ends of all terminal tasks. -/
def FinishedAfterEnds (load : Workload) (entry : SchedulerEntry) (earlier : List SchedulerEntry) :
    Prop :=
  ∀ requestId ∈ entry.finishes?, ∀ taskId ∈ (load.plan requestId).terminalTaskIds,
    ExecEnded taskId earlier

instance (load : Workload) (entry : SchedulerEntry) (earlier : List SchedulerEntry) :
    Decidable (FinishedAfterEnds load entry earlier) :=
  inferInstanceAs (Decidable (∀ requestId ∈ entry.finishes?, _))

/-- The terminal tasks of a plan are all the same one. -/
def OneTerminal (load : Workload) : Prop :=
  ∀ requestId, ∀ taskId ∈ (load.plan requestId).terminalTaskIds,
    ∀ other ∈ (load.plan requestId).terminalTaskIds, taskId = other

def Duty.Ended (entries : List SchedulerEntry) : Duty → Prop
  | .check ended => ExecEnded ended.taskId entries
  | _ => True

theorem Duty.Ended.mono {duty : Duty} (h : Duty.Ended earlier duty) (hs : earlier <:+ entries) :
    Duty.Ended entries duty := by
  cases duty with
  | check => exact ExecEnded.mono h hs
  | _ => trivial

theorem WorkerEvent.duties_ended (event : WorkerEvent) :
    ∀ duty ∈ event.duties, Duty.Ended entries duty := by
  unfold WorkerEvent.duties
  cases event.kind <;> simp [Duty.Ended]

namespace Scheduler

variable {σ : Type} {rt : Runtime σ} {load : Workload}

structure EndsTold (load : Workload) (d : List Duty) (s : Scheduler σ) : Prop where
  duties : ∀ duty ∈ d, Duty.Ended s.log duty
  told : Each (FinishedAfterEnds load) s.log

namespace EndsTold

variable {s s' : Scheduler σ}

theorem told_quiet (h : EndsTold load d s) (hq : Quiet s s') :
    Each (FinishedAfterEnds load) s'.log := by
  obtain ⟨entries, hlog, he⟩ := hq
  rw [hlog]
  refine h.told.append fun entry hm _ => ?_
  have hasks := he entry hm
  cases entry with
  | asked => cases hasks
  | _ => exact fun _ h => by cases h

/-- The policy is told of the end of a request when the task that was checked
is terminal, and with one terminal task that is the end of all. -/
theorem told_asked (hone : OneTerminal load) (hb : Base load s) (h : EndsTold load d s)
    (hn : OfTasks d) (ho : Occasion d s question d' s') (out : List InferenceTask) (w : World σ) :
    Each (FinishedAfterEnds load) (s'.asked question out w).log := by
  refine ⟨?_, h.told_quiet ho.quiet⟩
  intro requestId hf taskId ht
  obtain ⟨event, rfl, hk, rfl⟩ : ∃ event, question = .event event ∧
      event.kind = .requestFinished ∧ event.requestId = requestId := by
    cases question with
    | event event => simpa [SchedulerEntry.finishes?] using hf
    | _ => cases hf
  cases ho with
  | finished _ hreq hplan hterm =>
    rename_i plan task _
    obtain ⟨hacc, hname, -⟩ := (hb.plans _ _).mp hplan
    rw [hreq] at ht
    rw [hb.accepted _ hacc, hname] at hterm
    rw [← hone _ _ hterm _ ht]
    exact h.duties (.check task) (List.mem_cons_self ..)
  | requested => exact (hn event (List.mem_cons_self ..)).elim
  | launchEnd hkind | ended hkind | failed hkind | emitted hkind =>
    rw [hk] at hkind
    cases hkind

theorem duties_asked (hb : Base load s) (h : EndsTold load d s)
    (ho : Occasion d s question d' s') (out : List InferenceTask) (w : World σ) :
    ∀ duty ∈ d', Duty.Ended (s'.asked question out w).log duty := by
  have hs : s.log <:+ (s'.asked question out w).log := ho.quiet.suffix.trans (List.suffix_cons ..)
  have hall : ∀ duty ∈ d, Duty.Ended (s'.asked question out w).log duty :=
    fun duty hm => (h.duties duty hm).mono hs
  cases ho with
  | ended hk ht =>
    intro duty hm
    rcases List.mem_cons.mp hm with rfl | hm
    · exact execEnded_cons hk ((hb.index _ _).mp ht).2.1.symm
    · exact hall duty (List.mem_cons_of_mem _ hm)
  | submitted | launchEnd | emitted => exact hall
  | runnable | finished | requested => exact (List.forall_mem_cons.mp hall).2
  | failed | acquire | refused | freed =>
    exact List.forall_mem_cons.mpr ⟨trivial, (List.forall_mem_cons.mp hall).2⟩

theorem move (hone : OneTerminal load) (hb : Base load s) (h : EndsTold load d s)
    (hn : OfTasks d) (hm : Move rt load d s d' s') : EndsTold load d' s' := by
  have hall : ∀ duty ∈ d, Duty.Ended s'.log duty :=
    fun duty hd => (h.duties duty hd).mono hm.log_suffix
  refine ⟨?_, ?_⟩
  · cases hm with
    | asked ho =>
      intro duty hd
      rcases List.mem_append.mp hd with hd | hd
      · obtain ⟨task, -, rfl⟩ := List.mem_map.mp hd
        trivial
      · exact h.duties_asked hb ho _ _ duty hd
    | received =>
      rename_i event
      intro duty hd
      rcases List.mem_append.mp hd with hd | hd
      · exact event.duties_ended duty hd
      · exact hall duty hd
    | parked =>
      intro duty hd
      rcases List.mem_append.mp hd with hd | hd
      · obtain ⟨artifact, -, rfl⟩ := List.mem_map.mp hd
        trivial
      · exact hall duty (List.mem_cons_of_mem _ hd)
    | _ => simp_all [Duty.Ended]
  · rcases hm.asked_or_quiet with ⟨_, _, _, _, _, ho, -, -, rfl⟩ | ⟨hq, -⟩
    · exact h.told_asked hone hb hn ho _ _
    · exact h.told_quiet hq

theorem stop (hone : OneTerminal load) (hb : Base load s) (h : EndsTold load d s)
    (hn : OfTasks d) (hs : Stop rt d s s') : EndsTold load [] s' := by
  refine ⟨by simp, ?_⟩
  cases hs with
  | here => exact h.told
  | asked ho => exact h.told_asked hone hb hn ho _ _
  | lost | starved => exact h.told_quiet (.entry rfl rfl)

theorem begin (h : EndsTold load [] s) (step : Step) : EndsTold load step.duties s where
  duties := by cases step <;> simp [Step.duties, Duty.Ended]
  told := h.told

end EndsTold

/-- In every run over plans with one terminal task each, the policy hears of
the end of a request after the ends of all its terminal tasks. -/
theorem finished_after_ends (rt : Runtime σ) (load : Workload) (hone : OneTerminal load)
    (s : Scheduler σ) (h : Reach rt load anyStep s) (hevents : TaskEvents s.log) :
    Each (FinishedAfterEnds load) s.log := by
  have htold : EndsTold load [] s := h.of_tasks (H := fun _ => True) (fun _ _ => trivial)
    (fun _ _ => ⟨by simp, trivial⟩) (fun step ht => ht.begin step)
    (fun hb hn ht _ hm => ht.move hone hb hn hm) (fun hb hn ht _ hs => ht.stop hone hb hn hs)
    hevents trivial
  exact htold.told

-- Two tasks of one request on one group: the first has ended, the second has not.

def forkTask (taskId : String) : InferenceTask :=
  ⟨taskId, "r", .textEncode, some "g", .pending, 0, [], [], [], none, ∅⟩

def forkTasks : Dict String InferenceTask :=
  (Dict.set ∅ "a" (forkTask "a")).set "b" (forkTask "b")

def forkLoad (terminalTaskIds : List String) : Workload :=
  .solo ⟨"r", forkTasks, terminalTaskIds, [], ∅⟩
    (by decide : ∀ entry ∈ forkTasks.entries, entry.2.taskId = entry.1)
    (by decide : ∀ task ∈ forkTasks.values, task.requestId = "r" ∧
      ∀ artifact ∈ task.inputs ++ task.outputs, artifact.requestId = "r")
    fun _ h => absurd h List.not_mem_nil

def fcfsRuntime : Runtime DynamicStepFcfs := ⟨DynamicStepFcfs.policy, fun _ => none⟩

def forkEnd : WorkerEvent := ⟨"a", "r", "g", .taskExecEnd, 0, "", []⟩

def forkSubmitted (terminalTaskIds : List String) : Scheduler DynamicStepFcfs :=
  Prog.after ((Step.submit "r").run fcfsRuntime (forkLoad terminalTaskIds)) (.init (soloStart "g"))

def forkEnded (terminalTaskIds : List String) : Scheduler DynamicStepFcfs :=
  Prog.after ((Step.event forkEnd).run fcfsRuntime (forkLoad terminalTaskIds))
    (forkSubmitted terminalTaskIds)

theorem forkEnded_reach (terminalTaskIds : List String) :
    Reach fcfsRuntime (forkLoad terminalTaskIds) anyStep (forkEnded terminalTaskIds) := by
  refine .step (.step (.start rfl) ?_ trivial) trivial trivial
  exact ⟨fun _ h => absurd h List.not_mem_nil, List.not_mem_nil⟩

/-- With one terminal task the request is told to be finished, in time. -/
theorem fork_finished_after_end :
    "r" ∈ (forkEnded ["a"]).log.filterMap SchedulerEntry.finishes? ∧
      Each (FinishedAfterEnds (forkLoad ["a"])) (forkEnded ["a"]).log := by
  refine ⟨by decide, finished_after_ends fcfsRuntime (forkLoad ["a"]) ?_ _ (forkEnded_reach ["a"])
    (by decide)⟩
  intro requestId taskId ht other ho
  have hone : ∀ id ∈ ((forkLoad ["a"]).plan requestId).terminalTaskIds, id = "a" := by
    show ∀ id ∈ (if requestId = "r" then (_ : RequestExecutionPlan) else _).terminalTaskIds, _
    split <;> simp
  rw [hone taskId ht, hone other ho]

/-- With two, the end of the first is taken for the end of the request. -/
theorem fork_finished_early : ¬ ∀ (σ : Type) (rt : Runtime σ) (load : Workload) (s : Scheduler σ),
    Reach rt load anyStep s → TaskEvents s.log → Each (FinishedAfterEnds load) s.log := by
  intro h
  have hearly := h _ _ _ _ (forkEnded_reach ["a", "b"]) (by decide)
  exact absurd hearly (by decide)

end Scheduler

end GfDit
