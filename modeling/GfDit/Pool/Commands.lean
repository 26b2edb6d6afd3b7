import GfDit.Lib.Turns
import GfDit.Engine.Basic
import GfDit.Topology

/-!
# Command streams of the workers

The pool sends a command to the ranks it is for, one pipe after the other,
and only then turns to the next command. Tasks go to the ranks of a group,
the phases of a migration to the targets of its job. A worker takes its
commands one by one, and a command is over when all its ranks have come to
it; they all meet the commands in the order they were issued, so the oldest
is never waited for in vain.
-/

namespace GfDit

-- ---------------------------------------------------------------------------
-- Pipes
-- ---------------------------------------------------------------------------

structure ProcessDispatchTaskCommand where
  task : InferenceTask
  inlineInputs : List ArtifactValue
  resultOwnerRank : Rank
  releaseAfterExecArtifactIds : List String
  dispatchedAtNs : Nat
  groupSpec : ExecutionGroupSpec
  deriving DecidableEq

inductive PoolCommand
  | task (command : ProcessDispatchTaskCommand)
  | migrate (command : MigrateArtifactsCommand)
  deriving DecidableEq

structure Issue where
  turn : Nat
  command : PoolCommand
  deriving DecidableEq

/-- A command on its way: the ranks that have it and those to come. -/
structure Sending where
  issue : Issue
  sent : List Rank
  todo : List Rank

structure CommandPipes where
  -- commands sent to all their ranks, oldest first, and those not over yet
  issued : List (Issue × List Rank)
  remaining : List (Issue × List Rank)
  sending : Option Sending
  -- all that was sent to a rank, and what its worker is not done with
  streams : Rank → List Issue
  queues : Rank → List Issue

namespace CommandPipes

def init : CommandPipes := ⟨[], [], none, fun _ => [], fun _ => []⟩

def issue (pipes : CommandPipes) (command : PoolCommand) (ranks : List Rank) : CommandPipes :=
  { pipes with sending := some ⟨⟨pipes.issued.length, command⟩, [], ranks⟩ }

def dispatch (pipes : CommandPipes) (task : InferenceTask) (group : ExecutionGroupSpec)
    (inlineInputs : List ArtifactValue) (releaseAfterExec : List String) (nowNs : Nat) :
    CommandPipes :=
  pipes.issue (.task ⟨task, inlineInputs, group.leader, releaseAfterExec, nowNs, group⟩) group.ranks

def sendMigrationCommand (pipes : CommandPipes) (job : MigrationJob τ) : CommandPipes :=
  pipes.issue (.migrate job.command) job.targets

def send (pipes : CommandPipes) (issue : Issue) (rank : Rank) : CommandPipes :=
  { pipes with
    streams := fun r => if r = rank then pipes.streams r ++ [issue] else pipes.streams r
    queues := fun r => if r = rank then pipes.queues r ++ [issue] else pipes.queues r }

def AtHeads (pipes : CommandPipes) (issue : Issue) (ranks : List Rank) : Prop :=
  ∀ rank ∈ ranks, (pipes.queues rank).head? = some issue

def complete (pipes : CommandPipes) (issue : Issue) (ranks : List Rank) : CommandPipes :=
  { pipes with
    remaining := pipes.remaining.filter fun job => job.1 ≠ issue
    queues := fun r => if r ∈ ranks then (pipes.queues r).tail else pipes.queues r }

end CommandPipes

inductive PipesReach (Group : ExecutionGroupSpec → Prop) : CommandPipes → Prop
  | start : PipesReach Group .init
  | dispatch : PipesReach Group pipes → pipes.sending = none → Group group →
      PipesReach Group (pipes.dispatch task group inlineInputs releaseAfterExec nowNs)
  | migrate {τ : Type} {job : MigrationJob τ} : PipesReach Group pipes → pipes.sending = none →
      PipesReach Group (pipes.sendMigrationCommand job)
  | send : PipesReach Group pipes → pipes.sending = some ⟨issue, sent, rank :: todo⟩ →
      PipesReach Group
        { pipes.send issue rank with sending := some ⟨issue, sent ++ [rank], todo⟩ }
  | sent : PipesReach Group pipes → pipes.sending = some ⟨issue, ranks, []⟩ →
      PipesReach Group { pipes with
        issued := pipes.issued ++ [(issue, ranks)]
        remaining := pipes.remaining ++ [(issue, ranks)]
        sending := none }
  | complete : PipesReach Group pipes → (issue, ranks) ∈ pipes.remaining →
      pipes.AtHeads issue ranks → PipesReach Group (pipes.complete issue ranks)

-- ---------------------------------------------------------------------------
-- One order for all
-- ---------------------------------------------------------------------------

theorem MigrationJob.targets_nodup (job : MigrationJob τ) : job.targets.Nodup := by
  unfold MigrationJob.targets
  cases job.phase with
  | buildSchedule => exact List.nodup_singleton _
  | describeLayout | acceptSchedule | executeTransfer => exact job.participants_nodup

namespace CommandPipes

def partly (pipes : CommandPipes) (rank : Rank) : List Issue :=
  match pipes.sending with
  | none => []
  | some sending => if rank ∈ sending.sent then [sending.issue] else []

def order (pipes : CommandPipes) : List Issue :=
  pipes.issued.map Prod.fst ++ (pipes.sending.map Sending.issue).toList

structure Ordered (pipes : CommandPipes) : Prop where
  numbered : ∀ job ∈ pipes.issued, job.1.turn < pipes.issued.length
  distinct : (pipes.issued.map Prod.fst).Nodup
  remaining : pipes.remaining.Sublist pipes.issued
  current : ∀ sending ∈ pipes.sending,
    sending.issue.turn = pipes.issued.length ∧ (sending.sent ++ sending.todo).Nodup
  streams : ∀ rank, pipes.streams rank = Turns.queue pipes.issued rank ++ pipes.partly rank
  queues : ∀ rank, pipes.queues rank = Turns.queue pipes.remaining rank ++ pipes.partly rank
  suffix : ∀ rank, pipes.queues rank <:+ pipes.streams rank

namespace Ordered

variable {pipes : CommandPipes} {issue : Issue} {sent todo ranks : List Rank} {rank : Rank}

theorem init : Ordered .init where
  numbered := fun _ h => absurd h List.not_mem_nil
  distinct := List.nodup_nil
  remaining := List.Sublist.refl _
  current := fun _ h => by cases h
  streams := fun _ => rfl
  queues := fun _ => rfl
  suffix := fun _ => List.suffix_rfl

theorem begin (h : Ordered pipes) (hnone : pipes.sending = none) (command : PoolCommand)
    (hr : ranks.Nodup) : Ordered (pipes.issue command ranks) where
  numbered := h.numbered
  distinct := h.distinct
  remaining := h.remaining
  current := by
    rintro _ ⟨⟩
    exact ⟨rfl, hr⟩
  streams rank := by
    have := h.streams rank
    simpa [CommandPipes.issue, partly, hnone] using this
  queues rank := by
    have := h.queues rank
    simpa [CommandPipes.issue, partly, hnone] using this
  suffix := h.suffix

theorem send (h : Ordered pipes) (hs : pipes.sending = some ⟨issue, sent, rank :: todo⟩) :
    Ordered { pipes.send issue rank with sending := some ⟨issue, sent ++ [rank], todo⟩ } := by
  obtain ⟨hnum, hnodup⟩ := h.current _ hs
  simp only at hnum hnodup
  have hnew : rank ∉ sent := fun hm => (List.nodup_append.mp hnodup).2.2 rank hm rank (by simp) rfl
  refine { h with current := ?_, streams := fun r => ?_, queues := fun r => ?_, suffix := fun r => ?_ }
  · rintro _ ⟨⟩
    refine ⟨hnum, ?_⟩
    simpa using hnodup
  · by_cases hr : r = rank
    · subst hr
      simp [CommandPipes.send, partly, h.streams, hs, hnew]
    · simp [CommandPipes.send, partly, h.streams, hs, hr]
  · by_cases hr : r = rank
    · subst hr
      simp [CommandPipes.send, partly, h.queues, hs, hnew]
    · simp [CommandPipes.send, partly, h.queues, hs, hr]
  · by_cases hr : r = rank
    · subst hr
      obtain ⟨front, hfront⟩ := h.suffix r
      exact ⟨front, by simp [CommandPipes.send, ← hfront]⟩
    · simpa [CommandPipes.send, hr] using h.suffix r

theorem finish (h : Ordered pipes) (hs : pipes.sending = some ⟨issue, ranks, []⟩) :
    Ordered { pipes with
      issued := pipes.issued ++ [(issue, ranks)]
      remaining := pipes.remaining ++ [(issue, ranks)]
      sending := none } := by
  obtain ⟨hnum, hnodup⟩ := h.current _ hs
  simp only at hnum
  have hpartly : ∀ r, pipes.partly r = Turns.queue [(issue, ranks)] r := by
    intro r
    rw [Turns.queue_singleton]
    simp [partly, hs]
  refine { h with
    numbered := fun job hm => ?_
    distinct := ?_
    remaining := h.remaining.append (List.Sublist.refl _)
    current := fun _ hm => by cases hm
    streams := fun r => ?_
    queues := fun r => ?_ }
  · simp only [List.length_append, List.length_singleton]
    rcases List.mem_append.mp hm with hm | hm
    · have := h.numbered job hm
      omega
    · rw [List.mem_singleton.mp hm, hnum]
      exact Nat.lt_succ_self _
  · rw [List.map_append]
    refine List.nodup_append.mpr ⟨h.distinct, List.nodup_singleton _, ?_⟩
    rintro a ha b hb rfl
    obtain ⟨job, hm, rfl⟩ := List.mem_map.mp ha
    have := h.numbered job hm
    have hb : job.1 = issue := by simpa using hb
    rw [hb] at this
    omega
  · rw [Turns.queue_append, ← hpartly]
    simpa [partly] using h.streams r
  · rw [Turns.queue_append, ← hpartly]
    simpa [partly] using h.queues r

theorem distinct_remaining (h : Ordered pipes) : (pipes.remaining.map Prod.fst).Nodup :=
  h.distinct.sublist (h.remaining.map _)

theorem ranks_of_mem (h : Ordered pipes) (hm : (issue, ranks) ∈ pipes.remaining)
    (hq : issue ∈ Turns.queue pipes.remaining rank) : rank ∈ ranks := by
  obtain ⟨needs, hin, hr⟩ := Turns.mem_queue.mp hq
  have := List.inj_on_of_nodup_map h.distinct_remaining hm hin rfl
  rw [(Prod.mk.inj this).2]
  exact hr

theorem complete (h : Ordered pipes) (hm : (issue, ranks) ∈ pipes.remaining)
    (hheads : pipes.AtHeads issue ranks) : Ordered (pipes.complete issue ranks) := by
  have hqueue : ∀ rank, (if rank ∈ ranks then (Turns.queue pipes.remaining rank).tail
      else Turns.queue pipes.remaining rank) =
      Turns.queue (pipes.remaining.filter fun job => job.1 ≠ issue) rank := by
    intro rank
    rw [Turns.queue_remove]
    have hnodup := Turns.queue_nodup h.distinct_remaining rank
    have hnot : issue ∉ Turns.queue pipes.remaining rank →
        (Turns.queue pipes.remaining rank).filter (· != issue) =
          Turns.queue pipes.remaining rank := by
      intro hn
      refine List.filter_eq_self.mpr fun other ho => ?_
      exact bne_iff_ne.mpr fun heq => hn (heq ▸ ho)
    split
    · rename_i hr
      have hhead := hheads rank hr
      rw [h.queues] at hhead
      have hin : issue ∈ Turns.queue pipes.remaining rank := Turns.mem_queue.mpr ⟨ranks, hm, hr⟩
      cases hq : Turns.queue pipes.remaining rank with
      | nil =>
        rw [hq] at hin
        cases hin
      | cons first rest =>
        rw [hq] at hhead hnodup
        cases hhead
        rw [List.tail_cons, List.filter_cons_of_neg (by simp)]
        refine (List.filter_eq_self.mpr fun other ho => ?_).symm
        exact bne_iff_ne.mpr fun heq => (List.nodup_cons.mp hnodup).1 (heq ▸ ho)
    · rename_i hr
      exact (hnot fun hin => hr (h.ranks_of_mem hm hin)).symm
  refine { h with
    remaining := List.filter_sublist.trans h.remaining
    queues := fun rank => ?_
    suffix := fun rank => ?_ }
  · show (if rank ∈ ranks then (pipes.queues rank).tail else pipes.queues rank) =
      Turns.queue (pipes.remaining.filter fun job => job.1 ≠ issue) rank ++ pipes.partly rank
    rw [← hqueue, h.queues]
    split
    · rename_i hr
      refine List.tail_append_of_ne_nil ?_
      exact List.ne_nil_of_mem (Turns.mem_queue.mpr ⟨ranks, hm, hr⟩)
    · rfl
  · show (if rank ∈ ranks then (pipes.queues rank).tail else pipes.queues rank) <:+ _
    split
    · exact (List.tail_suffix _).trans (h.suffix rank)
    · exact h.suffix rank

end Ordered

end CommandPipes

theorem PipesReach.ordered {Group : ExecutionGroupSpec → Prop}
    (hgroups : ∀ group, Group group → group.ranks.Nodup) {pipes : CommandPipes}
    (h : PipesReach Group pipes) : pipes.Ordered := by
  induction h with
  | start => exact .init
  | dispatch _ hnone hg ih => exact ih.begin hnone _ (hgroups _ hg)
  | migrate _ hnone ih => exact ih.begin hnone _ (MigrationJob.targets_nodup _)
  | send _ hs ih => exact ih.send hs
  | sent _ hs ih => exact ih.finish hs
  | complete _ hm hheads ih => exact ih.complete hm hheads

namespace CommandPipes

variable {pipes : CommandPipes}

theorem Ordered.sublist (h : Ordered pipes) (rank : Rank) :
    (pipes.streams rank).Sublist pipes.order := by
  rw [h.streams]
  refine List.Sublist.append (List.filter_sublist.map _) ?_
  unfold partly
  cases pipes.sending with
  | none => exact List.Sublist.refl _
  | some sending =>
    simp only
    split
    · exact List.Sublist.refl _
    · exact List.nil_sublist _

/-- The oldest command is first in all its queues. -/
theorem Ordered.oldest (h : Ordered pipes) (hne : pipes.remaining ≠ []) :
    ∃ issue ranks, (issue, ranks) ∈ pipes.remaining ∧ pipes.AtHeads issue ranks := by
  obtain ⟨⟨issue, ranks⟩, rest, heq⟩ := List.exists_cons_of_ne_nil hne
  refine ⟨issue, ranks, by simp [heq], fun rank hr => ?_⟩
  rw [h.queues, heq, List.head?_append, Turns.head_queue hr]
  rfl

/-- A queue holds nothing but what remains and what is being sent. -/
theorem Ordered.remaining_or_sending (h : Ordered pipes) (hne : pipes.queues rank ≠ []) :
    pipes.remaining ≠ [] ∨ pipes.sending ≠ none := by
  by_contra hnot
  obtain ⟨hrem, hsend⟩ := not_or.mp hnot
  refine hne ?_
  rw [h.queues, not_not.mp hrem]
  simp [Turns.queue, partly, not_not.mp hsend]

end CommandPipes

/-- The commands of a rank come in the order all are issued in; and as long as
commands remain, one of them is at the head for every rank it is for, or the
only one is still being sent. -/
theorem command_streams (Group : ExecutionGroupSpec → Prop)
    (hgroups : ∀ group, Group group → group.ranks.Nodup) (pipes : CommandPipes)
    (h : PipesReach Group pipes) :
    (∀ rank, (pipes.streams rank).Sublist pipes.order ∧
      pipes.queues rank <:+ pipes.streams rank) ∧
    ((∃ rank, pipes.queues rank ≠ []) →
      (∃ issue ranks, (issue, ranks) ∈ pipes.remaining ∧ pipes.AtHeads issue ranks) ∨
        pipes.remaining = [] ∧ pipes.sending ≠ none) := by
  have ho := h.ordered hgroups
  refine ⟨fun rank => ⟨ho.sublist rank, ho.suffix rank⟩, fun ⟨rank, hne⟩ => ?_⟩
  by_cases hrem : pipes.remaining = []
  · exact .inr ⟨hrem, (ho.remaining_or_sending hne).resolve_left (not_not.mpr hrem)⟩
  · exact .inl (ho.oldest hrem)

-- Groups over two workers: one of both, one of the second, one that names the
-- first twice.

def rankGroup (groupId : String) (ranks : List Rank) (tp : Nat) (hr : ranks ≠ []) (ht : 0 < tp) :
    ExecutionGroupSpec :=
  ⟨groupId, ranks, ⟨tp, 1, 1, ht, Nat.one_pos, Nat.one_pos⟩, [.textEncode], 1, 1, hr, rfl⟩

def commandTask (taskId : String) : InferenceTask :=
  ⟨taskId, "r", .textEncode, none, .pending, 0, [], [], [], none, ∅⟩

def sendBoth (pipes : CommandPipes) (taskId : String) (first second : Rank)
    (group : ExecutionGroupSpec) : CommandPipes :=
  let command : PoolCommand := .task ⟨commandTask taskId, [], group.leader, [], 0, group⟩
  let issue : Issue := ⟨pipes.issued.length, command⟩
  let pipes := (pipes.send issue first).send issue second
  { pipes with
    issued := pipes.issued ++ [(issue, [first, second])]
    remaining := pipes.remaining ++ [(issue, [first, second])]
    sending := none }

theorem sendBoth_reach {Group : ExecutionGroupSpec → Prop} {pipes : CommandPipes}
    (h : PipesReach Group pipes) (hnone : pipes.sending = none) (hg : Group group)
    (hr : group.ranks = [first, second]) :
    PipesReach Group (sendBoth pipes taskId first second group) := by
  have hbegin : PipesReach Group (pipes.dispatch (commandTask taskId) group [] [] 0) :=
    .dispatch h hnone hg
  unfold CommandPipes.dispatch CommandPipes.issue at hbegin
  rw [hr] at hbegin
  have hfirst := PipesReach.send hbegin rfl
  have hsecond := PipesReach.send hfirst rfl
  have hsent := PipesReach.sent hsecond rfl
  exact hsent

/-- The commands for overlapping groups wait in the same order on both ranks. -/
theorem overlapping_streams :
    let pair := rankGroup "pair" [0, 1] 2 (by simp) (by decide)
    let back := rankGroup "back" [1, 2] 2 (by simp) (by decide)
    let pipes := sendBoth (sendBoth .init "a" 0 1 pair) "b" 1 2 back
    (pipes.queues 1).length = 2 ∧
      ∃ issue ranks, (issue, ranks) ∈ pipes.remaining ∧ pipes.AtHeads issue ranks := by
  intro pair back pipes
  have hreach : PipesReach (fun group => group = pair ∨ group = back) pipes :=
    sendBoth_reach (sendBoth_reach .start rfl (.inl rfl) rfl) rfl (.inr rfl) rfl
  refine ⟨rfl, ?_⟩
  obtain ⟨-, hprogress⟩ := command_streams _ (by rintro group (rfl | rfl) <;> decide) pipes hreach
  exact (hprogress ⟨1, by decide⟩).resolve_right fun h => h.2 rfl

/-- A group that names a rank twice has its command sent there twice; and a
command that is still being sent is not at the head for all its ranks. -/
theorem double_rank_streams :
    (¬ ∀ (Group : ExecutionGroupSpec → Prop) (pipes : CommandPipes), PipesReach Group pipes →
      ∀ rank, (pipes.streams rank).Sublist pipes.order) ∧
    ¬ ∀ (Group : ExecutionGroupSpec → Prop) (pipes : CommandPipes),
      (∀ group, Group group → group.ranks.Nodup) → PipesReach Group pipes →
        (∃ rank, pipes.queues rank ≠ []) → ∃ issue ranks, ((issue, ranks) ∈ pipes.remaining ∨
          ∃ sending ∈ pipes.sending, sending.issue = issue ∧ sending.sent ++ sending.todo = ranks) ∧
            pipes.AtHeads issue ranks := by
  refine ⟨fun h => ?_, fun h => ?_⟩
  · have hreach : PipesReach (fun _ => True) (sendBoth .init "a" 0 0
        (rankGroup "double" [0, 0] 2 (by simp) (by decide))) :=
      sendBoth_reach .start rfl trivial rfl
    have hlen := (h _ _ hreach 0).length_le
    exact absurd hlen (by decide)
  · let pair := rankGroup "pair" [0, 1] 2 (by simp) (by decide)
    have hbegin : PipesReach (fun group => group = pair)
        (CommandPipes.init.dispatch (commandTask "a") pair [] [] 0) := .dispatch .start rfl rfl
    have hfirst := PipesReach.send hbegin rfl
    obtain ⟨issue, ranks, hcommand, hheads⟩ :=
      h _ _ (by rintro group rfl; decide) hfirst ⟨0, by decide⟩
    rcases hcommand with hm | ⟨sending, hs, -, rfl⟩
    · exact absurd hm List.not_mem_nil
    · obtain rfl := Option.some.inj hs
      -- The second rank has nothing yet.
      have hempty : (none : Option Issue) = some _ := hheads 1 (by decide)
      cases hempty

end GfDit
