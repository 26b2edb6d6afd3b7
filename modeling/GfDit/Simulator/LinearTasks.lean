import GfDit.Lib.Acyclic
import GfDit.Tasks
import Mathlib.Data.String.Basic

/-!
# The task sequence of the rolling planner

`_linear_task_sequence` of `policies/primal_dual_rolling.py`. The planner
numbers the tasks of a request by their place in this sequence and estimates
what is left of the request from it, so it has to list every task once and
after everything the task depends on.
-/

namespace GfDit

/-- The dependencies of the task under an id, none for an unknown one. -/
def RequestExecutionPlan.dependenciesOf (plan : RequestExecutionPlan) (taskId : String) :
    List String := ((plan.tasks.get? taskId).map (·.dependencies)).getD []

/-- No task depends on itself through others, and on no unknown task. -/
structure RequestExecutionPlan.IsDag (plan : RequestExecutionPlan) : Prop where
  known : ∀ taskId, ∀ d ∈ plan.dependenciesOf taskId, d ∈ plan.tasks.keys
  acyclic : Acyclic.NoCycle plan.dependenciesOf

namespace Rolling

variable {plan : RequestExecutionPlan}

def sortedIds (taskIds : List String) : List String := taskIds.mergeSort fun a b => decide (a ≤ b)

def dependenciesSatisfied (plan : RequestExecutionPlan) (satisfied : List String)
    (taskId : String) : Bool := (plan.dependenciesOf taskId).all satisfied.contains

def notADag (plan : RequestExecutionPlan) : PyError :=
  .valueError s!"request {plan.requestId} task graph is not a DAG"

/-- The scan that a placement ends; it starts again over what remains. -/
def nextPlaced (plan : RequestExecutionPlan) (remaining satisfied : List String) : Option String :=
  (sortedIds remaining).find? (dependenciesSatisfied plan satisfied)

theorem nextPlaced_mem {remaining satisfied : List String}
    (h : nextPlaced plan remaining satisfied = some taskId) : taskId ∈ remaining :=
  List.mem_mergeSort.mp (List.mem_of_find?_eq_some h)

def placeTasks (plan : RequestExecutionPlan) (remaining satisfied : List String)
    (out : List InferenceTask) : Except PyError (List InferenceTask) :=
  if remaining = [] then pure out
  else
    match h : nextPlaced plan remaining satisfied with
    | none => throw (notADag plan)
    | some taskId =>
      have : taskId ∈ remaining := nextPlaced_mem h
      placeTasks plan (remaining.erase taskId) (satisfied ++ [taskId])
        (out ++ (plan.tasks.get? taskId).toList)
termination_by remaining.length
decreasing_by
  rw [List.length_erase_of_mem this]
  exact Nat.sub_lt (List.length_pos_of_mem this) Nat.one_pos

def linearTaskSequence (plan : RequestExecutionPlan) : Except PyError (List InferenceTask) :=
  placeTasks plan plan.tasks.keys [] []

-- ---------------------------------------------------------------------------
-- The scan gets stuck only on a graph that is no DAG
-- ---------------------------------------------------------------------------

theorem nextPlaced_ready {remaining satisfied : List String}
    (h : nextPlaced plan remaining satisfied = some taskId) :
    ∀ d ∈ plan.dependenciesOf taskId, d ∈ satisfied := by
  have hready := List.find?_some h
  simpa [dependenciesSatisfied] using hready

theorem nextPlaced_isSome (hdag : plan.IsDag) {remaining satisfied : List String}
    (hall : (satisfied ++ remaining).Perm plan.tasks.keys) (hr : remaining ≠ []) :
    nextPlaced plan remaining satisfied ≠ none := by
  intro hnone
  obtain ⟨taskId, hmem, hleft⟩ := Acyclic.exists_ready hdag.acyclic hr
  have hstuck := List.find?_eq_none.mp hnone taskId (List.mem_mergeSort.mpr hmem)
  apply hstuck
  simp only [dependenciesSatisfied, List.all_eq_true, List.contains_eq_mem, decide_eq_true_eq]
  intro d hd
  have hd' := hall.mem_iff.mpr (hdag.known taskId d hd)
  rcases List.mem_append.mp hd' with hsat | hrem
  · exact hsat
  · exact absurd hd (hleft d hrem)

/-- Either every task is placed in a legal order or the graph is no DAG. -/
theorem placeTasks_spec (remaining satisfied : List String)
    (hall : (satisfied ++ remaining).Perm plan.tasks.keys)
    (hlegal : Acyclic.Legal plan.dependenciesOf satisfied) :
    (∃ order : List String, order.Perm plan.tasks.keys ∧
      Acyclic.Legal plan.dependenciesOf order ∧
      placeTasks plan remaining satisfied (satisfied.filterMap plan.tasks.get?) =
        .ok (order.filterMap plan.tasks.get?)) ∨
    ¬ plan.IsDag ∧ placeTasks plan remaining satisfied (satisfied.filterMap plan.tasks.get?) =
      .error (notADag plan) := by
  induction hn : remaining.length generalizing remaining satisfied with
  | zero =>
    obtain rfl := List.eq_nil_of_length_eq_zero hn
    refine .inl ⟨satisfied, by simpa using hall, hlegal, ?_⟩
    rw [placeTasks, if_pos rfl]
    rfl
  | succ n ih =>
    have hr : remaining ≠ [] := List.ne_nil_of_length_eq_add_one hn
    rw [placeTasks, if_neg hr]
    split
    · rename_i hnone
      exact .inr ⟨fun hdag => nextPlaced_isSome hdag hall hr hnone, rfl⟩
    · rename_i taskId hsome
      have hmem := nextPlaced_mem hsome
      have hout : satisfied.filterMap plan.tasks.get? ++ (plan.tasks.get? taskId).toList =
          (satisfied ++ [taskId]).filterMap plan.tasks.get? := by
        rw [List.filterMap_append]
        congr 1
      rw [hout]
      refine ih _ _ ?_ (hlegal.snoc (nextPlaced_ready hsome)) ?_
      · rw [List.append_assoc]
        exact (List.Perm.append_left _ (List.perm_cons_erase hmem).symm).trans hall
      · rw [List.length_erase_of_mem hmem, hn, Nat.add_sub_cancel]

theorem isDag_of_legal {order : List String} (hperm : order.Perm plan.tasks.keys)
    (hlegal : Acyclic.Legal plan.dependenciesOf order) : plan.IsDag := by
  have hmem : ∀ taskId, plan.dependenciesOf taskId ≠ [] → taskId ∈ order := by
    intro taskId hne
    rw [hperm.mem_iff, Dict.mem_keys]
    cases h : plan.tasks.get? taskId with
    | none => simp [RequestExecutionPlan.dependenciesOf, h] at hne
    | some task => rfl
  refine ⟨fun taskId d hd => ?_, hlegal.noCycle (hperm.nodup_iff.mpr plan.tasks.keys_nodup) hmem⟩
  obtain ⟨before, after, he⟩ := List.append_of_mem (hmem taskId (List.ne_nil_of_mem hd))
  rw [← hperm.mem_iff, he]
  exact List.mem_append_left _ (hlegal before taskId after he d hd)

/-- The sequence of a task graph without cycles and unknown dependencies lists
every task once, after all the tasks it depends on; for any other graph the
request is refused. -/
theorem linearTaskSequence_spec (plan : RequestExecutionPlan) :
    (plan.IsDag → ∃ order : List String, order.Perm plan.tasks.keys ∧
      (∀ before taskId after, order = before ++ taskId :: after →
        ∀ d ∈ plan.dependenciesOf taskId, d ∈ before) ∧
      linearTaskSequence plan = .ok (order.filterMap plan.tasks.get?) ∧
      (order.filterMap plan.tasks.get?).Perm plan.tasks.values) ∧
    (¬ plan.IsDag → linearTaskSequence plan =
      .error (.valueError s!"request {plan.requestId} task graph is not a DAG")) := by
  have hspec := @placeTasks_spec plan plan.tasks.keys [] (.refl _) .nil
  rcases hspec with ⟨order, hperm, hlegal, hok⟩ | ⟨hnot, herror⟩
  · refine ⟨fun _ => ⟨order, hperm, hlegal, hok, ?_⟩, fun hnot => ?_⟩
    · rw [← plan.tasks.filterMap_keys]
      exact hperm.filterMap _
    · exact absurd (isDag_of_legal hperm hlegal) hnot
  · exact ⟨fun hdag => absurd hdag hnot, fun _ => herror⟩

end Rolling

end GfDit
