import Mathlib.Data.List.Basic
import Mathlib.Data.List.Nodup
import Mathlib.Data.List.Pairwise

/-!
# Taking turns at shared resources

Jobs stand in one global order, each with the resources it needs. The queue
of a resource is the order restricted to the jobs that need it. The first job
of the order is then at the front of all its queues, whatever the others
need, and a job at the front stays there until it leaves.
-/

namespace Turns

variable {Id : Type u} {Res : Type v} [DecidableEq Res]

def queue (order : List (Id × List Res)) (r : Res) : List Id :=
  (order.filter fun job => r ∈ job.2).map Prod.fst

theorem mem_queue {order : List (Id × List Res)} {id : Id} :
    id ∈ queue order r ↔ ∃ needs, (id, needs) ∈ order ∧ r ∈ needs := by
  simp [queue]

theorem queue_nodup {order : List (Id × List Res)} (h : (order.map Prod.fst).Nodup) (r : Res) :
    (queue order r).Nodup := List.Nodup.sublist (List.filter_sublist.map _) h

theorem queue_append (order more : List (Id × List Res)) (r : Res) :
    queue (order ++ more) r = queue order r ++ queue more r := by
  simp [queue]

theorem queue_singleton (id : Id) (needs : List Res) (r : Res) :
    queue [(id, needs)] r = if r ∈ needs then [id] else [] := by
  by_cases h : r ∈ needs <;> simp [queue, h]

theorem queue_remove [DecidableEq Id] (order : List (Id × List Res)) (id : Id) (r : Res) :
    queue (order.filter fun job => job.1 ≠ id) r = (queue order r).filter (· != id) := by
  simp only [queue, List.filter_filter, List.filter_map]
  congr 1
  refine List.filter_congr fun job _ => ?_
  simp [bne, Bool.and_comm, beq_eq_decide]

/-- The first job of the order is at the front of all its queues. -/
theorem head_queue {id : Id} {rest : List (Id × List Res)} (h : r ∈ needs) :
    (queue ((id, needs) :: rest) r).head? = some id := by
  simp [queue, h]

theorem queue_pairwise {order : List (Id × List Res)} {R : Id → Id → Prop}
    (h : (order.map Prod.fst).Pairwise R) (r : Res) : (queue order r).Pairwise R :=
  h.sublist (List.filter_sublist.map _)

end Turns
