import Mathlib.Data.List.Basic
import Mathlib.Data.List.Perm.Basic

/-!
# Work that is reported, started and ended

A history of items, newest entry first. An item that is reported waits until
it is started or until its owner is closed; one that is started runs until its
key is ended. In a lawful history every start is of an item that waits, and
among the items of a lane always of the first. Then each report is used up
exactly once, by a start or with its owner, and a lane starts in the order of
its reports.
-/

namespace Roster

variable {α κ ρ : Type}

inductive Entry (α κ ρ : Type)
  | reported (item : α)
  | started (item : α)
  | ended (key : κ)
  | closed (owner : ρ)

def reported : List (Entry α κ ρ) → List α
  | [] => []
  | .reported item :: log => reported log ++ [item]
  | .started _ :: log | .ended _ :: log | .closed _ :: log => reported log

def started : List (Entry α κ ρ) → List α
  | [] => []
  | .started item :: log => started log ++ [item]
  | .reported _ :: log | .ended _ :: log | .closed _ :: log => started log

def running [DecidableEq κ] (key : α → κ) : List (Entry α κ ρ) → List α
  | [] => []
  | .started item :: log => item :: running key log
  | .ended k :: log => (running key log).filter fun item => key item ≠ k
  | .reported _ :: log | .closed _ :: log => running key log

-- ---------------------------------------------------------------------------
-- Several at once
-- ---------------------------------------------------------------------------

theorem started_append (later earlier : List (Entry α κ ρ)) :
    started (later ++ earlier) = started earlier ++ started later := by
  induction later with
  | nil => exact (List.append_nil _).symm
  | cons entry later ih =>
    cases entry with
    | started item =>
      rw [List.cons_append, started, started, ih, List.append_assoc]
    | reported _ | ended _ | closed _ => exact ih

theorem running_append_started [DecidableEq κ] (key : α → κ) (items : List α)
    (log : List (Entry α κ ρ)) :
    running key ((items.map .started).reverse ++ log) = items.reverse ++ running key log := by
  induction items generalizing log with
  | nil => rfl
  | cons item items ih =>
    rw [List.map_cons, List.reverse_cons, List.append_assoc, ih, List.reverse_cons,
      List.append_assoc]
    rfl

theorem reported_append_started (items : List α) (log : List (Entry α κ ρ)) :
    reported ((items.map .started).reverse ++ log) = reported log := by
  induction items generalizing log with
  | nil => rfl
  | cons item items ih =>
    rw [List.map_cons, List.reverse_cons, List.append_assoc, ih]
    rfl

theorem started_append_started (items : List α) (log : List (Entry α κ ρ)) :
    started ((items.map .started).reverse ++ log) = started log ++ items := by
  induction items generalizing log with
  | nil => exact (List.append_nil _).symm
  | cons item items ih =>
    rw [List.map_cons, List.reverse_cons, List.append_assoc, ih]
    exact List.append_assoc ..

theorem reported_append_reported (items : List α) (log : List (Entry α κ ρ)) :
    reported ((items.map .reported).reverse ++ log) = reported log ++ items := by
  induction items generalizing log with
  | nil => exact (List.append_nil _).symm
  | cons item items ih =>
    rw [List.map_cons, List.reverse_cons, List.append_assoc, ih]
    exact List.append_assoc ..

theorem started_append_reported (items : List α) (log : List (Entry α κ ρ)) :
    started ((items.map .reported).reverse ++ log) = started log := by
  induction items generalizing log with
  | nil => rfl
  | cons item items ih =>
    rw [List.map_cons, List.reverse_cons, List.append_assoc, ih]
    rfl

-- ---------------------------------------------------------------------------
-- What waits
-- ---------------------------------------------------------------------------

variable [DecidableEq α] [DecidableEq ρ]

def waiting (owner : α → ρ) : List (Entry α κ ρ) → List α
  | [] => []
  | .reported item :: log => waiting owner log ++ [item]
  | .started item :: log => (waiting owner log).erase item
  | .ended _ :: log => waiting owner log
  | .closed r :: log => (waiting owner log).filter fun item => owner item ≠ r

/-- Waiting when its owner was closed. -/
def dropped (owner : α → ρ) : List (Entry α κ ρ) → List α
  | [] => []
  | .closed r :: log =>
    dropped owner log ++ (waiting owner log).filter fun item => owner item = r
  | .reported _ :: log | .started _ :: log | .ended _ :: log => dropped owner log

def Lawful (owner : α → ρ) (lane : α → Bool) : List (Entry α κ ρ) → Prop
  | [] => True
  | .started item :: log => item ∈ waiting owner log ∧
      (lane item = true → ∃ rest, (waiting owner log).filter lane = item :: rest) ∧
      Lawful owner lane log
  | .reported _ :: log | .ended _ :: log | .closed _ :: log => Lawful owner lane log

variable {owner : α → ρ} {lane : α → Bool} {log : List (Entry α κ ρ)}

-- ---------------------------------------------------------------------------
-- A queue cut out of what waits
-- ---------------------------------------------------------------------------

/-- The head of a queue starts: the queue loses its head. -/
theorem filter_waiting_started {p : α → Bool} (h : (waiting owner log).filter p = item :: rest) :
    (waiting owner (.started item :: log)).filter p = rest := by
  rw [waiting, ← List.erase_filter, h, List.erase_cons_head]

theorem filter_waiting_started_of_neg {p : α → Bool} (h : p item = false) :
    (waiting owner (.started item :: log)).filter p = (waiting owner log).filter p := by
  rw [waiting, ← List.erase_filter]
  refine List.erase_of_not_mem fun hm => ?_
  rw [(List.mem_filter.mp hm).2] at h
  cases h

theorem perm_waiting_started (h : item ∈ waiting owner log) :
    (waiting owner log).Perm (item :: waiting owner (.started item :: log)) :=
  List.perm_cons_erase h

theorem mem_of_mem_waiting_started (h : other ∈ waiting owner (.started item :: log)) :
    other ∈ waiting owner log :=
  List.mem_of_mem_erase h

-- ---------------------------------------------------------------------------
-- Lawful histories
-- ---------------------------------------------------------------------------

/-- Each report is used up once, by a start or with its owner, or still
waits. -/
theorem Lawful.perm (h : Lawful owner lane log) :
    (reported log).Perm (started log ++ dropped owner log ++ waiting owner log) := by
  induction log with
  | nil => exact .refl _
  | cons entry log ih =>
    cases entry with
    | reported item =>
      rw [reported, started, dropped, waiting, ← List.append_assoc]
      exact (ih h).append_right [item]
    | started item =>
      obtain ⟨hm, -, h⟩ := h
      rw [reported, started, dropped, waiting]
      refine (ih h).trans ?_
      rw [List.append_assoc, List.append_assoc, List.append_assoc]
      refine .append_left _ ?_
      calc dropped owner log ++ waiting owner log
          |>.Perm (dropped owner log ++ item :: (waiting owner log).erase item) :=
            .append_left _ (perm_waiting_started hm)
        _ |>.Perm ([item] ++ (dropped owner log ++ (waiting owner log).erase item)) :=
            List.perm_middle
    | ended k => exact ih h
    | closed r =>
      rw [reported, started, dropped, waiting]
      refine (ih h).trans ?_
      rw [List.append_assoc, List.append_assoc, List.append_assoc]
      refine .append_left _ (.append_left _ ?_)
      have hsplit := List.filter_append_perm (fun item => decide (owner item = r)) (waiting owner log)
      simpa using hsplit.symm

/-- The lane starts in the order of its reports. -/
theorem Lawful.sublist (h : Lawful owner lane log) :
    ((started log).filter lane ++ (waiting owner log).filter lane).Sublist
      ((reported log).filter lane) := by
  induction log with
  | nil => exact .slnil
  | cons entry log ih =>
    cases entry with
    | reported item =>
      rw [reported, started, waiting, List.filter_append, List.filter_append, ← List.append_assoc]
      exact (ih h).append_right _
    | started item =>
      obtain ⟨-, hfirst, h⟩ := h
      cases hl : lane item with
      | false =>
        rw [filter_waiting_started_of_neg hl, reported, started, List.filter_append]
        simpa [hl] using ih h
      | true =>
        obtain ⟨rest, hrest⟩ := hfirst hl
        have ih := ih h
        rw [hrest] at ih
        rw [filter_waiting_started hrest, reported, started, List.filter_append]
        simpa [hl] using ih
    | ended k => exact ih h
    | closed r =>
      refine .trans ?_ (ih h)
      exact .append_left (List.filter_sublist.filter _) _

end Roster
