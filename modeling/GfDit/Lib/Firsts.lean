import Mathlib.Data.List.Basic
import Mathlib.Data.List.Induction

/-!
# The order of first occurrences

A queue that everyone joins once, at the end: what it holds is the list of
those who came, each at the place of the first time.
-/

namespace Firsts

variable {α : Type} [DecidableEq α]

def join (queue : List α) (x : α) : List α := if x ∈ queue then queue else queue ++ [x]

def firsts (items : List α) : List α := items.foldl join []

@[simp] theorem firsts_nil : firsts ([] : List α) = [] := rfl

theorem firsts_append_singleton (items : List α) (x : α) :
    firsts (items ++ [x]) = join (firsts items) x := by
  rw [firsts, List.foldl_append]
  rfl

@[simp] theorem mem_join {queue : List α} {x y : α} : y ∈ join queue x ↔ y ∈ queue ∨ y = x := by
  unfold join
  split
  · rename_i hm
    exact ⟨.inl, fun h => h.elim id fun heq => heq ▸ hm⟩
  · simp

theorem mem_firsts {items : List α} {y : α} : y ∈ firsts items ↔ y ∈ items := by
  induction items using List.reverseRecOn with
  | nil => simp
  | append_singleton items x ih => simp [firsts_append_singleton, ih]

theorem firsts_cons (x : α) (items : List α) :
    firsts (x :: items) = x :: firsts (items.filter (· ≠ x)) := by
  induction items using List.reverseRecOn with
  | nil => rfl
  | append_singleton items y ih =>
    rw [← List.cons_append, firsts_append_singleton, ih, List.filter_append]
    by_cases hy : y = x
    · subst hy
      simp [join]
    · simp only [List.filter_cons, List.filter_nil, ne_eq, hy, not_false_eq_true, decide_true,
        if_true, firsts_append_singleton, join, List.mem_cons, false_or]
      split <;> rfl

theorem firsts_eq_nil {items : List α} : firsts items = [] ↔ items = [] := by
  cases items with
  | nil => simp
  | cons x items => simp [firsts_cons]

theorem firsts_eq_cons {items : List α} (h : firsts items = x :: rest) :
    (∃ later, items = x :: later) ∧ rest = firsts (items.filter (· ≠ x)) := by
  cases items with
  | nil => cases h
  | cons y later =>
    rw [firsts_cons] at h
    obtain ⟨rfl, rfl⟩ := List.cons.inj h
    exact ⟨⟨later, rfl⟩, by simp⟩

end Firsts
