import Mathlib.Data.List.Basic
import Mathlib.Algebra.BigOperators.Group.List.Basic
import Mathlib.Algebra.GroupWithZero.Nat

/-!
# Histories

A history is the list of what has happened, newest first. `Each` says what
every entry owes to those before it; `total` adds up what the entries count
for.
-/

namespace History

variable {α : Type u}

/-- Every entry stands in `P` to what came before it. -/
def Each (P : α → List α → Prop) : List α → Prop
  | [] => True
  | entry :: earlier => P entry earlier ∧ Each P earlier

variable {P : α → List α → Prop}

theorem Each.append {entries : List α} (h : Each P earlier)
    (he : ∀ entry ∈ entries, ∀ before, P entry before) : Each P (entries ++ earlier) := by
  induction entries with
  | nil => exact h
  | cons entry entries ih =>
    refine ⟨he entry (List.mem_cons_self ..) _, ih fun e hm => he e (List.mem_cons_of_mem _ hm)⟩

instance decidableEach [∀ entry earlier, Decidable (P entry earlier)] :
    (entries : List α) → Decidable (Each P entries)
  | [] => .isTrue trivial
  | _ :: earlier =>
    have := decidableEach earlier
    inferInstanceAs (Decidable (_ ∧ _))

theorem Each.at {entries : List α} (h : Each P entries) (hs : entries = later ++ entry :: earlier) :
    P entry earlier := by
  subst hs
  induction later with
  | nil => exact h.1
  | cons _ later ih => exact ih h.2

theorem Each.of_suffix {entries : List α} (h : Each P entries) (hs : earlier <:+ entries) :
    Each P earlier := by
  induction entries with
  | nil =>
    rw [List.suffix_nil.mp hs]
    trivial
  | cons entry entries ih =>
    rcases List.suffix_cons_iff.mp hs with rfl | hs
    · exact h
    · exact ih h.2 hs

def total (f : α → Nat) (entries : List α) : Nat := (entries.map f).sum

variable {f : α → Nat}

@[simp] theorem total_nil : total f [] = 0 := rfl

@[simp] theorem total_cons (entry : α) (earlier : List α) :
    total f (entry :: earlier) = f entry + total f earlier := by
  simp [total]

theorem total_pos {entries : List α} : 0 < total f entries ↔ ∃ entry ∈ entries, 0 < f entry := by
  induction entries with
  | nil => simp
  | cons entry earlier ih =>
    rw [total_cons, Nat.add_pos_iff_pos_or_pos, ih]
    simp

end History
