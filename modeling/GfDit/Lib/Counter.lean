import Mathlib.Data.List.Count
import GfDit.Lib.Dict

/-!
# Counters kept in dictionaries

A dictionary of counts with no entry for zero: raising a key adds one,
dropping it takes one away and removes the entry at the last. Dropping a key
that is not there does nothing, so a count is right only when drops match
raises; `count_raiseAll` and `count_dropAll` are what to match them by.
-/

namespace Counter

variable {κ : Type u} [DecidableEq κ]

def count (d : Dict κ Nat) (key : κ) : Nat := d.getD key 0

def raise (d : Dict κ Nat) (key : κ) : Dict κ Nat := d.set key (count d key + 1)

def drop (d : Dict κ Nat) (key : κ) : Dict κ Nat :=
  if count d key ≤ 1 then d.erase key else d.set key (count d key - 1)

def raiseAll (d : Dict κ Nat) (ks : List κ) : Dict κ Nat := ks.foldl raise d

def dropAll (d : Dict κ Nat) (ks : List κ) : Dict κ Nat := ks.foldl drop d

@[simp] theorem count_empty (key : κ) : count (∅ : Dict κ Nat) key = 0 := rfl

theorem count_of_none {d : Dict κ Nat} (h : d.get? key = none) : count d key = 0 := by
  simp [count, Dict.getD, h]

theorem count_congr {d e : Dict κ Nat} (h : d.get? key = e.get? key) :
    count d key = count e key := by
  simp [count, Dict.getD, h]

theorem count_raise (d : Dict κ Nat) (key other : κ) :
    count (raise d key) other = count d other + if key = other then 1 else 0 := by
  unfold count raise Dict.getD
  rw [Dict.get?_set]
  by_cases h : key = other
  · subst h
    simp [count, Dict.getD]
  · simp [h]

theorem count_drop (d : Dict κ Nat) (key other : κ) :
    count (drop d key) other = count d other - if key = other then 1 else 0 := by
  by_cases h : key = other
  · subst h
    unfold drop
    split
    · rename_i hle
      simp only [count, Dict.getD, Dict.get?_erase_self, Option.getD_none, if_true] at hle ⊢
      omega
    · simp [count, Dict.getD]
  · unfold drop
    split <;> simp [count, Dict.getD, Dict.get?_erase_ne, Dict.get?_set_ne, h]

theorem count_raiseAll [BEq κ] [LawfulBEq κ] (d : Dict κ Nat) (ks : List κ) (key : κ) :
    count (raiseAll d ks) key = count d key + ks.count key := by
  induction ks generalizing d with
  | nil => simp [raiseAll]
  | cons k ks ih =>
    show count (raiseAll (raise d k) ks) key = _
    rw [ih, count_raise, List.count_cons]
    simp only [beq_iff_eq]
    omega

theorem count_dropAll [BEq κ] [LawfulBEq κ] (d : Dict κ Nat) (ks : List κ) (key : κ) :
    count (dropAll d ks) key = count d key - ks.count key := by
  induction ks generalizing d with
  | nil => simp [dropAll]
  | cons k ks ih =>
    show count (dropAll (drop d k) ks) key = _
    rw [ih, count_drop, List.count_cons]
    simp only [beq_iff_eq]
    omega

/-- No entry counts zero. -/
def Positive (d : Dict κ Nat) : Prop := ∀ key, d.get? key ≠ some 0

theorem Positive.empty : Positive (∅ : Dict κ Nat) := fun key => by simp

theorem Positive.raise {d : Dict κ Nat} (h : Positive d) (key : κ) : Positive (raise d key) := by
  intro other
  unfold Counter.raise
  rw [Dict.get?_set]
  split
  · simp
  · exact h other

theorem Positive.drop {d : Dict κ Nat} (h : Positive d) (key : κ) : Positive (drop d key) := by
  intro other
  unfold Counter.drop
  split
  · rw [Dict.get?_erase]
    split
    · simp
    · exact h other
  · rename_i hlt
    rw [Dict.get?_set]
    split
    · simp only [ne_eq, Option.some.injEq]
      omega
    · exact h other

theorem Positive.raiseAll {d : Dict κ Nat} (h : Positive d) (ks : List κ) :
    Positive (raiseAll d ks) := by
  induction ks generalizing d with
  | nil => exact h
  | cons k ks ih => exact ih (h.raise k)

theorem Positive.dropAll {d : Dict κ Nat} (h : Positive d) (ks : List κ) :
    Positive (dropAll d ks) := by
  induction ks generalizing d with
  | nil => exact h
  | cons k ks ih => exact ih (h.drop k)

-- ---------------------------------------------------------------------------
-- Counting over a part of a list
-- ---------------------------------------------------------------------------

omit [DecidableEq κ] in
theorem count_flatMap_filter [BEq κ] [LawfulBEq κ] {α : Type v} {a : α} {l : List α}
    (hn : l.Nodup) (ha : a ∈ l) {p q : α → Bool}
    (hp : p a = true) (hq : q a = false) (hpq : ∀ x ∈ l, x ≠ a → p x = q x) (f : α → List κ)
    (key : κ) : ((l.filter p).flatMap f).count key =
      (f a).count key + ((l.filter q).flatMap f).count key := by
  induction l with
  | nil => exact absurd ha List.not_mem_nil
  | cons x l ih =>
    obtain ⟨hx, hn⟩ := List.nodup_cons.mp hn
    by_cases heq : x = a
    · subst heq
      have hsame : l.filter p = l.filter q :=
        List.filter_congr fun y hy => hpq y (List.mem_cons_of_mem _ hy) fun e => hx (e ▸ hy)
      simp [hp, hq, hsame]
    · have ha : a ∈ l := (List.mem_cons.mp ha).resolve_left (Ne.symm heq)
      have ih := ih hn ha fun y hy => hpq y (List.mem_cons_of_mem _ hy)
      have hpx := hpq x (List.mem_cons_self ..) heq
      cases hqx : q x
      · rw [List.filter_cons_of_neg (by simp [hpx, hqx]), List.filter_cons_of_neg (by simp [hqx])]
        exact ih
      · rw [List.filter_cons_of_pos (by simp [hpx, hqx]), List.filter_cons_of_pos hqx,
          List.flatMap_cons, List.flatMap_cons, List.count_append, List.count_append, ih]
        omega

end Counter
