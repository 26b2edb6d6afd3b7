import Mathlib.Data.List.Basic
import Mathlib.Data.List.Nodup
import Mathlib.Data.List.Perm.Basic

/-!
# The one element that counts

A duplicate-free list with a single element satisfying a predicate filters to
that element; a sum of lists in which a single summand is not empty is that
summand.
-/

namespace List

theorem filter_eq_singleton {l : List α} {p : α → Bool} (hn : l.Nodup) (hm : a ∈ l)
    (hp : p a = true) (hu : ∀ b ∈ l, p b = true → b = a) : l.filter p = [a] := by
  induction l with
  | nil => cases hm
  | cons b l ih =>
    obtain ⟨hb, hl⟩ := nodup_cons.mp hn
    rcases mem_cons.mp hm with rfl | hm
    · rw [filter_cons_of_pos hp]
      refine congrArg _ (filter_eq_nil_iff.mpr fun c hc hpc => ?_)
      exact hb (hu c (mem_cons_of_mem _ hc) hpc ▸ hc)
    · have hba : b ≠ a := fun h => hb (h ▸ hm)
      rw [filter_cons_of_neg fun h => hba (hu b (mem_cons_self ..) h)]
      exact ih hl hm fun c hc => hu c (mem_cons_of_mem _ hc)

theorem flatMap_eq_of_unique {l : List α} {f : α → List β} {key : α → κ}
    (hn : (l.map key).Nodup) (hm : a ∈ l) (hu : ∀ b ∈ l, key b ≠ key a → f b = []) :
    l.flatMap f = f a := by
  induction l with
  | nil => cases hm
  | cons b l ih =>
    rw [map_cons, nodup_cons] at hn
    rw [flatMap_cons]
    rcases mem_cons.mp hm with rfl | hm
    · have hrest : l.flatMap f = [] := by
        refine flatMap_eq_nil_iff.mpr fun c hc => hu c (mem_cons_of_mem _ hc) fun h => ?_
        exact hn.1 (mem_map.mpr ⟨c, hc, h⟩)
      rw [hrest, append_nil]
    · have hb : f b = [] := hu b (mem_cons_self ..) fun h =>
        hn.1 (mem_map.mpr ⟨a, hm, h.symm⟩)
      rw [hb, nil_append]
      exact ih hn.2 hm fun c hc => hu c (mem_cons_of_mem _ hc)

theorem flatMap_filter (l : List α) (p : α → Bool) (f : α → List β) :
    (l.filter p).flatMap f = l.flatMap fun a => if p a = true then f a else [] := by
  induction l with
  | nil => rfl
  | cons a l ih =>
    by_cases h : p a = true
    · rw [filter_cons_of_pos h, flatMap_cons, flatMap_cons, ih, if_pos h]
    · rw [filter_cons_of_neg h, flatMap_cons, ih, if_neg h, nil_append]

theorem map_filterMap_sublist {f : α → Option β} {g : β → κ} {key : α → κ}
    (hf : ∀ a b, f a = some b → g b = key a) (l : List α) :
    ((l.filterMap f).map g).Sublist (l.map key) := by
  induction l with
  | nil => exact .slnil
  | cons a l ih =>
    cases h : f a with
    | none =>
      rw [filterMap_cons_none h]
      exact ih.cons _
    | some b =>
      rw [filterMap_cons_some h, map_cons, map_cons, hf a b h]
      exact ih.cons_cons _

theorem countP_filter_ne_key [DecidableEq κ] {l : List α} {key : α → κ} (hn : (l.map key).Nodup)
    (hm : a ∈ l) (p : α → Bool) :
    (l.filter fun b => key b ≠ key a).countP p + (if p a = true then 1 else 0) = l.countP p := by
  induction l with
  | nil => cases hm
  | cons b l ih =>
    rw [map_cons, nodup_cons] at hn
    rcases mem_cons.mp hm with rfl | hm
    · have hrest : l.filter (fun b => key b ≠ key a) = l := by
        refine filter_eq_self.mpr fun c hc => ?_
        have : key c ≠ key a := fun h => hn.1 (mem_map.mpr ⟨c, hc, h⟩)
        simpa using this
      rw [filter_cons_of_neg (by simp), hrest, countP_cons]
    · have hb : key b ≠ key a := fun h => hn.1 (mem_map.mpr ⟨a, hm, h.symm⟩)
      rw [filter_cons_of_pos (by simpa using hb), countP_cons, countP_cons, ← ih hn.2 hm]
      omega

theorem Perm.eq_singleton_of_filter {l l' : List α} {p : α → Bool} (h : l.Perm l')
    (hf : l'.filter p = [a]) : l.filter p = [a] :=
  perm_singleton.mp (hf ▸ h.filter p)

end List
