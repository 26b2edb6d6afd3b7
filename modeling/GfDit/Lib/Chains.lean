import Mathlib.Data.List.Chain
import Mathlib.Data.List.Nodup
import Mathlib.Data.List.Perm.Basic

/-!
# Chains of distinct elements

A chain in which nothing has two predecessors is determined by its elements.
-/

namespace List

variable {α : Type} {R : α → α → Prop}

theorem IsChain.exists_before {a b : α} {l : List α} (h : (a :: l).IsChain R) (hm : b ∈ l) :
    ∃ c ∈ a :: l, R c b := by
  induction l generalizing a with
  | nil => cases hm
  | cons c l ih =>
    obtain ⟨hac, hrest⟩ := isChain_cons_cons.mp h
    rcases mem_cons.mp hm with rfl | hm
    · exact ⟨a, mem_cons_self .., hac⟩
    · obtain ⟨d, hd, hr⟩ := ih hrest hm
      exact ⟨d, mem_cons_of_mem _ hd, hr⟩

/-- Where nothing has two predecessors and one element has none, there is only
one way to put the elements in a chain. -/
theorem IsChain.eq_of_perm {a : α} {l l' : List α} (h : (a :: l).IsChain R) (h' : l'.IsChain R)
    (hp : (a :: l).Perm l') (hn : (a :: l).Nodup)
    (hu : ∀ x ∈ a :: l, ∀ y ∈ a :: l, ∀ z, R x z → R y z → x = y)
    (hf : ∀ x ∈ a :: l, ¬ R x a) : a :: l = l' := by
  induction l generalizing a l' with
  | nil => exact (perm_singleton.mp hp.symm).symm
  | cons b l ih =>
    cases l' with
    | nil => exact absurd hp.length_eq (by simp)
    | cons a' m =>
      obtain rfl : a = a' := by
        rcases mem_cons.mp (hp.subset (mem_cons_self ..)) with heq | hm
        · exact heq
        · obtain ⟨c, hc, hr⟩ := h'.exists_before hm
          exact absurd hr (hf c (hp.mem_iff.mpr hc))
      obtain ⟨hab, hrest⟩ := isChain_cons_cons.mp h
      obtain ⟨hnew, hn⟩ := nodup_cons.mp hn
      refine congrArg (List.cons a) (ih hrest h'.tail ((perm_cons a).mp hp) hn
        (fun x hx y hy => hu x (mem_cons_of_mem _ hx) y (mem_cons_of_mem _ hy)) fun x hx hr => ?_)
      have heq := hu x (mem_cons_of_mem _ hx) a (mem_cons_self ..) b hr hab
      exact hnew (heq ▸ hx)

end List
