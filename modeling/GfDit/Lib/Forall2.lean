import Mathlib.Data.List.Forall2

/-!
# Lists related entry by entry

What `List.Forall₂` says of single entries, and how two such relations compose.
-/

variable {α β γ : Type*} {r : α → β → Prop} {as : List α} {bs : List β}

theorem forall₂_mem_right {b : β} (h : List.Forall₂ r as bs) (hb : b ∈ bs) : ∃ a ∈ as, r a b := by
  induction h with
  | nil => cases hb
  | cons hab _ ih =>
    rcases List.mem_cons.mp hb with rfl | hb
    · exact ⟨_, List.mem_cons_self .., hab⟩
    · obtain ⟨a, ha, hr⟩ := ih hb
      exact ⟨a, List.mem_cons_of_mem _ ha, hr⟩

theorem forall₂_mem_left {a : α} (h : List.Forall₂ r as bs) (ha : a ∈ as) : ∃ b ∈ bs, r a b := by
  obtain ⟨b, hb, hr⟩ := forall₂_mem_right h.flip ha
  exact ⟨b, hb, hr⟩

theorem forall₂_getElem? {a : α} {i : Nat} (h : List.Forall₂ r as bs) (ha : as[i]? = some a) :
    ∃ b, bs[i]? = some b ∧ r a b := by
  induction h generalizing i with
  | nil => cases ha
  | @cons a' b _ _ hab _ ih =>
    cases i with
    | zero =>
      obtain rfl : a' = a := by simpa using ha
      exact ⟨b, rfl, hab⟩
    | succ i => exact ih (by simpa using ha)

theorem forall₂_comp {s : β → γ → Prop} {t : α → γ → Prop} {cs : List γ}
    (hr : List.Forall₂ r as bs) (hs : List.Forall₂ s bs cs)
    (h : ∀ a b c, r a b → s b c → t a c) : List.Forall₂ t as cs := by
  induction hr generalizing cs with
  | nil =>
    cases hs
    exact .nil
  | cons hab _ ih =>
    obtain ⟨c, rest, hbc, hrest, rfl⟩ := List.forall₂_cons_left_iff.mp hs
    exact .cons (h _ _ _ hab hbc) (ih hrest)

theorem forall₂_snoc {a : α} (h : List.Forall₂ r (as ++ [a]) bs) :
    ∃ init b, bs = init ++ [b] ∧ List.Forall₂ r as init ∧ r a b := by
  rw [← List.forall₂_reverse_iff, List.reverse_append, List.reverse_singleton,
    List.singleton_append, List.forall₂_cons_left_iff] at h
  obtain ⟨b, rest, hab, hrest, hbs⟩ := h
  refine ⟨rest.reverse, b, ?_, ?_, hab⟩
  · rw [← List.reverse_cons, ← hbs, List.reverse_reverse]
  · rw [← List.forall₂_reverse_iff, List.reverse_reverse]
    exact hrest
