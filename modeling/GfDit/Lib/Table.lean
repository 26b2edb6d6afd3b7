import Mathlib.Data.List.Nodup
import Mathlib.Data.List.Perm.Basic
import GfDit.Lib.Dict

/-!
# Dictionaries of keyed items

A dictionary lists the items of a list when it has each of them under its own
key and nothing else. Adding an item with a new key adds it to the list, and
replacing an item by one with the same key replaces it there.
-/

namespace Dict

variable {κ α : Type} [DecidableEq κ] {key : α → κ} {d : Dict κ α} {items : List α}

structure Lists (key : α → κ) (d : Dict κ α) (items : List α) : Prop where
  nodup : (items.map key).Nodup
  get?_iff : ∀ k a, d.get? k = some a ↔ a ∈ items ∧ key a = k

theorem Lists.empty : Lists key (∅ : Dict κ α) [] := ⟨.nil, by simp⟩

theorem Lists.get? (h : Lists key d items) (hm : a ∈ items) : d.get? (key a) = some a :=
  (h.get?_iff _ _).mpr ⟨hm, rfl⟩

theorem Lists.add (h : Lists key d items) (hnew : key a ∉ items.map key) :
    Lists key (d.set (key a) a) (items ++ [a]) := by
  refine ⟨?_, fun k b => ?_⟩
  · rw [List.map_append, List.map_singleton, List.nodup_append]
    refine ⟨h.nodup, List.nodup_singleton _, fun x hx y hy => ?_⟩
    rw [List.mem_singleton.mp hy]
    exact fun heq => hnew (heq ▸ hx)
  · rw [Dict.get?_set, List.mem_append, List.mem_singleton]
    by_cases hk : key a = k
    · rw [if_pos hk]
      constructor
      · rintro ⟨⟩
        exact ⟨.inr rfl, hk⟩
      · rintro ⟨hm | rfl, hb⟩
        · exact absurd (List.mem_map.mpr ⟨b, hm, hb.trans hk.symm⟩) hnew
        · rfl
    · rw [if_neg hk, h.get?_iff]
      constructor
      · exact fun ⟨hm, hb⟩ => ⟨.inl hm, hb⟩
      · rintro ⟨hm | rfl, hb⟩
        · exact ⟨hm, hb⟩
        · exact absurd hb hk

theorem Lists.addAll (h : Lists key d items) {added : List α}
    (hn : ((items ++ added).map key).Nodup) :
    Lists key (added.foldl (fun d a => d.set (key a) a) d) (items ++ added) := by
  induction added generalizing d items with
  | nil => simpa using h
  | cons a added ih =>
    have hnew : key a ∉ items.map key := by
      intro hm
      rw [List.map_append, List.nodup_append] at hn
      exact hn.2.2 _ hm _ (List.mem_cons_self ..) rfl
    have := ih (h.add hnew) (by simpa using hn)
    simpa using this

theorem Lists.replace (h : Lists key d (front ++ a :: back)) (hk : key b = key a) :
    Lists key (d.set (key a) b) (front ++ b :: back) := by
  have hn := h.nodup
  refine ⟨by simpa [hk] using hn, fun k c => ?_⟩
  rw [List.map_append, List.map_cons, List.nodup_middle, List.nodup_cons] at hn
  have hout : ∀ c ∈ front ++ back, key c ≠ key a := fun c hm heq =>
    hn.1 (by rw [← heq, ← List.map_append]; exact List.mem_map.mpr ⟨c, hm, rfl⟩)
  rw [Dict.get?_set]
  by_cases hka : key a = k
  · rw [if_pos hka]
    constructor
    · rintro ⟨⟩
      exact ⟨by simp, hk.trans hka⟩
    · rintro ⟨hm, hc⟩
      rcases List.mem_append.mp hm with hm | hm
      · exact absurd (hc.trans hka.symm) (hout c (by simp [hm]))
      · rcases List.mem_cons.mp hm with rfl | hm
        · rfl
        · exact absurd (hc.trans hka.symm) (hout c (by simp [hm]))
  · rw [if_neg hka, h.get?_iff]
    constructor
    · rintro ⟨hm, hc⟩
      have hne : c ≠ a := fun heq => hka (heq ▸ hc)
      exact ⟨by simpa [hne, or_left_comm] using Or.inr (by simpa [hne] using hm), hc⟩
    · rintro ⟨hm, hc⟩
      have hne : c ≠ b := fun heq => hka (by rw [← hk, ← heq, hc])
      have hm' : c ∈ front ∨ c ∈ back := by simpa [hne] using hm
      exact ⟨by rcases hm' with hm' | hm' <;> simp [hm'], hc⟩

theorem Lists.values_perm (h : Lists key d items) : d.values.Perm items := by
  have hentries : d.entries.Perm (items.map fun a => (key a, a)) := by
    refine (List.perm_ext_iff_of_nodup ?_ ?_).mpr fun entry => ?_
    · exact .of_map Prod.fst d.nodup
    · refine .of_map Prod.fst ?_
      rw [List.map_map]
      exact h.nodup
    · obtain ⟨k, a⟩ := entry
      rw [← Dict.get?_eq_some, h.get?_iff, List.mem_map]
      constructor
      · rintro ⟨hm, rfl⟩
        exact ⟨a, hm, rfl⟩
      · rintro ⟨b, hm, heq⟩
        obtain ⟨rfl, rfl⟩ := Prod.mk.inj heq
        exact ⟨hm, rfl⟩
  have hvalues := hentries.map Prod.snd
  have hid : items.map (Prod.snd ∘ fun a => (key a, a)) = items := List.map_id' items
  rw [List.map_map, hid] at hvalues
  exact hvalues

end Dict

/-- Items under distinct keys, with the keys in the same order on both sides. -/
theorem List.Perm.eq_of_keys {κ α : Type} (key : α → κ) {items items' : List α}
    (h : items.Perm items') (hkeys : items.map key = items'.map key)
    (hn : (items.map key).Nodup) : items = items' := by
  induction items generalizing items' with
  | nil => exact (List.nil_perm.mp h).symm
  | cons item rest ih =>
    cases items' with
    | nil => exact List.perm_nil.mp h
    | cons item' rest' =>
      obtain ⟨-, hrest⟩ := List.cons.inj hkeys
      obtain ⟨hnew, hn⟩ := List.nodup_cons.mp hn
      obtain rfl : item = item' := by
        refine (List.mem_cons.mp (h.mem_iff.mp (List.mem_cons_self ..))).resolve_right fun hm => ?_
        exact hnew (hrest ▸ List.mem_map_of_mem hm)
      rw [ih ((List.perm_cons _).mp h) hrest hn]
