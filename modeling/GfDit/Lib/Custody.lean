import Mathlib.Data.Multiset.MapFold
import Mathlib.Data.Multiset.UnionInter
import Mathlib.Data.Multiset.ZeroCons

/-!
# Who holds what

A bag of tokens, each with its owner. A handover takes at most one token of
one owner out of the bag and puts at most one back in; an owner that had none
gets its first. Owners with at most one token keep at most one, and the
tokens of all others stay as they are.
-/

namespace Custody

variable {κ : Type u} {τ : Type v}

/-- No owner has two tokens. -/
def Single (bag : Multiset (κ × τ)) : Prop := (bag.map Prod.fst).Nodup

def items (owner : κ) : Option τ → Multiset (κ × τ)
  | none => 0
  | some token => {(owner, token)}

/-- `owner` hands in `old` and gets `new`. -/
def Handover (owner : κ) (old new : Option τ) (before after : Multiset (κ × τ)) : Prop :=
  ∃ rest, before = items owner old + rest ∧ after = items owner new + rest ∧
    (old = none → ∀ token, (owner, token) ∉ rest)

variable {bag before after : Multiset (κ × τ)} {owner other : κ} {old new : Option τ}

theorem mem_items {token : τ} : (other, token) ∈ items owner old ↔
    other = owner ∧ old = some token := by
  cases old with
  | none => simp [items]
  | some t => simp [items, eq_comm]

theorem Single.not_mem {token t : τ} {rest : Multiset (κ × τ)}
    (h : Single ({(owner, token)} + rest)) : (owner, t) ∉ rest := by
  rw [Single, Multiset.singleton_add, Multiset.map_cons, Multiset.nodup_cons] at h
  exact fun hm => h.1 (Multiset.mem_map.mpr ⟨_, hm, rfl⟩)

theorem Single.unique {a b : τ} (h : Single bag) (ha : (owner, a) ∈ bag)
    (hb : (owner, b) ∈ bag) : a = b := by
  obtain ⟨rest, rfl⟩ := Multiset.exists_cons_of_mem ha
  rw [← Multiset.singleton_add] at h
  rcases Multiset.mem_cons.mp hb with heq | hb
  · exact (Prod.mk.inj heq).2.symm
  · exact absurd hb h.not_mem

theorem Single.apart {a b : Multiset (κ × τ)} {token t : τ} (h : Single (a + b))
    (ha : (owner, token) ∈ a) : (owner, t) ∉ b := by
  rw [Single, Multiset.map_add, Multiset.nodup_add] at h
  exact fun hb => Multiset.disjoint_left.mp h.2.2 (Multiset.mem_map_of_mem Prod.fst ha)
    (Multiset.mem_map.mpr ⟨_, hb, rfl⟩)

theorem Single.of_le (h : Single bag) (hle : after ≤ bag) : Single after :=
  Multiset.nodup_of_le (Multiset.map_le_map hle) h

-- ---------------------------------------------------------------------------
-- Handovers
-- ---------------------------------------------------------------------------

theorem Handover.single (h : Handover owner old new before after) (hs : Single before) :
    Single after := by
  obtain ⟨rest, rfl, rfl, hfresh⟩ := h
  have hrest : Single rest := hs.of_le (Multiset.le_add_left _ _)
  cases new with
  | none => exact hrest.of_le (by simp [items])
  | some token =>
    have hnot : ∀ t, (owner, t) ∉ rest := by
      cases old with
      | none => exact hfresh rfl
      | some t => exact fun _ => hs.not_mem
    rw [Single, items, Multiset.singleton_add, Multiset.map_cons, Multiset.nodup_cons]
    refine ⟨fun hm => ?_, hrest⟩
    obtain ⟨⟨o, t⟩, hm, ho⟩ := Multiset.mem_map.mp hm
    exact hnot t ((show o = owner from ho) ▸ hm)

theorem Handover.mem_other {token : τ} (h : Handover owner old new before after)
    (hne : other ≠ owner) : (other, token) ∈ after ↔ (other, token) ∈ before := by
  obtain ⟨rest, rfl, rfl, _⟩ := h
  simp [mem_items, hne]

theorem Handover.mem_self {token : τ} (h : Handover owner old new before after)
    (hs : Single before) : (owner, token) ∈ after ↔ new = some token := by
  obtain ⟨rest, rfl, rfl, hfresh⟩ := h
  have hnot : (owner, token) ∉ rest := by
    cases old with
    | none => exact hfresh rfl token
    | some t => exact hs.not_mem
  simp [mem_items, hnot]

theorem Handover.mem_old {token : τ} (h : Handover owner (some token) new before after) :
    (owner, token) ∈ before := by
  obtain ⟨rest, rfl, _⟩ := h
  simp [mem_items]

/-- Nobody gets a first token when one is handed in. -/
theorem Handover.exists_old {token t : τ} (h : Handover owner (some token) new before after)
    (ht : (other, t) ∈ after) : ∃ t, (other, t) ∈ before := by
  by_cases hid : other = owner
  · exact ⟨token, hid ▸ h.mem_old⟩
  · exact ⟨t, (h.mem_other hid).mp ht⟩

end Custody
