import Mathlib.Data.List.Basic
import Mathlib.Data.List.Perm.Subperm
import Mathlib.Order.WellFoundedSet

/-!
# Acyclic prerequisites

`deps x` lists what has to come before `x`. An order of some items is legal
when each one's prerequisites stand before it. Finitely many items have a
legal order exactly when no item is, through any chain, its own prerequisite,
and then a greedy choice never gets stuck: whatever has been placed, some item
that is left has all its prerequisites placed.
-/

namespace Acyclic

variable {κ : Type u} {deps : κ → List κ}

/-- `d` is a direct prerequisite of `x`. -/
def Needs (deps : κ → List κ) (d x : κ) : Prop := d ∈ deps x

def NoCycle (deps : κ → List κ) : Prop := ∀ x, ¬ Relation.TransGen (Needs deps) x x

def Legal (deps : κ → List κ) (order : List κ) : Prop :=
  ∀ before x after, order = before ++ x :: after → ∀ d ∈ deps x, d ∈ before

theorem Legal.nil : Legal deps [] := by
  intro before x after h
  simp at h

theorem Legal.snoc {order : List κ} (h : Legal deps order) (hx : ∀ d ∈ deps x, d ∈ order) :
    Legal deps (order ++ [x]) := by
  intro before y after he d hd
  rcases List.eq_nil_or_concat after with rfl | ⟨after, z, rfl⟩
  · obtain ⟨rfl, hy⟩ := List.append_inj' he rfl
    obtain rfl : x = y := by simpa using hy
    exact hx d hd
  · have he' : order ++ [x] = (before ++ y :: after) ++ [z] := by simpa using he
    obtain ⟨horder, -⟩ := List.append_inj' he' rfl
    exact h before y after horder d hd

/-- In a legal order without repetition nothing is its own prerequisite. -/
theorem Legal.noCycle {order : List κ} (h : Legal deps order) (hn : order.Nodup)
    (hall : ∀ x, deps x ≠ [] → x ∈ order) : NoCycle deps := by
  -- Along a chain of prerequisites the items move towards the front.
  have key : ∀ {d x}, Relation.TransGen (Needs deps) d x →
      ∀ before after, order = before ++ x :: after → d ∈ before := by
    intro d x hc
    induction hc with
    | single hd => exact fun before after he => h before _ after he d hd
    | tail hc hd ih =>
      intro before after he
      obtain ⟨pre, post, rfl⟩ := List.append_of_mem (h before _ after he _ hd)
      have := ih pre (post ++ _ :: after) (by simpa using he)
      exact List.mem_append_left _ this
  intro x hc
  have hx : x ∈ order := by
    obtain ⟨d, -, hd⟩ := Relation.TransGen.tail'_iff.mp hc
    exact hall x (List.ne_nil_of_mem hd)
  obtain ⟨before, after, rfl⟩ := List.append_of_mem hx
  have hmem := key hc before after rfl
  exact (List.nodup_append.mp hn).2.2 x hmem x (List.mem_cons_self ..) rfl

/-- Some item that is left needs nothing else that is left. -/
theorem exists_ready (hc : NoCycle deps) {left : List κ} (hl : left ≠ []) :
    ∃ x ∈ left, ∀ d ∈ left, d ∉ deps x := by
  let R := Relation.TransGen (Needs deps)
  have : IsStrictOrder κ R := { irrefl := hc, trans := fun _ _ _ => Relation.TransGen.trans }
  have hwf : {x | x ∈ left}.WellFoundedOn R := (List.finite_toSet left).wellFoundedOn
  obtain ⟨y, hy⟩ := List.exists_mem_of_ne_nil left hl
  obtain ⟨⟨x, hx⟩, -, hmin⟩ :=
    WellFounded.has_min hwf Set.univ ⟨⟨y, hy⟩, Set.mem_univ _⟩
  refine ⟨x, hx, fun d hd hneed => ?_⟩
  exact hmin ⟨d, hd⟩ (Set.mem_univ _) (Relation.TransGen.single hneed)

end Acyclic
