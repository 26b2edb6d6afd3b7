import Mathlib.Data.List.Forall2
import Mathlib.Data.List.Nodup
import Mathlib.Data.List.Pairwise
import Mathlib.Tactic.Common

/-!
# Boxes of natural-number indices

An axis is a start and a length, a box a list of axes, an index a list of
coordinates. A box contains an index when every coordinate lies on its axis.
Boxes are intersected axis by axis, and an index is moved between a box's own
coordinates and the surrounding ones by adding or subtracting the starts.
-/

namespace Box

abbrev Axis := Nat × Nat

def Axis.Contains (axis : Axis) (i : Nat) : Prop := axis.1 ≤ i ∧ i < axis.1 + axis.2

instance (axis : Axis) (i : Nat) : Decidable (axis.Contains i) :=
  inferInstanceAs (Decidable (_ ∧ _))

def Contains (box : List Axis) (index : List Nat) : Prop := List.Forall₂ Axis.Contains box index

instance decidableContains : (box : List Axis) → (index : List Nat) → Decidable (Contains box index)
  | [], [] => isTrue .nil
  | [], _ :: _ => isFalse fun h => nomatch h
  | _ :: _, [] => isFalse fun h => nomatch h
  | axis :: box, i :: index =>
    have := decidableContains box index
    decidable_of_iff (axis.Contains i ∧ Contains box index)
      ⟨fun h => .cons h.1 h.2, fun h => by cases h with | cons ha hb => exact ⟨ha, hb⟩⟩

@[simp] theorem contains_nil : Contains [] index ↔ index = [] := by
  simp [Contains]

@[simp] theorem contains_cons : Contains (axis :: box) (i :: index) ↔
    axis.Contains i ∧ Contains box index := by
  simp [Contains]

@[simp] theorem not_contains_cons_nil : ¬ Contains (axis :: box) [] := fun h => nomatch h

theorem contains_set {axis : Axis} (h : Contains box index) (hd : dim < box.length) :
    Contains (box.set dim axis) index ↔ axis.Contains (index.getD dim 0) := by
  induction h generalizing dim with
  | nil => simp at hd
  | cons ha hb ih =>
    cases dim with
    | zero =>
      rw [List.set_cons_zero, contains_cons, List.getD_cons_zero]
      exact ⟨fun h => h.1, fun h => ⟨h, hb⟩⟩
    | succ dim =>
      rw [List.set_cons_succ, contains_cons, List.getD_cons_succ]
      rw [ih (by simpa using hd)]
      exact ⟨fun h => h.2, fun h => ⟨ha, h⟩⟩

theorem Contains.length (h : Contains box index) : box.length = index.length :=
  List.Forall₂.length_eq h

-- ---------------------------------------------------------------------------
-- Enumerating the indices of a shape
-- ---------------------------------------------------------------------------

def ofShape (shape : List Nat) : List Axis := shape.map (0, ·)

def indices : List Nat → List (List Nat)
  | [] => [[]]
  | n :: shape => (List.range n).flatMap fun i => (indices shape).map (i :: ·)

theorem mem_indices {shape index : List Nat} :
    index ∈ indices shape ↔ Contains (ofShape shape) index := by
  induction shape generalizing index with
  | nil => simp [indices, ofShape]
  | cons n shape ih =>
    simp only [indices, List.mem_flatMap, List.mem_range, List.mem_map, ofShape, List.map_cons]
    constructor
    · rintro ⟨i, hi, rest, hr, rfl⟩
      exact contains_cons.mpr ⟨⟨Nat.zero_le _, by simpa using hi⟩, ih.mp hr⟩
    · intro h
      cases index with
      | nil => exact absurd h not_contains_cons_nil
      | cons i rest =>
        obtain ⟨hi, hr⟩ := contains_cons.mp h
        exact ⟨i, by simpa using hi.2, rest, ih.mpr hr, rfl⟩

theorem indices_nodup (shape : List Nat) : (indices shape).Nodup := by
  induction shape with
  | nil => simp [indices]
  | cons n shape ih =>
    rw [indices, List.nodup_flatMap]
    refine ⟨fun i _ => ih.map (List.cons_injective), ?_⟩
    refine List.nodup_range.pairwise_of_forall_ne fun i _ j _ hij => ?_
    intro index hi hj
    obtain ⟨_, _, rfl⟩ := List.mem_map.mp hi
    obtain ⟨_, _, he⟩ := List.mem_map.mp hj
    exact hij (List.cons.inj he).1.symm

-- ---------------------------------------------------------------------------
-- Intersection
-- ---------------------------------------------------------------------------

/-- The common part of two boxes of the same dimension, or nothing when some
axis has no common coordinate. -/
def inter : List Axis → List Axis → Option (List Axis)
  | [], _ => some []
  | _, [] => some []
  | a :: as, b :: bs =>
    let start := max a.1 b.1
    let stop := min (a.1 + a.2) (b.1 + b.2)
    if stop ≤ start then none
    else (inter as bs).map ((start, stop - start) :: ·)

theorem inter_eq_none (hn : inter a b = none) (ha : Contains a index) :
    ¬ Contains b index := by
  induction a generalizing b index with
  | nil => simp [inter] at hn
  | cons x a ih =>
    cases b with
    | nil => simp [inter] at hn
    | cons y b =>
      cases index with
      | nil => exact absurd ha not_contains_cons_nil
      | cons i index =>
        intro hb
        obtain ⟨hx, ha⟩ := contains_cons.mp ha
        obtain ⟨hy, hb⟩ := contains_cons.mp hb
        simp only [Axis.Contains] at hx hy
        simp only [inter] at hn
        split at hn
        · omega
        · exact ih (by simpa using hn) ha hb

theorem contains_inter (hs : inter a b = some c) (hl : a.length = b.length) :
    Contains c index ↔ Contains a index ∧ Contains b index := by
  induction a generalizing b c index with
  | nil =>
    cases b with
    | nil => cases hs; simp
    | cons y b => simp at hl
  | cons x a ih =>
    cases b with
    | nil => simp at hl
    | cons y b =>
      simp only [inter] at hs
      split at hs
      · cases hs
      · obtain ⟨rest, hr, rfl⟩ := Option.map_eq_some_iff.mp hs
        cases index with
        | nil => simp
        | cons i index =>
          simp only [contains_cons, ih hr (by simpa using hl), Axis.Contains]
          constructor
          · rintro ⟨_, _, _⟩
            refine ⟨⟨⟨?_, ?_⟩, ‹_›⟩, ⟨⟨?_, ?_⟩, ‹_›⟩⟩ <;> omega
          · rintro ⟨⟨_, _⟩, ⟨_, _⟩⟩
            refine ⟨⟨?_, ?_⟩, ‹_›, ‹_›⟩ <;> omega

def Within (part whole : List Axis) : Prop :=
  List.Forall₂ (fun a b => b.1 ≤ a.1 ∧ a.1 + a.2 ≤ b.1 + b.2) part whole

theorem inter_within (hs : inter a b = some c) (hl : a.length = b.length) :
    Within c a ∧ Within c b := by
  induction a generalizing b c with
  | nil =>
    cases b with
    | nil => cases hs; exact ⟨.nil, .nil⟩
    | cons y b => simp at hl
  | cons x a ih =>
    cases b with
    | nil => simp at hl
    | cons y b =>
      simp only [inter] at hs
      split at hs
      · cases hs
      · obtain ⟨rest, hr, rfl⟩ := Option.map_eq_some_iff.mp hs
        obtain ⟨ha, hb⟩ := ih hr (by simpa using hl)
        have hx : x.1 ≤ max x.1 y.1 ∧ max x.1 y.1 + (min (x.1 + x.2) (y.1 + y.2) - max x.1 y.1) ≤
            x.1 + x.2 := by omega
        have hy : y.1 ≤ max x.1 y.1 ∧ max x.1 y.1 + (min (x.1 + x.2) (y.1 + y.2) - max x.1 y.1) ≤
            y.1 + y.2 := by omega
        exact ⟨.cons hx ha, .cons hy hb⟩

theorem inter_pos (hs : inter a b = some c) : ∀ axis ∈ c, 0 < axis.2 := by
  induction a generalizing b c with
  | nil => cases hs; simp
  | cons x a ih =>
    cases b with
    | nil => cases hs; simp
    | cons y b =>
      simp only [inter] at hs
      split at hs
      · cases hs
      · obtain ⟨rest, hr, rfl⟩ := Option.map_eq_some_iff.mp hs
        intro axis hm
        rcases List.mem_cons.mp hm with rfl | hm
        · simp; omega
        · exact ih hr axis hm

-- ---------------------------------------------------------------------------
-- Changing coordinates
-- ---------------------------------------------------------------------------

def shiftUp (offset index : List Nat) : List Nat := List.zipWith (· + ·) offset index

def shiftDown (offset index : List Nat) : List Nat := List.zipWith (fun o i => i - o) offset index

theorem shiftUp_shiftDown (h : Contains box index) :
    shiftUp (box.map Prod.fst) (shiftDown (box.map Prod.fst) index) = index := by
  induction h with
  | nil => rfl
  | cons ha _ ih =>
    simp only [shiftUp, shiftDown, List.map_cons, List.zipWith_cons_cons] at ih ⊢
    rw [ih, Nat.add_sub_cancel' ha.1]

theorem contains_shiftUp (box : List Axis) (index : List Nat) :
    Contains box (shiftUp (box.map Prod.fst) index) ∧ box.length = index.length ↔
      Contains (ofShape (box.map Prod.snd)) index := by
  induction box generalizing index with
  | nil => cases index <;> simp [ofShape, shiftUp]
  | cons axis box ih =>
    cases index with
    | nil => simp [ofShape, shiftUp]
    | cons i index =>
      have ih' := ih index
      simp only [ofShape, shiftUp, List.map_cons, List.zipWith_cons_cons, contains_cons,
        List.length_cons, Nat.add_right_cancel_iff] at ih' ⊢
      rw [← ih']
      simp only [Axis.Contains]
      constructor
      · rintro ⟨⟨⟨_, _⟩, hb⟩, hl⟩
        exact ⟨⟨Nat.zero_le _, by omega⟩, hb, hl⟩
      · rintro ⟨⟨_, _⟩, hb, hl⟩
        exact ⟨⟨⟨by omega, by omega⟩, hb⟩, hl⟩

theorem shiftUp_inj (ha : offset.length = a.length) (hb : offset.length = b.length)
    (h : shiftUp offset a = shiftUp offset b) : a = b := by
  induction offset generalizing a b with
  | nil => simp_all [eq_comm]
  | cons o offset ih =>
    cases a with
    | nil => simp at ha
    | cons i a =>
      cases b with
      | nil => simp at hb
      | cons j b =>
        simp only [shiftUp, List.zipWith_cons_cons, List.cons.injEq] at h
        rw [ih (by simpa using ha) (by simpa using hb) h.2, Nat.add_left_cancel h.1]

/-- Going from a box's coordinates to those of a surrounding box and on to the
whole ones is going there at once. -/
theorem shiftUp_within (h : Within part whole) (index : List Nat) :
    shiftUp (whole.map Prod.fst)
      (shiftUp (shiftDown (whole.map Prod.fst) (part.map Prod.fst)) index) =
      shiftUp (part.map Prod.fst) index := by
  induction h generalizing index with
  | nil => rfl
  | cons hab _ ih =>
    cases index with
    | nil => simp [shiftUp]
    | cons i index =>
      have ih := ih index
      have hle := hab.1
      simp only [shiftUp, shiftDown, List.map_cons, List.zipWith_cons_cons] at ih ⊢
      rw [ih]
      congr 1
      omega

end Box
