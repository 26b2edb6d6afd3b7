import Mathlib.Algebra.Order.Monoid.Defs
import Mathlib.Data.List.Forall2
import Mathlib.Data.List.Induction
import Mathlib.Logic.Function.Basic

/-!
# Tables of best partial choices

The dynamic programs that choose one option from each of several groups keep,
for every amount of a resource, the best choice found that uses exactly this
amount. A group is handled by trying every option on every cell and keeping
what is strictly better than what the cell holds.

`Optimal t R` says what such a table is worth: every cell holds something the
relation `R` allows, and nothing that `R` allows is better than the cell. The
order of the values is compatible with addition, so a cell may forget all but
one best choice.
-/

namespace BestTable

variable {K V P ω : Type*}

/-- A cell: nothing, or a value and how it was reached. -/
abbrev Table (K V P : Type*) := K → Option (V × P)

def Cells (t : Table K V P) : K → V → P → Prop := fun k v p => t k = some (v, p)

/-- Every cell is allowed, and as good as anything that is. -/
structure Optimal [LE V] (t : Table K V P) (R : K → V → P → Prop) : Prop where
  sound : ∀ {k v p}, t k = some (v, p) → R k v p
  best : ∀ {k v p}, R k v p → ∃ w q, t k = some (w, q) ∧ v ≤ w

theorem Optimal.congr [LE V] {t : Table K V P} {R R' : K → V → P → Prop} (h : Optimal t R)
    (hr : ∀ k v p, R k v p ↔ R' k v p) : Optimal t R' :=
  ⟨fun hk => (hr _ _ _).mp (h.sound hk), fun hp => h.best ((hr _ _ _).mpr hp)⟩

theorem Optimal.cells [Preorder V] (t : Table K V P) : Optimal t (Cells t) :=
  ⟨id, fun h => ⟨_, _, h, le_rfl⟩⟩

theorem Optimal.none [LE V] : Optimal (fun _ => Option.none : Table K V P) fun _ _ _ => False :=
  ⟨fun h => (nomatch h), False.elim⟩

-- ---------------------------------------------------------------------------
-- Keeping the better entry
-- ---------------------------------------------------------------------------

section Sweep

variable [DecidableEq K] [LinearOrder V]

/-- Whether an entry replaces what its cell holds. -/
def better (t : Table K V P) (k : K) (v : V) : Bool :=
  match t k with
  | none => true
  | some (w, _) => decide (w < v)

def improve (t : Table K V P) (entry : K × V × P) : Table K V P :=
  if better t entry.1 entry.2.1 then Function.update t entry.1 (some entry.2) else t

def sweep (t : Table K V P) (entries : List (K × V × P)) : Table K V P := entries.foldl improve t

theorem Optimal.improve {t : Table K V P} {R : K → V → P → Prop} (h : Optimal t R)
    (entry : K × V × P) :
    Optimal (improve t entry) fun k v p => R k v p ∨ (k, v, p) = entry := by
  obtain ⟨k₀, v₀, p₀⟩ := entry
  unfold BestTable.improve
  cases hb : better t k₀ v₀ with
  | false =>
    simp only [Bool.false_eq_true, ↓reduceIte]
    refine ⟨fun hk => .inl (h.sound hk), ?_⟩
    rintro k v p (hr | he)
    · exact h.best hr
    · obtain ⟨rfl, rfl, rfl⟩ : k = k₀ ∧ v = v₀ ∧ p = p₀ := by simpa using he
      unfold better at hb
      cases hk : t k with
      | none => simp [hk] at hb
      | some cell => exact ⟨cell.1, cell.2, rfl, by simpa [hk] using hb⟩
  | true =>
    simp only [↓reduceIte]
    refine ⟨?_, ?_⟩
    · intro k v p hk
      by_cases hkk : k = k₀
      · subst hkk
        simp only [Function.update_self, Option.some.injEq, Prod.mk.injEq] at hk
        obtain ⟨rfl, rfl⟩ := hk
        exact .inr rfl
      · rw [Function.update_of_ne hkk] at hk
        exact .inl (h.sound hk)
    · rintro k v p (hr | he)
      · obtain ⟨w, q, hw, hle⟩ := h.best hr
        by_cases hkk : k = k₀
        · subst hkk
          refine ⟨v₀, p₀, Function.update_self .., hle.trans (le_of_lt ?_)⟩
          simpa [better, hw] using hb
        · exact ⟨w, q, by rw [Function.update_of_ne hkk, hw], hle⟩
      · obtain ⟨rfl, rfl, rfl⟩ : k = k₀ ∧ v = v₀ ∧ p = p₀ := by simpa using he
        exact ⟨v, p, Function.update_self .., le_rfl⟩

theorem Optimal.sweep {t : Table K V P} {R : K → V → P → Prop} (h : Optimal t R)
    (entries : List (K × V × P)) :
    Optimal (sweep t entries) fun k v p => R k v p ∨ (k, v, p) ∈ entries := by
  induction entries generalizing t R with
  | nil => simpa [BestTable.sweep] using h
  | cons entry entries ih =>
    have := ih (h.improve entry)
    simpa [BestTable.sweep, or_assoc] using this

end Sweep

-- ---------------------------------------------------------------------------
-- One group after another
-- ---------------------------------------------------------------------------

structure Move (K V P ω : Type*) where
  target : K → ω → Option K
  gain : ω → V
  record : K → P → ω → P

variable (move : Move K V P ω)

/-- What one option of a group makes of something allowed. -/
def Extends [Add V] (opts : List ω) (R : K → V → P → Prop) (k : K) (v : V) (p : P) : Prop :=
  ∃ k₀ v₀ p₀, R k₀ v₀ p₀ ∧ ∃ o ∈ opts, move.target k₀ o = some k ∧ v = v₀ + move.gain o ∧
    p = move.record k₀ p₀ o

/-- It is enough to extend the best of each cell. -/
theorem Optimal.extend [AddCommMonoid V] [PartialOrder V] [IsOrderedAddMonoid V]
    {t t' : Table K V P} {R : K → V → P → Prop} {opts : List ω} (h : Optimal t R)
    (h' : Optimal t' (Extends move opts (Cells t))) : Optimal t' (Extends move opts R) := by
  refine ⟨?_, ?_⟩
  · intro k v p hk
    obtain ⟨k₀, v₀, p₀, hcell, o, ho, hmove⟩ := h'.sound hk
    exact ⟨k₀, v₀, p₀, h.sound hcell, o, ho, hmove⟩
  · rintro k v p ⟨k₀, v₀, p₀, hr, o, ho, htarget, rfl, rfl⟩
    obtain ⟨w₀, q₀, hcell, hle⟩ := h.best hr
    obtain ⟨w, q, hw, hle'⟩ := h'.best ⟨k₀, w₀, q₀, hcell, o, ho, htarget, rfl, rfl⟩
    exact ⟨w, q, hw, (add_le_add_left hle _).trans hle'⟩

inductive Chosen [Add V] (k₀ : K) (v₀ : V) (p₀ : P) :
    List (List ω) → List ω → K → V → P → Prop
  | nil : Chosen k₀ v₀ p₀ [] [] k₀ v₀ p₀
  | snoc : Chosen k₀ v₀ p₀ groups picks k v p → o ∈ opts → move.target k o = some k' →
      Chosen k₀ v₀ p₀ (groups ++ [opts]) (picks ++ [o]) k' (v + move.gain o) (move.record k p o)

variable {move}

theorem Chosen.forall₂ [Add V] {k₀ : K} {v₀ : V} {p₀ : P}
    (h : Chosen move k₀ v₀ p₀ groups picks k v p) :
    List.Forall₂ (fun opts o => o ∈ opts) groups picks := by
  induction h with
  | nil => exact .nil
  | snoc _ ho _ ih => exact List.rel_append ih (.cons ho .nil)

theorem Chosen.eq_of_nil [Add V] {k₀ : K} {v₀ : V} {p₀ : P}
    (h : Chosen move k₀ v₀ p₀ ([] : List (List ω)) picks k v p) : k = k₀ ∧ v = v₀ ∧ p = p₀ := by
  generalize hg : ([] : List (List ω)) = groups at h
  cases h with
  | nil => exact ⟨rfl, rfl, rfl⟩
  | snoc => simp at hg

theorem extends_chosen [Add V] {k₀ : K} {v₀ : V} {p₀ : P} (groups : List (List ω))
    (opts : List ω) (k : K) (v : V) (p : P) :
    Extends move opts (fun k v p => ∃ picks, Chosen move k₀ v₀ p₀ groups picks k v p) k v p ↔
      ∃ picks, Chosen move k₀ v₀ p₀ (groups ++ [opts]) picks k v p := by
  constructor
  · rintro ⟨k', v', p', ⟨picks, hc⟩, o, ho, htarget, rfl, rfl⟩
    exact ⟨_, hc.snoc ho htarget⟩
  · rintro ⟨picks, hc⟩
    generalize hg : groups ++ [opts] = all at hc
    cases hc with
    | nil => simp at hg
    | snoc hc ho htarget =>
      obtain ⟨rfl, hopts⟩ := List.append_inj' hg rfl
      obtain rfl := (List.singleton_inj.mp hopts)
      exact ⟨_, _, _, ⟨_, hc⟩, _, ho, htarget, rfl, rfl⟩

/-- The table after all groups, for any way to hold a table: `get` reads it
and `stage` handles a group. -/
theorem optimal_foldl [AddCommMonoid V] [PartialOrder V] [IsOrderedAddMonoid V] {T : Type*}
    (get : T → Table K V P) (stage : T → List ω → T) (Ok : T → Prop) {init : T}
    {k₀ : K} {v₀ : V} {p₀ : P} (groups : List (List ω)) (hinit : Ok init)
    (hfirst : Optimal (get init) fun k v p => k = k₀ ∧ v = v₀ ∧ p = p₀)
    (hstage : ∀ t, ∀ opts ∈ groups, Ok t → Ok (stage t opts) ∧
      Optimal (get (stage t opts)) (Extends move opts (Cells (get t)))) :
    Ok (groups.foldl stage init) ∧ Optimal (get (groups.foldl stage init))
      fun k v p => ∃ picks, Chosen move k₀ v₀ p₀ groups picks k v p := by
  induction groups using List.reverseRecOn with
  | nil =>
    refine ⟨hinit, ⟨?_, ?_⟩⟩
    · intro k v p hk
      obtain ⟨rfl, rfl, rfl⟩ := hfirst.sound hk
      exact ⟨[], .nil⟩
    · rintro k v p ⟨picks, hc⟩
      exact hfirst.best hc.eq_of_nil
  | append_singleton groups opts ih =>
    obtain ⟨hok, hopt⟩ := ih fun t opts hmem => hstage t opts (List.mem_append_left _ hmem)
    rw [List.foldl_append, List.foldl_cons, List.foldl_nil]
    obtain ⟨hok', hopt'⟩ := hstage _ opts (by simp) hok
    exact ⟨hok', (hopt.extend move hopt').congr fun k v p => extends_chosen groups opts k v p⟩

end BestTable
