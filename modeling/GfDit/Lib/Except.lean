import GfDit.Lib.Forall2

/-!
# Successful runs of the exception monad

Reading a successful computation backwards through its binds, and a
successful traversal as a pointwise success.
-/

namespace Except

variable {ε : Type u}

theorem bind_eq_ok {x : Except ε α} {f : α → Except ε β} :
    x >>= f = .ok b ↔ ∃ a, x = .ok a ∧ f a = .ok b := by
  cases x <;> simp [bind, Except.bind]

theorem bind_eq_error {x : Except ε α} {f : α → Except ε β} :
    x >>= f = .error e ↔ x = .error e ∨ ∃ a, x = .ok a ∧ f a = .error e := by
  cases x <;> simp [bind, Except.bind]

@[simp] theorem ok_bind (a : α) (f : α → Except ε β) : .ok a >>= f = f a := rfl

theorem pure_eq_ok : (pure a : Except ε α) = .ok b ↔ a = b := by
  simp [pure, Except.pure]

theorem map_eq_ok {x : Except ε α} {f : α → β} : f <$> x = .ok b ↔ ∃ a, x = .ok a ∧ f a = b := by
  cases x <;> simp [Functor.map, Except.map]

theorem toOption_eq_some {x : Except ε α} (h : x.toOption = some a) : x = .ok a := by
  cases x with
  | error _ => cases h
  | ok _ => exact congrArg _ (Option.some.inj h)

/-- The value of a successful computation. -/
def okD (default : α) : Except ε α → α
  | .ok a => a
  | .error _ => default

theorem mapM_ok {xs : List α} {f : α → Except ε β} {g : α → β} (h : ∀ x ∈ xs, f x = .ok (g x)) :
    xs.mapM f = .ok (xs.map g) := by
  induction xs with
  | nil => rfl
  | cons x xs ih =>
    rw [List.mapM_cons, h x (List.mem_cons_self ..),
      ih fun y hy => h y (List.mem_cons_of_mem _ hy)]
    rfl

theorem forall₂_of_mapM {xs : List α} {f : α → Except ε β} (h : xs.mapM f = .ok ys) :
    List.Forall₂ (fun x y => f x = .ok y) xs ys := by
  induction xs generalizing ys with
  | nil =>
    obtain rfl := pure_eq_ok.mp h
    exact .nil
  | cons x xs ih =>
    rw [List.mapM_cons] at h
    obtain ⟨b, hb, h⟩ := bind_eq_ok.mp h
    obtain ⟨bs, hbs, h⟩ := bind_eq_ok.mp h
    obtain rfl := pure_eq_ok.mp h
    exact .cons hb (ih hbs)

theorem exists_of_mem_mapM {xs : List α} {f : α → Except ε β} (h : xs.mapM f = .ok ys)
    (hy : y ∈ ys) : ∃ x ∈ xs, f x = .ok y := by
  have hall := forall₂_of_mapM h
  clear h
  induction hall with
  | nil => cases hy
  | cons hb _ ih =>
    rcases List.mem_cons.mp hy with rfl | hy
    · exact ⟨_, List.mem_cons_self .., hb⟩
    · obtain ⟨x', hx', hf⟩ := ih hy
      exact ⟨x', List.mem_cons_of_mem _ hx', hf⟩

theorem mem_mapM {xs : List α} {f : α → Except ε β} (h : xs.mapM f = .ok ys) (hx : x ∈ xs)
    (hy : f x = .ok y) : y ∈ ys := by
  obtain ⟨y', hmem, heq⟩ := forall₂_mem_left (forall₂_of_mapM h) hx
  cases hy.symm.trans heq
  exact hmem

theorem length_mapM {xs : List α} {f : α → Except ε β} (h : xs.mapM f = .ok ys) :
    ys.length = xs.length := (forall₂_of_mapM h).length_eq.symm

theorem forM_eq_ok {xs : List α} {f : α → Except ε PUnit} :
    xs.forM f = .ok ⟨⟩ ↔ ∀ x ∈ xs, f x = .ok ⟨⟩ := by
  induction xs with
  | nil =>
    refine ⟨fun _ _ hm => ?_, fun _ => rfl⟩
    cases hm
  | cons x xs ih =>
    show (f x >>= fun _ => xs.forM f) = _ ↔ _
    rw [bind_eq_ok, List.forall_mem_cons, ← ih]
    constructor
    · rintro ⟨_, hx, hrest⟩
      exact ⟨hx, hrest⟩
    · rintro ⟨hx, hrest⟩
      exact ⟨_, hx, hrest⟩

theorem exists_of_mapM_error {xs : List α} {f : α → Except ε β} (h : xs.mapM f = .error e) :
    ∃ x ∈ xs, f x = .error e := by
  induction xs with
  | nil => cases h
  | cons x xs ih =>
    rw [List.mapM_cons] at h
    rcases bind_eq_error.mp h with h | ⟨b, -, h⟩
    · exact ⟨x, List.mem_cons_self .., h⟩
    · rcases bind_eq_error.mp h with h | ⟨bs, -, h⟩
      · obtain ⟨x', hx', hf⟩ := ih h
        exact ⟨x', List.mem_cons_of_mem _ hx', hf⟩
      · cases h

theorem exists_mapM_ok {xs : List α} {f : α → Except ε β} (h : ∀ x ∈ xs, ∃ y, f x = .ok y) :
    ∃ ys, xs.mapM f = .ok ys := by
  cases hresult : xs.mapM f with
  | ok ys => exact ⟨ys, rfl⟩
  | error e =>
    obtain ⟨x, hx, herror⟩ := exists_of_mapM_error hresult
    obtain ⟨y, hok⟩ := h x hx
    cases hok.symm.trans herror

end Except
