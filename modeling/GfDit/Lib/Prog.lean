import Mathlib.Data.List.Basic

/-!
# Programs that keep their state when they raise

`EStateM ε σ` runs a program from a state and ends in a state, with a value or
with an exception; what was changed before the exception stays changed.
`wp` is the weakest precondition of such a program for a pair of
postconditions, one for each way to end. The `simp` set unfolds it along the
program text; a call is passed with `wp_mono` and the callee's own result.
-/

namespace Prog

variable {ε σ τ α β : Type}

/-- `Q` holds where the program returns and `E` where it raises. -/
def wp (x : EStateM ε σ α) (Q : α → σ → Prop) (E : ε → σ → Prop) (s : σ) : Prop :=
  match x s with
  | .ok a s' => Q a s'
  | .error e s' => E e s'

/-- The state a program ends in, however it ends. -/
def after (x : EStateM ε σ α) (s : σ) : σ :=
  match x s with
  | .ok _ s' => s'
  | .error _ s' => s'

theorem after_of_wp {x : EStateM ε σ α} {I : σ → Prop} (h : wp x (fun _ => I) (fun _ => I) s) :
    I (after x s) := by
  unfold wp at h
  unfold after
  cases hx : x s <;> simpa [hx] using h

theorem after_map (f : α → β) (x : EStateM ε σ α) (s : σ) : after (f <$> x) s = after x s := by
  show after (EStateM.map f x) s = _
  unfold after EStateM.map
  cases x s <;> rfl

theorem wp_mono {x : EStateM ε σ α} {Q Q' : α → σ → Prop} {E E' : ε → σ → Prop}
    (h : wp x Q E s) (hq : ∀ a s', Q a s' → Q' a s') (he : ∀ e s', E e s' → E' e s') :
    wp x Q' E' s := by
  unfold wp at h ⊢
  cases hx : x s with
  | ok a s' => exact hq a s' (by simpa [hx] using h)
  | error e s' => exact he e s' (by simpa [hx] using h)

theorem wp_of_ok {x : EStateM ε σ α} {Q : α → σ → Prop} {E : ε → σ → Prop}
    (h : x s = .ok a s') (hq : Q a s') : wp x Q E s := by
  unfold wp
  rw [h]
  exact hq

theorem wp_of_forall {x : EStateM ε σ α} {Q : α → σ → Prop} {E : ε → σ → Prop}
    (hq : ∀ a s', Q a s') (he : ∀ e s', E e s') : wp x Q E s := by
  unfold wp
  cases x s with
  | ok a s' => exact hq a s'
  | error e s' => exact he e s'

@[simp] theorem wp_pure (a : α) (Q : α → σ → Prop) (E : ε → σ → Prop) (s : σ) :
    wp (pure a) Q E s ↔ Q a s := Iff.rfl

@[simp] theorem wp_bind (x : EStateM ε σ α) (f : α → EStateM ε σ β) (Q : β → σ → Prop)
    (E : ε → σ → Prop) (s : σ) :
    wp (x >>= f) Q E s ↔ wp x (fun a s' => wp (f a) Q E s') E s := by
  show wp (EStateM.bind x f) Q E s ↔ _
  unfold wp EStateM.bind
  cases x s <;> simp

@[simp] theorem wp_map (f : α → β) (x : EStateM ε σ α) (Q : β → σ → Prop) (E : ε → σ → Prop)
    (s : σ) : wp (f <$> x) Q E s ↔ wp x (fun a => Q (f a)) E s := by
  show wp (EStateM.map f x) Q E s ↔ _
  unfold wp EStateM.map
  cases x s <;> simp

@[simp] theorem wp_throw (e : ε) (Q : α → σ → Prop) (E : ε → σ → Prop) (s : σ) :
    wp (throw e) Q E s ↔ E e s := Iff.rfl

@[simp] theorem wp_get (Q : σ → σ → Prop) (E : ε → σ → Prop) (s : σ) :
    wp (get : EStateM ε σ σ) Q E s ↔ Q s s := Iff.rfl

@[simp] theorem wp_modify (f : σ → σ) (Q : PUnit → σ → Prop) (E : ε → σ → Prop) (s : σ) :
    wp (modify f : EStateM ε σ PUnit) Q E s ↔ Q ⟨⟩ (f s) := Iff.rfl

@[simp] theorem wp_ite {c : Prop} [Decidable c] (x y : EStateM ε σ α) (Q : α → σ → Prop)
    (E : ε → σ → Prop) (s : σ) :
    wp (if c then x else y) Q E s ↔ if c then wp x Q E s else wp y Q E s := by
  split <;> rfl

theorem bind_ok {x : EStateM ε σ α} {f : α → EStateM ε σ β} (h : x s = .ok a s') :
    (x >>= f) s = f a s' := by
  show EStateM.bind x f s = _
  simp [EStateM.bind, h]

theorem get_bind (f : σ → EStateM ε σ β) (s : σ) : ((get : EStateM ε σ σ) >>= f) s = f s s := rfl

-- ---------------------------------------------------------------------------
-- Pure checks, handlers and parts of a state
-- ---------------------------------------------------------------------------

def check (x : Except ε α) : EStateM ε σ α := fun s =>
  match x with
  | .ok a => .ok a s
  | .error e => .error e s

theorem wp_check {x : Except ε α} {Q : α → σ → Prop} {E : ε → σ → Prop}
    (hok : ∀ a, x = .ok a → Q a s) (herr : ∀ e, x = .error e → E e s) :
    wp (check x) Q E s := by
  unfold wp check
  cases x with
  | ok a => exact hok a rfl
  | error e => exact herr e rfl

def catching (x : EStateM ε σ α) (handler : ε → EStateM ε σ α) : EStateM ε σ α := fun s =>
  match x s with
  | .ok a s' => .ok a s'
  | .error e s' => handler e s'

@[simp] theorem wp_catching (x : EStateM ε σ α) (handler : ε → EStateM ε σ α)
    (Q : α → σ → Prop) (E : ε → σ → Prop) (s : σ) :
    wp (catching x handler) Q E s ↔ wp x Q (fun e s' => wp (handler e) Q E s') s := by
  unfold wp catching
  cases x s <;> simp

def zoom (part : σ → τ) (put : τ → σ → σ) (x : EStateM ε τ α) : EStateM ε σ α := fun s =>
  match x (part s) with
  | .ok a t => .ok a (put t s)
  | .error e t => .error e (put t s)

@[simp] theorem wp_zoom (part : σ → τ) (put : τ → σ → σ) (x : EStateM ε τ α)
    (Q : α → σ → Prop) (E : ε → σ → Prop) (s : σ) :
    wp (zoom part put x) Q E s ↔
      wp x (fun a t => Q a (put t s)) (fun e t => E e (put t s)) (part s) := by
  unfold wp zoom
  cases x (part s) <;> simp

-- ---------------------------------------------------------------------------
-- Loops
-- ---------------------------------------------------------------------------

theorem wp_forM {xs : List α} {f : α → EStateM ε σ PUnit} {I : σ → Prop} {E : ε → σ → Prop}
    (hf : ∀ x ∈ xs, ∀ s, I s → wp (f x) (fun _ => I) E s) (hs : I s) :
    wp (xs.forM f) (fun _ => I) E s := by
  induction xs generalizing s with
  | nil => exact hs
  | cons x xs ih =>
    show wp (f x >>= fun _ => xs.forM f) (fun _ => I) E s
    rw [wp_bind]
    refine wp_mono (hf x (List.mem_cons_self ..) s hs) (fun _ s' hi => ?_) fun _ _ he => he
    exact ih (fun y hy => hf y (List.mem_cons_of_mem _ hy)) hi

end Prog
