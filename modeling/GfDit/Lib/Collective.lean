import Mathlib.Logic.Basic

/-!
# Members of a group that gather

Every member of a group runs its own program and at times hands in a payload
and waits for those of all others. A gather completes when all members are at
a gather of one kind; a member that has ended while another waits blocks the
group for ever. `Runs` relates the programs of a group to how all of them end,
which they do only if nobody is left waiting.
-/

namespace Collective

variable {ι K : Type} {P : K → Type} {ε α β : Type}

/-- The program of one member of a group indexed by `ι`. -/
inductive Member (ι : Type) (P : K → Type) (ε α : Type)
  | done (a : α)
  | raise (e : ε)
  | gather (kind : K) (payload : P kind) (next : (ι → P kind) → Member ι P ε α)

namespace Member

def bind : Member ι P ε α → (α → Member ι P ε β) → Member ι P ε β
  | done a, f => f a
  | raise e, _ => raise e
  | gather kind payload next, f => gather kind payload fun all => (next all).bind f

def ofExcept : Except ε α → Member ι P ε α
  | .ok a => done a
  | .error e => raise e

@[simp] theorem bind_done (a : α) (f : α → Member ι P ε β) : (done a).bind f = f a := rfl

@[simp] theorem bind_raise (e : ε) (f : α → Member ι P ε β) : (raise e).bind f = raise e := rfl

@[simp] theorem ofExcept_ok (a : α) :
    (ofExcept (.ok a) : Member ι P ε α) = done a := rfl

@[simp] theorem ofExcept_error (e : ε) :
    (ofExcept (.error e) : Member ι P ε α) = raise e := rfl

theorem ofExcept_ne_gather (result : Except ε α) {kind : K} {payload : P kind}
    {next : (ι → P kind) → Member ι P ε α} : ofExcept result ≠ gather kind payload next := by
  cases result <;> rintro ⟨⟩

end Member

/-- All members end, with these results. -/
inductive Runs : (ι → Member ι P ε α) → (ι → Except ε α) → Prop
  | ended {members : ι → Member ι P ε α} {results : ι → Except ε α} :
    (∀ i, members i = .ofExcept (results i)) → Runs members results
  | gather {members : ι → Member ι P ε α} {results : ι → Except ε α} (kind : K)
    (payload : ι → P kind) (next : ι → (ι → P kind) → Member ι P ε α) :
    (∀ i, members i = .gather kind (payload i) (next i)) →
    Runs (fun i => next i payload) results → Runs members results

variable {members : ι → Member ι P ε α} {f : ι → α → Member ι P ε β}

theorem Runs.done (values : ι → α) :
    Runs (fun i => (.done (values i) : Member ι P ε α)) fun i => .ok (values i) :=
  .ended fun _ => rfl

/-- When everybody ends well, everybody goes on. -/
theorem Runs.bind {values : ι → α} {results : ι → Except ε β}
    (h : Runs members fun i => .ok (values i))
    (hnext : Runs (fun i => f i (values i)) results) :
    Runs (fun i => (members i).bind (f i)) results := by
  generalize hends : (fun i => Except.ok (values i)) = ends at h
  induction h with
  | ended hended =>
    subst hends
    simpa only [hended, Member.ofExcept_ok, Member.bind_done] using hnext
  | gather kind payload next hcalls _ ih =>
    refine .gather kind payload (fun i all => (next i all).bind (f i)) (fun i => ?_) (ih hends)
    rw [hcalls i]
    rfl

theorem Runs.bind_raise {errors : ι → ε} (h : Runs members fun i => .error (errors i)) :
    Runs (fun i => (members i).bind (f i)) fun i => .error (errors i) := by
  generalize hends : (fun i => Except.error (errors i)) = ends at h
  induction h with
  | ended hended =>
    subst hends
    exact .ended fun i => by rw [hended i]; rfl
  | gather kind payload next hcalls _ ih =>
    refine .gather kind payload (fun i all => (next i all).bind (f i)) (fun i => ?_) (ih hends)
    rw [hcalls i]
    rfl

/-- One that has ended leaves the others waiting. -/
theorem not_runs_of_waiting {i j : ι} {result : Except ε α} {kind : K} {payload : P kind}
    {next : (ι → P kind) → Member ι P ε α} (hi : members i = .ofExcept result)
    (hj : members j = .gather kind payload next) (results : ι → Except ε α) :
    ¬ Runs members results := by
  intro h
  cases h with
  | ended hended => exact Member.ofExcept_ne_gather _ ((hended j).symm.trans hj)
  | gather kind payload next hcalls _ =>
    exact Member.ofExcept_ne_gather _ (hi.symm.trans (hcalls i))

-- ---------------------------------------------------------------------------
-- Ending alike
-- ---------------------------------------------------------------------------

/-- All members end, all of them well or all of them with an error. -/
def EndsAlike (members : ι → Member ι P ε α) : Prop :=
  (∃ values : ι → α, Runs members fun i => .ok (values i)) ∨
    ∃ errors : ι → ε, Runs members fun i => .error (errors i)

end Collective
