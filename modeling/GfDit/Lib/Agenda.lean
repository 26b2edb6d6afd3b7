import GfDit.Lib.Prog

/-!
# Programs that work off an agenda

A machine moves between states while it holds an agenda, a stack of duties
taken on and not yet done. A program *does* a list of duties when every run
of it is a run of the machine that takes exactly these from the top of the
agenda, whatever lies below; if it raises, the machine has run to a point
where it may break off. An invariant of the machine, which may speak of the
duties still on the agenda, is then an invariant of the program however
deeply it calls itself.
-/

namespace Agenda

open Prog

variable {δ ε σ α β : Type}

/-- `move` is one step; `stop` is what may have changed when a call is broken
off. It may always be broken off with no change. -/
structure Machine (δ σ : Type) where
  move : List δ → σ → List δ → σ → Prop
  stop : List δ → σ → σ → Prop
  stop_here : ∀ duties s, stop duties s s

variable {M : Machine δ σ}

inductive Goes (M : Machine δ σ) : List δ → σ → List δ → σ → Prop
  | refl : Goes M duties s duties s
  | tail : Goes M duties s duties' s' → M.move duties' s' duties'' s'' →
      Goes M duties s duties'' s''

theorem Goes.trans (h : Goes M d s d' s') (h' : Goes M d' s' d'' s'') : Goes M d s d'' s'' := by
  induction h' with
  | refl => exact h
  | tail _ hm ih => exact ih.tail hm

theorem Goes.single (h : M.move d s d' s') : Goes M d s d' s' := .tail .refl h

/-- A run that is broken off. -/
def Stops (M : Machine δ σ) (d : List δ) (s s' : σ) : Prop :=
  ∃ duties middle, Goes M d s duties middle ∧ M.stop duties middle s'

theorem Stops.here (s : σ) : Stops M d s s := ⟨d, s, .refl, M.stop_here d s⟩

theorem Stops.of (h : M.stop d s s') : Stops M d s s' := ⟨d, s, .refl, h⟩

theorem Stops.after (h : Goes M d s d' s') (h' : Stops M d' s' s'') : Stops M d s s'' := by
  obtain ⟨duties, middle, hg, hs⟩ := h'
  exact ⟨duties, middle, h.trans hg, hs⟩

/-- The program, at `s`, does `duties` and leaves those of its value, for a
machine that stands at `start`. The two states differ while the program is in
the middle of a move. -/
def DoesFrom (M : Machine δ σ) (duties : List δ) (start : σ) (x : EStateM ε σ α)
    (left : α → List δ) (s : σ) : Prop :=
  ∀ below, wp x (fun a s' => Goes M (duties ++ below) start (left a ++ below) s')
    (fun _ s' => Stops M (duties ++ below) start s') s

abbrev Does (M : Machine δ σ) (duties : List δ) (x : EStateM ε σ α) (left : α → List δ) (s : σ) :
    Prop := DoesFrom M duties s x left s

abbrev nothing : α → List δ := fun _ => []

namespace DoesFrom

variable {x : EStateM ε σ α} {f : α → EStateM ε σ β} {left : α → List δ} {left' : β → List δ}
  {d d' : List δ} {start start' s : σ}

theorem move (d' : List δ) (start' : σ)
    (hm : ∀ below, M.move (d ++ below) start (d' ++ below) start')
    (hx : DoesFrom M d' start' x left s) : DoesFrom M d start x left s := by
  intro below
  have hg := Goes.single (hm below)
  exact wp_mono (hx below) (fun _ _ h => hg.trans h) fun _ _ h => .after hg h

theorem bind (hx : DoesFrom M d start x left s) (hf : ∀ a s', Does M (left a) (f a) left' s') :
    DoesFrom M d start (x >>= f) left' s := by
  intro below
  rw [wp_bind]
  refine wp_mono (hx below) (fun a s' hg => ?_) fun _ _ hs => hs
  exact wp_mono (hf a s' below) (fun _ _ hg' => hg.trans hg') fun _ _ hs => .after hg hs

theorem modifyBind {g : σ → σ} {f : PUnit → EStateM ε σ β}
    (h : DoesFrom M d start (f ⟨⟩) left' (g s)) :
    DoesFrom M d start ((modify g : EStateM ε σ PUnit) >>= f) left' s := by
  intro below
  rw [wp_bind, wp_modify]
  exact h below

theorem getBind {f : σ → EStateM ε σ β} (h : DoesFrom M d start (f s) left' s) :
    DoesFrom M d start (get >>= f) left' s := by
  intro below
  rw [wp_bind, wp_get]
  exact h below

/-- A check in the middle of a move: the machine can stop where it fails. -/
theorem checkBindOr {c : Except ε α} (h : ∀ a, c = .ok a → DoesFrom M d start (f a) left' s)
    (herr : ∀ e, c = .error e → ∀ below, M.stop (d ++ below) start s) :
    DoesFrom M d start (check c >>= f) left' s := by
  intro below
  rw [wp_bind]
  exact wp_check (fun a ha => h a ha below) fun e he => .of (herr e he below)

-- From here on the program is in step with the machine.

theorem done (a : α) : Does M [] (pure a : EStateM ε σ α) nothing s :=
  fun _ => .refl

theorem raise (e : ε) : Does M d (throw e : EStateM ε σ α) left s :=
  fun _ => .here _

theorem change {g : σ → σ} {left : PUnit → List δ}
    (hm : ∀ below, M.move (d ++ below) s (left ⟨⟩ ++ below) (g s)) :
    Does M d (modify g : EStateM ε σ PUnit) left s :=
  fun below => .single (hm below)

theorem changeBind {g : σ → σ} {f : PUnit → EStateM ε σ β} (d' : List δ)
    (hm : ∀ below, M.move (d ++ below) s (d' ++ below) (g s))
    (hx : Does M d' (f ⟨⟩) left' (g s)) :
    Does M d ((modify g : EStateM ε σ PUnit) >>= f) left' s :=
  .modifyBind (.move d' (g s) hm hx)

theorem checkBind {c : Except ε α} (h : ∀ a, c = .ok a → Does M d (f a) left' s) :
    Does M d (check c >>= f) left' s := .checkBindOr h fun _ _ _ => M.stop_here _ _

theorem forM {xs : List α} {body : α → EStateM ε σ PUnit} {duty : α → List δ}
    (h : ∀ x ∈ xs, ∀ s, Does M (duty x) (body x) nothing s) :
    Does M (xs.flatMap duty) (xs.forM body) nothing s := by
  induction xs generalizing s with
  | nil => exact fun _ => .refl
  | cons x xs ih =>
    intro below
    show wp (body x >>= fun _ => xs.forM body) _ _ s
    rw [wp_bind, List.flatMap_cons, List.append_assoc]
    refine wp_mono (h x (List.mem_cons_self ..) s _) (fun _ s' hg => ?_) fun _ _ hs => hs
    refine wp_mono (ih (fun y hy => h y (List.mem_cons_of_mem _ hy)) below)
      (fun _ _ hg' => hg.trans hg') fun _ _ hs => .after hg hs

end DoesFrom

-- ---------------------------------------------------------------------------
-- Invariants
-- ---------------------------------------------------------------------------

/-- What every move keeps, and what is left of it when a run is broken off. -/
structure Invariant (M : Machine δ σ) (I : List δ → σ → Prop) : Prop where
  move : ∀ {d s d' s'}, I d s → M.move d s d' s' → I d' s'
  stop : ∀ {d s s'}, I d s → M.stop d s s' → I [] s'

namespace Invariant

variable {I J : List δ → σ → Prop}

/-- An invariant that rests on another one. -/
theorem under (hi : Invariant M I)
    (hmove : ∀ {d s d' s'}, I d s → J d s → M.move d s d' s' → J d' s')
    (hstop : ∀ {d s s'}, I d s → J d s → M.stop d s s' → J [] s') :
    Invariant M fun d s => I d s ∧ J d s where
  move h hm := ⟨hi.move h.1 hm, hmove h.1 h.2 hm⟩
  stop h hs := ⟨hi.stop h.1 hs, hstop h.1 h.2 hs⟩

/-- An invariant of the runs on whose states `H` holds: a state that satisfies
it comes from states that do. -/
theorem given {H : σ → Prop} (hi : Invariant M I)
    (hback : ∀ {d s d' s'}, M.move d s d' s' → H s' → H s)
    (hback' : ∀ {d s s'}, M.stop d s s' → H s' → H s)
    (hmove : ∀ {d s d' s'}, I d s → J d s → H s' → M.move d s d' s' → J d' s')
    (hstop : ∀ {d s s'}, I d s → J d s → H s' → M.stop d s s' → J [] s') :
    Invariant M fun d s => I d s ∧ (H s → J d s) :=
  hi.under (fun hI hJ hm h => hmove hI (hJ (hback hm h)) h hm)
    fun hI hJ hs h => hstop hI (hJ (hback' hs h)) h hs

theorem wp_of_moves {x : EStateM ε σ α} {left : α → List δ} {K : σ → Prop}
    (hmove : ∀ {d s d' s'}, I d s → M.move d s d' s' → I d' s')
    (hstop : ∀ {d s s'}, I d s → M.stop d s s' → K s')
    (hx : Does M d x left s) (hs : I d s) :
    Prog.wp x (fun a s' => I (left a) s') (fun _ s' => K s') s := by
  have hgoes : ∀ {d' s'}, Goes M d s d' s' → I d' s' := by
    intro d' s' h
    induction h with
    | refl => exact hs
    | tail _ hm ih => exact hmove ih hm
  have h := hx []
  simp only [List.append_nil] at h
  refine wp_mono h (fun _ _ hg => hgoes hg) fun _ _ hstops => ?_
  obtain ⟨_, _, hg, hlast⟩ := hstops
  exact hstop (hgoes hg) hlast

/-- A program that does its duties keeps the invariant, also when it raises. -/
theorem wp {x : EStateM ε σ α} {left : α → List δ} (hi : Invariant M I)
    (hx : Does M d x left s) (hs : I d s) :
    Prog.wp x (fun a s' => I (left a) s') (fun _ s' => I [] s') s :=
  wp_of_moves hi.move hi.stop hx hs

end Invariant

end Agenda
