import Mathlib.Data.List.Basic
import Mathlib.Logic.Relation
import Mathlib.Logic.Function.Basic

/-!
# Blocking rendezvous over projections of one order

Agents exchange messages pairwise and block: a send and a receive complete
together, when each is the next operation of its agent. If every agent's list
is the projection of one global sequence of transfers, the system cannot
block before it is done: the earliest transfer left is next on both sides.
The argument needs no assumption on how the transfers are chosen, only that
no agent transfers to itself.
-/

namespace Rendezvous

variable {Agent : Type u} {Payload : Type v} [DecidableEq Agent]

structure Transfer (Agent : Type u) (Payload : Type v) where
  src : Agent
  dst : Agent
  payload : Payload

inductive Op (Agent : Type u) (Payload : Type v)
  | send (peer : Agent) (payload : Payload)
  | recv (peer : Agent) (payload : Payload)
  deriving DecidableEq

def Transfer.opOf (agent : Agent) (t : Transfer Agent Payload) : Option (Op Agent Payload) :=
  if t.src = agent then some (.send t.dst t.payload)
  else if t.dst = agent then some (.recv t.src t.payload)
  else none

def project (agent : Agent) (order : List (Transfer Agent Payload)) : List (Op Agent Payload) :=
  order.filterMap (Transfer.opOf agent)

/-- The operation lists still to be done. -/
abbrev State (Agent : Type u) (Payload : Type v) := Agent → List (Op Agent Payload)

def start (order : List (Transfer Agent Payload)) : State Agent Payload := fun agent =>
  project agent order

/-- A matching send and receive are next on both sides and complete together. -/
inductive Step : State Agent Payload → State Agent Payload → Prop
  | meet {s : State Agent Payload} (hs : s a = .send b p :: as) (hr : s b = .recv a p :: bs) :
      Step s (Function.update (Function.update s a as) b bs)

def Done (s : State Agent Payload) : Prop := ∀ agent, s agent = []

/-- A send and its receive are both next. -/
def Ready (s : State Agent Payload) : Prop :=
  ∃ a b p, (s a).head? = some (.send b p) ∧ (s b).head? = some (.recv a p)

def NoSelf (order : List (Transfer Agent Payload)) : Prop := ∀ t ∈ order, t.src ≠ t.dst

@[simp] theorem project_nil (agent : Agent) :
    project agent ([] : List (Transfer Agent Payload)) = [] := rfl

theorem opOf_eq_none {t : Transfer Agent Payload} :
    t.opOf agent = none ↔ t.src ≠ agent ∧ t.dst ≠ agent := by
  unfold Transfer.opOf
  split
  · simp_all
  · split <;> simp_all

theorem opOf_eq_send {t : Transfer Agent Payload} (h : t.opOf a = some (.send b p)) :
    t = ⟨a, b, p⟩ := by
  unfold Transfer.opOf at h
  split at h
  · cases h
    subst a
    rfl
  · split at h <;> cases h

theorem opOf_eq_recv {t : Transfer Agent Payload} (h : t.opOf b = some (.recv a p)) :
    t = ⟨a, b, p⟩ := by
  unfold Transfer.opOf at h
  split at h
  · cases h
  · split at h
    · cases h
      subst b
      rfl
    · cases h

theorem project_cons_of_none {t : Transfer Agent Payload} (h : t.opOf agent = none) :
    project agent (t :: order) = project agent order := List.filterMap_cons_none h

theorem project_cons_of_some {t : Transfer Agent Payload} (h : t.opOf agent = some op) :
    project agent (t :: order) = op :: project agent order := List.filterMap_cons_some h

/-- A send and a receive that are next on both sides are the same transfer
of the order: removing it from the order advances exactly these two lists. -/
theorem meet_removes {order : List (Transfer Agent Payload)} (hn : NoSelf order)
    (hs : project a order = .send b p :: as) (hr : project b order = .recv a p :: bs) :
    ∃ rest, rest.Sublist order ∧ ∀ agent, project agent rest =
      if agent = b then bs else if agent = a then as else project agent order := by
  induction order with
  | nil => cases hs
  | cons t order ih =>
    cases ha : t.opOf a with
    | some op =>
      -- The first transfer involving `a` is its send to `b`, so it is also
      -- the first one involving `b`.
      rw [project_cons_of_some ha] at hs
      obtain ⟨rfl, rfl⟩ := List.cons.inj hs
      obtain rfl := opOf_eq_send ha
      have hab : a ≠ b := hn ⟨a, b, p⟩ (List.mem_cons_self ..)
      have hb : Transfer.opOf b (⟨a, b, p⟩ : Transfer Agent Payload) = some (.recv a p) := by
        simp [Transfer.opOf, hab]
      rw [project_cons_of_some hb] at hr
      obtain ⟨-, rfl⟩ := List.cons.inj hr
      refine ⟨order, List.sublist_cons_self .., fun agent => ?_⟩
      split
      · simp_all
      · split
        · simp_all
        · exact (project_cons_of_none (opOf_eq_none.mpr ⟨Ne.symm ‹_›, Ne.symm ‹_›⟩)).symm
    | none =>
      have hb : t.opOf b = none := by
        cases hb : t.opOf b with
        | none => rfl
        | some op =>
          rw [project_cons_of_some hb] at hr
          obtain ⟨rfl, -⟩ := List.cons.inj hr
          obtain rfl := opOf_eq_recv hb
          simp [Transfer.opOf] at ha
      rw [project_cons_of_none ha] at hs
      rw [project_cons_of_none hb] at hr
      obtain ⟨rest, hsub, hrest⟩ := ih (fun u hu => hn u (List.mem_cons_of_mem _ hu)) hs hr
      refine ⟨t :: rest, hsub.cons_cons t, fun agent => ?_⟩
      cases hagent : t.opOf agent with
      | none => rw [project_cons_of_none hagent, hrest, project_cons_of_none hagent]
      | some op =>
        have h1 : agent ≠ b := fun h => by simp [h, hb] at hagent
        have h2 : agent ≠ a := fun h => by simp [h, ha] at hagent
        rw [project_cons_of_some hagent, hrest, if_neg h1, if_neg h2, if_neg h1, if_neg h2,
          project_cons_of_some hagent]

/-- Every state reached is the projection of what is left of the order. -/
theorem reachable_project {order : List (Transfer Agent Payload)} (hn : NoSelf order)
    (h : Relation.ReflTransGen Step (start order) s) :
    ∃ rest, rest.Sublist order ∧ s = start rest := by
  induction h with
  | refl => exact ⟨order, List.Sublist.refl _, rfl⟩
  | tail _ hstep ih =>
    obtain ⟨rest, hsub, rfl⟩ := ih
    cases hstep with
    | @meet a b p as bs _ hs hr =>
      obtain ⟨rest', hsub', hrest⟩ :=
        meet_removes (fun t ht => hn t (hsub.subset ht)) hs hr
      refine ⟨rest', hsub'.trans hsub, funext fun agent => ?_⟩
      simp only [start, hrest, Function.update_apply]

/-- Until all operations are done some send and its receive are both next. -/
theorem done_or_ready {order : List (Transfer Agent Payload)} (hn : NoSelf order)
    (h : Relation.ReflTransGen Step (start order) s) : Done s ∨ Ready s := by
  obtain ⟨rest, hsub, rfl⟩ := reachable_project hn h
  cases rest with
  | nil => exact .inl fun agent => rfl
  | cons t rest =>
    have hne : t.src ≠ t.dst := hn t (hsub.subset (List.mem_cons_self ..))
    have hsend : t.opOf t.src = some (.send t.dst t.payload) := by simp [Transfer.opOf]
    have hrecv : t.opOf t.dst = some (.recv t.src t.payload) := by simp [Transfer.opOf, hne]
    refine .inr ⟨t.src, t.dst, t.payload, ?_, ?_⟩
    · rw [start, project_cons_of_some hsend]
      rfl
    · rw [start, project_cons_of_some hrecv]
      rfl

end Rendezvous
