import GfDit.Adapters.CfgParallel

/-!
# CFG ranks in lockstep

In a CFG step only rank 0 steps its solver, and the others are given the
latents but not the solver. They are in step with one another, and with a rank
that runs alone, as long as no step without CFG follows: that step is taken by
every rank with its own solver.
-/

namespace GfDit

namespace Wan

def StaysOn (g : Guidance) (timesteps : List ℚ) : Prop :=
  timesteps.Pairwise fun t t' => g.doTrueCfg t = true → g.doTrueCfg t' = true

structure Traced.Related {S S' : Type} (r q : S → S' → Prop) (run : Traced S) (run' : Traced S') :
    Prop where
  trace : List.Forall₂ r run.trace run'.trace
  final : Option.Rel q run.final run'.final

theorem Traced.Related.andThen {S S' : Type} {r q q' : S → S' → Prop} {run : Traced S}
    {run' : Traced S'} {next : S → Traced S} {next' : S' → Traced S'} (h : Related r q run run')
    (hnext : ∀ state state', q state state' → Related r q' (next state) (next' state')) :
    Related r q' (run.andThen next) (run'.andThen next') := by
  obtain ⟨trace, final⟩ := run
  obtain ⟨trace', final'⟩ := run'
  obtain ⟨htrace, hfinal⟩ := h
  cases hfinal with
  | none => exact ⟨htrace, .none⟩
  | some hq =>
    have hlater := hnext _ _ hq
    exact ⟨List.rel_append htrace hlater.trace, hlater.final⟩

section Ranks

variable {Latents Pred Solver Model : Type} {n : Nat}
  {group : Fin (n + 1) → SolverState Latents Solver} {single : Fin 1 → SolverState Latents Solver}

/-- All ranks hold the latents of a rank that runs alone. -/
def SameLatents (group : Fin (n + 1) → SolverState Latents Solver)
    (single : Fin 1 → SolverState Latents Solver) : Prop :=
  ∀ rank, (group rank).latents = (single 0).latents

/-- After every step, in whatever chunks, all ranks of a CFG group of `n + 1`
hold the latents of a rank that runs alone. -/
def Lockstep (n : Nat) (g : Guidance) (timesteps : List ℚ) : Prop :=
  ∀ {Latents Pred Solver Model : Type} (d : Denoiser Latents Pred Solver Model)
    (ranges : List StepRange) (state : SolverState Latents Solver), Consecutive 0 ranges →
    Traced.Related SameLatents SameLatents
      (d.runChunks g timesteps ranges (fun _ : Fin (n + 1) => state))
      (d.runChunks g timesteps ranges (fun _ : Fin 1 => state))

/-- The ranks agree on the latents and rank 0 on the solver; the other solvers
agree too, or are not needed for the timesteps to come. -/
structure InStep (g : Guidance) (rest : List ℚ) (group : Fin (n + 1) → SolverState Latents Solver)
    (single : Fin 1 → SolverState Latents Solver) : Prop where
  latents : SameLatents group single
  first : (group 0).scheduler = (single 0).scheduler
  ready : ∀ rank, (group rank).scheduler.isSome = (single 0).scheduler.isSome
  others : (∀ rank, (group rank).scheduler = (single 0).scheduler) ∨
    ∀ t ∈ rest, g.doTrueCfg t = true

variable {d : Denoiser Latents Pred Solver Model} {g : Guidance}

-- ---------------------------------------------------------------------------
-- One step
-- ---------------------------------------------------------------------------

theorem SolverState.eq_of {a b : SolverState Latents Solver} (hl : a.latents = b.latents)
    (hs : a.scheduler = b.scheduler) : a = b := by
  cases a
  cases b
  cases hl
  cases hs
  rfl

theorem step_ready (t : ℚ) (noisePred : Option Pred) (state : SolverState Latents Solver) :
    (d.step t noisePred state).scheduler.isSome = state.scheduler.isSome := by
  unfold Denoiser.step
  split
  · rename_i hs
    rw [hs]
    rfl
  · rfl

/-- Rank 0 of a group predicts what a rank predicts alone. -/
theorem predictNoise_first (h : SameLatents group single) (model : Model) (t : ℚ) :
    d.predictNoiseMaybeWithCfg g model t group 0 =
      d.predictNoiseMaybeWithCfg g model t single 0 := by
  unfold Denoiser.predictNoiseMaybeWithCfg
  split
  · rw [if_neg (lt_irrefl 1 : ¬ 1 < 0 + 1)]
    split
    · rename_i hparallel
      obtain ⟨m, rfl⟩ : ∃ m, n = m + 1 := ⟨n - 1, by omega⟩
      have h1 : (group 1).latents = (single 0).latents := h 1
      simp only [List.ofFn_succ, if_pos]
      show some (d.combineCfgNoise (d.predict model t .positive (group 0).latents)
        (d.predict model t .negative (group 1).latents) (g.scaleAt t)) = _
      rw [h 0, h1]
    · show some _ = some _
      rw [h 0]
  · show some _ = some _
    rw [h 0]

/-- Without CFG every rank predicts what a rank predicts alone. -/
theorem predictNoise_off (h : SameLatents group single) (hoff : g.doTrueCfg t = false)
    (model : Model) (rank : Fin (n + 1)) :
    d.predictNoiseMaybeWithCfg g model t group rank =
      d.predictNoiseMaybeWithCfg g model t single 0 := by
  unfold Denoiser.predictNoiseMaybeWithCfg
  rw [if_neg (by simp [hoff]), if_neg (by simp [hoff])]
  show some _ = some _
  rw [h rank]

/-- A step keeps the ranks in step, if CFG stays on. -/
theorem InStep.step (h : InStep g (t :: rest) group single)
    (hon : g.doTrueCfg t = true → ∀ t' ∈ rest, g.doTrueCfg t' = true) (model : Model) :
    InStep g rest
      (d.schedulerStepMaybeWithCfg g t (d.predictNoiseMaybeWithCfg g model t group) group)
      (d.schedulerStepMaybeWithCfg g t (d.predictNoiseMaybeWithCfg g model t single) single) := by
  have hfirst : group 0 = single 0 := SolverState.eq_of (h.latents 0) h.first
  have hpred := predictNoise_first (d := d) (g := g) h.latents model t
  unfold Denoiser.schedulerStepMaybeWithCfg
  rw [if_neg (fun hc => absurd hc.2 (lt_irrefl 1) : ¬ (g.doTrueCfg t = true ∧ 1 < 0 + 1))]
  split
  · -- rank 0 steps and broadcasts
    rename_i hparallel
    rw [hpred, hfirst]
    refine ⟨fun rank => ?_, rfl, fun rank => ?_, .inr (hon hparallel.1)⟩
    · by_cases hr : rank = 0
      · rw [if_pos hr]
      · rw [if_neg hr]
    · by_cases hr : rank = 0
      · rw [if_pos hr]
      · rw [if_neg hr, step_ready]
        exact h.ready rank
  · rename_i hparallel
    by_cases hcfg : g.doTrueCfg t = true
    · -- a group of one
      have hone : ∀ rank : Fin (n + 1), rank = 0 := by
        intro rank
        have hn : ¬ 1 < n + 1 := fun hlt => hparallel ⟨hcfg, hlt⟩
        exact Fin.ext (by have := rank.isLt; simp; omega)
      have hsame : ∀ rank, d.step t (d.predictNoiseMaybeWithCfg g model t group rank) (group rank) =
          d.step t (d.predictNoiseMaybeWithCfg g model t single 0) (single 0) := by
        intro rank
        rw [hone rank, hpred, hfirst]
      exact ⟨fun rank => congrArg _ (hsame rank), congrArg _ (hsame 0),
        fun rank => congrArg _ (congrArg _ (hsame rank)), .inl fun rank => congrArg _ (hsame rank)⟩
    · -- every rank steps its own solver
      have hoff : g.doTrueCfg t = false := by simpa using hcfg
      have hsolvers := h.others.resolve_right fun hall => hcfg (hall t (List.mem_cons_self ..))
      have hsame : ∀ rank, d.step t (d.predictNoiseMaybeWithCfg g model t group rank) (group rank) =
          d.step t (d.predictNoiseMaybeWithCfg g model t single 0) (single 0) := by
        intro rank
        rw [predictNoise_off h.latents hoff model rank,
          SolverState.eq_of (h.latents rank) (hsolvers rank)]
      exact ⟨fun rank => congrArg _ (hsame rank), congrArg _ (hsame 0),
        fun rank => congrArg _ (congrArg _ (hsame rank)), .inl fun rank => congrArg _ (hsame rank)⟩

-- ---------------------------------------------------------------------------
-- Whole runs
-- ---------------------------------------------------------------------------

theorem StaysOn.head (h : StaysOn g (t :: timesteps)) (hon : g.doTrueCfg t = true) :
    ∀ t' ∈ timesteps, g.doTrueCfg t' = true := fun t' hm =>
  (List.pairwise_cons.mp h).1 t' hm hon

theorem InStep.loop {timesteps : List ℚ} (h : InStep g (timesteps ++ rest) group single)
    (hon : StaysOn g (timesteps ++ rest)) :
    Traced.Related SameLatents (InStep g rest) (d.loop g timesteps group)
      (d.loop g timesteps single) := by
  induction timesteps generalizing group single with
  | nil => exact ⟨.nil, .some h⟩
  | cons t timesteps ih =>
    unfold Denoiser.loop
    cases d.currentModel g t with
    | error e => exact ⟨.nil, .none⟩
    | ok model =>
      have hstep := InStep.step (d := d) h hon.head model
      have hlater := ih hstep (List.pairwise_cons.mp hon).2
      exact ⟨.cons hstep.latents hlater.trace, hlater.final⟩

theorem InStep.finish (h : InStep g rest group single) :
    Traced.Related SameLatents (InStep g rest) (d.finish group) (d.finish single) := by
  have hlatents : SameLatents (fun rank => d.finished (group rank))
      (fun rank => d.finished (single rank)) := by
    intro rank
    simp only [Denoiser.finished, h.latents rank]
  exact ⟨.cons hlatents .nil, .some ⟨hlatents, rfl, fun _ => rfl, .inl fun _ => rfl⟩⟩

theorem drop_eq_append (timesteps : List ℚ) (hle : start ≤ stop) :
    timesteps.drop start = (timesteps.take stop).drop start ++ timesteps.drop stop := by
  conv_lhs => rw [← List.take_append_drop stop timesteps, List.drop_append]
  congr 1
  rcases Nat.le_total stop timesteps.length with hlen | hlen
  · rw [List.length_take, Nat.min_eq_left hlen, Nat.sub_eq_zero_of_le hle, List.drop_zero]
  · rw [List.drop_eq_nil_of_le hlen, List.drop_nil]

theorem InStep.execute {range : StepRange}
    (h : InStep g (timesteps.drop range.start) group single)
    (hon : StaysOn g (timesteps.drop range.start)) :
    Traced.Related SameLatents (InStep g (timesteps.drop range.stop))
      (d.execute g timesteps range group) (d.execute g timesteps range single) := by
  have hready : (∀ rank, (group rank).scheduler.isSome = true) ↔
      ∀ rank, (single rank).scheduler.isSome = true := by
    constructor
    · intro hall rank
      rw [Subsingleton.elim rank 0, ← h.ready 0]
      exact hall 0
    · intro hall rank
      rw [h.ready rank]
      exact hall 0
  rw [drop_eq_append timesteps range.nonempty.le] at h hon
  unfold Denoiser.execute
  by_cases hr : ∀ rank, (single rank).scheduler.isSome = true
  · rw [if_pos hr, if_pos (hready.mpr hr)]
    refine (h.loop hon).andThen fun group' single' h' => ?_
    split
    · exact h'.finish
    · exact ⟨.nil, .some h'⟩
  · rw [if_neg hr, if_neg (mt hready.mp hr)]
    exact ⟨.nil, .none⟩

theorem InStep.runChunks {ranges : List StepRange}
    (h : InStep g (timesteps.drop start) group single)
    (hon : StaysOn g timesteps) (hc : Consecutive start ranges) :
    Traced.Related SameLatents SameLatents (d.runChunks g timesteps ranges group)
      (d.runChunks g timesteps ranges single) := by
  induction ranges generalizing start group single with
  | nil => exact ⟨.nil, .some h.latents⟩
  | cons range ranges ih =>
    obtain ⟨rfl, hc⟩ := hc
    have hdrop : StaysOn g (timesteps.drop range.start) := hon.sublist (List.drop_sublist _ _)
    exact (h.execute hdrop).andThen fun group' single' h' => ih h' hc

end Ranks

/-- All solvers stay where they started from one another. -/
theorem lockstep_of_staysOn (n : Nat) (hon : StaysOn g timesteps) : Lockstep n g timesteps := by
  intro Latents Pred Solver Model d ranges state hc
  exact InStep.runChunks ⟨fun _ => rfl, rfl, fun _ => rfl, .inl fun _ => rfl⟩ hon hc

-- ---------------------------------------------------------------------------
-- A solver that counts
-- ---------------------------------------------------------------------------

def counting : Denoiser Nat Unit Nat Unit where
  transformer := some ()
  transformer2 := none
  predictNoise _ _ _ _ := ()
  combineCfgNoise _ _ _ := ()
  schedulerStep taken _ _ _ := (taken + 1, taken + 1)
  mixFirstFrame := none

def counts (n latents first others : Nat) : Fin (n + 1) → SolverState Nat Nat :=
  fun rank => ⟨latents, some (if rank.val = 0 then first else others)⟩

theorem counting_model (g : Guidance) (t : ℚ) : counting.currentModel g t = .ok () := by
  unfold Denoiser.currentModel
  split <;> rfl

theorem counting_first (g : Guidance) (t : ℚ) (states : Fin (n + 1) → SolverState Nat Nat) :
    counting.predictNoiseMaybeWithCfg g () t states 0 = some () := by
  unfold Denoiser.predictNoiseMaybeWithCfg
  split
  · split
    · obtain ⟨m, rfl⟩ : ∃ m, n = m + 1 := ⟨n - 1, by omega⟩
      simp only [List.ofFn_succ, if_pos]
    · rfl
  · rfl

theorem counting_on (hn : n ≠ 0) (hon : g.doTrueCfg t = true) (latents first others : Nat) :
    counting.schedulerStepMaybeWithCfg g t
      (counting.predictNoiseMaybeWithCfg g () t (counts n latents first others))
      (counts n latents first others) = counts n (first + 1) (first + 1) others := by
  unfold Denoiser.schedulerStepMaybeWithCfg
  rw [if_pos ⟨hon, by omega⟩, counting_first]
  funext rank
  by_cases hr : rank = 0
  · rw [if_pos hr, hr]
    rfl
  · have hval : rank.val ≠ 0 := fun heq => hr (Fin.ext heq)
    simp only [if_neg hr, counts, if_neg hval]
    rfl

theorem counting_off (hoff : g.doTrueCfg t = false) (latents first others : Nat)
    (rank : Fin (n + 1)) :
    counting.schedulerStepMaybeWithCfg g t
      (counting.predictNoiseMaybeWithCfg g () t (counts n latents first others))
      (counts n latents first others) rank =
    ⟨(if rank.val = 0 then first else others) + 1,
      some ((if rank.val = 0 then first else others) + 1)⟩ := by
  unfold Denoiser.schedulerStepMaybeWithCfg Denoiser.predictNoiseMaybeWithCfg
  rw [if_neg (by simp [hoff]), if_neg (by simp [hoff])]
  rfl

theorem counting_alone (g : Guidance) (t : ℚ) (latents taken : Nat) :
    counting.schedulerStepMaybeWithCfg g t
      (counting.predictNoiseMaybeWithCfg g () t (counts 0 latents taken taken))
      (counts 0 latents taken taken) = counts 0 (taken + 1) (taken + 1) (taken + 1) := by
  unfold Denoiser.schedulerStepMaybeWithCfg
  rw [if_neg fun hc => absurd hc.2 (lt_irrefl 1)]
  funext rank
  obtain rfl : rank = 0 := Fin.fin_one_eq_zero rank
  rw [counting_first]
  rfl

/-- Ranks that count alike took a step without CFG only before any with CFG. -/
theorem staysOn_of_counts (hn : n ≠ 0) {timesteps : List ℚ} {more more'}
    (hle : others ≤ first)
    (h : List.Forall₂ SameLatents
      ((counting.loop g timesteps (counts n latents first others)).trace ++ more)
      ((counting.loop g timesteps (counts 0 latents' first first)).trace ++ more')) :
    StaysOn g timesteps ∧ (others < first → ∀ t ∈ timesteps, g.doTrueCfg t = true) := by
  induction timesteps generalizing latents latents' first others with
  | nil => exact ⟨.nil, fun _ _ hm => nomatch hm⟩
  | cons t timesteps ih =>
    simp only [Denoiser.loop, counting_model, counting_alone, List.cons_append,
      List.forall₂_cons] at h
    obtain ⟨hsame, hlater⟩ := h
    cases hcfg : g.doTrueCfg t with
    | true =>
      rw [counting_on hn hcfg] at hlater
      have hrest := ih (by omega) hlater
      have hall : ∀ t' ∈ timesteps, g.doTrueCfg t' = true := hrest.2 (by omega)
      exact ⟨List.pairwise_cons.mpr ⟨fun t' hm _ => hall t' hm, hrest.1⟩,
        fun _ => List.forall_mem_cons.mpr ⟨hcfg, hall⟩⟩
    | false =>
      -- rank 1 counts from where it was left
      have hlast := hsame (Fin.last n)
      rw [counting_off hcfg, Fin.val_last, if_neg hn] at hlast
      have heq : others = first := Nat.succ.inj hlast
      subst heq
      have hstep : counting.schedulerStepMaybeWithCfg g t
          (counting.predictNoiseMaybeWithCfg g () t (counts n latents others others))
          (counts n latents others others) =
          counts n (others + 1) (others + 1) (others + 1) := by
        funext rank
        rw [counting_off hcfg, ite_self]
        simp only [counts, ite_self]
      rw [hstep] at hlater
      have hrest := ih le_rfl hlater
      exact ⟨List.pairwise_cons.mpr ⟨fun _ _ hon => (nomatch hcfg.symm.trans hon), hrest.1⟩,
        fun hlt => absurd hlt (lt_irrefl _)⟩

theorem Traced.andThen_trace {S : Type} (run : Traced S) (next : S → Traced S) :
    ∃ more, (run.andThen next).trace = run.trace ++ more := by
  unfold Traced.andThen
  split
  · exact ⟨[], (List.append_nil _).symm⟩
  · exact ⟨_, rfl⟩

theorem execute_all {states : Fin (n + 1) → SolverState Latents Solver}
    (d : Denoiser Latents Pred Solver Model) (g : Guidance) (timesteps : List ℚ)
    (hpos : 0 < timesteps.length) (hready : ∀ rank, (states rank).scheduler.isSome = true) :
    d.execute g timesteps ⟨0, timesteps.length, hpos⟩ states =
      (d.loop g timesteps states).andThen d.finish := by
  unfold Denoiser.execute
  simp only [if_pos hready, List.take_length, List.drop_zero, Nat.min_self, if_pos le_rfl]

theorem counting_trace (g : Guidance) (timesteps : List ℚ) (hpos : 0 < timesteps.length) :
    ∃ more, (counting.runChunks g timesteps [⟨0, timesteps.length, hpos⟩]
      (fun _ : Fin (n + 1) => ⟨0, some 0⟩)).trace =
      (counting.loop g timesteps (counts n 0 0 0)).trace ++ more := by
  have hstart : (fun _ : Fin (n + 1) => (⟨0, some 0⟩ : SolverState Nat Nat)) =
      counts n 0 0 0 := by
    funext rank
    simp only [counts, ite_self]
  unfold Denoiser.runChunks
  rw [hstart, execute_all counting g timesteps hpos fun _ => rfl]
  obtain ⟨more, hloop⟩ :=
    Traced.andThen_trace (counting.loop g timesteps (counts n 0 0 0)) counting.finish
  obtain ⟨more', hchunk⟩ := Traced.andThen_trace
    ((counting.loop g timesteps (counts n 0 0 0)).andThen counting.finish)
    (counting.runChunks g timesteps [])
  exact ⟨more ++ more', by rw [hchunk, hloop, List.append_assoc]⟩

theorem staysOn_of_lockstep (hn : n ≠ 0) (h : Lockstep n g timesteps) : StaysOn g timesteps := by
  rcases Nat.eq_zero_or_pos timesteps.length with hempty | hpos
  · rw [List.eq_nil_of_length_eq_zero hempty]
    exact .nil
  · have hrun := (h counting [⟨0, timesteps.length, hpos⟩] ⟨0, some 0⟩ ⟨rfl, trivial⟩).trace
    obtain ⟨more, hgroup⟩ := counting_trace (n := n) g timesteps hpos
    obtain ⟨more', hsingle⟩ := counting_trace (n := 0) g timesteps hpos
    rw [hgroup, hsingle] at hrun
    exact (staysOn_of_counts hn le_rfl hrun).1

/-- A group of one is a rank that runs alone. -/
theorem lockstep_one (g : Guidance) (timesteps : List ℚ) : Lockstep 0 g timesteps := by
  intro Latents Pred Solver Model d ranges state _
  have hself : ∀ states : Fin 1 → SolverState Latents Solver, SameLatents states states := by
    intro states rank
    rw [Fin.fin_one_eq_zero rank]
  refine ⟨List.forall₂_same.mpr fun states _ => hself states, ?_⟩
  cases (d.runChunks g timesteps ranges fun _ : Fin 1 => state).final with
  | none => exact .none
  | some states => exact .some (hself states)

theorem cfg_ranks_lockstep (n : Nat) (g : Guidance) (timesteps : List ℚ) :
    Lockstep n g timesteps ↔ n = 0 ∨ StaysOn g timesteps := by
  constructor
  · intro h
    by_cases hn : n = 0
    · exact .inl hn
    · exact .inr (staysOn_of_lockstep hn h)
  · rintro (rfl | hon)
    · exact lockstep_one g timesteps
    · exact lockstep_of_staysOn n hon

/-- The first timestep has a guidance scale of 4 and the second of 1. -/
theorem cfg_rank_left_behind :
    ¬ Lockstep 1 ⟨1/2, 4, 1, true⟩ [3/4, 1/4] := by
  intro h
  have hon : StaysOn ⟨1/2, 4, 1, true⟩ [3/4, 1/4] := staysOn_of_lockstep one_ne_zero h
  unfold StaysOn at hon
  revert hon
  decide +kernel

end Wan

end GfDit
