import GfDit.Lib.BestTable
import GfDit.Lib.Forall2
import GfDit.Simulator.StepPreemptive
import Mathlib.Algebra.Order.Ring.Rat
import Mathlib.Data.List.ReduceOption
import Mathlib.Tactic.NormNum

/-!
# The rank program finds a best choice

A mask stands for the ranks a choice uses up, and one best choice for each
mask is enough: what can be added to a choice depends on its mask alone.
-/

namespace GfDit

namespace StepPreemptive

open BestTable
open Driver (Dispatch)

-- ---------------------------------------------------------------------------
-- Masks
-- ---------------------------------------------------------------------------

theorem or_and_eq_zero (a b c : Nat) : (a ||| b) &&& c = 0 ↔ a &&& c = 0 ∧ b &&& c = 0 := by
  rw [Nat.and_or_distrib_right, Nat.or_eq_zero_iff]

theorem testBit_rankMask (ranks : List Rank) (rank : Rank) :
    (rankMask ranks).testBit rank = decide (rank ∈ ranks) := by
  have hfold : ∀ mask : Nat, (ranks.foldl (fun mask rank => mask ||| 1 <<< rank) mask).testBit rank =
      (mask.testBit rank || decide (rank ∈ ranks)) := by
    induction ranks with
    | nil => simp
    | cons first rest ih =>
      intro mask
      rw [List.foldl_cons, ih, Nat.testBit_or, Nat.one_shiftLeft, Nat.testBit_two_pow]
      simp [Bool.or_assoc, eq_comm]
  rw [rankMask, hfold, Nat.zero_testBit, Bool.false_or]

/-- Masks without a common bit belong to ranks without a common rank. -/
theorem rankMask_and_eq_zero {xs ys : List Rank} :
    rankMask xs &&& rankMask ys = 0 ↔ ∀ rank ∈ xs, rank ∉ ys := by
  constructor
  · intro h rank hx hy
    have hbit := congrArg (fun mask => Nat.testBit mask rank) h
    simp [testBit_rankMask, hx, hy] at hbit
  · intro h
    refine Nat.eq_of_testBit_eq fun rank => ?_
    rw [Nat.testBit_and, testBit_rankMask, testBit_rankMask, Nat.zero_testBit]
    by_cases hx : rank ∈ xs
    · simp [hx, h rank hx]
    · simp [hx]

-- ---------------------------------------------------------------------------
-- Choices
-- ---------------------------------------------------------------------------

/-- One candidate of a request or none of them. -/
def optionsOf (candidates : List ActionCandidate) : List (Option ActionCandidate) :=
  none :: candidates.map some

theorem reduceOption_optionsOf (candidates : List ActionCandidate) :
    (optionsOf candidates).reduceOption = candidates := by
  simp [optionsOf, List.reduceOption]

def totalScore (actions : List ActionCandidate) : ℚ := (actions.map (·.score)).sum

def RankDisjoint (actions : List ActionCandidate) : Prop :=
  actions.Pairwise fun a b => a.rankMask &&& b.rankMask = 0

def Choice (candidatesByRequest : List (String × List ActionCandidate))
    (actions : List ActionCandidate) : Prop :=
  ∃ picks, List.Forall₂ (fun entry pick => pick ∈ optionsOf entry.2) candidatesByRequest picks ∧
    actions = picks.reduceOption

def rankMove : Move Nat ℚ (List ActionCandidate) (Option ActionCandidate) where
  target usedMask pick := match pick with
    | none => some usedMask
    | some candidate =>
      if usedMask &&& candidate.rankMask ≠ 0 then none else some (usedMask ||| candidate.rankMask)
  gain pick := match pick with
    | none => 0
    | some candidate => candidate.score
  record _ actions pick := match pick with
    | none => actions
    | some candidate => actions ++ [candidate]

variable {groups : List (List (Option ActionCandidate))} {picks : List (Option ActionCandidate)}

theorem rankDisjoint_snoc {actions : List ActionCandidate} {candidate : ActionCandidate} :
    RankDisjoint (actions ++ [candidate]) ↔ RankDisjoint actions ∧
      ∀ action ∈ actions, action.rankMask &&& candidate.rankMask = 0 := by
  simp [RankDisjoint, List.pairwise_append]

theorem chosen_spec {mask : Nat} {value : ℚ} {actions : List ActionCandidate}
    (h : Chosen rankMove 0 0 [] groups picks mask value actions) :
    actions = picks.reduceOption ∧ value = totalScore actions ∧ RankDisjoint actions ∧
      ∀ other, mask &&& other = 0 ↔ ∀ action ∈ actions, action.rankMask &&& other = 0 := by
  induction h with
  | nil => exact ⟨rfl, rfl, .nil, by simp⟩
  | @snoc groups picks mask value actions opts pick mask' hchosen hpick htarget ih =>
    obtain ⟨hactions, hvalue, hdisjoint, hmask⟩ := ih
    cases pick with
    | none =>
      obtain rfl : mask = mask' := Option.some.inj htarget
      refine ⟨?_, ?_, hdisjoint, hmask⟩
      · rw [List.reduceOption_append, ← hactions]
        exact (List.append_nil _).symm
      · rw [hvalue]
        exact add_zero _
    | some candidate =>
      simp only [rankMove] at htarget ⊢
      split at htarget
      · cases htarget
      · next hfree =>
        obtain rfl := Option.some.inj htarget
        refine ⟨?_, ?_, rankDisjoint_snoc.mpr ⟨hdisjoint, ?_⟩, fun other => ?_⟩
        · rw [List.reduceOption_append, ← hactions]
          rfl
        · simp [totalScore, hvalue]
        · exact (hmask _).mp (not_not.mp hfree)
        · rw [or_and_eq_zero, hmask]
          simp [or_imp, forall_and]

/-- Every choice without a rank used twice has a cell. -/
theorem exists_cell (h : List.Forall₂ (fun opts pick => pick ∈ opts) groups picks)
    (hdisjoint : RankDisjoint picks.reduceOption) :
    ∃ mask value actions, Chosen rankMove 0 0 [] groups picks mask value actions := by
  induction groups using List.reverseRecOn generalizing picks with
  | nil =>
    cases h
    exact ⟨0, 0, [], .nil⟩
  | append_singleton groups opts ih =>
    obtain ⟨init, pick, rfl, hinit, hpick⟩ := forall₂_snoc h
    rw [List.reduceOption_append] at hdisjoint
    cases pick with
    | none =>
      obtain ⟨mask, value, actions, hchosen⟩ := ih hinit (by simpa using hdisjoint)
      exact ⟨_, _, _, hchosen.snoc hpick rfl⟩
    | some candidate =>
      obtain ⟨hdisjoint, hfree⟩ := rankDisjoint_snoc.mp hdisjoint
      obtain ⟨mask, value, actions, hchosen⟩ := ih hinit hdisjoint
      obtain ⟨rfl, -, -, hmask⟩ := chosen_spec hchosen
      exact ⟨_, _, _, hchosen.snoc hpick (if_neg (not_not.mpr ((hmask _).mpr hfree)))⟩

-- ---------------------------------------------------------------------------
-- The table
-- ---------------------------------------------------------------------------

theorem get?_improve (table : RankTable) (entry : Nat × ℚ × List ActionCandidate) :
    (table.improve entry).get? = BestTable.improve table.get? entry := by
  obtain ⟨mask, value, actions⟩ := entry
  unfold RankTable.improve BestTable.improve better
  simp only
  cases hget : table.get? mask with
  | none =>
    funext other
    simp [Dict.get?_set, Function.update_apply, eq_comm]
  | some cell =>
    by_cases hlt : cell.1 < value
    · funext other
      simp [hlt, Dict.get?_set, Function.update_apply, eq_comm]
    · simp [hlt]

theorem get?_sweep (table : RankTable) (entries : List (Nat × ℚ × List ActionCandidate)) :
    (entries.foldl RankTable.improve table).get? = sweep table.get? entries := by
  induction entries generalizing table with
  | nil => rfl
  | cons entry entries ih =>
    rw [List.foldl_cons, ih, get?_improve]
    rfl

theorem mem_rankEntries (dp : RankTable) (candidates : List ActionCandidate) (mask : Nat)
    (value : ℚ) (actions : List ActionCandidate) :
    (mask, value, actions) ∈ rankEntries dp candidates ↔
      Extends rankMove (candidates.map some) (Cells dp.get?) mask value actions := by
  simp only [rankEntries, List.mem_flatMap, List.mem_filterMap, Extends, Cells]
  constructor
  · rintro ⟨⟨used, before, taken⟩, hentry, candidate, hcandidate, heq⟩
    simp only at heq
    split at heq
    · cases heq
    · next hfree =>
      simp only [Option.some.injEq, Prod.mk.injEq] at heq
      obtain ⟨rfl, rfl, rfl⟩ := heq
      exact ⟨used, before, taken, (Dict.get?_eq_some dp).mpr hentry, some candidate,
        List.mem_map_of_mem hcandidate, if_neg hfree, rfl, rfl⟩
  · rintro ⟨used, before, taken, hget, pick, hpick, htarget, rfl, rfl⟩
    obtain ⟨candidate, hcandidate, rfl⟩ := List.mem_map.mp hpick
    refine ⟨(used, before, taken), (Dict.get?_eq_some dp).mp hget, candidate, hcandidate, ?_⟩
    simp only [rankMove] at htarget ⊢
    split at htarget
    · cases htarget
    · next hfree =>
      obtain rfl := Option.some.inj htarget
      rw [if_neg hfree]

theorem nextTable_optimal (dp : RankTable) (candidates : List ActionCandidate) :
    Optimal (nextTable dp candidates).get?
      (Extends rankMove (optionsOf candidates) (Cells dp.get?)) := by
  rw [nextTable, get?_sweep]
  refine ((Optimal.cells dp.get?).sweep (rankEntries dp candidates)).congr
    fun mask value actions => ?_
  rw [mem_rankEntries]
  constructor
  · rintro (hcell | ⟨used, before, taken, hget, pick, hpick, hmove⟩)
    · exact ⟨mask, value, actions, hcell, none, List.mem_cons_self .., rfl, (add_zero _).symm, rfl⟩
    · exact ⟨used, before, taken, hget, pick, List.mem_cons_of_mem _ hpick, hmove⟩
  · rintro ⟨used, before, taken, hget, pick, hpick, htarget, hvalue, hactions⟩
    rcases List.mem_cons.mp hpick with rfl | hpick
    · obtain rfl : used = mask := Option.some.inj htarget
      refine .inl ?_
      rw [hvalue, hactions]
      simpa [Cells, rankMove] using hget
    · exact .inr ⟨used, before, taken, hget, pick, hpick, htarget, hvalue, hactions⟩

def finalTable (candidatesByRequest : List (String × List ActionCandidate)) : RankTable :=
  candidatesByRequest.foldl (fun dp entry => nextTable dp entry.2) ((∅ : RankTable).set 0 (0, []))

theorem finalTable_optimal (candidatesByRequest : List (String × List ActionCandidate)) :
    Optimal (finalTable candidatesByRequest).get? fun mask value actions =>
      ∃ picks, Chosen rankMove 0 0 []
        (candidatesByRequest.map fun entry => optionsOf entry.2) picks mask value actions := by
  have hfirst : Optimal ((∅ : RankTable).set 0 (0, [])).get? fun mask value actions =>
      mask = 0 ∧ value = 0 ∧ actions = [] := by
    refine ⟨fun {mask value actions} hget => ?_, ?_⟩
    · rw [Dict.get?_set] at hget
      split at hget
      · next heq =>
        obtain ⟨rfl, rfl⟩ := Prod.mk.inj (Option.some.inj hget)
        exact ⟨heq.symm, rfl, rfl⟩
      · cases hget
    · rintro mask value actions ⟨rfl, rfl, rfl⟩
      exact ⟨0, [], Dict.get?_set_self .., le_rfl⟩
  have hstage : ∀ dp, ∀ opts ∈ candidatesByRequest.map fun entry => optionsOf entry.2, True →
      True ∧ Optimal (nextTable dp opts.reduceOption).get?
        (Extends rankMove opts (Cells dp.get?)) := by
    rintro dp opts hopts -
    obtain ⟨entry, -, rfl⟩ := List.mem_map.mp hopts
    rw [reduceOption_optionsOf]
    exact ⟨trivial, nextTable_optimal dp entry.2⟩
  have htable : finalTable candidatesByRequest =
      (candidatesByRequest.map fun entry => optionsOf entry.2).foldl
        (fun dp opts => nextTable dp opts.reduceOption) ((∅ : RankTable).set 0 (0, [])) := by
    rw [finalTable, List.foldl_map]
    simp only [reduceOption_optionsOf]
  rw [htable]
  exact (optimal_foldl Dict.get? _ (fun _ => True) _ trivial hfirst hstage).2

-- ---------------------------------------------------------------------------
-- The answer
-- ---------------------------------------------------------------------------

theorem bestEntry_spec {values : List (ℚ × List ActionCandidate)} (h : values ≠ []) :
    bestEntry values ∈ values ∧ ∀ item ∈ values, item.1 ≤ (bestEntry values).1 := by
  obtain ⟨first, rest, rfl⟩ := List.exists_cons_of_ne_nil h
  have hfold : ∀ best : ℚ × List ActionCandidate,
      let last := rest.foldl (fun best item =>
        if (toLex (best.1, best.2.length) : ℚ ×ₗ Nat) < toLex (item.1, item.2.length) then item
        else best) best
      last ∈ best :: rest ∧ ∀ item ∈ best :: rest, item.1 ≤ last.1 := by
    clear h
    induction rest with
    | nil => simp
    | cons item rest ih =>
      intro best
      rw [List.foldl_cons]
      by_cases hlt : (toLex (best.1, best.2.length) : ℚ ×ₗ Nat) < toLex (item.1, item.2.length)
      · rw [if_pos hlt]
        obtain ⟨hmem, hall⟩ := ih item
        have hle : best.1 ≤ item.1 := (Prod.Lex.toLex_lt_toLex.mp hlt).elim le_of_lt fun h => h.1.le
        refine ⟨List.mem_cons_of_mem _ hmem, fun other hother => ?_⟩
        rcases List.mem_cons.mp hother with rfl | hother
        · exact hle.trans (hall item (List.mem_cons_self ..))
        · exact hall other hother
      · rw [if_neg hlt]
        obtain ⟨hmem, hall⟩ := ih best
        have hle : item.1 ≤ best.1 := by
          rw [Prod.Lex.toLex_lt_toLex, not_or] at hlt
          exact not_lt.mp hlt.1
        refine ⟨?_, fun other hother => ?_⟩
        · rcases List.mem_cons.mp hmem with heq | hmem
          · rw [heq]
            exact List.mem_cons_self ..
          · exact List.mem_cons_of_mem _ (List.mem_cons_of_mem _ hmem)
        · have hbest := hall best (List.mem_cons_self ..)
          rcases List.mem_cons.mp hother with rfl | hother
          · exact hbest
          · rcases List.mem_cons.mp hother with rfl | hother
            · exact hle.trans hbest
            · exact hall other (List.mem_cons_of_mem _ hother)
  exact hfold first

theorem choice_nil (candidatesByRequest : List (String × List ActionCandidate)) :
    Choice candidatesByRequest [] := by
  refine ⟨candidatesByRequest.map fun _ => none, ?_, by simp [List.reduceOption]⟩
  rw [List.forall₂_map_right_iff]
  exact List.forall₂_same.mpr fun _ _ => List.mem_cons_self ..

/-- At most one candidate for each request, no rank twice, and worth at least
as much as any such choice; the empty one is worth nothing. -/
theorem solveRankDp_best (candidatesByRequest : List (String × List ActionCandidate)) :
    Choice candidatesByRequest (solveRankDp candidatesByRequest) ∧
      RankDisjoint (solveRankDp candidatesByRequest) ∧
      ∀ other, Choice candidatesByRequest other → RankDisjoint other →
        totalScore other ≤ totalScore (solveRankDp candidatesByRequest) := by
  have hopt := finalTable_optimal candidatesByRequest
  have hsolve : solveRankDp candidatesByRequest =
      if 0 < (bestEntry (finalTable candidatesByRequest).values).1 then
        (bestEntry (finalTable candidatesByRequest).values).2 else [] := rfl
  have hforall : ∀ picks, List.Forall₂ (fun entry pick => pick ∈ optionsOf entry.2)
        candidatesByRequest picks ↔
      List.Forall₂ (fun opts pick => pick ∈ opts)
        (candidatesByRequest.map fun entry => optionsOf entry.2) picks := fun picks => by
    rw [List.forall₂_map_left_iff]
  -- Any choice is worth at most what some cell holds.
  have hcell : ∀ other, Choice candidatesByRequest other → RankDisjoint other →
      ∃ item ∈ (finalTable candidatesByRequest).values, totalScore other ≤ item.1 := by
    rintro other ⟨picks, hpicks, rfl⟩ hdisjoint
    obtain ⟨mask, value, actions, hchosen⟩ := exists_cell ((hforall picks).mp hpicks) hdisjoint
    obtain ⟨rfl, rfl, -⟩ := chosen_spec hchosen
    obtain ⟨best, taken, hget, hle⟩ := hopt.best ⟨_, hchosen⟩
    exact ⟨_, Dict.mem_values_of_get? hget, hle⟩
  obtain ⟨item, hitem, -⟩ := hcell [] (choice_nil _) .nil
  obtain ⟨hmem, hall⟩ := bestEntry_spec (List.ne_nil_of_mem hitem)
  obtain ⟨mask, hget⟩ := Dict.exists_get?_of_mem_values hmem
  generalize bestEntry (finalTable candidatesByRequest).values = best at *
  obtain ⟨value, actions⟩ := best
  obtain ⟨picks, hchosen⟩ := hopt.sound hget
  obtain ⟨rfl, rfl, hdisjoint, -⟩ := chosen_spec hchosen
  have hbound : ∀ other, Choice candidatesByRequest other → RankDisjoint other →
      totalScore other ≤ totalScore picks.reduceOption := fun other hother hother' => by
    obtain ⟨item, hitem, hle⟩ := hcell other hother hother'
    exact hle.trans (hall item hitem)
  rw [hsolve]
  split
  · exact ⟨⟨picks, (hforall picks).mpr hchosen.forall₂, rfl⟩, hdisjoint, hbound⟩
  · next hnone =>
    refine ⟨choice_nil _, .nil, fun other hother hother' => ?_⟩
    exact (hbound other hother hother').trans (not_lt.mp hnone)

theorem totalScore_pos {candidatesByRequest : List (String × List ActionCandidate)}
    (h : solveRankDp candidatesByRequest ≠ []) :
    0 < totalScore (solveRankDp candidatesByRequest) := by
  have hsolve : solveRankDp candidatesByRequest =
      if 0 < (bestEntry (finalTable candidatesByRequest).values).1 then
        (bestEntry (finalTable candidatesByRequest).values).2 else [] := rfl
  rw [hsolve] at h ⊢
  split at h
  · next hpos =>
    rw [if_pos hpos]
    have hne : (finalTable candidatesByRequest).values ≠ [] := fun hnil => by
      simp [hnil, bestEntry] at hpos
    obtain ⟨mask, hget⟩ := Dict.exists_get?_of_mem_values (bestEntry_spec hne).1
    generalize bestEntry (finalTable candidatesByRequest).values = best at *
    obtain ⟨picks, hchosen⟩ := (finalTable_optimal candidatesByRequest).sound hget
    rw [← (chosen_spec hchosen).2.1]
    exact hpos
  · exact absurd rfl h

theorem totalScore_nonpos {actions : List ActionCandidate}
    (h : ∀ action ∈ actions, action.score ≤ 0) : totalScore actions ≤ 0 := by
  induction actions with
  | nil => exact le_rfl
  | cons action rest ih =>
    have hfirst := h action (List.mem_cons_self ..)
    have hrest := ih fun other hmem => h other (List.mem_cons_of_mem _ hmem)
    simpa [totalScore] using add_nonpos hfirst hrest

theorem choice_singleton {candidatesByRequest : List (String × List ActionCandidate)}
    {entry : String × List ActionCandidate} {candidate : ActionCandidate}
    (hentry : entry ∈ candidatesByRequest) (hcandidate : candidate ∈ entry.2) :
    Choice candidatesByRequest [candidate] := by
  induction candidatesByRequest with
  | nil => cases hentry
  | cons first rest ih =>
    rcases List.mem_cons.mp hentry with rfl | hentry
    · obtain ⟨picks, hpicks, hnil⟩ := choice_nil rest
      exact ⟨some candidate :: picks,
        .cons (List.mem_cons_of_mem _ (List.mem_map_of_mem hcandidate)) hpicks, by
          rw [List.reduceOption_cons_of_some, ← hnil]⟩
    · obtain ⟨picks, hpicks, heq⟩ := ih hentry
      exact ⟨none :: picks, .cons (List.mem_cons_self ..) hpicks, by
        rw [List.reduceOption_cons_of_none, ← heq]⟩

theorem mem_of_choice {candidatesByRequest : List (String × List ActionCandidate)}
    {actions : List ActionCandidate} (h : Choice candidatesByRequest actions)
    {candidate : ActionCandidate} (hmem : candidate ∈ actions) :
    ∃ entry ∈ candidatesByRequest, candidate ∈ entry.2 := by
  obtain ⟨picks, hpicks, rfl⟩ := h
  rw [List.reduceOption_mem_iff] at hmem
  obtain ⟨entry, hentry, hoption⟩ := forall₂_mem_right hpicks hmem
  rcases List.mem_cons.mp hoption with hnone | hoption
  · cases hnone
  · obtain ⟨other, hother, heq⟩ := List.mem_map.mp hoption
    cases heq
    exact ⟨entry, hentry, hother⟩

/-- Something is chosen when some candidate is worth something. -/
theorem solveRankDp_ne_nil {candidatesByRequest : List (String × List ActionCandidate)} :
    solveRankDp candidatesByRequest ≠ [] ↔
      ∃ entry ∈ candidatesByRequest, ∃ candidate ∈ entry.2, 0 < candidate.score := by
  obtain ⟨hchoice, -, hbest⟩ := solveRankDp_best candidatesByRequest
  constructor
  · intro hne
    by_contra hnone
    push Not at hnone
    refine absurd (totalScore_pos hne) (not_lt.mpr (totalScore_nonpos fun candidate hmem => ?_))
    obtain ⟨entry, hentry, hcandidate⟩ := mem_of_choice hchoice hmem
    exact hnone entry hentry candidate hcandidate
  · rintro ⟨entry, hentry, candidate, hcandidate, hpos⟩ hnil
    have hle := hbest [candidate] (choice_singleton hentry hcandidate)
      (List.pairwise_singleton ..)
    rw [hnil] at hle
    simp [totalScore] at hle
    exact absurd hpos (not_lt.mpr hle)

-- ---------------------------------------------------------------------------
-- What is offered
-- ---------------------------------------------------------------------------

section Take

variable {settings : Settings} {state state' : State}

/-- Candidates of a request with nothing in flight: all for the head of its
queue, on ranks that are free. -/
def Offers (state : State) (entry : String × List ActionCandidate) : Prop :=
  Counter.count state.requestInflight entry.1 = 0 ∧
    ∀ candidate ∈ entry.2, candidate.requestId = entry.1 ∧
      (state.readyByRequest.getD entry.1 []).head? = some candidate.task ∧
      candidate.rankMask = rankMask candidate.claimedRanks ∧
      state.accounts.canDispatchRanks candidate.claimedRanks = true

theorem candidateOn_spec {info : RequestMeta} {requestId : String} {task : InferenceTask}
    {source : Option ExecutionGroupSpec} {group : ExecutionGroupSpec} {candidate : ActionCandidate}
    (h : candidateOn settings state info requestId task source group = some candidate) :
    candidate.requestId = requestId ∧ candidate.task = task ∧
      candidate.rankMask = rankMask candidate.claimedRanks ∧
      state.accounts.canDispatchRanks candidate.claimedRanks = true := by
  simp only [candidateOn] at h
  split at h
  · cases h
  · split at h
    · cases h
    · next hfree =>
      obtain rfl := Option.some.inj h
      exact ⟨rfl, rfl, rfl, by simpa using hfree⟩

theorem candidateActions_spec {requestId : String} {task : InferenceTask}
    {candidates : List ActionCandidate}
    (h : candidateActions settings state requestId task = .ok candidates) :
    ∀ candidate ∈ candidates, candidate.requestId = requestId ∧ candidate.task = task ∧
      candidate.rankMask = rankMask candidate.claimedRanks ∧
      state.accounts.canDispatchRanks candidate.claimedRanks = true := by
  obtain ⟨info, -, h⟩ := Except.bind_eq_ok.mp h
  obtain ⟨groups, -, h⟩ := Except.bind_eq_ok.mp h
  obtain rfl := Except.pure_eq_ok.mp h
  intro candidate hmem
  rw [List.mem_mergeSort, List.mem_filterMap] at hmem
  obtain ⟨group, -, hcandidate⟩ := hmem
  exact candidateOn_spec hcandidate

theorem shouldPause_spec {requestId : String} {task : InferenceTask} {paused : Bool}
    (h : shouldPause settings state requestId task = .ok (paused, state')) :
    ∃ since, state' = { state with pausedSinceMs := since } := by
  obtain ⟨info, -, h⟩ := Except.bind_eq_ok.mp h
  split at h
  · cases Except.pure_eq_ok.mp h
    exact ⟨_, rfl⟩
  · cases Except.pure_eq_ok.mp h
    exact ⟨state.pausedSinceMs, rfl⟩

/-- Collecting only notes pauses. -/
theorem collect_spec {ids : List String} {out : List (String × List ActionCandidate)}
    (h : collect settings state ids = .ok (out, state')) :
    (∃ since, state' = { state with pausedSinceMs := since }) ∧
      (out.map Prod.fst).Sublist ids ∧ ∀ entry ∈ out, Offers state entry := by
  induction ids generalizing state out state' with
  | nil =>
    cases Except.pure_eq_ok.mp h
    exact ⟨⟨_, rfl⟩, .slnil, by simp⟩
  | cons requestId rest ih =>
    have hskip : ∀ {out state'}, collect settings state rest = .ok (out, state') →
        (∃ since, state' = { state with pausedSinceMs := since }) ∧
          (out.map Prod.fst).Sublist (requestId :: rest) ∧ ∀ entry ∈ out, Offers state entry :=
      fun h => by
        obtain ⟨hstate, hsub, hoffers⟩ := ih h
        exact ⟨hstate, hsub.cons _, hoffers⟩
    unfold collect at h
    split at h
    · exact hskip h
    · next hidle =>
      split at h
      · exact hskip h
      · next task later hqueue =>
        obtain ⟨⟨paused, mid⟩, hpause, h⟩ := Except.bind_eq_ok.mp h
        obtain ⟨since, rfl⟩ := shouldPause_spec hpause
        cases paused with
        | true =>
          obtain ⟨⟨since', rfl⟩, hsub, hoffers⟩ := ih h
          exact ⟨⟨since', rfl⟩, hsub.cons _, hoffers⟩
        | false =>
          simp only [Bool.false_eq_true, if_false] at h
          obtain ⟨candidates, hcandidates, h⟩ := Except.bind_eq_ok.mp h
          obtain ⟨⟨later, last⟩, hlater, h⟩ := Except.bind_eq_ok.mp h
          obtain ⟨⟨since', rfl⟩, hsub, hoffers⟩ := ih hlater
          simp only at h
          split at h
          · cases Except.pure_eq_ok.mp h
            exact ⟨⟨since', rfl⟩, hsub.cons _, hoffers⟩
          · cases Except.pure_eq_ok.mp h
            refine ⟨⟨since', rfl⟩, hsub.cons_cons _, fun entry hentry => ?_⟩
            rcases List.mem_cons.mp hentry with rfl | hentry
            · refine ⟨Nat.eq_zero_of_not_pos hidle, fun candidate hmem => ?_⟩
              obtain ⟨hid, htask, hmask, hfree⟩ :=
                candidateActions_spec hcandidates candidate (List.mem_of_mem_take hmem)
              exact ⟨hid, by simp [hqueue, htask], hmask, hfree⟩
            · exact hoffers entry hentry

theorem readyRequestIds_nodup {ids : List String} (h : readyRequestIds state = .ok ids) :
    ids.Nodup := by
  obtain ⟨keyed, hkeyed, h⟩ := Except.bind_eq_ok.mp h
  obtain rfl := Except.pure_eq_ok.mp h
  have hids : keyed.map (·.2) =
      (state.readyByRequest.entries.filter fun entry => entry.2 ≠ []).map (·.1) := by
    refine List.forall₂_eq_eq_eq ▸ List.forall₂_map_left_iff.mpr ?_
    refine (Except.forall₂_of_mapM hkeyed).flip.imp fun pair requestId hpair => ?_
    obtain ⟨key, -, hpair⟩ := Except.bind_eq_ok.mp hpair
    cases Except.pure_eq_ok.mp hpair
    rfl
  rw [((List.mergeSort_perm ..).map _).nodup_iff, hids]
  exact state.readyByRequest.keys_nodup.sublist (List.filter_sublist.map _)

-- ---------------------------------------------------------------------------
-- What is dispatched
-- ---------------------------------------------------------------------------

theorem choice_offered {entries : List (String × List ActionCandidate)}
    {selected : List ActionCandidate} (h : Choice entries selected)
    (hoffers : ∀ entry ∈ entries, Offers state entry) :
    (selected.map (·.requestId)).Sublist (entries.map Prod.fst) ∧
      ∀ candidate ∈ selected, ∃ entry ∈ entries, candidate ∈ entry.2 := by
  obtain ⟨picks, hpicks, rfl⟩ := h
  induction hpicks with
  | nil => exact ⟨.slnil, by simp [List.reduceOption]⟩
  | @cons entry pick entries picks hpick _ ih =>
    obtain ⟨hsub, hmem⟩ := ih fun other hother => hoffers other (List.mem_cons_of_mem _ hother)
    have hlater : ∀ candidate ∈ picks.reduceOption, ∃ other ∈ entry :: entries,
        candidate ∈ other.2 := fun candidate hcandidate => by
      obtain ⟨other, hother, hin⟩ := hmem candidate hcandidate
      exact ⟨other, List.mem_cons_of_mem _ hother, hin⟩
    rcases List.mem_cons.mp hpick with rfl | hpick
    · exact ⟨hsub.cons _, hlater⟩
    · obtain ⟨candidate, hcandidate, rfl⟩ := List.mem_map.mp hpick
      have hid := ((hoffers entry (List.mem_cons_self ..)).2 candidate hcandidate).1
      rw [List.reduceOption_cons_of_some, List.map_cons, List.map_cons, hid]
      refine ⟨hsub.cons_cons _, fun other hother => ?_⟩
      rcases List.mem_cons.mp hother with rfl | hother
      · exact ⟨entry, List.mem_cons_self .., hcandidate⟩
      · exact hlater other hother

theorem getD_popReady_ne {requestId other : String} (rest : List InferenceTask)
    (h : requestId ≠ other) : (popReady state requestId rest).readyByRequest.getD other [] =
      state.readyByRequest.getD other [] := by
  unfold popReady
  simp only
  split
  · rw [Dict.getD_erase, if_neg h]
  · rw [Dict.getD_set, if_neg h]

theorem dispatchSelected_eq {selected : List ActionCandidate}
    (hdistinct : (selected.map (·.requestId)).Nodup)
    (hheads : ∀ candidate ∈ selected,
      (state.readyByRequest.getD candidate.requestId []).head? = some candidate.task) :
    (dispatchSelected state selected).1 =
        selected.map (fun candidate => ⟨candidate.task, candidate.groupId⟩) ∧
      (dispatchSelected state selected).2.accounts = selected.foldl (fun accounts candidate =>
        accounts.dispatch candidate.task candidate.groupId candidate.claimedRanks)
          state.accounts := by
  induction selected generalizing state with
  | nil => exact ⟨rfl, rfl⟩
  | cons candidate selected ih =>
    obtain ⟨hfresh, hdistinct⟩ := List.nodup_cons.mp hdistinct
    obtain ⟨rest, hqueue⟩ := List.head?_eq_some_iff.mp (hheads candidate (List.mem_cons_self ..))
    have hlater := @ih (dispatchCandidate { popReady state candidate.requestId rest with
        pausedSinceMs := (popReady state candidate.requestId rest).pausedSinceMs.erase
          candidate.requestId } candidate) hdistinct fun other hother => by
      have hne : candidate.requestId ≠ other.requestId := fun heq =>
        hfresh (List.mem_map.mpr ⟨other, hother, heq.symm⟩)
      exact (congrArg List.head? (getD_popReady_ne rest hne)).trans
        (hheads other (List.mem_cons_of_mem _ hother))
    simp only [dispatchSelected, hqueue, ne_eq, not_true_eq_false, if_false]
    exact ⟨congrArg _ hlater.1, hlater.2⟩

structure Taken (state : State) (selected : List ActionCandidate) (out : List Dispatch)
    (state' : State) : Prop where
  dispatched : out = selected.map fun candidate => ⟨candidate.task, candidate.groupId⟩
  distinct : (selected.map (·.requestId)).Nodup
  heads : ∀ candidate ∈ selected,
    (state.readyByRequest.getD candidate.requestId []).head? = some candidate.task
  idle : ∀ candidate ∈ selected, Counter.count state.requestInflight candidate.requestId = 0
  free : ∀ candidate ∈ selected, ∀ rank ∈ candidate.claimedRanks,
    Counter.count state.accounts.outstandingPerRank rank = 0 ∧
      Counter.count state.accounts.reshardHoldsByRank rank = 0
  disjoint : selected.Pairwise fun a b => ∀ rank ∈ a.claimedRanks, rank ∉ b.claimedRanks
  claimed : state'.accounts = selected.foldl (fun accounts candidate =>
    accounts.dispatch candidate.task candidate.groupId candidate.claimedRanks) state.accounts

theorem taken_of_ok {out : List Dispatch}
    (h : takeDispatchableTasks settings state = .ok (out, state')) :
    ∃ entries, (∀ entry ∈ entries, Offers state entry) ∧
      Taken state (solveRankDp entries) out state' := by
  obtain ⟨ids, hids, h⟩ := Except.bind_eq_ok.mp h
  obtain ⟨⟨entries, mid⟩, hcollect, h⟩ := Except.bind_eq_ok.mp h
  obtain ⟨⟨since, rfl⟩, hsub, hoffers⟩ := collect_spec hcollect
  have hout := Except.pure_eq_ok.mp h
  obtain ⟨hchoice, hdisjoint, -⟩ := solveRankDp_best entries
  obtain ⟨hsub', hmem⟩ := choice_offered hchoice hoffers
  have hdistinct := (readyRequestIds_nodup hids).sublist (hsub'.trans hsub)
  have hoffer : ∀ candidate ∈ solveRankDp entries,
      Counter.count state.requestInflight candidate.requestId = 0 ∧
        (state.readyByRequest.getD candidate.requestId []).head? = some candidate.task ∧
        candidate.rankMask = rankMask candidate.claimedRanks ∧
        state.accounts.canDispatchRanks candidate.claimedRanks = true := by
    intro candidate hcandidate
    obtain ⟨entry, hentry, hin⟩ := hmem candidate hcandidate
    obtain ⟨hidle, hall⟩ := hoffers entry hentry
    obtain ⟨hid, hrest⟩ := hall candidate hin
    rw [hid]
    exact ⟨hidle, hrest⟩
  have hdispatch := @dispatchSelected_eq { state with pausedSinceMs := since }
    (solveRankDp entries) hdistinct fun candidate hcandidate => (hoffer candidate hcandidate).2.1
  rw [hout] at hdispatch
  refine ⟨entries, hoffers, hdispatch.1, hdistinct, fun c hc => (hoffer c hc).2.1,
    fun c hc => (hoffer c hc).1, ?_, ?_, hdispatch.2⟩
  · intro candidate hcandidate rank hrank
    have hfree := List.all_eq_true.mp (hoffer candidate hcandidate).2.2.2 rank hrank
    simpa using hfree
  · refine hdisjoint.imp_of_mem fun {a b} ha hb hmask => ?_
    rw [(hoffer a ha).2.2.1, (hoffer b hb).2.2.1] at hmask
    exact rankMask_and_eq_zero.mp hmask

end Take

-- ---------------------------------------------------------------------------
-- Every state
-- ---------------------------------------------------------------------------

/-- The states of a policy: what its handlers note, and what taking leaves. -/
inductive Reached (settings : Settings) : State → Prop
  | init : Reached settings .init
  | submitted {state : State} (plan : RequestExecutionPlan) :
    Reached settings state → Reached settings (submitted plan state)
  | enqueued {state : State} (task : InferenceTask) :
    Reached settings state → Reached settings (enqueueReady state task)
  | noted {state : State} (event : WorkerEvent) :
    Reached settings state → Reached settings (noteEvent event state)
  | taken {state state' : State} {out : List Dispatch} : Reached settings state →
    takeDispatchableTasks settings state = .ok (out, state') → Reached settings state'

def Filed (state : State) : Prop :=
  ∀ requestId, ∀ task ∈ state.readyByRequest.getD requestId [], task.requestId = requestId

theorem Filed.enqueueReady {state : State} (h : Filed state) (task : InferenceTask) :
    Filed (enqueueReady state task) := by
  intro requestId other hmem
  simp only [StepPreemptive.enqueueReady, Dict.getD_set] at hmem
  split at hmem
  · next heq =>
    rcases List.mem_append.mp hmem with hmem | hmem
    · exact heq ▸ h _ other hmem
    · rw [List.mem_singleton.mp hmem, heq]
  · exact h _ other hmem

theorem Filed.noteEvent {state : State} (h : Filed state) (event : WorkerEvent) :
    Filed (noteEvent event state) := by
  have hsame : ∀ state', state'.readyByRequest = state.readyByRequest → Filed state' :=
    fun state' heq requestId => by
      rw [heq]
      exact h requestId
  have hrelease : ∀ state : State,
      (releaseDispatchedTask event state).readyByRequest = state.readyByRequest := fun state => by
    unfold releaseDispatchedTask
    simp only
    split
    · rfl
    · split
      · split <;> rfl
      · rfl
  have hqueue : ∀ state : State, (updateVirtualQueue event.requestId state).readyByRequest =
      state.readyByRequest := fun state => by
    unfold updateVirtualQueue
    split
    · rfl
    · split <;> rfl
  have hnoted : ∀ state' : State, state'.readyByRequest = state.readyByRequest →
      Filed (dropRequest event.requestId (updateVirtualQueue event.requestId state')) := by
    intro state' heq requestId task hmem
    simp only [dropRequest, hqueue, heq, Dict.getD_erase] at hmem
    split at hmem
    · cases hmem
    · exact h _ task hmem
  unfold StepPreemptive.noteEvent
  simp only
  split
  · split
    · exact hnoted _ (hrelease _)
    · exact hnoted _ rfl
  · split
    · exact hsame _ (hrelease _)
    · exact hsame _ rfl

theorem Filed.dispatchSelected {state : State} (h : Filed state)
    (selected : List ActionCandidate) : Filed (dispatchSelected state selected).2 := by
  induction selected generalizing state with
  | nil => exact h
  | cons candidate selected ih =>
    unfold StepPreemptive.dispatchSelected
    split
    · exact ih h
    · next task rest hqueue =>
      split
      · exact ih h
      · refine ih fun requestId other hmem => ?_
        by_cases hid : candidate.requestId = requestId
        · subst hid
          refine h _ other ?_
          rw [hqueue]
          simp only [dispatchCandidate, popReady] at hmem
          split at hmem
          · simp [Dict.getD_erase] at hmem
          · exact List.mem_cons_of_mem _ (by simpa [Dict.getD_set] using hmem)
        · exact h _ other ((getD_popReady_ne rest hid) ▸ hmem)

theorem Reached.filed {settings : Settings} {state : State} (h : Reached settings state) :
    Filed state := by
  induction h with
  | init =>
    intro requestId task hmem
    cases hmem
  | submitted plan _ ih => exact ih
  | enqueued task _ ih => exact ih.enqueueReady task
  | noted event _ ih => exact ih.noteEvent event
  | @taken state _ _ _ htaken ih =>
    obtain ⟨ids, -, htaken⟩ := Except.bind_eq_ok.mp htaken
    obtain ⟨⟨entries, mid⟩, hcollect, htaken⟩ := Except.bind_eq_ok.mp htaken
    obtain ⟨⟨since, rfl⟩, -⟩ := collect_spec hcollect
    obtain rfl := congrArg Prod.snd (Except.pure_eq_ok.mp htaken)
    exact @Filed.dispatchSelected { state with pausedSinceMs := since } ih _

theorem rank_dp_safe (settings : Settings) :
    (∀ entries, Choice entries (solveRankDp entries) ∧ RankDisjoint (solveRankDp entries) ∧
      ∀ other, Choice entries other → RankDisjoint other →
        totalScore other ≤ totalScore (solveRankDp entries)) ∧
    ∀ state state' out, takeDispatchableTasks settings state = .ok (out, state') →
      ∃ selected, Taken state selected out state' ∧
        (Reached settings state →
          ∀ candidate ∈ selected, candidate.task.requestId = candidate.requestId) := by
  refine ⟨solveRankDp_best, fun state state' out h => ?_⟩
  obtain ⟨entries, -, htaken⟩ := taken_of_ok h
  refine ⟨_, htaken, fun hreached candidate hmem => hreached.filed _ candidate.task ?_⟩
  exact List.mem_of_mem_head? (htaken.heads candidate hmem)

theorem one_degree : (1 : Nat) = 1 * 1 := rfl

def soloGroup : ExecutionGroupSpec :=
  ⟨"g", [0], ⟨1, 1, 1, Nat.one_pos, Nat.one_pos, Nat.one_pos⟩,
    [.textEncode, .ditPrepare, .timestepPrepare, .ditStepChunk, .vaeDecode, .finalize, .reshard],
    1, 1, List.cons_ne_nil 0 [], one_degree⟩

def soloSettings : Settings where
  topology := ⟨[0], [soloGroup], List.nodup_singleton _, List.nodup_singleton _, by
    simp [soloGroup]⟩
  mode := .pause
  taskRuntimeEstimator := none
  payloadOf _ := ⟨1, "", 1, 1⟩
  reshardMs := 0
  topK := 6
  demoteMaxSp := 2
  maxPauseMs := 120000
  reshardMs_nonneg := le_rfl
  topK_pos := Nat.succ_pos 5

def soloTask : InferenceTask :=
  ⟨"t", "S_1", .ditStepChunk, none, .ready, 0, [], [], [], none, ∅⟩

def soloPlan : RequestExecutionPlan :=
  ⟨"S_1", (∅ : Dict String InferenceTask).set "t" soloTask, [],
    [⟨⟨"S_1", "request", none⟩, ⟨(∅ : Dict String PyValue).set "deadline_ms" (.int 0), none⟩⟩], ∅⟩

def soloState : State := enqueueReady (submitted soloPlan .init) soloTask

def soloCandidate : ActionCandidate :=
  ⟨soloTask, "S_1", "g", 180750 + 2000 / (1 + 1 / 1000), 1, [0], 1, 0⟩

theorem solo_ready : readyRequestIds soloState = .ok ["S_1"] := by
  obtain ⟨key, hkey⟩ : ∃ key, requestSortKey soloState "S_1" = .ok key := ⟨_, rfl⟩
  have hready : (soloState.readyByRequest.entries.filter fun entry => entry.2 ≠ []).map (·.1) =
      ["S_1"] := rfl
  rw [readyRequestIds, hready]
  simp [hkey, pure, Except.pure, bind, Except.bind]

theorem candidateActions_single (plan : RequestExecutionPlan) (task : InferenceTask)
    (candidate : ActionCandidate) (hmeta : metaOf state task.requestId = .ok (metaFromPlan plan))
    (hgroups : (candidateGroupIds soloSettings state (metaFromPlan plan) task.requestId
      task).mapM soloSettings.topology.getGroup = .ok [soloGroup])
    (hsource : sourceGroup soloSettings state task.requestId = none)
    (hcandidate : candidateOn soloSettings state (metaFromPlan plan) task.requestId task none
      soloGroup = some candidate) :
    candidateActions soloSettings state task.requestId task = .ok [candidate] := by
  simp [candidateActions, hmeta, hgroups, hsource, hcandidate, pure, Except.pure]

theorem solo_candidateActions :
    candidateActions soloSettings soloState "S_1" soloTask = .ok [soloCandidate] :=
  candidateActions_single soloPlan soloTask soloCandidate rfl (by decide +kernel) rfl
    (by decide +kernel)

theorem solo_take : takeDispatchableTasks soloSettings soloState =
    .ok ([⟨soloTask, "g"⟩], (dispatchSelected soloState [soloCandidate]).2) := by
  have hpause : shouldPause soloSettings soloState "S_1" soloTask = .ok (false, soloState) := rfl
  have hcollect : collect soloSettings soloState ["S_1"] =
      .ok ([("S_1", [soloCandidate])], soloState) := by
    have hqueue : soloState.readyByRequest.getD "S_1" [] = [soloTask] := rfl
    simp only [collect, hqueue, hpause, solo_candidateActions, Except.ok_bind]
    rfl
  have hsolve : solveRankDp [("S_1", [soloCandidate])] = [soloCandidate] := by decide +kernel
  rw [takeDispatchableTasks, solo_ready, Except.ok_bind, hcollect]
  simp only [Except.ok_bind, hsolve]
  rfl

def laterTask : InferenceTask :=
  ⟨"u", "S_2", .ditStepChunk, none, .ready, 0, [], [], [], none, ∅⟩

def laterPlan : RequestExecutionPlan :=
  ⟨"S_2", (∅ : Dict String InferenceTask).set "u" laterTask, [],
    [⟨⟨"S_2", "request", none⟩, ⟨(∅ : Dict String PyValue).set "deadline_ms" (.int 0), none⟩⟩], ∅⟩

def pairState : State := enqueueReady (submitted laterPlan soloState) laterTask

def laterCandidate : ActionCandidate :=
  { soloCandidate with task := laterTask, requestId := "S_2" }

theorem pair_ready : readyRequestIds pairState = .ok ["S_1", "S_2"] := by
  have hready : (pairState.readyByRequest.entries.filter fun entry => entry.2 ≠ []).map (·.1) =
      ["S_1", "S_2"] := rfl
  let key (order : Nat) (requestId : String) : RequestKey := toLex (-100, toLex
    ((metaFromPlan soloPlan).deadlineMs.getD ⊤, toLex (order, requestId)))
  have hfirst : requestSortKey pairState "S_1" = .ok (key 1 "S_1") := rfl
  have hlater : requestSortKey pairState "S_2" = .ok (key 2 "S_2") := rfl
  have hle : key 1 "S_1" ≤ key 2 "S_2" := by
    simp [key, Prod.Lex.toLex_le_toLex]
  have hsorted : [(key 1 "S_1", "S_1"), (key 2 "S_2", "S_2")].Pairwise
      fun a b => decide (a.1 ≤ b.1) = true := by
    simpa using hle
  rw [readyRequestIds, hready]
  simp only [List.mapM_cons, List.mapM_nil, hfirst, hlater, Except.ok_bind, pure_bind]
  rw [List.mergeSort_of_pairwise hsorted]
  rfl

theorem pair_take : takeDispatchableTasks soloSettings pairState =
    .ok ([⟨soloTask, "g"⟩], (dispatchSelected pairState [soloCandidate]).2) := by
  have hfirst : candidateActions soloSettings pairState "S_1" soloTask = .ok [soloCandidate] :=
    candidateActions_single soloPlan soloTask soloCandidate rfl (by decide +kernel) rfl
      (by decide +kernel)
  have hlater : candidateActions soloSettings pairState "S_2" laterTask = .ok [laterCandidate] :=
    candidateActions_single laterPlan laterTask laterCandidate rfl (by decide +kernel) rfl
      (by decide +kernel)
  have hpause : shouldPause soloSettings pairState "S_1" soloTask = .ok (false, pairState) := rfl
  have hpause' : shouldPause soloSettings pairState "S_2" laterTask = .ok (false, pairState) := rfl
  have hcollect : collect soloSettings pairState ["S_1", "S_2"] =
      .ok ([("S_1", [soloCandidate]), ("S_2", [laterCandidate])], pairState) := by
    have hqueue : pairState.readyByRequest.getD "S_1" [] = [soloTask] := rfl
    have hqueue' : pairState.readyByRequest.getD "S_2" [] = [laterTask] := rfl
    simp only [collect, hqueue, hqueue', hpause, hpause', hfirst, hlater, Except.ok_bind]
    rfl
  -- both candidates ask for rank 0
  have hsolve : solveRankDp [("S_1", [soloCandidate]), ("S_2", [laterCandidate])] =
      [soloCandidate] := by decide +kernel
  rw [takeDispatchableTasks, pair_ready, Except.ok_bind, hcollect]
  simp only [Except.ok_bind, hsolve]
  rfl

/-- Of two requests for one rank, one is taken. -/
theorem rank_dp_safe_pair : ∃ state' selected,
    Taken pairState selected [⟨soloTask, "g"⟩] state' := by
  obtain ⟨selected, htaken, -⟩ := (rank_dp_safe soloSettings).2 pairState _ _ pair_take
  exact ⟨_, selected, htaken⟩

end StepPreemptive

end GfDit
