import GfDit.Simulator.TetriShape
import Mathlib.Data.List.Sort
import Mathlib.Data.List.TakeWhile
import Mathlib.Tactic.FinCases
import Mathlib.Tactic.NormNum
import Mathlib.Tactic.Linarith

/-!
# The optimal shape is the one a search over all shapes finds

The staircase holds, of all enumerated shapes, those no other one dominates in
both total time and GPU time, and a budget is answered by its last step within
the budget. With whole per-step costs the tolerances of the comparisons decide
nothing.
-/

namespace GfDit

namespace Tetriserve

-- ---------------------------------------------------------------------------
-- The enumeration
-- ---------------------------------------------------------------------------

theorem mem_allocations {allowed : List (Fin 4)} (hne : allowed ≠ []) (hn : allowed.Nodup)
    {left : Nat} {cur shape : Shape} :
    shape ∈ allocations allowed left cur ↔
      (∀ i ∉ allowed, shape i = cur i) ∧ (allowed.map shape).sum = left := by
  induction allowed generalizing left cur with
  | nil => exact absurd rfl hne
  | cons i rest ih =>
    obtain ⟨hi, hn⟩ := List.nodup_cons.mp hn
    cases rest with
    | nil =>
      simp only [allocations, List.mem_singleton, List.map_cons, List.map_nil, List.sum_cons,
        List.sum_nil, Nat.add_zero]
      constructor
      · rintro rfl
        exact ⟨fun j hj => Function.update_of_ne hj .., Function.update_self ..⟩
      · rintro ⟨hother, rfl⟩
        funext j
        by_cases hj : j = i
        · rw [hj, Function.update_self]
        · rw [Function.update_of_ne hj, hother j hj]
    | cons next rest =>
      simp only [allocations, List.mem_flatMap, List.mem_range]
      have ih := fun {left cur} => @ih (List.cons_ne_nil next rest) hn left cur
      constructor
      · rintro ⟨value, hvalue, hmem⟩
        obtain ⟨hother, hsum⟩ := ih.mp hmem
        have hshape : shape i = value := by rw [hother i hi, Function.update_self]
        refine ⟨fun j hj => ?_, ?_⟩
        · obtain ⟨hji, hj⟩ := not_or.mp (mt List.mem_cons.mpr hj)
          rw [hother j hj, Function.update_of_ne hji]
        · rw [List.map_cons, List.sum_cons, hsum, hshape]
          omega
      · rintro ⟨hother, hsum⟩
        rw [List.map_cons, List.sum_cons] at hsum
        refine ⟨shape i, by omega, ih.mpr ⟨fun j hj => ?_, by omega⟩⟩
        by_cases hji : j = i
        · rw [hji, Function.update_self]
        · rw [Function.update_of_ne hji]
          exact hother j (mt List.mem_cons.mp (not_or.mpr ⟨hji, hj⟩))

theorem sum_filter {α : Type*} [AddCommMonoid α] (p : Fin 4 → Bool) (f : Fin 4 → α)
    (h : ∀ i, p i = false → f i = 0) :
    (((List.finRange 4).filter p).map f).sum = ∑ i, f i := by
  rw [Fin.sum_univ_def]
  induction List.finRange 4 with
  | nil => rfl
  | cons i rest ih =>
    cases hp : p i with
    | true => rw [List.filter_cons_of_pos hp, List.map_cons, List.sum_cons, ih, List.map_cons,
        List.sum_cons]
    | false => rw [List.filter_cons_of_neg (by simp [hp]), ih, List.map_cons, List.sum_cons, h i hp,
        zero_add]

section Cost

variable (cost : Fin 4 → ℚ)

def timeOf (shape : Shape) : ℚ := ∑ i, shape i * cost i

def gpuTimeOf (shape : Shape) : ℚ := ∑ i, shape i * cost i * gpuCount i

end Cost

/-- All the steps are spread over configs that fit the free GPUs. -/
structure Allocates (world steps : Nat) (shape : Shape) : Prop where
  fits : ∀ i, shape i ≠ 0 → gpuCount i ≤ world
  total : ∑ i, shape i = steps

variable {cost : Fin 4 → ℚ} {world steps : Nat}

def offered (cost : Fin 4 → ℚ) (world : Nat) (i : Fin 4) : ℚ :=
  if gpuCount i ≤ world then if 0 < cost i then cost i else -1 else -1

theorem offered_pos (hcost : ∀ i, 0 < cost i) (i : Fin 4) :
    0 < offered cost world i ↔ gpuCount i ≤ world := by
  unfold offered
  by_cases h : gpuCount i ≤ world <;> simp [h, hcost i]

theorem offered_eq (hcost : ∀ i, 0 < cost i) {i : Fin 4} (h : gpuCount i ≤ world) :
    offered cost world i = cost i := by
  rw [offered, if_pos h, if_pos (hcost i)]

theorem mem_allowed (hcost : ∀ i, 0 < cost i) (i : Fin 4) :
    i ∈ allowedConfigs (offered cost world) ↔ gpuCount i ≤ world := by
  simp [allowedConfigs, offered_pos hcost]

theorem allowed_ne_nil (hcost : ∀ i, 0 < cost i) (hworld : 0 < world) :
    allowedConfigs (offered cost world) ≠ [] :=
  List.ne_nil_of_mem ((mem_allowed hcost 0).mpr hworld)

theorem allocates_iff (hcost : ∀ i, 0 < cost i) (hworld : 0 < world) (shape : Shape) :
    shape ∈ allocations (allowedConfigs (offered cost world)) steps (fun _ => 0) ↔
      Allocates world steps shape := by
  have hnodup : (allowedConfigs (offered cost world)).Nodup := (List.nodup_finRange 4).filter _
  rw [mem_allocations (allowed_ne_nil hcost hworld) hnodup]
  have hsum : (∀ i ∉ allowedConfigs (offered cost world), shape i = 0) →
      ((allowedConfigs (offered cost world)).map shape).sum = ∑ i, shape i := by
    intro hother
    refine sum_filter _ _ fun i hi => hother i ?_
    simpa [allowedConfigs] using hi
  constructor
  · rintro ⟨hother, htotal⟩
    refine ⟨fun i hi => ?_, by rw [← hsum hother, htotal]⟩
    by_contra hfit
    exact hi (hother i fun hmem => hfit ((mem_allowed hcost i).mp hmem))
  · rintro ⟨hfits, htotal⟩
    have hother : ∀ i ∉ allowedConfigs (offered cost world), shape i = 0 := by
      intro i hi
      by_contra hne
      exact hi ((mem_allowed hcost i).mpr (hfits i hne))
    exact ⟨hother, by rw [hsum hother, htotal]⟩

theorem enumerated_sums (hcost : ∀ i, 0 < cost i) {shape : Shape}
    (h : Allocates world steps shape) :
    enumerated (offered cost world) (allowedConfigs (offered cost world)) shape =
      ⟨timeOf cost shape, gpuTimeOf cost shape, shape⟩ := by
  have hterm : ∀ i, (shape i : ℚ) * offered cost world i = shape i * cost i := by
    intro i
    by_cases hi : shape i = 0
    · simp [hi]
    · rw [offered_eq hcost (h.fits i hi)]
  have hzero : ∀ i, decide (0 < offered cost world i) = false → shape i = 0 := by
    intro i hi
    by_contra hne
    simp [(offered_pos hcost i).mpr (h.fits i hne)] at hi
  simp only [enumerated, hterm, Enumerated.mk.injEq, and_true]
  constructor
  · exact sum_filter _ _ fun i hi => by simp [hzero i hi]
  · exact sum_filter _ _ fun i hi => by simp [hzero i hi]

-- ---------------------------------------------------------------------------
-- The staircase
-- ---------------------------------------------------------------------------

/-- Whole numbers, so that a difference is nothing or at least one. -/
structure Whole (cand : Enumerated) : Prop where
  total : ∃ n : ℤ, cand.total = n
  gpuHours : ∃ n : ℤ, cand.gpuHours = n

theorem lt_sub_of_whole {a b : ℚ} (ha : ∃ n : ℤ, a = n) (hb : ∃ n : ℤ, b = n) :
    a < b - 1 / 10 ^ 9 ↔ a < b := by
  obtain ⟨m, rfl⟩ := ha
  obtain ⟨n, rfl⟩ := hb
  constructor
  · intro h
    linarith [show (0 : ℚ) < 1 / 10 ^ 9 by norm_num]
  · intro h
    have hmn : m + 1 ≤ n := by exact_mod_cast h
    have hmn' : (m : ℚ) + 1 ≤ n := by exact_mod_cast hmn
    linarith [show (1 : ℚ) / 10 ^ 9 < 1 by norm_num]

/-- The kept shapes of those seen so far: ever slower, ever cheaper, and
nothing seen is better in both. -/
structure Staircase (seen : List Enumerated) (stairs : Stairs) (kept : List Enumerated) :
    Prop where
  times : stairs.times = kept.map (·.total)
  shapes : stairs.shapes = kept.map (·.shape)
  best : stairs.best = kept.getLast?.map (·.gpuHours)
  subset : ∀ s ∈ kept, s ∈ seen
  steps : kept.Pairwise fun a b => a.total < b.total ∧ b.gpuHours < a.gpuHours
  dominated : ∀ c ∈ seen, ∃ s ∈ kept, s.total ≤ c.total ∧ s.gpuHours ≤ c.gpuHours

theorem Staircase.step {seen kept : List Enumerated} {stairs : Stairs} {cand : Enumerated}
    (h : Staircase seen stairs kept) (hwhole : ∀ c ∈ seen, Whole c) (hcand : Whole cand)
    (hsorted : ∀ c ∈ seen, cheaperFirst c cand) :
    ∃ kept', Staircase (seen ++ [cand]) (stairs.step cand) kept' := by
  rcases List.eq_nil_or_concat kept with rfl | ⟨init, last, rfl⟩
  · -- The first shape is always kept.
    have hbest : stairs.best = none := by simpa using h.best
    have hempty : ∀ c ∈ seen, False := fun c hc => by simpa using h.dominated c hc
    have htimes : stairs.times = [] := by simpa using h.times
    refine ⟨[cand], ?_⟩
    have hstep : stairs.step cand =
        ⟨stairs.times ++ [cand.total], stairs.shapes ++ [cand.shape], some cand.gpuHours⟩ := by
      simp [Stairs.step, Stairs.improves, Stairs.sameTime, hbest, htimes]
    rw [hstep]
    refine ⟨by simp [h.times], by simp [h.shapes], rfl, by simp, by simp, ?_⟩
    intro c hc
    rcases List.mem_append.mp hc with hc | hc
    · exact (hempty c hc).elim
    · obtain rfl := List.mem_singleton.mp hc
      exact ⟨c, List.mem_singleton.mpr rfl, le_rfl, le_rfl⟩
  · have hlast : last ∈ seen := h.subset last (by simp)
    have hbest : stairs.best = some last.gpuHours := by simpa using h.best
    have htimes : stairs.times.getLast? = some last.total := by simp [h.times]
    have hle : last.total ≤ cand.total := by
      have := hsorted last hlast
      simp only [cheaperFirst, decide_eq_true_eq] at this
      rcases this with hlt | ⟨heq, -⟩
      · exact hlt.le
      · exact heq.le
    have himproves : stairs.improves cand = decide (cand.gpuHours < last.gpuHours) := by
      rw [Stairs.improves, hbest]
      exact decide_eq_decide.mpr (lt_sub_of_whole hcand.gpuHours (hwhole last hlast).gpuHours)
    by_cases hkeep : cand.gpuHours < last.gpuHours
    · -- Cheaper than all before it, hence slower than all before it.
      have hlt : last.total < cand.total := by
        refine lt_of_le_of_ne hle fun heq => ?_
        have := hsorted last hlast
        simp only [cheaperFirst, decide_eq_true_eq, heq, lt_irrefl, true_and, false_or] at this
        exact absurd hkeep (not_lt.mpr this)
      have hdistinct : stairs.sameTime cand = false := by
        obtain ⟨m, hm⟩ := (hwhole last hlast).total
        obtain ⟨n, hn⟩ := hcand.total
        have hmn : (m : ℚ) + 1 ≤ n := by
          have : m < n := by exact_mod_cast hm ▸ hn ▸ hlt
          exact_mod_cast this
        rw [Stairs.sameTime, htimes]
        refine decide_eq_false (not_lt.mpr ?_)
        rw [hm, hn, abs_sub_comm, abs_of_nonneg (by linarith)]
        linarith [show (1 : ℚ) / 10 ^ 12 < 1 by norm_num]
      refine ⟨(init ++ [last]) ++ [cand], ?_⟩
      have hstep : stairs.step cand =
          ⟨stairs.times ++ [cand.total], stairs.shapes ++ [cand.shape], some cand.gpuHours⟩ := by
        simp [Stairs.step, himproves, hkeep, hdistinct]
      rw [hstep]
      have hsteps := h.steps
      rw [List.concat_eq_append] at *
      refine ⟨by simp [h.times], by simp [h.shapes], by simp, ?_, ?_, ?_⟩
      · intro s hs
        rcases List.mem_append.mp hs with hs | hs
        · exact List.mem_append_left _ (h.subset s hs)
        · exact List.mem_append_right _ hs
      · rw [List.pairwise_append]
        refine ⟨hsteps, List.pairwise_singleton _ _, ?_⟩
        intro s hs t ht
        obtain rfl := List.mem_singleton.mp ht
        rcases List.mem_append.mp hs with hs | hs
        · have := (List.pairwise_append.mp hsteps).2.2 s hs last (by simp)
          exact ⟨this.1.trans hlt, hkeep.trans this.2⟩
        · obtain rfl := List.mem_singleton.mp hs
          exact ⟨hlt, hkeep⟩
      · intro c hc
        rcases List.mem_append.mp hc with hc | hc
        · obtain ⟨s, hs, hdom⟩ := h.dominated c hc
          exact ⟨s, List.mem_append_left _ hs, hdom⟩
        · obtain rfl := List.mem_singleton.mp hc
          exact ⟨c, by simp, le_rfl, le_rfl⟩
    · -- The last shape kept is as fast and as cheap.
      refine ⟨init.concat last, ?_⟩
      rw [Stairs.step, himproves, decide_eq_false hkeep]
      refine ⟨h.times, h.shapes, h.best, fun s hs => List.mem_append_left _ (h.subset s hs), h.steps, ?_⟩
      intro c hc
      rcases List.mem_append.mp hc with hc | hc
      · exact h.dominated c hc
      · obtain rfl := List.mem_singleton.mp hc
        exact ⟨last, by simp, hle, not_lt.mp hkeep⟩

theorem exists_staircase {cands : List Enumerated} (hwhole : ∀ c ∈ cands, Whole c)
    (hsorted : cands.Pairwise fun a b => cheaperFirst a b) :
    ∃ kept, Staircase cands (cands.foldl Stairs.step ⟨[], [], none⟩) kept := by
  induction cands using List.reverseRecOn with
  | nil => exact ⟨[], rfl, rfl, rfl, by simp, by simp, by simp⟩
  | append_singleton cands cand ih =>
    obtain ⟨hsorted, -, hle⟩ := List.pairwise_append.mp hsorted
    obtain ⟨kept, hkept⟩ := ih (fun c hc => hwhole c (List.mem_append_left _ hc)) hsorted
    rw [List.foldl_append, List.foldl_cons, List.foldl_nil]
    refine hkept.step (fun c hc => hwhole c (List.mem_append_left _ hc)) (hwhole cand (by simp)) ?_
    exact fun c hc => hle c hc cand (by simp)

-- ---------------------------------------------------------------------------
-- The answer to a budget
-- ---------------------------------------------------------------------------

/-- What a request wants of its shape, apart from how it is found. -/
structure BestShape (cost : Fin 4 → ℚ) (world steps : Nat) (budget : Option ℚ) (shape : Shape) :
    Prop where
  allocates : Allocates world steps shape
  fits : (∃ other, Allocates world steps other ∧ withinBudget budget (timeOf cost other)) →
    withinBudget budget (timeOf cost shape)
  cheapest : ∀ other, Allocates world steps other → withinBudget budget (timeOf cost other) →
    gpuTimeOf cost shape ≤ gpuTimeOf cost other ∧
      (gpuTimeOf cost other = gpuTimeOf cost shape → timeOf cost shape ≤ timeOf cost other)
  fastest : (∀ other, Allocates world steps other → ¬ withinBudget budget (timeOf cost other)) →
    ∀ other, Allocates world steps other → timeOf cost shape ≤ timeOf cost other

theorem withinBudget_mono {budget : Option ℚ} {a b : ℚ} (h : a ≤ b)
    (hb : withinBudget budget b) : withinBudget budget a := by
  cases budget with
  | none => rfl
  | some budget =>
    simp only [withinBudget, decide_eq_true_eq] at *
    exact h.trans hb

/-- Where a predicate is lost once, it stays lost. -/
theorem not_of_mem_dropWhile {α : Type*} {p : α → Bool} {l : List α}
    (h : l.Pairwise fun a b => p b → p a) : ∀ x ∈ l.dropWhile p, ¬ p x := by
  induction l with
  | nil => simp
  | cons a l ih =>
    obtain ⟨hle, hl⟩ := List.pairwise_cons.mp h
    cases hp : p a with
    | true =>
      rw [List.dropWhile_cons_of_pos hp]
      exact ih hl
    | false =>
      rw [List.dropWhile_cons_of_neg (by simp [hp])]
      rintro x hx hpx
      rcases List.mem_cons.mp hx with rfl | hx
      · simp [hp] at hpx
      · simp [hle x hx hpx] at hp

theorem mem_sortedCands (hcost : ∀ i, 0 < cost i) (hworld : 0 < world) (cand : Enumerated) :
    cand ∈ sortedCands (offered cost world) steps ↔
      ∃ shape, Allocates world steps shape ∧
        cand = ⟨timeOf cost shape, gpuTimeOf cost shape, shape⟩ := by
  simp only [sortedCands, List.mem_mergeSort, List.mem_map, allocates_iff hcost hworld]
  constructor
  · rintro ⟨shape, hshape, rfl⟩
    exact ⟨shape, hshape, enumerated_sums hcost hshape⟩
  · rintro ⟨shape, hshape, rfl⟩
    exact ⟨shape, hshape, enumerated_sums hcost hshape⟩

theorem sortedCands_pairwise (perStep : Fin 4 → ℚ) (steps : Nat) :
    (sortedCands perStep steps).Pairwise fun a b => cheaperFirst a b := by
  refine List.pairwise_mergeSort ?_ ?_ _
  · intro a b c
    simp only [cheaperFirst, decide_eq_true_eq]
    rintro (hab | ⟨hab, hab'⟩) (hbc | ⟨hbc, hbc'⟩)
    · exact .inl (hab.trans hbc)
    · exact .inl (hbc ▸ hab)
    · exact .inl (hab ▸ hbc)
    · exact .inr ⟨hab.trans hbc, hab'.trans hbc'⟩
  · intro a b
    simp only [cheaperFirst, Bool.or_eq_true, decide_eq_true_eq]
    rcases lt_trichotomy a.total b.total with h | h | h
    · exact .inl (.inl h)
    · rcases le_total a.gpuHours b.gpuHours with h' | h'
      · exact .inl (.inr ⟨h, h'⟩)
      · exact .inr (.inr ⟨h.symm, h'⟩)
    · exact .inr (.inl h)

theorem whole_of_cost (hcost : ∀ i, ∃ n : ℕ, 0 < n ∧ cost i = n) (shape : Shape) :
    Whole ⟨timeOf cost shape, gpuTimeOf cost shape, shape⟩ := by
  choose n _ hn using hcost
  refine ⟨⟨∑ i, (shape i : ℤ) * n i, ?_⟩, ⟨∑ i, (shape i : ℤ) * n i * gpuCount i, ?_⟩⟩
  · simp [timeOf, hn]
  · simp [gpuTimeOf, hn]

theorem exists_allocates (hworld : 0 < world) (steps : Nat) : ∃ shape, Allocates world steps shape := by
  refine ⟨Function.update (fun _ => 0) 0 steps, ?_, ?_⟩
  · intro i hi
    obtain rfl : i = 0 := by
      by_contra hne
      exact hi (Function.update_of_ne hne ..)
    exact hworld
  · simp [Function.update]

theorem Frontier.answer_late {frontier : Frontier} {budget : Option ℚ} (htimes : frontier.times ≠ [])
    (h : bisectRight frontier.times budget = 0) : frontier.answer budget = frontier.fallback := by
  rw [Frontier.answer, if_neg htimes, h]

theorem Frontier.answer_within {frontier : Frontier} {budget : Option ℚ} {idx : Nat}
    (htimes : frontier.times ≠ []) (h : bisectRight frontier.times budget = idx + 1) :
    frontier.answer budget = (frontier.shapes[idx]?).getD fun _ => 0 := by
  rw [Frontier.answer, if_neg htimes, h]

/-- The steps of the staircase, among the ways to spread all denoising steps. -/
structure KeptSteps (cost : Fin 4 → ℚ) (world steps : Nat) (kept : List Enumerated) : Prop where
  frontier : frontierOf (offered cost world) steps =
    ⟨kept.map (·.total), kept.map (·.shape),
      ((sortedCands (offered cost world) steps).head?.map (·.shape)).getD fun _ => 0⟩
  ascending : kept.Pairwise fun a b => a.total < b.total ∧ b.gpuHours < a.gpuHours
  dominated : ∀ shape, Allocates world steps shape → ∃ s ∈ kept,
    s.total ≤ timeOf cost shape ∧ s.gpuHours ≤ gpuTimeOf cost shape
  allocates : ∀ s ∈ kept, Allocates world steps s.shape ∧ s.total = timeOf cost s.shape ∧
    s.gpuHours = gpuTimeOf cost s.shape

theorem exists_keptSteps (hcost : ∀ i, ∃ n : ℕ, 0 < n ∧ cost i = n) (hpos : ∀ i, 0 < cost i)
    (hworld : 0 < world) (hsteps : 0 < steps) : ∃ kept, KeptSteps cost world steps kept := by
  have hmem := @mem_sortedCands _ _ steps hpos hworld
  have hwhole : ∀ c ∈ sortedCands (offered cost world) steps, Whole c := by
    intro c hc
    obtain ⟨shape, -, rfl⟩ := (hmem c).mp hc
    exact whole_of_cost hcost shape
  obtain ⟨kept, hkept⟩ := exists_staircase hwhole (sortedCands_pairwise (offered cost world) steps)
  refine ⟨kept, ?_, hkept.steps, fun shape hshape => ?_, fun s hs => ?_⟩
  · rw [frontierOf, if_neg (by simp [allowed_ne_nil hpos hworld, hsteps.ne'])]
    simp only [hkept.times, hkept.shapes]
  · exact hkept.dominated _ ((hmem _).mpr ⟨shape, hshape, rfl⟩)
  · obtain ⟨shape, hshape, rfl⟩ := (hmem s).mp (hkept.subset s hs)
    exact ⟨hshape, rfl, rfl⟩

theorem KeptSteps.ne_nil {kept : List Enumerated} (h : KeptSteps cost world steps kept)
    (hworld : 0 < world) : kept ≠ [] := by
  obtain ⟨shape, hshape⟩ := exists_allocates hworld steps
  obtain ⟨s, hs, -⟩ := h.dominated shape hshape
  exact List.ne_nil_of_mem hs

theorem KeptSteps.times_ne_nil {kept : List Enumerated} (h : KeptSteps cost world steps kept)
    (hworld : 0 < world) : (frontierOf (offered cost world) steps).times ≠ [] := by
  rw [h.frontier]
  simpa using h.ne_nil hworld

theorem KeptSteps.bisect {kept : List Enumerated} (h : KeptSteps cost world steps kept)
    (budget : Option ℚ) :
    bisectRight (frontierOf (offered cost world) steps).times budget =
      (kept.takeWhile fun s => withinBudget budget s.total).length := by
  rw [h.frontier, bisectRight, List.takeWhile_map, List.length_map]
  rfl

/-- A step of the staircase that is within the budget is one of the first steps. -/
theorem KeptSteps.mem_takeWhile {kept : List Enumerated} (h : KeptSteps cost world steps kept)
    {budget : Option ℚ} {s : Enumerated} (hs : s ∈ kept) (hin : withinBudget budget s.total) :
    s ∈ kept.takeWhile fun s => withinBudget budget s.total := by
  have hdrop := not_of_mem_dropWhile (p := fun s => withinBudget budget s.total)
    (h.ascending.imp fun hab hb => withinBudget_mono hab.1.le hb)
  rw [← List.takeWhile_append_dropWhile (p := fun s => withinBudget budget s.total) (l := kept)] at hs
  exact (List.mem_append.mp hs).resolve_right fun hmem => hdrop s hmem hin

/-- The fallback of a frontier is the fastest shape. -/
theorem fallback_fastest (hpos : ∀ i, 0 < cost i) (hworld : 0 < world) (hsteps : 0 < steps) :
    Allocates world steps (frontierOf (offered cost world) steps).fallback ∧
      ∀ other, Allocates world steps other →
        timeOf cost (frontierOf (offered cost world) steps).fallback ≤ timeOf cost other := by
  have hmem := @mem_sortedCands _ _ steps hpos hworld
  have hsorted := sortedCands_pairwise (offered cost world) steps
  have hfallback : (frontierOf (offered cost world) steps).fallback =
      ((sortedCands (offered cost world) steps).head?.map (·.shape)).getD fun _ => 0 := by
    rw [frontierOf, if_neg (by simp [allowed_ne_nil hpos hworld, hsteps.ne'])]
  rw [hfallback]
  cases hlist : sortedCands (offered cost world) steps with
  | nil =>
    obtain ⟨shape, hshape⟩ := exists_allocates hworld steps
    have hin := (hmem _).mpr ⟨shape, hshape, rfl⟩
    rw [hlist] at hin
    cases hin
  | cons first rest =>
    obtain ⟨shape, hshape, rfl⟩ := (hmem first).mp (by simp [hlist])
    refine ⟨hshape, fun other hother => ?_⟩
    have hin := (hmem _).mpr ⟨other, hother, rfl⟩
    rw [hlist] at hin hsorted
    rcases List.mem_cons.mp hin with heq | hin
    · exact (Enumerated.mk.inj heq).1.symm.le
    · have hle := (List.pairwise_cons.mp hsorted).1 _ hin
      simp only [cheaperFirst, decide_eq_true_eq] at hle
      rcases hle with hlt | ⟨heq, -⟩
      · exact hlt.le
      · exact heq.le

/-- Even the fastest step is too slow. -/
theorem KeptSteps.best_late {kept : List Enumerated} (h : KeptSteps cost world steps kept)
    (hpos : ∀ i, 0 < cost i) (hworld : 0 < world) (hsteps : 0 < steps) {budget : Option ℚ}
    (hnone : (kept.takeWhile fun s => withinBudget budget s.total) = []) :
    BestShape cost world steps budget ((frontierOf (offered cost world) steps).answer budget) := by
  rw [Frontier.answer_late (h.times_ne_nil hworld) (by rw [h.bisect, hnone]; rfl)]
  have hlate : ∀ other, Allocates world steps other →
      ¬ withinBudget budget (timeOf cost other) := by
    intro other hother hin
    obtain ⟨s, hs, hle, -⟩ := h.dominated other hother
    have hfirst := h.mem_takeWhile hs (withinBudget_mono hle hin)
    rw [hnone] at hfirst
    cases hfirst
  obtain ⟨hshape, hfastest⟩ := fallback_fastest hpos hworld hsteps
  refine ⟨hshape, ?_, fun other hother hin => absurd hin (hlate other hother), fun _ => hfastest⟩
  rintro ⟨other, hother, hin⟩
  exact absurd hin (hlate other hother)

/-- The last of the steps within the budget. -/
theorem KeptSteps.best_within {kept init : List Enumerated} {s : Enumerated}
    (h : KeptSteps cost world steps kept) (hworld : 0 < world) {budget : Option ℚ}
    (htake : (kept.takeWhile fun s => withinBudget budget s.total) = init ++ [s]) :
    BestShape cost world steps budget ((frontierOf (offered cost world) steps).answer budget) := by
  have hinit : init ++ [s] <+: kept := htake ▸ List.takeWhile_prefix _
  have hin : withinBudget budget s.total := by
    have hs : s ∈ kept.takeWhile fun s => withinBudget budget s.total := by simp [htake]
    have hwithin := List.mem_takeWhile_imp hs
    exact hwithin
  have hget : (frontierOf (offered cost world) steps).shapes[init.length]? = some s.shape := by
    obtain ⟨rest, rfl⟩ := hinit
    rw [h.frontier]
    simp
  have hlast : bisectRight (frontierOf (offered cost world) steps).times budget =
      init.length + 1 := by
    rw [h.bisect, htake, List.length_append, List.length_singleton]
  obtain ⟨hshape, htotal, hhours⟩ := h.allocates s (hinit.subset (by simp))
  rw [Frontier.answer_within (h.times_ne_nil hworld) hlast, hget, Option.getD_some]
  refine ⟨hshape, fun _ => htotal ▸ hin, fun other hother hother' => ?_, fun hlate => ?_⟩
  · obtain ⟨t, ht, hle, hcheap⟩ := h.dominated other hother
    have htaken := h.mem_takeWhile ht (withinBudget_mono hle hother')
    rw [htake] at htaken
    have hascending := h.ascending.sublist hinit.sublist
    rw [← htotal, ← hhours]
    rcases List.mem_append.mp htaken with ht | ht
    · obtain ⟨-, hlt⟩ := (List.pairwise_append.mp hascending).2.2 t ht s (by simp)
      exact ⟨hlt.le.trans hcheap, fun heq => absurd (hlt.trans_le hcheap) (heq ▸ lt_irrefl _)⟩
    · obtain rfl := List.mem_singleton.mp ht
      exact ⟨hcheap, fun _ => hle⟩
  · exact absurd (htotal ▸ hin) (hlate s.shape hshape)

theorem frontierOf_best (hcost : ∀ i, ∃ n : ℕ, 0 < n ∧ cost i = n) (hworld : 0 < world)
    (hsteps : 0 < steps) (budget : Option ℚ) :
    BestShape cost world steps budget ((frontierOf (offered cost world) steps).answer budget) := by
  have hpos : ∀ i, 0 < cost i := by
    intro i
    obtain ⟨n, hn, hc⟩ := hcost i
    rw [hc]
    exact_mod_cast hn
  obtain ⟨kept, hkept⟩ := exists_keptSteps hcost hpos hworld hsteps
  rcases List.eq_nil_or_concat (kept.takeWhile fun s => withinBudget budget s.total) with
    hnone | ⟨init, s, htake⟩
  · exact hkept.best_late hpos hworld hsteps hnone
  · rw [List.concat_eq_append] at htake
    exact hkept.best_within hworld htake

/-- Without a free GPU there is nothing to spread the steps over. -/
theorem answer_without_gpus (cost : Fin 4 → ℚ) (steps : Nat) (budget : Option ℚ) :
    (frontierOf (offered cost 0) steps).answer budget = fun _ => 0 := by
  have hallowed : allowedConfigs (offered cost 0) = [] := by
    refine List.filter_eq_nil_iff.mpr fun i _ => ?_
    have hfit : ¬ gpuCount i ≤ 0 := by fin_cases i <;> simp [gpuCount]
    simp [offered, hfit]
  rw [frontierOf, if_pos (.inl hallowed)]
  rfl

-- ---------------------------------------------------------------------------
-- What is cached makes no difference
-- ---------------------------------------------------------------------------

section Caches

variable {estimate : Nat → Nat → ℚ} {caches : ShapeCaches}

def freshFrontier (estimate : Nat → Nat → ℚ) (latentSeqLen numSteps world : Nat) : Frontier :=
  frontierOf (offered (fun i => estimate latentSeqLen (gpuCount i)) world) numSteps

/-- Every cached value is what would be computed now. -/
structure Consistent (estimate : Nat → Nat → ℚ) (caches : ShapeCaches) : Prop where
  tstep : ∀ key cost, caches.tstep.get? key = some cost → cost = estimate key.1 key.2
  frontier : ∀ key frontier, caches.frontier.get? key = some frontier →
    frontier = freshFrontier estimate key.1 key.2.1 key.2.2

/-- A value that does not depend on the caches, which stay consistent. -/
def Yields (estimate : Nat → Nat → ℚ) (run : StateM ShapeCaches α) (value : α) : Prop :=
  ∀ caches, Consistent estimate caches →
    (run caches).1 = value ∧ Consistent estimate (run caches).2

theorem Yields.pure (value : α) : Yields estimate (pure value) value := fun _ h => ⟨rfl, h⟩

theorem Yields.bind {run : StateM ShapeCaches α} {value : α} {next : α → StateM ShapeCaches β}
    {result : β} (h : Yields estimate run value) (hnext : Yields estimate (next value) result) :
    Yields estimate (run >>= next) result := by
  intro caches hc
  obtain ⟨hvalue, hc'⟩ := h caches hc
  have := hnext _ hc'
  rw [← hvalue] at this
  exact this

theorem yields_tStep (latentSeqLen gpus : Nat) :
    Yields estimate (tStep estimate latentSeqLen gpus) (estimate latentSeqLen gpus) := by
  intro caches hc
  unfold tStep
  cases h : caches.tstep.get? (latentSeqLen, gpus) with
  | some cached => exact ⟨hc.tstep _ _ h, hc⟩
  | none =>
    refine ⟨rfl, ?_, hc.frontier⟩
    intro key cost hget
    rw [Dict.get?_set] at hget
    split at hget
    · rename_i hkey
      subst hkey
      exact (Option.some.inj hget).symm
    · exact hc.tstep key cost hget

theorem yields_configCost (latentSeqLen world : Nat) (gi : Fin 4) :
    Yields estimate (configCost estimate latentSeqLen world gi)
      (offered (fun i => estimate latentSeqLen (gpuCount i)) world gi) := by
  unfold configCost offered
  by_cases hfit : gpuCount gi ≤ world
  · simp only [hfit, if_true]
    exact (yields_tStep _ _).bind (.pure _)
  · simp only [hfit, if_false]
    exact (Yields.pure (-1)).bind (.pure _)

theorem yields_buildShapeFrontier (latentSeqLen numSteps world : Nat) :
    Yields estimate (buildShapeFrontier estimate latentSeqLen numSteps world)
      (freshFrontier estimate latentSeqLen numSteps world) := by
  refine (yields_configCost latentSeqLen world 0).bind <|
    (yields_configCost latentSeqLen world 1).bind <|
    (yields_configCost latentSeqLen world 2).bind <|
    (yields_configCost latentSeqLen world 3).bind ?_
  have hvec : ∀ f : Fin 4 → ℚ, ![f 0, f 1, f 2, f 3] = f := by
    intro f
    funext i
    fin_cases i <;> rfl
  rw [hvec]
  exact .pure _

theorem yields_cachedFrontier (latentSeqLen numSteps world : Nat) :
    Yields estimate (cachedFrontier estimate latentSeqLen numSteps world)
      (freshFrontier estimate latentSeqLen numSteps world) := by
  intro caches hc
  unfold cachedFrontier
  cases h : caches.frontier.get? (latentSeqLen, numSteps, world) with
  | some frontier => exact ⟨hc.frontier _ _ h, hc⟩
  | none =>
    obtain ⟨hvalue, hc'⟩ := yields_buildShapeFrontier latentSeqLen numSteps world caches hc
    refine ⟨hvalue, hc'.tstep, ?_⟩
    intro key frontier hget
    simp only [Dict.get?_set] at hget
    split at hget
    · rename_i hkey
      subst hkey
      rw [← Option.some.inj hget, hvalue]
    · exact hc'.frontier key frontier hget

theorem yields_optimalShape (latentSeqLen numSteps world : Nat) (budget : Option ℚ) :
    Yields estimate (optimalShape estimate latentSeqLen numSteps world budget)
      ((freshFrontier estimate latentSeqLen numSteps world).answer budget) :=
  (yields_cachedFrontier latentSeqLen numSteps world).bind (.pure _)

/-- The caches a policy can have: empty at first, changed by its own calls. -/
inductive Reached (estimate : Nat → Nat → ℚ) : ShapeCaches → Prop
  | empty : Reached estimate .empty
  | tStep (latentSeqLen gpus : Nat) {caches : ShapeCaches} : Reached estimate caches →
      Reached estimate (tStep estimate latentSeqLen gpus caches).2
  | optimalShape (latentSeqLen numSteps world : Nat) (budget : Option ℚ) {caches : ShapeCaches} :
      Reached estimate caches →
      Reached estimate (optimalShape estimate latentSeqLen numSteps world budget caches).2

theorem Reached.consistent (h : Reached estimate caches) : Consistent estimate caches := by
  induction h with
  | empty => exact ⟨fun _ _ h => (nomatch h), fun _ _ h => (nomatch h)⟩
  | tStep _ _ _ ih => exact (yields_tStep _ _ _ ih).2
  | optimalShape _ _ _ _ _ ih => exact (yields_optimalShape _ _ _ _ _ ih).2

/-- With whole per-step costs and a free GPU the shape is one a search over all
shapes would pick, whatever was asked before; without one it is empty. -/
theorem optimalShape_best (hreach : Reached estimate caches) {latentSeqLen numSteps : Nat}
    (hcost : ∀ i, ∃ n : ℕ, 0 < n ∧ estimate latentSeqLen (gpuCount i) = n) (hsteps : 0 < numSteps)
    (world : Nat) (budget : Option ℚ) :
    (0 < world → BestShape (fun i => estimate latentSeqLen (gpuCount i)) world numSteps budget
      (optimalShape estimate latentSeqLen numSteps world budget caches).1) ∧
    (world = 0 → (optimalShape estimate latentSeqLen numSteps world budget caches).1 =
      fun _ => 0) ∧
    ∀ other, Reached estimate other →
      (optimalShape estimate latentSeqLen numSteps world budget other).1 =
        (optimalShape estimate latentSeqLen numSteps world budget caches).1 := by
  have hyields := @yields_optimalShape estimate latentSeqLen numSteps world budget
  have hvalue := (hyields caches hreach.consistent).1
  refine ⟨fun hworld => ?_, ?_, fun other hother => ?_⟩
  · rw [hvalue]
    exact frontierOf_best hcost hworld hsteps budget
  · rintro rfl
    rw [hvalue]
    exact answer_without_gpus ..
  · rw [hvalue, (hyields other hother.consistent).1]

def flatEstimate (_ _ : Nat) : ℚ := 2

theorem optimalShape_best_four : BestShape (fun i => flatEstimate 64 (gpuCount i)) 2 4 (some 9)
    (optimalShape flatEstimate 64 4 2 (some 9) .empty).1 := by
  have hcost : ∀ i, ∃ n : ℕ, 0 < n ∧ flatEstimate 64 (gpuCount i) = n :=
    fun _ => ⟨2, Nat.two_pos, rfl⟩
  exact (optimalShape_best .empty hcost (Nat.succ_pos 3) 2 (some 9)).1 Nat.two_pos

/-- Without a free GPU the answer spreads no steps. -/
theorem no_shape_without_gpus :
    ¬ Allocates 0 1 (optimalShape flatEstimate 64 1 0 none .empty).1 := by
  intro h
  rw [(yields_optimalShape 64 1 0 none _ Reached.empty.consistent).1, freshFrontier,
    answer_without_gpus] at h
  have := h.total
  simp at this

end Caches

end Tetriserve

end GfDit
