import GfDit.Policies.EdfFit
import GfDit.Simulator.Continuous

/-!
# The target allocation of the continuous policy

The widths planned for the active DiT requests: a best choice of survival
options fits the workers, the fill gives everybody else a width while ranks
are left, and scaling up only widens. All three work within one budget.
-/

namespace GfDit

namespace Continuous

variable {settings : Settings} {state : State}

theorem sum_set_width (target : Dict String Nat) (requestId : String) (width : Nat) :
    (target.set requestId width).values.sum + target.getD requestId 0 =
      target.values.sum + width := by
  have hin : ∀ entries : List (String × Nat),
      ((Dict.setIn entries requestId width).map Prod.snd).sum +
          (Dict.lookupIn entries requestId).getD 0 =
        (entries.map Prod.snd).sum + width := by
    intro entries
    induction entries with
    | nil => simp [Dict.setIn, Dict.lookupIn]
    | cons entry rest ih =>
      obtain ⟨key, value⟩ := entry
      by_cases hkey : key = requestId
      · simp only [Dict.setIn, Dict.lookupIn, hkey, if_true, List.map_cons, List.sum_cons,
          Option.getD_some]
        omega
      · simp only [Dict.setIn, Dict.lookupIn, hkey, if_false, List.map_cons, List.sum_cons]
        omega
  exact hin target.entries

-- ---------------------------------------------------------------------------
-- Sizes
-- ---------------------------------------------------------------------------

theorem Settings.sizes (settings : Settings) : Edf.SizesOk settings.allowedSpSizes :=
  Edf.normalizeAllowedSpSizes_ok settings.sizes_ok

theorem one_le_numWorkers (settings : Settings) : 1 ≤ numWorkers settings := le_max_left ..

theorem normalizeAllowedSpSizes_le {workers : List Rank} {given : Option (List Int)}
    {sizes : List Nat} (h : Edf.normalizeAllowedSpSizes workers given = .ok sizes) :
    ∀ size ∈ sizes, size ≤ max 1 workers.length := by
  intro size hmem
  unfold Edf.normalizeAllowedSpSizes at h
  cases given
  all_goals
    simp only at h
    split at h
    · cases h
    · rw [← Except.pure_eq_ok.mp h, (List.perm_insertionSort ..).mem_iff, List.mem_dedup,
        List.mem_filter, decide_eq_true_eq] at hmem
      exact hmem.2.2

theorem Settings.bounded (settings : Settings) :
    ∀ size ∈ settings.allowedSpSizes, size ≤ numWorkers settings :=
  normalizeAllowedSpSizes_le settings.sizes_ok

theorem mem_candidateSizes {size : Nat} :
    size ∈ candidateSizes settings ↔ size ∈ settings.allowedSpSizes := by
  rw [candidateSizes, Edf.mem_candidates]
  exact ⟨And.left, fun h => ⟨h, settings.bounded size h⟩⟩

theorem minSurviveSp_mem (requestId : String) :
    (minSurviveSp settings state requestId).1 ∈ settings.allowedSpSizes := by
  have hmem : ∀ size ∈ candidateSizes settings, size ∈ settings.allowedSpSizes :=
    fun size => mem_candidateSizes.mp
  unfold minSurviveSp
  split
  · exact settings.sizes.one
  · exact settings.sizes.one
  · next first sizes _ hcand =>
    rw [hcand] at hmem
    split
    · split
      · next sp hfind => exact hmem sp (List.mem_of_find?_eq_some hfind)
      · exact hmem _ (List.getLast_mem _)
    all_goals exact hmem first (List.mem_cons_self ..)

theorem survivalOptions_mem {requestId : String} {option : SurvivalOption}
    (h : option ∈ survivalOptions settings state requestId) :
    option.1 = 0 ∨ option.1 ∈ settings.allowedSpSizes := by
  simp only [survivalOptions] at h
  split at h
  · exact absurd h List.not_mem_nil
  · split at h
    · exact absurd h List.not_mem_nil
    · rcases List.mem_cons.mp h with rfl | h
      · exact .inl rfl
      · split at h
        · rw [List.mem_singleton.mp h]
          exact .inr (minSurviveSp_mem requestId)
        · exact absurd h List.not_mem_nil

theorem survivalOptions_waits {requestId : String}
    (h : survivalOptions settings state requestId ≠ []) :
    ∃ value, (0, value) ∈ survivalOptions settings state requestId := by
  simp only [survivalOptions] at h ⊢
  split at h
  · exact absurd rfl h
  · split at h
    · exact absurd rfl h
    · next hsome =>
      simp only [hsome, if_false]
      exact ⟨_, List.mem_cons_self ..⟩

-- ---------------------------------------------------------------------------
-- Widths within the workers
-- ---------------------------------------------------------------------------

/-- Allowed widths for some of the active requests that fit the workers. -/
structure Planned (settings : Settings) (active : List String) (target : Dict String Nat) :
    Prop where
  active : ∀ requestId ∈ target.keys, requestId ∈ active
  allowed : ∀ requestId width, target.get? requestId = some width →
    width ∈ settings.allowedSpSizes
  within : target.values.sum ≤ numWorkers settings

def Widened (target target' : Dict String Nat) : Prop :=
  ∀ requestId width, target.get? requestId = some width →
    ∃ wider, target'.get? requestId = some wider ∧ width ≤ wider

theorem Widened.refl (target : Dict String Nat) : Widened target target :=
  fun _ width h => ⟨width, h, le_rfl⟩

theorem Widened.trans {a b c : Dict String Nat} (h : Widened a b) (h' : Widened b c) :
    Widened a c := by
  intro requestId width hget
  obtain ⟨wider, hwider, hle⟩ := h requestId width hget
  obtain ⟨widest, hwidest, hle'⟩ := h' requestId wider hwider
  exact ⟨widest, hwidest, hle.trans hle'⟩

theorem Widened.mem_keys {target target' : Dict String Nat} (h : Widened target target')
    {requestId : String} (hmem : requestId ∈ target.keys) : requestId ∈ target'.keys := by
  obtain ⟨width, hget⟩ := Option.isSome_iff_exists.mp ((Dict.mem_keys _ _).mp hmem)
  obtain ⟨wider, hwider, -⟩ := h requestId width hget
  exact (Dict.mem_keys _ _).mpr (by simp [hwider])

variable {active : List String} {target : Dict String Nat} {requestId : String} {width : Nat}

theorem Planned.set (h : Planned settings active target) (hactive : requestId ∈ active)
    (hallowed : width ∈ settings.allowedSpSizes) (hraised : target.getD requestId 0 ≤ width)
    (hwithin : target.values.sum + width ≤ numWorkers settings + target.getD requestId 0) :
    Planned settings active (target.set requestId width) ∧
      Widened target (target.set requestId width) := by
  refine ⟨⟨fun other hmem => ?_, fun other wider hget => ?_, ?_⟩, fun other old hget => ?_⟩
  · rw [Dict.keys_set] at hmem
    split at hmem
    · exact h.active other hmem
    · rcases List.mem_append.mp hmem with hmem | hmem
      · exact h.active other hmem
      · rw [List.mem_singleton.mp hmem]
        exact hactive
  · rw [Dict.get?_set] at hget
    split at hget
    · cases hget
      exact hallowed
    · exact h.allowed other wider hget
  · have := sum_set_width target requestId width
    omega
  · rw [Dict.get?_set]
    split
    · next heq =>
      subst heq
      rw [Dict.getD_of_get? hget] at hraised
      exact ⟨width, rfl, hraised⟩
    · exact ⟨old, hget, le_rfl⟩

-- ---------------------------------------------------------------------------
-- Admission
-- ---------------------------------------------------------------------------

theorem activeDitRequestIds_nodup (state : State) : (activeDitRequestIds state).Nodup :=
  state.requestMeta.nodup.sublist (List.filter_sublist.map _)

theorem requestOptions_spec (settings : Settings) (state : State) :
    ((requestOptions settings state (activeDitRequestIds state)).map Prod.fst).Nodup ∧
      ∀ request ∈ requestOptions settings state (activeDitRequestIds state),
        request.1 ∈ activeDitRequestIds state ∧
        request.2 = survivalOptions settings state request.1 ∧
        ∃ value, (0, value) ∈ request.2 := by
  constructor
  · have hids := activeDitRequestIds_nodup state
    have hsame : ((activeDitRequestIds state).map fun requestId =>
        (requestId, survivalOptions settings state requestId)).map Prod.fst =
          activeDitRequestIds state := by simp [Function.comp_def]
    rw [← hsame] at hids
    exact hids.sublist (List.filter_sublist.map _)
  · rintro request hmem
    obtain ⟨hmem, hne⟩ := List.mem_filter.mp hmem
    obtain ⟨requestId, hactive, rfl⟩ := List.mem_map.mp hmem
    exact ⟨hactive, rfl, survivalOptions_waits (of_decide_eq_true hne)⟩

theorem mem_widthsOf {requests : List RequestOptions} {options : List SurvivalOption}
    (h : Choice requests options) {entry : String × Nat} (hmem : entry ∈ widthsOf requests options) :
    ∃ request ∈ requests, ∃ option ∈ request.2, entry = (request.1, option.1) ∧ 0 < option.1 := by
  induction h with
  | nil => cases hmem
  | @cons request option _ _ hoption _ ih =>
    simp only [widthsOf, List.zip_cons_cons, List.filterMap_cons] at hmem ih
    split at hmem
    · obtain ⟨other, hother, hrest⟩ := ih hmem
      exact ⟨other, List.mem_cons_of_mem _ hother, hrest⟩
    · next hentry =>
      split at hentry
      · next hpos =>
        cases hentry
        rcases List.mem_cons.mp hmem with rfl | hmem
        · exact ⟨request, List.mem_cons_self .., option, hoption, rfl, hpos⟩
        · obtain ⟨other, hother, hrest⟩ := ih hmem
          exact ⟨other, List.mem_cons_of_mem _ hother, hrest⟩
      · cases hentry

theorem sum_widthsOf (requests : List RequestOptions) (options : List SurvivalOption) :
    ((widthsOf requests options).map Prod.snd).sum ≤ totalWidth options := by
  induction requests generalizing options with
  | nil => simp [widthsOf]
  | cons request requests ih =>
    cases options with
    | nil => simp [widthsOf]
    | cons option options =>
      have := ih options
      simp only [widthsOf, totalWidth, List.zip_cons_cons, List.filterMap_cons, List.map_cons,
        List.sum_cons] at this ⊢
      split
      · omega
      · next hentry =>
        split at hentry
        · cases hentry
          simp only [List.map_cons, List.sum_cons]
          omega
        · cases hentry

def admitted (settings : Settings) (state : State) : Dict String Nat :=
  survivalKnapsack (requestOptions settings state (activeDitRequestIds state))
    (numWorkers settings)

theorem admitted_planned (settings : Settings) (state : State) :
    Planned settings (activeDitRequestIds state) (admitted settings state) := by
  obtain ⟨hids, hrequests⟩ := requestOptions_spec settings state
  obtain ⟨options, hchoice, hfit, hentries, -⟩ := survivalKnapsack_best (numWorkers settings) hids
    fun request hmem => (hrequests request hmem).2.2
  have hentry : ∀ entry ∈ (admitted settings state).entries,
      entry.1 ∈ activeDitRequestIds state ∧ entry.2 ∈ settings.allowedSpSizes := by
    intro entry hmem
    rw [admitted, hentries] at hmem
    obtain ⟨request, hrequest, option, hoption, rfl, hpos⟩ := mem_widthsOf hchoice hmem
    obtain ⟨hactive, hopts, -⟩ := hrequests request hrequest
    rw [hopts] at hoption
    exact ⟨hactive, (survivalOptions_mem hoption).resolve_left hpos.ne'⟩
  refine ⟨fun requestId hmem => ?_, fun requestId width hget => ?_, ?_⟩
  · obtain ⟨entry, hin, rfl⟩ := List.mem_map.mp hmem
    exact (hentry entry hin).1
  · exact (hentry _ ((Dict.get?_eq_some _).mp hget)).2
  · rw [Dict.values, admitted, hentries]
    exact (sum_widthsOf _ options).trans hfit

-- ---------------------------------------------------------------------------
-- The fill
-- ---------------------------------------------------------------------------

/-- The fill goes on until everybody has a width or all ranks are planned. -/
theorem fill_planned (state : State) {order : List String} {budget : Nat} (h : Planned settings active target)
    (horder : ∀ requestId ∈ order, requestId ∈ active)
    (hbudget : target.values.sum + budget = numWorkers settings) :
    Planned settings active (fill settings state order budget target) ∧
      Widened target (fill settings state order budget target) ∧
      ((∀ requestId ∈ order, requestId ∈ (fill settings state order budget target).keys) ∨
        (fill settings state order budget target).values.sum = numWorkers settings) := by
  induction order generalizing budget target with
  | nil => exact ⟨h, .refl target, .inl fun requestId hmem => nomatch hmem⟩
  | cons requestId rest ih =>
    obtain ⟨hhead, hrest⟩ := List.forall_mem_cons.mp horder
    unfold fill
    split
    · exact ⟨h, .refl target, .inr (by omega)⟩
    · split
      · next hhas =>
        obtain ⟨hplanned, hwidened, hdone⟩ := ih h hrest hbudget
        refine ⟨hplanned, hwidened, hdone.imp_left fun hall => ?_⟩
        exact List.forall_mem_cons.mpr ⟨hwidened.mem_keys hhas, hall⟩
      · next hnew =>
        have hzero : target.getD requestId 0 = 0 :=
          Dict.getD_of_none ((Dict.get?_eq_none _).mpr hnew) 0
        -- Either branch sets a width within the budget for the first time.
        have hset : ∀ sp ∈ settings.allowedSpSizes, sp ≤ budget →
            Planned settings active
                (fill settings state rest (budget - sp) (target.set requestId sp)) ∧
              Widened target (fill settings state rest (budget - sp) (target.set requestId sp)) ∧
              ((∀ other ∈ requestId :: rest, other ∈
                (fill settings state rest (budget - sp) (target.set requestId sp)).keys) ∨
                (fill settings state rest (budget - sp) (target.set requestId sp)).values.sum =
                  numWorkers settings) := by
          intro sp hsp hle
          obtain ⟨hplanned, hwidened⟩ := h.set hhead hsp (by omega) (by omega)
          have hsum := sum_set_width target requestId sp
          have hleft : (target.set requestId sp).values.sum + (budget - sp) =
              numWorkers settings := by omega
          obtain ⟨hplanned', hwidened', hdone⟩ := ih hplanned hrest hleft
          refine ⟨hplanned', hwidened.trans hwidened', hdone.imp_left fun hall => ?_⟩
          refine List.forall_mem_cons.mpr ⟨hwidened'.mem_keys ?_, hall⟩
          simp [Dict.mem_keys]
        dsimp only
        split
        · next hle => exact hset _ (minSurviveSp_mem requestId) hle
        · exact hset 1 settings.sizes.one (by omega)

-- ---------------------------------------------------------------------------
-- Scaling up
-- ---------------------------------------------------------------------------

/-- No request in the order has a next size that the budget allows and that is
faster for it. -/
def Settled (settings : Settings) (state : State) (order : List String) (budget : Nat)
    (target : Dict String Nat) : Prop :=
  ∀ requestId ∈ order, ∀ bigger,
    (settings.allowedSpSizes.insertionSort (· ≤ ·)).find? (target.getD requestId 0 < ·) =
      some bigger →
    bigger - target.getD requestId 0 ≤ budget →
      promotionHelps settings state requestId (target.getD requestId 0) bigger = false

theorem promotion_none {budget : Nat} {order : List String}
    (h : promotion settings state budget target order = none) :
    Settled settings state order budget target := by
  induction order with
  | nil => exact fun requestId hmem => nomatch hmem
  | cons requestId rest ih =>
    simp only [promotion] at h
    split at h
    · next hnone =>
      refine List.forall_mem_cons.mpr ⟨fun bigger hfind => ?_, ih h⟩
      cases hnone.symm.trans hfind
    · next bigger hbigger =>
      split at h
      · next hskip =>
        refine List.forall_mem_cons.mpr ⟨fun other hfind hle => ?_, ih h⟩
        cases hbigger.symm.trans hfind
        simpa using hskip.resolve_left (by omega)
      · cases h

theorem promotion_some {budget : Nat} {order : List String} {bigger delta : Nat}
    (h : promotion settings state budget target order = some (requestId, bigger, delta)) :
    requestId ∈ order ∧ bigger ∈ settings.allowedSpSizes ∧ target.getD requestId 0 < bigger ∧
      delta = bigger - target.getD requestId 0 ∧ delta ≤ budget := by
  induction order with
  | nil => cases h
  | cons other rest ih =>
    simp only [promotion] at h
    split at h
    · obtain ⟨hmem, hfacts⟩ := ih h
      exact ⟨List.mem_cons_of_mem _ hmem, hfacts⟩
    · next size hfind =>
      split at h
      · obtain ⟨hmem, hfacts⟩ := ih h
        exact ⟨List.mem_cons_of_mem _ hmem, hfacts⟩
      · next hkeep =>
        cases h
        have hmem := List.mem_of_find?_eq_some hfind
        have hlt := List.find?_some hfind
        rw [(List.perm_insertionSort ..).mem_iff] at hmem
        simp only [decide_eq_true_eq] at hlt
        exact ⟨List.mem_cons_self .., hmem, hlt, rfl,
          Nat.not_lt.mp fun hover => hkeep (.inl hover)⟩

theorem scaleUp_keys (settings : Settings) (state : State) {order : List String}
    (horder : ∀ requestId ∈ order, requestId ∈ target.keys) (rounds budget : Nat) :
    (scaleUp settings state order rounds budget target).keys = target.keys := by
  induction rounds generalizing budget target with
  | zero => rfl
  | succ rounds ih =>
    unfold scaleUp
    split
    · rfl
    · split
      · rfl
      · next requestId bigger delta hsome =>
        have hkeys : (target.set requestId bigger).keys = target.keys :=
          (Dict.keys_set ..).trans (if_pos (horder requestId (promotion_some hsome).1))
        exact (ih (fun other hother => hkeys ▸ horder other hother) _).trans hkeys

theorem settled_of_spent {order : List String} (h : numWorkers settings ≤ target.values.sum) :
    Settled settings state order (numWorkers settings - target.values.sum) target := by
  intro requestId _ bigger hfind hle
  have hlt := List.find?_some hfind
  simp only [decide_eq_true_eq] at hlt
  omega

/-- Scaling up goes on until all ranks are planned or nobody gains. -/
theorem scaleUp_planned (state : State) {order : List String} {rounds budget : Nat}
    (h : Planned settings active target) (horder : ∀ requestId ∈ order, requestId ∈ target.keys)
    (hbudget : target.values.sum + budget = numWorkers settings) (hrounds : budget ≤ rounds) :
    Planned settings active (scaleUp settings state order rounds budget target) ∧
      Widened target (scaleUp settings state order rounds budget target) ∧
      Settled settings state order
        (numWorkers settings - (scaleUp settings state order rounds budget target).values.sum)
        (scaleUp settings state order rounds budget target) := by
  induction rounds generalizing budget target with
  | zero =>
    have hspent : numWorkers settings ≤ target.values.sum := by omega
    exact ⟨h, .refl target, settled_of_spent hspent⟩
  | succ rounds ih =>
    unfold scaleUp
    split
    · exact ⟨h, .refl target, settled_of_spent (by omega)⟩
    · split
      · next hnone =>
        have hleft : numWorkers settings - target.values.sum = budget := by omega
        exact ⟨h, .refl target, hleft ▸ promotion_none hnone⟩
      · next requestId bigger delta hsome =>
        obtain ⟨hmem, hallowed, hlt, rfl, hle⟩ := promotion_some hsome
        have hkey := horder requestId hmem
        obtain ⟨hplanned, hwidened⟩ := h.set (h.active requestId hkey) hallowed hlt.le (by omega)
        have hsum := sum_set_width target requestId bigger
        have hbudget' : (target.set requestId bigger).values.sum +
            (budget - (bigger - target.getD requestId 0)) = numWorkers settings := by omega
        obtain ⟨hplanned', hwidened', hsettled⟩ := ih hplanned
          (fun other hother => hwidened.mem_keys (horder other hother)) hbudget' (by omega)
        exact ⟨hplanned', hwidened.trans hwidened', hsettled⟩

-- ---------------------------------------------------------------------------
-- The plan
-- ---------------------------------------------------------------------------

theorem mem_sortIds {ids : List String} : requestId ∈ sortIds state ids ↔ requestId ∈ ids :=
  (List.mergeSort_perm ids _).mem_iff

theorem planTarget_filled (settings : Settings) (state : State) :
    ∃ filled, Planned settings (activeDitRequestIds state) filled ∧
      Widened (admitted settings state) filled ∧
      ((∀ requestId ∈ activeDitRequestIds state, requestId ∈ filled.keys) ∨
        filled.values.sum = numWorkers settings) ∧
      planTargetAllocation settings state =
        if settings.elasticScaleUp then
          scaleUp settings state (sortIds state filled.keys)
            (numWorkers settings - filled.values.sum) (numWorkers settings - filled.values.sum)
            filled
        else filled := by
  have hadmitted := admitted_planned settings state
  have hbudget : (admitted settings state).values.sum +
      (numWorkers settings - (admitted settings state).values.sum) = numWorkers settings :=
    Nat.add_sub_of_le hadmitted.within
  have horder : ∀ requestId ∈ sortIds state (activeDitRequestIds state),
      requestId ∈ activeDitRequestIds state := fun requestId => mem_sortIds.mp
  obtain ⟨hplanned, hwidened, hdone⟩ := fill_planned state hadmitted horder hbudget
  refine ⟨_, hplanned, hwidened, hdone.imp_left fun hall requestId hmem => ?_, rfl⟩
  exact hall requestId (mem_sortIds.mpr hmem)

theorem planTargetAllocation_planned (settings : Settings) (state : State) :
    Planned settings (activeDitRequestIds state) (planTargetAllocation settings state) ∧
      Widened (admitted settings state) (planTargetAllocation settings state) ∧
      ((∀ requestId ∈ activeDitRequestIds state,
          requestId ∈ (planTargetAllocation settings state).keys) ∨
        (planTargetAllocation settings state).values.sum = numWorkers settings) ∧
      (settings.elasticScaleUp = true → Settled settings state
        (planTargetAllocation settings state).keys
        (numWorkers settings - (planTargetAllocation settings state).values.sum)
        (planTargetAllocation settings state)) := by
  obtain ⟨filled, hplanned, hwidened, hdone, heq⟩ := planTarget_filled settings state
  rw [heq]
  split
  · have hbudget : filled.values.sum + (numWorkers settings - filled.values.sum) =
        numWorkers settings := Nat.add_sub_of_le hplanned.within
    have horder : ∀ requestId ∈ sortIds state filled.keys, requestId ∈ filled.keys :=
      fun requestId => mem_sortIds.mp
    obtain ⟨hplanned', hwidened', hsettled⟩ := scaleUp_planned state hplanned horder hbudget le_rfl
    have hkeys := scaleUp_keys settings state horder (numWorkers settings - filled.values.sum)
      (numWorkers settings - filled.values.sum)
    refine ⟨hplanned', hwidened.trans hwidened', ?_, fun _ requestId hmem => ?_⟩
    · rcases hdone with hall | hfull
      · exact .inl fun requestId hmem => hwidened'.mem_keys (hall requestId hmem)
      · rw [hfull, Nat.sub_self]
        exact .inr hfull
    · exact hsettled requestId (mem_sortIds.mpr (hkeys ▸ hmem))
  · next hplain => exact ⟨hplanned, hwidened, hdone, fun h => absurd h hplain⟩

/-- The allocation of the continuous policy, whatever its state. The survival
options of the active requests that come out of the knapsack fit the workers
and are worth the most of all that do; who got a width there has at least that
width in the target, whose widths are allowed and fit the workers; and no
active request is without one while a rank is not planned. With elastic
scale-up, no next size that fits the ranks left over is faster for its request. -/
theorem planTargetAllocation_best (settings : Settings) (state : State) :
    (∃ options, Choice (requestOptions settings state (activeDitRequestIds state)) options ∧
      totalWidth options ≤ numWorkers settings ∧
      (∀ other, Choice (requestOptions settings state (activeDitRequestIds state)) other →
        totalWidth other ≤ numWorkers settings → totalValue other ≤ totalValue options) ∧
      ∀ entry ∈ widthsOf (requestOptions settings state (activeDitRequestIds state)) options,
        ∃ width, (planTargetAllocation settings state).get? entry.1 = some width ∧
          entry.2 ≤ width) ∧
    Planned settings (activeDitRequestIds state) (planTargetAllocation settings state) ∧
    ((∀ requestId ∈ activeDitRequestIds state,
        requestId ∈ (planTargetAllocation settings state).keys) ∨
      (planTargetAllocation settings state).values.sum = numWorkers settings) ∧
    (settings.elasticScaleUp = true → Settled settings state
      (planTargetAllocation settings state).keys
      (numWorkers settings - (planTargetAllocation settings state).values.sum)
      (planTargetAllocation settings state)) := by
  obtain ⟨hplanned, hwidened, hrest⟩ := planTargetAllocation_planned settings state
  obtain ⟨hids, hrequests⟩ := requestOptions_spec settings state
  obtain ⟨options, hchoice, hfit, hentries, hbest⟩ := survivalKnapsack_best (numWorkers settings)
    hids fun request hmem => (hrequests request hmem).2.2
  refine ⟨⟨options, hchoice, hfit, hbest, fun entry hmem => ?_⟩, hplanned, hrest⟩
  refine hwidened entry.1 entry.2 ((Dict.get?_eq_some _).mpr ?_)
  rw [admitted, hentries]
  exact hmem

end Continuous

end GfDit
