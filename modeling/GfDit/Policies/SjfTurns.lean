import GfDit.Policies.SrtfPicks

/-!
# Throttling, and jobs that are not preempted

Of the tasks that SRTF and SJF dispatch on a group at most two have not ended
and at most one is not launched. With `SJFSchedulerPolicy` a group serves one
request from its first task until it ends, and then the one with the least
work in all, the one submitted first among equals. This needs requests to end
on their own group: a request whose end names another group keeps its slot, and
nothing else is admitted there any more.
-/

namespace GfDit

open Prog

namespace Srtf

variable {load : Workload} {estimator : TaskRuntimeEstimator} {w w₁ w' : World Srtf} {p p' : Srtf}

-- ---------------------------------------------------------------------------
-- The discipline
-- ---------------------------------------------------------------------------

structure Throttled (p : Srtf) : Prop where
  outstanding : ∀ groupId, p.outstandingTasksByGroup.getD groupId 0 =
    p.running.countP (onGroup groupId)
  atMostTwo : ∀ groupId, p.running.countP (onGroup groupId) ≤ 2
  launchPending : ∀ groupId, p.launchPendingByGroup.getD groupId 0 =
    p.launching.countP (onGroup groupId)
  atMostOne : ∀ groupId, p.launching.countP (onGroup groupId) ≤ 1

theorem Counted.throttled (h : Counted p) : Throttled p where
  outstanding := h.outstanding
  atMostTwo := fun groupId => h.outstanding groupId ▸ h.atMostTwo groupId
  launchPending := h.launchPending
  atMostOne := fun groupId => h.launchPending groupId ▸ h.atMostOne groupId

/-- The request a group serves: the last one that was dispatched there, until
it ends. -/
def holder (groupId : String) : List SrtfEntry → Option String
  | [] => none
  | .started task lane :: entries =>
    if lane = groupId then some task.requestId else holder groupId entries
  | .closed requestId :: entries =>
    if holder groupId entries = some requestId then none else holder groupId entries
  | .reported _ _ :: entries | .launched _ :: entries | .ended _ :: entries =>
    holder groupId entries

def Before (entries : List WorkEntry) (requestId other : String) : Prop :=
  ∃ later job earlier, entries = later ++ .opened other job :: earlier ∧
    ∃ first, .opened requestId first ∈ earlier

/-- A task is of the request that the group serves or, when it serves none, of
one with the least work in all, the one submitted first among equals. -/
structure Admits (books : WorkBooks) (entries : List SrtfEntry) (x : Posting) : Prop where
  pinned : ∀ requestId, holder x.2 entries = some requestId → x.1.requestId = requestId
  least : holder x.2 entries = none → ∀ y ∈ waitingIn entries, y.2 = x.2 →
    ∀ job other, .opened x.1.requestId job ∈ books.log → .opened y.1.requestId other ∈ books.log →
      job.owed < other.owed ∨ job.owed = other.owed ∧
        (x.1.requestId = y.1.requestId ∨ Before books.log x.1.requestId y.1.requestId)

/-- The calls that lead to a dispatch: not a launch, nor a plan that is
refused. -/
def Dispatches (w' : World Srtf) : Ask → Prop
  | .submitted plan => ∃ job, .opened plan.requestId job ∈ w'.policy.books.log
  | .runnable _ => True
  | .event event => event.kind ≠ .taskLaunchEnd
  | .acquire _ | .release _ => False

def Fills (_ : World Srtf) (ask : Ask) (_ : List InferenceTask) (w' : World Srtf) : Prop :=
  Dispatches w' ask →
    ∀ group ∈ w'.topology.groups, holder group.groupId w'.policy.log = none →
      w'.policy.launching.countP (onGroup group.groupId) = 0 →
      w'.policy.running.countP (onGroup group.groupId) < 2 →
        ∀ x ∈ w'.policy.waiting, x.2 ≠ group.groupId

-- ---------------------------------------------------------------------------
-- The slots
-- ---------------------------------------------------------------------------

/-- The slots are those of the log, and held by open requests on their group. -/
structure Seated (p : Srtf) : Prop where
  held : ∀ groupId, p.activeRequestByGroup.get? groupId = holder groupId p.log
  opened : ∀ groupId requestId, p.activeRequestByGroup.get? groupId = some requestId →
    ∃ job, p.books.job? requestId = some job ∧ job.lane = groupId

structure Sized (p : Srtf) : Prop where
  known : ∀ requestId, p.requestTotalWork.get? requestId ≠ none →
    ∃ job, .opened requestId job ∈ p.books.log
  totals : ∀ requestId first job, .opened requestId first ∈ p.books.log →
    p.books.job? requestId = some job →
      p.requestTotalWork.get? requestId = some (first.owed : WithTop ℚ) ∨
        p.requestTotalWork.get? requestId = none ∧
          p.remainingWork requestId = (first.owed : WithTop ℚ)

structure Ordered (p : Srtf) : Prop where
  numbered : ∀ requestId job, p.books.job? requestId = some job →
    ∃ number, p.requestSubmitSeq.get? requestId = some number ∧ number < p.submitCounter
  ordered : ∀ requestId other job otherJob number otherNumber,
    p.books.job? requestId = some job → p.books.job? other = some otherJob →
    p.requestSubmitSeq.get? requestId = some number →
    p.requestSubmitSeq.get? other = some otherNumber → number ≤ otherNumber →
      requestId = other ∨ Before p.books.log requestId other

structure Jobs (load : Workload) (estimator : TaskRuntimeEstimator) (w : World Srtf) : Prop where
  sound : Sound load estimator w
  seated : Seated w.policy
  sized : Sized w.policy
  ordered : Ordered w.policy

theorem Sized.snapshot (h : Sized p) (hm : ∃ job, .opened requestId job ∈ p.books.log) :
    Sized (p.snapshot requestId) ∧ (p.snapshot requestId).books = p.books ∧
      (∀ other, p.requestTotalWork.get? other ≠ none →
        (p.snapshot requestId).requestTotalWork.get? other ≠ none) ∧
      (p.snapshot requestId).requestTotalWork.get? requestId ≠ none := by
  cases ht : p.requestTotalWork.get? requestId with
  | some total =>
    have hsame : p.snapshot requestId = p := by
      unfold Srtf.snapshot
      rw [ht]
    rw [hsame, ht]
    exact ⟨h, rfl, fun _ hne => hne, by simp⟩
  | none =>
    have hnew : p.snapshot requestId = { p with
        requestTotalWork := p.requestTotalWork.set requestId (p.remainingWork requestId) } := by
      unfold Srtf.snapshot
      rw [ht]
    rw [hnew]
    refine ⟨⟨fun other hne => ?_, fun other first job hf hj => ?_⟩, rfl, fun other hne => ?_, ?_⟩
    · by_cases heq : requestId = other
      · exact heq ▸ hm
      · exact h.known other (by rwa [Dict.get?_set_ne _ heq] at hne)
    · by_cases heq : requestId = other
      · subst heq
        rcases h.totals requestId first job hf hj with hsome | ⟨-, hrem⟩
        · rw [ht] at hsome
          cases hsome
        · exact .inl (by rw [Dict.get?_set_self, hrem])
      · rw [Dict.get?_set_ne _ heq]
        exact h.totals other first job hf hj
    · by_cases heq : requestId = other
      · simp [heq]
      · rwa [Dict.get?_set_ne _ heq]
    · simp

theorem Sized.snapshots (h : Sized p) {requestIds : List String}
    (hm : ∀ requestId ∈ requestIds, ∃ job, .opened requestId job ∈ p.books.log) :
    Sized (requestIds.foldl Srtf.snapshot p) ∧
      (∀ other, p.requestTotalWork.get? other ≠ none →
        (requestIds.foldl Srtf.snapshot p).requestTotalWork.get? other ≠ none) ∧
      ∀ requestId ∈ requestIds,
        (requestIds.foldl Srtf.snapshot p).requestTotalWork.get? requestId ≠ none := by
  induction requestIds generalizing p with
  | nil => exact ⟨h, fun _ hne => hne, fun _ hmem => absurd hmem List.not_mem_nil⟩
  | cons requestId rest ih =>
    obtain ⟨hhead, hrest⟩ := List.forall_mem_cons.mp hm
    obtain ⟨hs, hbooks, hkeep, hown⟩ := h.snapshot hhead
    obtain ⟨hs', hkeep', hown'⟩ := ih hs (by rwa [hbooks])
    exact ⟨hs', fun other hne => hkeep' other (hkeep other hne),
      List.forall_mem_cons.mpr ⟨hkeep' requestId hown, hown'⟩⟩

-- ---------------------------------------------------------------------------
-- Turns
-- ---------------------------------------------------------------------------

theorem Sound.key_open (h : Sound load estimator w)
    (hb : w.policy.runnableByGroup.get? groupId = some byRequest)
    (hk : requestId ∈ byRequest.keys) :
    ∃ job, w.policy.books.job? requestId = some job ∧ job.lane = groupId := by
  obtain ⟨queue, hq⟩ := Option.isSome_iff_exists.mp ((Dict.mem_keys _ _).mp hk)
  cases queue with
  | nil => exact absurd hq ((h.queued.proper groupId byRequest hb).2 requestId)
  | cons task queue =>
    obtain ⟨hm, howner⟩ := h.mem_waiting hb hq
    rw [← howner]
    exact h.fed _ hm

theorem Sized.chosen (h : Jobs load estimator w)
    (hb : w.policy.runnableByGroup.get? groupId = some byRequest) :
    Sized (selectShortestJob w.policy groupId byRequest).2 := by
  unfold selectShortestJob
  split
  · exact h.sized
  · refine (h.sized.snapshots fun requestId hk => ?_).1
    obtain ⟨job, hj, -⟩ := h.sound.key_open hb hk
    obtain ⟨first, hm, -⟩ := Backlog.lane_of_jobs hj
    exact ⟨first, hm⟩

theorem Jobs.turn (h : Jobs load estimator w)
    (ht : Turn selectShortestJob groupId w xs w') : Jobs load estimator w' := by
  have hsound := h.sound.turn selectShortestJob_choice ht
  cases ht with
  | idle => exact h
  | passed hb hs =>
    rename_i byRequest
    have hsized := Sized.chosen h hb
    obtain ⟨totals, htotals⟩ := selectShortestJob_choice.totals w.policy groupId byRequest
    rw [htotals] at hsound hsized ⊢
    exact ⟨hsound, ⟨h.seated.held, h.seated.opened⟩, hsized,
      ⟨h.ordered.numbered, h.ordered.ordered⟩⟩
  | started hroom hb hs hq =>
    rename_i byRequest requestId task queue
    have hsized := Sized.chosen h hb
    obtain ⟨hm, howner⟩ := h.sound.mem_waiting hb hq
    obtain ⟨totals, htotals⟩ := selectShortestJob_choice.totals w.policy groupId byRequest
    rw [htotals] at hsound hsized ⊢
    refine ⟨hsound, ⟨fun lane => ?_, fun lane other hactive => ?_⟩,
      ⟨hsized.known, hsized.totals⟩, ⟨h.ordered.numbered, h.ordered.ordered⟩⟩
    · show (w.policy.activeRequestByGroup.set groupId requestId).get? lane =
        if groupId = lane then some task.requestId else holder lane w.policy.log
      rw [Dict.get?_set, howner, h.seated.held]
    · replace hactive : (w.policy.activeRequestByGroup.set groupId requestId).get? lane =
        some other := hactive
      rw [Dict.get?_set] at hactive
      split at hactive
      · rename_i heq
        cases hactive
        obtain ⟨job, hj, hl⟩ := h.sound.fed _ hm
        rw [howner] at hj
        exact ⟨job, hj, hl.trans heq⟩
      · exact h.seated.opened lane other hactive

theorem Jobs.submitSeq (h : Jobs load estimator w)
    (hj : w.policy.books.job? requestId = some job) :
    w.policy.requestSubmitSeq.get? requestId = some (w.policy.submitSeq requestId) := by
  obtain ⟨number, hn, -⟩ := h.ordered.numbered requestId job hj
  rw [Srtf.submitSeq, Dict.getD_of_get? hn, hn]

theorem selectShortestJob_admits (h : Jobs load estimator w)
    (hb : w.policy.runnableByGroup.get? groupId = some byRequest)
    (hs : (selectShortestJob w.policy groupId byRequest).1 = some requestId)
    (hq : byRequest.get? requestId = some (task :: queue)) :
    Admits w.policy.books w.policy.log (task, groupId) := by
  obtain ⟨hm, howner⟩ := h.sound.mem_waiting hb hq
  have hheld := h.seated.held groupId
  unfold selectShortestJob at hs
  cases hactive : w.policy.activeRequestByGroup.get? groupId with
  | some active =>
    rw [hactive] at hs hheld
    simp only at hs
    split at hs
    · cases hs
      refine ⟨fun requestId hholder => ?_, fun hnone => ?_⟩
      · rw [howner]
        exact Option.some.inj (hheld.trans hholder)
      · rw [← hheld] at hnone
        cases hnone
    · cases hs
  | none =>
    rw [hactive] at hs hheld
    refine ⟨fun requestId hholder => ?_, fun _ y hy hlane job other hj ho => ?_⟩
    · rw [← hheld] at hholder
      cases hholder
    obtain ⟨hkey, hle⟩ := leastBy_least hs
    obtain ⟨byRequest', hb', hykey⟩ := h.sound.queued.mem_keys hy
    obtain rfl : byRequest = byRequest' := by
      rw [show y.2 = groupId from hlane, hb] at hb'
      exact Option.some.inj hb'
    have hopened : ∀ requestId ∈ byRequest.keys, ∃ job, .opened requestId job ∈ w.policy.books.log :=
      fun requestId hk => by
        obtain ⟨job, hj, -⟩ := h.sound.key_open hb hk
        obtain ⟨first, hm, -⟩ := Backlog.lane_of_jobs hj
        exact ⟨first, hm⟩
    obtain ⟨hsized, -, hknown⟩ := h.sized.snapshots hopened
    obtain ⟨totals, htotals⟩ := snapshots_totals byRequest.keys w.policy
    rw [htotals] at hsized hknown hle
    -- every total is put down by now
    have htotal : ∀ requestId ∈ byRequest.keys, ∀ first,
        .opened requestId first ∈ w.policy.books.log →
          totals.getD requestId ⊤ = (first.owed : WithTop ℚ) := by
      intro requestId hk first hf
      obtain ⟨open', hopen, -⟩ := h.sound.key_open hb hk
      rcases hsized.totals requestId first open' hf hopen with hsome | ⟨hnone, -⟩
      · exact Dict.getD_of_get? hsome _
      · exact absurd hnone (hknown requestId hk)
    obtain ⟨own, hown, -⟩ := h.sound.key_open hb hkey
    obtain ⟨rival, hrival, -⟩ := h.sound.key_open hb hykey
    have hfirst := htotal requestId hkey job (howner ▸ hj)
    have hsecond := htotal y.1.requestId hykey other ho
    rcases Prod.Lex.toLex_le_toLex.mp (hle y.1.requestId hykey) with hlt | ⟨heq, hrest⟩
    · refine .inl ?_
      simp only [hfirst, hsecond] at hlt
      exact WithTop.coe_lt_coe.mp hlt
    · simp only [hfirst, hsecond] at heq
      refine .inr ⟨WithTop.coe_injective heq, ?_⟩
      have hseq : w.policy.submitSeq requestId ≤ w.policy.submitSeq y.1.requestId := by
        rcases Prod.Lex.toLex_le_toLex.mp hrest with hlt | ⟨hsame, -⟩
        · exact hlt.le
        · exact hsame.le
      show task.requestId = _ ∨ Before _ task.requestId _
      rw [howner]
      exact h.ordered.ordered requestId y.1.requestId own rival _ _ hown hrival
        (h.submitSeq hown) (h.submitSeq hrival) hseq

def Quiet (groupId : String) (p : Srtf) : Prop :=
  p.activeRequestByGroup.get? groupId ≠ none ∨ p.hasRoom groupId = false ∨
    ∀ x ∈ p.waiting, x.2 ≠ groupId

theorem Jobs.quiet (h : Jobs load estimator w)
    (ht : Turn selectShortestJob groupId w xs w') : Quiet groupId w'.policy := by
  cases ht with
  | idle hidle =>
    rcases hidle with hroom | hnone
    · exact .inr (.inl hroom)
    · refine .inr (.inr fun x hx hlane => ?_)
      obtain ⟨byRequest, hb, -⟩ := h.sound.queued.mem_keys hx
      rw [hlane, hnone] at hb
      cases hb
  | passed hb hs =>
    rename_i byRequest
    obtain ⟨totals, htotals⟩ := selectShortestJob_choice.totals w.policy groupId byRequest
    rw [htotals]
    refine .inl fun hnone => ?_
    unfold selectShortestJob at hs
    rw [show w.policy.activeRequestByGroup.get? groupId = none from hnone] at hs
    refine (h.sound.queued.proper groupId byRequest hb).1 (Dict.ext' ?_)
    exact List.map_eq_nil_iff.mp (leastBy_eq_none.mp hs)
  | started hroom hb hs hq =>
    refine .inl ?_
    show (Dict.set _ groupId _).get? groupId ≠ none
    rw [Dict.get?_set_self]
    simp

theorem Quiet.turn (h : Quiet lane w.policy) (ht : Turn selectShortestJob groupId w xs w') :
    Quiet lane w'.policy := by
  cases ht with
  | idle => exact h
  | passed hb hs =>
    rename_i byRequest
    obtain ⟨totals, htotals⟩ := selectShortestJob_choice.totals w.policy groupId byRequest
    rw [htotals]
    exact h
  | started hroom hb hs hq =>
    rename_i byRequest requestId task queue
    obtain ⟨totals, htotals⟩ := selectShortestJob_choice.totals w.policy groupId byRequest
    rw [htotals]
    by_cases heq : groupId = lane
    · subst heq
      refine .inl ?_
      show (Dict.set _ groupId _).get? groupId ≠ none
      rw [Dict.get?_set_self]
      simp
    · rcases h with hactive | hroom' | hwait
      · refine .inl ?_
        show (Dict.set _ groupId _).get? lane ≠ none
        rw [Dict.get?_set_ne _ heq]
        exact hactive
      · refine .inr (.inl ?_)
        show decide (Counter.count (Counter.raise _ groupId) lane = 0 ∧
          Counter.count (Counter.raise _ groupId) lane < _) = false
        rw [Counter.count_raise, Counter.count_raise, if_neg heq]
        exact hroom'
      · exact .inr (.inr fun x hx => hwait x (Roster.mem_of_mem_waiting_started hx))

theorem Quiet.pass (h : Quiet lane w.policy) (hp : Pass selectShortestJob groups w xs w') :
    Quiet lane w'.policy := by
  induction hp with
  | nil => exact h
  | cons ht _ ih => exact ih (h.turn ht)

theorem Jobs.pass_quiet (h : Jobs load estimator w)
    (hp : Pass selectShortestJob groups w xs w') :
    ∀ group ∈ groups, Quiet group.groupId w'.policy := by
  induction hp with
  | nil => exact fun _ hm => absurd hm List.not_mem_nil
  | cons ht hrest ih =>
    exact List.forall_mem_cons.mpr ⟨(h.quiet ht).pass hrest, ih (h.turn ht)⟩

theorem Jobs.pass (h : Jobs load estimator w₁)
    (hp : Pass selectShortestJob groups w₁ xs w') (hl : w₁.policy.log = noted ++ w.policy.log)
    (hn : ∀ entry ∈ noted, starts entry = false) (ask : Ask)
    (hgroups : Dispatches w' ask → groups = w₁.topology.groups) :
    Jobs load estimator w' ∧ Serves Admits w ask (xs.map Prod.fst) w' ∧
      Fills w ask (xs.map Prod.fst) w' := by
  obtain ⟨htopology, hbooks, -, -, hlog⟩ := hp.frame selectShortestJob_choice
  have hserved : Served (Admits w₁.policy.books) w₁.policy.log xs :=
    hp.served selectShortestJob_choice (fun _ _ _ _ h ht => h.turn ht)
      (fun _ _ _ _ _ _ h hb hs hq => selectShortestJob_admits h hb hs hq) h
  have hend : Jobs load estimator w' := hp.keeps (fun _ _ _ _ h ht => h.turn ht) h
  refine ⟨hend, ⟨noted, xs, hn, rfl, ?_, ?_⟩, fun hask group hm hholder hzero htwo => ?_⟩
  · rw [hlog, hl]
  · rw [hbooks, ← hl]
    exact hserved
  · rw [htopology, ← hgroups hask] at hm
    rcases h.pass_quiet hp group hm with hactive | hroom | hwait
    · rw [hend.seated.held, hholder] at hactive
      exact absurd rfl hactive
    · rw [← hend.sound.counted.launchPending] at hzero
      rw [← hend.sound.counted.outstanding] at htwo
      exact absurd ⟨hzero, htwo⟩ (of_decide_eq_false hroom)
    · exact hwait

-- ---------------------------------------------------------------------------
-- Between calls
-- ---------------------------------------------------------------------------

def Settled (p : Srtf) : Prop :=
  ∀ requestId job, p.books.job? requestId = some job → p.requestTotalWork.get? requestId ≠ none

structure Rests (load : Workload) (estimator : TaskRuntimeEstimator) (w : World Srtf) : Prop
    extends Jobs load estimator w where
  settled : Settled w.policy

theorem Jobs.known_turn (h : Jobs load estimator w)
    (ht : Turn selectShortestJob groupId w xs w')
    (hk : w.policy.requestTotalWork.get? requestId ≠ none) :
    w'.policy.requestTotalWork.get? requestId ≠ none := by
  have hchosen : ∀ byRequest, w.policy.runnableByGroup.get? groupId = some byRequest →
      (selectShortestJob w.policy groupId byRequest).2.requestTotalWork.get? requestId ≠ none := by
    intro byRequest hb
    unfold selectShortestJob
    split
    · exact hk
    · refine (h.sized.snapshots fun other hm => ?_).2.1 requestId hk
      obtain ⟨job, hj, -⟩ := h.sound.key_open hb hm
      obtain ⟨first, hf, -⟩ := Backlog.lane_of_jobs hj
      exact ⟨first, hf⟩
  cases ht with
  | idle => exact hk
  | passed hb hs => exact hchosen _ hb
  | started hroom hb hs hq => exact hchosen _ hb

theorem Jobs.known_pass (h : Jobs load estimator w)
    (hp : Pass selectShortestJob groups w xs w')
    (hk : w.policy.requestTotalWork.get? requestId ≠ none) :
    w'.policy.requestTotalWork.get? requestId ≠ none := by
  induction hp with
  | nil => exact hk
  | cons ht _ ih => exact ih (h.turn ht) (h.known_turn ht hk)

theorem Seated.congr (h : Seated p) (ha : p'.activeRequestByGroup = p.activeRequestByGroup)
    (hl : ∀ groupId, holder groupId p'.log = holder groupId p.log)
    (hj : ∀ requestId job, p.books.job? requestId = some job →
      ∃ job', p'.books.job? requestId = some job' ∧ job'.lane = job.lane) : Seated p' := by
  refine ⟨fun groupId => by rw [ha, hl, h.held], fun groupId requestId hactive => ?_⟩
  rw [ha] at hactive
  obtain ⟨job, hopen, hlane⟩ := h.opened groupId requestId hactive
  obtain ⟨job', hopen', hlane'⟩ := hj requestId job hopen
  exact ⟨job', hopen', hlane'.trans hlane⟩

theorem Ordered.congr (h : Ordered p)
    (hj : ∀ requestId job, p'.books.job? requestId = some job →
      (∃ job', p.books.job? requestId = some job') ∧
        p'.requestSubmitSeq.get? requestId = p.requestSubmitSeq.get? requestId)
    (hc : p.submitCounter ≤ p'.submitCounter)
    (hb : ∀ requestId other, Before p.books.log requestId other →
      Before p'.books.log requestId other) : Ordered p' := by
  refine ⟨fun requestId job hopen => ?_, ?_⟩
  · obtain ⟨⟨job', hopen'⟩, hseq⟩ := hj requestId job hopen
    obtain ⟨number, hn, hlt⟩ := h.numbered requestId job' hopen'
    exact ⟨number, hseq.trans hn, hlt.trans_le hc⟩
  · intro requestId other job otherJob number otherNumber hopen hother hn hno hle
    obtain ⟨⟨job', hopen'⟩, hseq⟩ := hj requestId job hopen
    obtain ⟨⟨otherJob', hother'⟩, hseqo⟩ := hj other otherJob hother
    exact (h.ordered requestId other job' otherJob' number otherNumber hopen' hother'
      (hseq.symm.trans hn) (hseqo.symm.trans hno) hle).imp_right (hb requestId other)

theorem Before.cons (entry : WorkEntry) (h : Before entries requestId other) :
    Before (entry :: entries) requestId other := by
  obtain ⟨later, job, earlier, rfl, first⟩ := h
  exact ⟨entry :: later, job, earlier, rfl, first⟩

theorem Sized.total (h : Sized p) (hs : Settled p) (hf : .opened requestId first ∈ p.books.log)
    (hj : p.books.job? requestId = some job) :
    p.requestTotalWork.get? requestId = some (first.owed : WithTop ℚ) :=
  (h.totals requestId first job hf hj).resolve_right fun hn => hs requestId job hj hn.1

-- ---------------------------------------------------------------------------
-- Reports and submissions
-- ---------------------------------------------------------------------------

theorem holder_reported (xs : List Posting) (entries : List SrtfEntry) (groupId : String) :
    holder groupId ((xs.map fun x => .reported x.1 x.2) ++ entries) = holder groupId entries := by
  induction xs with
  | nil => rfl
  | cons x rest ih => exact ih

theorem Jobs.reports (h : Jobs load estimator w) (hr : Reports load estimator w w') :
    Jobs load estimator w' := by
  obtain ⟨xs, hl⟩ := hr.log
  refine ⟨hr.sound, h.seated.congr ?_ (fun groupId => ?_) ?_, ?_, h.ordered.congr ?_ ?_ ?_⟩
  · rw [hr.policy]
  · rw [hl, holder_reported]
  · rw [hr.books]
    exact fun _ job hj => ⟨job, hj, rfl⟩
  · rw [hr.policy]
    exact ⟨h.sized.known, h.sized.totals⟩
  · rw [hr.policy]
    exact fun _ job hj => ⟨⟨job, hj⟩, rfl⟩
  · rw [hr.policy]
  · rw [hr.books]
    exact fun _ _ hb => hb

theorem number_new (h : p.requestSubmitSeq.get? requestId = none) : p.number requestId = { p with
    requestSubmitSeq := p.requestSubmitSeq.set requestId p.submitCounter
    submitCounter := p.submitCounter + 1 } := by
  unfold number
  rw [if_neg]
  simp [Dict.contains, h]

theorem Jobs.opens (h : Jobs load estimator w) (ho : Opens load estimator w requestId job w')
    (hn : ∀ job, .opened requestId job ∉ w.policy.books.log)
    (hseq : w.policy.requestSubmitSeq.get? requestId = none) : Jobs load estimator w' := by
  have hpolicy := ho.policy
  rw [number_new hseq] at hpolicy
  have hjob : ∀ other, w'.policy.books.job? other =
      if requestId = other then some job else w.policy.books.job? other := fun other => by
    rw [WorkBooks.job?, ho.log]
    exact Dict.get?_set ..
  have hother : ∀ other otherJob, w.policy.books.job? other = some otherJob →
      requestId ≠ other := by
    rintro other otherJob hj rfl
    obtain ⟨first, hm, -⟩ := Backlog.lane_of_jobs hj
    exact hn first hm
  refine ⟨ho.sound, h.seated.congr ?_ ?_ fun other otherJob hj => ?_,
    ⟨fun other hne => ?_, fun other first otherJob hf hj => ?_⟩, ?_⟩
  · rw [hpolicy]
  · rw [hpolicy]
    exact fun _ => rfl
  · exact ⟨otherJob, by rw [hjob, if_neg (hother other otherJob hj), hj], rfl⟩
  · rw [hpolicy] at hne
    obtain ⟨first, hm⟩ := h.sized.known other hne
    exact ⟨first, by rw [ho.log]; exact List.mem_cons_of_mem _ hm⟩
  · have howed : w'.policy.remainingWork requestId = (job.owed : WithTop ℚ) := by
      rw [Srtf.remainingWork, ho.remaining, Dict.get?_set_self]
    have htotals : w'.policy.requestTotalWork = w.policy.requestTotalWork := by rw [hpolicy]
    rw [htotals]
    rw [ho.log] at hf
    rcases List.mem_cons.mp hf with heq | hf
    · obtain ⟨rfl, rfl⟩ := Backlog.Entry.opened.inj heq
      refine .inr ⟨?_, howed⟩
      by_contra hne
      obtain ⟨earlier, hm⟩ := h.sized.known other hne
      exact hn earlier hm
    · have hne : requestId ≠ other := fun heq => hn first (heq ▸ hf)
      rw [hjob, if_neg hne] at hj
      have hsame : w'.policy.remainingWork other = w.policy.remainingWork other := by
        rw [Srtf.remainingWork, ho.remaining, Dict.get?_set_ne _ hne, Srtf.remainingWork]
      rw [hsame]
      exact h.sized.totals other first otherJob hf hj
  · have hnumber : ∀ other otherJob, w.policy.books.job? other = some otherJob →
        w'.policy.requestSubmitSeq.get? other = w.policy.requestSubmitSeq.get? other := by
      intro other otherJob hj
      rw [hpolicy]
      exact Dict.get?_set_ne _ (hother other otherJob hj) _
    have hown : w'.policy.requestSubmitSeq.get? requestId = some w.policy.submitCounter := by
      rw [hpolicy]
      exact Dict.get?_set_self ..
    have hcounter : w'.policy.submitCounter = w.policy.submitCounter + 1 := by rw [hpolicy]
    constructor
    · intro other otherJob hj
      rw [hjob] at hj
      rw [hcounter]
      split at hj
      · rename_i heq
        subst heq
        exact ⟨_, hown, Nat.lt_succ_self _⟩
      · obtain ⟨number, hnum, hlt⟩ := h.ordered.numbered other otherJob hj
        exact ⟨number, (hnumber other otherJob hj).trans hnum, hlt.trans (Nat.lt_succ_self _)⟩
    · intro first second firstJob secondJob number otherNumber hfirst hsecond hnum hnumo hle
      rw [hjob] at hfirst hsecond
      rw [ho.log]
      split at hsecond
      · rename_i heq
        subst heq
        split at hfirst
        · rename_i hsame
          exact .inl hsame.symm
        · obtain ⟨earlier, hm, -⟩ := Backlog.lane_of_jobs hfirst
          exact .inr ⟨[], job, w.policy.books.log, rfl, earlier, hm⟩
      · obtain ⟨bound, hbound, hlt⟩ := h.ordered.numbered second secondJob hsecond
        rw [hnumber second secondJob hsecond] at hnumo
        obtain rfl := Option.some.inj (hnumo.symm.trans hbound)
        split at hfirst
        · rename_i heq
          subst heq
          obtain rfl := Option.some.inj (hown.symm.trans hnum)
          exact absurd hlt (not_lt.mpr hle)
        · rw [hnumber first firstJob hfirst] at hnum
          exact (h.ordered.ordered first second firstJob secondJob number otherNumber hfirst hsecond
            hnum hnumo hle).imp_right (Before.cons _)

theorem Rests.refuses (h : Rests load estimator w) (hr : Refuses load estimator w requestId w')
    (hn : ∀ job, .opened requestId job ∉ w.policy.books.log)
    (hseq : w.policy.requestSubmitSeq.get? requestId = none) : Rests load estimator w' := by
  have hpolicy := hr.policy
  rw [number_new hseq] at hpolicy
  have hjob : ∀ other, w'.policy.books.job? other = w.policy.books.job? other := fun other => by
    rw [WorkBooks.job?, hr.log, WorkBooks.job?]
  have htotals : w'.policy.requestTotalWork = w.policy.requestTotalWork := by rw [hpolicy]
  refine ⟨⟨hr.sound, h.seated.congr ?_ ?_ fun other job hj => ?_, ?_,
    h.ordered.congr (fun other job hj => ?_) ?_ ?_⟩, fun other job hj => ?_⟩
  · rw [hpolicy]
  · rw [hpolicy]
    exact fun _ => rfl
  · exact ⟨job, by rw [hjob, hj], rfl⟩
  · have hremaining : ∀ name, w'.policy.remainingWork name = w.policy.remainingWork name :=
      fun name => by rw [Srtf.remainingWork, hr.remaining, Srtf.remainingWork]
    refine ⟨fun other hne => ?_, fun other first job hf hj => ?_⟩
    · rw [htotals] at hne
      rw [hr.log]
      exact h.sized.known other hne
    · rw [hr.log] at hf
      rw [hjob] at hj
      rw [htotals, hremaining]
      exact h.sized.totals other first job hf hj
  · rw [hjob] at hj
    refine ⟨⟨job, hj⟩, ?_⟩
    have hne : requestId ≠ other := by
      rintro rfl
      obtain ⟨first, hm, -⟩ := Backlog.lane_of_jobs hj
      exact hn first hm
    rw [hpolicy]
    exact Dict.get?_set_ne _ hne _
  · rw [hpolicy]
    exact Nat.le_succ _
  · rw [hr.log]
    exact fun _ _ hb => hb
  · rw [hjob] at hj
    rw [htotals]
    exact h.settled other job hj

-- ---------------------------------------------------------------------------
-- Events
-- ---------------------------------------------------------------------------

/-- What events keep besides the queues and counters. -/
structure Tidy (p : Srtf) : Prop where
  seated : Seated p
  sized : Sized p
  ordered : Ordered p
  settled : Settled p

theorem Rests.tidy (h : Rests load estimator w) : Tidy w.policy :=
  ⟨h.seated, h.sized, h.ordered, h.settled⟩

theorem Tidy.rests (h : Tidy w.policy) (hs : Sound load estimator w) : Rests load estimator w :=
  ⟨⟨hs, h.seated, h.sized, h.ordered⟩, h.settled⟩

theorem Tidy.congr (h : Tidy p) (hb : p'.books = p.books)
    (ha : p'.activeRequestByGroup = p.activeRequestByGroup)
    (ht : p'.requestTotalWork = p.requestTotalWork)
    (hs : p'.requestSubmitSeq = p.requestSubmitSeq) (hc : p'.submitCounter = p.submitCounter)
    (hl : ∀ groupId, holder groupId p'.log = holder groupId p.log) : Tidy p' := by
  refine ⟨h.seated.congr ha hl ?_, ⟨?_, ?_⟩, h.ordered.congr ?_ hc.ge ?_, ?_⟩
  · rw [hb]
    exact fun _ job hj => ⟨job, hj, rfl⟩
  · rw [hb, ht]
    exact h.sized.known
  · intro requestId first job hf hj
    rw [hb] at hf hj
    rw [ht, Srtf.remainingWork, hb]
    exact h.sized.totals requestId first job hf hj
  · rw [hb, hs]
    exact fun _ job hj => ⟨⟨job, hj⟩, rfl⟩
  · rw [hb]
    exact fun _ _ hbefore => hbefore
  · intro requestId job hj
    rw [hb] at hj
    rw [ht]
    exact h.settled requestId job hj

theorem markTaskLaunchFinished_eq (p : Srtf) (taskId : String) : p.markTaskLaunchFinished taskId =
    { p with
      tasksPendingLaunch := (p.markTaskLaunchFinished taskId).tasksPendingLaunch
      launchPendingByGroup := (p.markTaskLaunchFinished taskId).launchPendingByGroup
      log := .launched taskId :: p.log } := by
  unfold markTaskLaunchFinished
  simp only
  split <;> rfl

theorem Tidy.charge (h : Tidy p) (event : WorkerEvent) : Tidy (p.chargeCompletedTask event) := by
  have hlog := (WorkBooks.chargeCompletedTask_books p.books event.requestId event.taskId).1
  have hjob : ∀ other job,
      (p.books.chargeCompletedTask event.requestId event.taskId).job? other = some job →
        ∃ before, p.books.job? other = some before := by
    intro other job hj
    rw [WorkBooks.job?_charge] at hj
    split at hj
    · obtain ⟨before, hb, -⟩ := Option.map_eq_some_iff.mp hj
      exact ⟨before, hb⟩
    · exact ⟨job, hj⟩
  have hopened : ∀ other first,
      .opened other first ∈ (p.books.chargeCompletedTask event.requestId event.taskId).log →
        .opened other first ∈ p.books.log := by
    intro other first hf
    rw [hlog] at hf
    simpa using hf
  refine ⟨h.seated.congr rfl (fun _ => rfl) fun other job hj => ?_,
    ⟨fun other hne => ?_, fun other first job hf hj => ?_⟩,
    h.ordered.congr (fun other job hj => ⟨hjob other job hj, rfl⟩) le_rfl fun _ _ hb => ?_,
    fun other job hj => ?_⟩
  · show ∃ job', (p.books.chargeCompletedTask event.requestId event.taskId).job? other = some job' ∧
      job'.lane = job.lane
    rw [WorkBooks.job?_charge, hj]
    split
    · exact ⟨job.pay event.taskId, rfl, rfl⟩
    · exact ⟨job, rfl, rfl⟩
  · obtain ⟨first, hf⟩ := h.sized.known other hne
    refine ⟨first, ?_⟩
    show _ ∈ (p.books.chargeCompletedTask event.requestId event.taskId).log
    rw [hlog]
    exact List.mem_cons_of_mem _ hf
  · obtain ⟨before, hb⟩ := hjob other job hj
    exact .inl (h.sized.total h.settled (hopened other first hf) hb)
  · show Before (p.books.chargeCompletedTask event.requestId event.taskId).log _ _
    rw [hlog]
    exact hb.cons _
  · obtain ⟨before, hb⟩ := hjob other job hj
    exact h.settled other before hb

theorem Tidy.endRequest (h : Tidy w.policy) (hs : Sound load estimator w)
    (hp : w.policy.books.InPlace event.requestId (w.policy.books.eventGroup event)) :
    Tidy (w.policy.endRequest event) := by
  -- the slots of the request are the one it has on its group
  have hslots : ∀ groupId, (w.policy.endRequest event).activeRequestByGroup.get? groupId =
      if w.policy.activeRequestByGroup.get? groupId = some event.requestId then none
      else w.policy.activeRequestByGroup.get? groupId := by
    intro groupId
    rw [endRequest_eq]
    simp only
    by_cases hown : w.policy.activeRequestByGroup.get? groupId = some event.requestId
    · obtain ⟨job, hj, rfl⟩ := h.seated.opened groupId event.requestId hown
      simp only [hs.eventGroup hp hj, hown, if_true, Dict.get?_erase_self]
    · rw [if_neg hown]
      split
      · rfl
      · rename_i lane _
        split
        · rename_i hlane
          refine Dict.get?_erase_ne _ fun heq => hown ?_
          rw [← heq, hlane]
        · rfl
  have hjob : ∀ other, (w.policy.endRequest event).books.job? other =
      if event.requestId = other then none else w.policy.books.job? other := by
    intro other
    rw [endRequest_books, WorkBooks.job?_cleanup]
  have hlog : (w.policy.endRequest event).books.log =
      .closed event.requestId :: w.policy.books.log := by
    rw [endRequest_books]
    rfl
  have hopen : ∀ other job, (w.policy.endRequest event).books.job? other = some job →
      event.requestId ≠ other ∧ w.policy.books.job? other = some job := by
    intro other job hj
    rw [hjob] at hj
    split at hj
    · cases hj
    · exact ⟨‹_›, hj⟩
  have htotals : (w.policy.endRequest event).requestTotalWork =
      w.policy.requestTotalWork.erase event.requestId := by rw [endRequest_eq]
  refine ⟨⟨fun groupId => ?_, fun groupId requestId hactive => ?_⟩,
    ⟨fun other hne => ?_, fun other first job hf hj => ?_⟩,
    h.ordered.congr (fun other job hj => ?_) ?_ fun _ _ hb => ?_, fun other job hj => ?_⟩
  · rw [hslots, h.seated.held, endRequest_eq]
    rfl
  · rw [hslots] at hactive
    split at hactive
    · cases hactive
    · rename_i hne
      obtain ⟨job, hj, hl⟩ := h.seated.opened groupId requestId hactive
      have hother : event.requestId ≠ requestId := fun heq => hne (heq ▸ hactive)
      exact ⟨job, by rw [hjob, if_neg hother, hj], hl⟩
  · rw [htotals, Dict.get?_erase] at hne
    split at hne
    · exact absurd rfl hne
    · obtain ⟨first, hf⟩ := h.sized.known other hne
      exact ⟨first, by rw [hlog]; exact List.mem_cons_of_mem _ hf⟩
  · obtain ⟨hne, hj⟩ := hopen other job hj
    rw [hlog] at hf
    rw [htotals, Dict.get?_erase_ne _ hne]
    exact .inl (h.sized.total h.settled (by simpa using hf) hj)
  · obtain ⟨hne, hj⟩ := hopen other job hj
    refine ⟨⟨job, hj⟩, ?_⟩
    rw [endRequest_eq]
    exact Dict.get?_erase_ne _ hne
  · rw [endRequest_eq]
  · rw [hlog]
    exact hb.cons _
  · obtain ⟨hne, hj⟩ := hopen other job hj
    rw [htotals, Dict.get?_erase_ne _ hne]
    exact h.settled other job hj

theorem Rests.noteEvent (h : Rests load estimator w) (hr : Regular load w (.event event))
    (hp : Prompt w (.event event)) :
    Rests load estimator { w with policy := w.policy.noteEvent event } := by
  refine Tidy.rests ?_ (h.sound.noteEvent hr hp)
  have hmark : Tidy (w.policy.markTaskLaunchFinished event.taskId) := by
    rw [markTaskLaunchFinished_eq]
    exact h.tidy.congr rfl rfl rfl rfl rfl fun _ => rfl
  have hrelease : Tidy ((w.policy.markTaskLaunchFinished event.taskId).releaseDispatchedTask
      event.taskId) := hmark.congr rfl rfl rfl rfl rfl fun _ => rfl
  cases hk : event.kind with
  | taskLaunchEnd =>
    simp only [Srtf.noteEvent, hk]
    exact hmark.charge event
  | taskExecEnd =>
    simp only [Srtf.noteEvent, hk]
    exact hrelease.charge event
  | taskFailed =>
    simp only [Srtf.noteEvent, hk]
    exact hrelease
  | requestFinished | requestFailed =>
    simp only [Srtf.noteEvent, hk]
    exact h.tidy.endRequest h.sound (hp (by rw [hk]; rfl))
  | taskLaunchBegin | taskExecBegin =>
    simp only [Srtf.noteEvent, hk]
    exact h.tidy

-- ---------------------------------------------------------------------------
-- Calls
-- ---------------------------------------------------------------------------

/-- Requests end where they run and are not heard of afterwards. -/
def InPlace (load : Workload) (w : World Srtf) (ask : Ask) : Prop :=
  Regular load w ask ∧ Prompt w ask

theorem Jobs.total (h : Jobs load estimator w) (job : Backlog.Job String String ℚ)
    (hn : ∀ first, .opened requestId first ∈ w.policy.books.log → first = job)
    (hm : .opened requestId job ∈ w.policy.books.log)
    (hr : w.policy.remainingWork requestId = (job.owed : WithTop ℚ))
    (hs : ∀ other otherJob, requestId ≠ other → w.policy.books.job? other = some otherJob →
      w.policy.requestTotalWork.get? other ≠ none) :
    Rests load estimator { w with policy := { w.policy with
      requestTotalWork :=
        w.policy.requestTotalWork.set requestId (w.policy.remainingWork requestId) } } := by
  refine ⟨⟨h.sound.aside rfl rfl rfl rfl rfl rfl rfl, ⟨h.seated.held, h.seated.opened⟩,
    ⟨fun other hne => ?_, fun other first otherJob hf hj => ?_⟩,
    ⟨h.ordered.numbered, h.ordered.ordered⟩⟩, fun other otherJob hj => ?_⟩
  · by_cases heq : requestId = other
    · exact ⟨job, heq ▸ hm⟩
    · exact h.sized.known other (by rwa [Dict.get?_set_ne _ heq] at hne)
  · by_cases heq : requestId = other
    · subst heq
      obtain rfl := hn first hf
      exact .inl (by rw [Dict.get?_set_self, hr])
    · simp only [Dict.get?_set_ne _ heq]
      exact h.sized.totals other first otherJob hf hj
  · by_cases heq : requestId = other
    · simp [heq]
    · simp only [Dict.get?_set_ne _ heq]
      exact hs other otherJob heq hj

/-- The jobs that a call leaves behind, with what it dispatched. -/
def Leaves (load : Workload) (estimator : TaskRuntimeEstimator) (w : World Srtf) (ask : Ask)
    (out : List InferenceTask) (w' : World Srtf) : Prop :=
  Rests load estimator w' ∧ Serves Admits w ask out w' ∧ Fills w ask out w'

theorem Rests.nothing (h : Rests load estimator w') (hl : w'.policy.log = w.policy.log)
    (ha : ¬ Dispatches w' ask) : Leaves load estimator w ask [] w' :=
  ⟨h, .nothing _ _ hl, fun hask => absurd hask ha⟩

theorem Rests.pass (h : Rests load estimator w₁)
    (hp : Pass selectShortestJob groups w₁ xs w') (hl : w₁.policy.log = noted ++ w.policy.log)
    (hn : ∀ entry ∈ noted, starts entry = false) (ask : Ask)
    (hgroups : Dispatches w' ask → groups = w₁.topology.groups) :
    Leaves load estimator w ask (xs.map Prod.fst) w' := by
  obtain ⟨hjobs, hserves, hfills⟩ := h.toJobs.pass hp hl hn ask hgroups
  refine ⟨⟨hjobs, fun requestId job hj => ?_⟩, hserves, hfills⟩
  rw [(hp.frame selectShortestJob_choice).2.1] at hj
  exact h.toJobs.known_pass hp (h.settled requestId job hj)

theorem onJobSubmitted_leaves (h : Rests load estimator w)
    (hn : ∀ job, .opened requestId job ∉ w.policy.books.log)
    (hseq : w.policy.requestSubmitSeq.get? requestId = none) :
    wp (onJobSubmitted (load.plan requestId))
      (Leaves load estimator w (.submitted (load.plan requestId)))
      (fun _ => Leaves load estimator w (.submitted (load.plan requestId)) []) w := by
  simp only [onJobSubmitted, modifyPolicy, wp_bind, wp_modify, wp_pure, load.named requestId]
  refine wp_mono (onRequestSubmitted_opens selectShortestJob_choice h.sound hn)
    ?_ fun _ w' hr => ?_
  · rintro out w' ⟨job, w₁, w₂, xs, ho, hr, hp, hout, -⟩
    obtain ⟨noted, hl, hnoted⟩ := hr.noted
    have hlog : w₂.policy.log = noted ++ w.policy.log := by
      rw [hl, ho.policy, number_eq]
    have hjobs := (h.toJobs.opens ho hn hseq).reports hr
    obtain ⟨hend, hserves, hfills⟩ := hjobs.pass hp hlog hnoted (.submitted (load.plan requestId))
      fun _ => rfl
    have hbooks : w'.policy.books = w₁.policy.books :=
      (hp.frame selectShortestJob_choice).2.1.trans hr.books
    rw [hout]
    refine ⟨hend.total job (fun first hf => ?_) ?_ ?_ fun other otherJob hne hj => ?_,
      hserves, hfills⟩
    · rw [hbooks, ho.log] at hf
      rcases List.mem_cons.mp hf with heq | hf
      · exact (Backlog.Entry.opened.inj heq).2
      · exact absurd hf (hn first)
    · rw [hbooks, ho.log]
      exact List.mem_cons_self ..
    · rw [Srtf.remainingWork, hbooks, ho.remaining, Dict.get?_set_self]
    · refine hjobs.known_pass hp ?_
      rw [hbooks, WorkBooks.job?, ho.log] at hj
      rw [hr.policy, ho.policy, number_eq]
      exact h.settled other otherJob ((Dict.get?_set_ne _ hne _).symm.trans hj)
  · refine (h.refuses hr hn hseq).nothing ?_ ?_
    · rw [hr.policy, number_eq]
    · rintro ⟨job, hm⟩
      rw [hr.log, load.named requestId] at hm
      exact hn job hm

theorem sjf_ask_leaves (h : Rests load estimator w) (ask : Ask) (ha : InPlace load w ask) :
    wp (ask.run sjfPolicy) (Leaves load estimator w ask)
      (fun _ => Leaves load estimator w ask []) w := by
  obtain ⟨hr, hp⟩ := ha
  cases ask with
  | submitted plan =>
    obtain ⟨hplan, hn, hseq⟩ := hr
    simp only [Ask.run, sjfPolicy]
    rw [hplan]
    exact onJobSubmitted_leaves h hn hseq
  | runnable tasks =>
    obtain ⟨hnodup, hm⟩ := hr
    refine wp_mono (onTasksRunnable_reports selectShortestJob_choice h.sound hnodup
      fun task ht => ⟨(hm task ht).1, (hm task ht).2.1, hp task ht⟩)
      ?_ fun _ _ he => he.elim
    rintro out w' ⟨w₁, xs, hreports, hpass, hout, -⟩
    obtain ⟨noted, hl, hnoted⟩ := hreports.noted
    rw [hout]
    refine Rests.pass ⟨h.toJobs.reports hreports, ?_⟩ hpass hl hnoted _ fun _ => rfl
    rw [hreports.policy]
    exact h.settled
  | event event =>
    refine wp_mono (onWorkerEvent_notes selectShortestJob_choice h.sound hr hp)
      ?_ fun _ _ he => he.elim
    rintro out w' ⟨groups, xs, hgroups, hpass, hout, -⟩
    obtain ⟨noted, hl, hnoted⟩ := noteEvent_log w.policy event
    rw [hout]
    exact (h.noteEvent hr hp).pass hpass hl hnoted _ hgroups
  | acquire ranks | release ranks => exact h.nothing rfl fun he => he

theorem srtf_ask_sound (h : Sound load estimator w) (ask : Ask) (ha : InPlace load w ask) :
    wp (ask.run srtfPolicy) (fun _ => Sound load estimator) (fun _ => Sound load estimator) w := by
  obtain ⟨hr, hp⟩ := ha
  cases ask with
  | submitted plan =>
    obtain ⟨hplan, hn, -⟩ := hr
    simp only [Ask.run, srtfPolicy]
    rw [hplan]
    refine wp_mono (onRequestSubmitted_opens selectShortestRequest_choice h hn) ?_
      fun _ _ hr => hr.sound
    rintro _ _ ⟨-, -, -, -, -, -, -, -, hw⟩
    exact hw
  | runnable tasks =>
    obtain ⟨hnodup, hm⟩ := hr
    refine wp_mono (onTasksRunnable_reports selectShortestRequest_choice h hnodup
      fun task ht => ⟨(hm task ht).1, (hm task ht).2.1, hp task ht⟩) ?_ fun _ _ he => he.elim
    rintro _ _ ⟨-, -, -, -, -, hw⟩
    exact hw
  | event event =>
    refine wp_mono (onWorkerEvent_notes selectShortestRequest_choice h hr hp) ?_
      fun _ _ he => he.elim
    rintro _ _ ⟨-, -, -, -, -, hw⟩
    exact hw
  | acquire ranks | release ranks => exact h

end Srtf

/-- In every state of a run of either policy the tasks of a group are throttled;
with shortest job first, every call admits requests as it should. -/
theorem throttled_and_admitted (load : Workload) (estimator : TaskRuntimeEstimator)
    (w : World Srtf) (hinit : w.policy = .init estimator w.topology) (asks : List Ask) :
    (Along srtfPolicy (Srtf.InPlace load) asks w →
      (askAll srtfPolicy asks w).2.policy.Throttled) ∧
    (Along sjfPolicy (Srtf.InPlace load) asks w →
      (askAll sjfPolicy asks w).2.policy.Throttled ∧
      EachCall sjfPolicy (fun w ask out w' =>
        Srtf.Serves Srtf.Admits w ask out w' ∧ Srtf.Fills w ask out w') asks w) := by
  have hsound : Srtf.Sound load estimator w := .init load estimator hinit
  refine ⟨fun ha => ?_, fun ha => ?_⟩
  · have hend := askAll_keeps (fun w ask h ha => Srtf.srtf_ask_sound h ask ha) hsound asks ha
    exact hend.counted.throttled
  · have hrests : Srtf.Rests load estimator w := by
      refine Srtf.Tidy.rests ?_ hsound
      rw [hinit]
      exact ⟨⟨fun _ => rfl, fun _ _ ha => by cases ha⟩,
        ⟨fun _ hne => absurd rfl hne, fun _ _ _ _ hj => by cases hj⟩,
        ⟨fun _ _ hj => (by cases hj), fun _ _ _ _ _ _ hj => by cases hj⟩,
        fun _ _ hj => by cases hj⟩
    obtain ⟨hcalls, hend⟩ := eachCall_of_keeps
      (fun w ask h ha => Srtf.sjf_ask_leaves h ask ha) hrests asks ha
    exact ⟨hend.sound.counted.throttled, hcalls⟩

/-- The request that the group serves goes on before the other. -/
theorem rank_admitted :
    (askAll sjfPolicy rankAsks (rankStart 2)).2.policy.Throttled ∧
    EachCall sjfPolicy (fun w ask out w' =>
      Srtf.Serves Srtf.Admits w ask out w' ∧ Srtf.Fills w ask out w') rankAsks (rankStart 2) := by
  refine (throttled_and_admitted rankLoad (rankEstimator 2) (rankStart 2) rfl rankAsks).2
    ⟨⟨⟨by decide +kernel, Fcfs.not_opened (by decide +kernel), by decide +kernel⟩, trivial⟩,
      ⟨⟨by decide +kernel, Fcfs.not_opened (by decide +kernel), by decide +kernel⟩, trivial⟩,
      ⟨fun _ => ?_, fun he => by cases he⟩,
      ⟨⟨by decide +kernel, fun task hm => ?_⟩, fun task hm => ?_⟩, trivial⟩
  · show "a1" ∈ (rankLoad.plan "a").tasks.keys
    decide +kernel
  · obtain rfl := List.mem_singleton.mp hm
    refine ⟨?_, by decide +kernel, (WorkBooks.exists_open (by decide +kernel)).2⟩
    show _ ∈ (rankLoad.plan "a").tasks.values
    decide +kernel
  · obtain rfl := List.mem_singleton.mp hm
    exact (WorkBooks.exists_open (by decide +kernel)).1

-- A request that makes something on one group and moves it to another, and one
-- that waits for the first group.

def madeHandle : ArtifactHandle := ⟨"m", "made", some "codec"⟩

def movedHandle : ArtifactHandle := ⟨"m", "moved", some "codec"⟩

def makeTask : InferenceTask :=
  ⟨"m0", "m", .textEncode, none, .pending, 0, [], [], [madeHandle], none, ∅⟩

def moveTask : InferenceTask :=
  ⟨"m1", "m", .reshard, none, .pending, 0, ["m0"], [madeHandle], [movedHandle], none,
    (Dict.set ∅ reshardPayloadSrcGroupId (.text "g")).set reshardPayloadDstGroupId (.text "h")⟩

def movePlan : RequestExecutionPlan :=
  ⟨"m", (Dict.set ∅ "m0" makeTask).set "m1" moveTask, ["m1"], [], ∅⟩

def moveLoad : Workload :=
  .ofList [movePlan, longPlan] (by decide) (by decide) (by decide) (by decide)

def moveGroup (groupId : String) (rank : Rank) (kinds : List TaskKind) : ExecutionGroupSpec :=
  soloSpec groupId rank kinds

def moveTopology : RuntimeTopology :=
  ⟨[0, 1], [moveGroup "g" 0 [.textEncode, .reshard], moveGroup "h" 1 [.vaeDecode]],
    two_workers, by decide, by decide⟩

def moveStart : World Srtf :=
  ⟨moveTopology, ∅, 0, .init (rankEstimator 2) moveTopology⟩

def moveAsks : List Ask :=
  [.submitted movePlan, .submitted longPlan, .event ⟨"m0", "m", "g", .taskLaunchEnd, 0, "", []⟩,
    .event ⟨"m0", "m", "g", .taskExecEnd, 0, "", []⟩, .runnable [moveTask],
    .event ⟨"m1", "m", "h", .taskFailed, 0, "", []⟩, .event ⟨"", "m", "h", .requestFailed, 0, "", []⟩]

/-- The slot of a request that failed elsewhere is never free again. -/
theorem failed_move_keeps_slot :
    ¬ ∀ (load : Workload) (estimator : TaskRuntimeEstimator) (w : World Srtf),
      w.policy = .init estimator w.topology → ∀ asks : List Ask,
        Along sjfPolicy (Srtf.Regular load) asks w →
          EachCall sjfPolicy (fun w ask out w' =>
            Srtf.Serves Srtf.Admits w ask out w' ∧ Srtf.Fills w ask out w') asks w := by
  intro h
  have hregular : Along sjfPolicy (Srtf.Regular moveLoad) moveAsks moveStart := by
    have hmade : "m0" ∈ (moveLoad.plan "m").tasks.keys := by decide +kernel
    refine ⟨⟨by decide +kernel, Fcfs.not_opened (by decide +kernel), by decide +kernel⟩,
      ⟨by decide +kernel, Fcfs.not_opened (by decide +kernel), by decide +kernel⟩,
      fun _ => hmade, fun _ => hmade, ⟨by decide +kernel, fun task hm => ?_⟩,
      fun hc => (by cases hc), fun hc => (by cases hc), trivial⟩
    obtain rfl := List.mem_singleton.mp hm
    refine ⟨?_, by decide +kernel, (WorkBooks.exists_open (by decide +kernel)).2⟩
    show _ ∈ (moveLoad.plan "m").tasks.values
    decide +kernel
  obtain ⟨-, -, -, -, -, -, hlast, -⟩ := h moveLoad (rankEstimator 2) moveStart rfl moveAsks hregular
  have hfills := after_of_wp (I := Srtf.Fills moveStart (moveAsks.getLast (by decide)) [])
    (wp_mono hlast (fun _ _ hs => hs.2) fun _ _ hs => hs.2)
  have hask : (WorkerEventKind.requestFailed ≠ .taskLaunchEnd) := by decide
  have hnone := hfills hask (moveGroup "g" 0 [.textEncode, .reshard]) (by decide +kernel)
    (by decide +kernel) (by decide +kernel) (by decide +kernel) (rankTask "b1" "b" "long" [], "g")
    (by decide +kernel)
  exact hnone rfl

end GfDit
