import GfDit.Policies.SrtfRuns

/-!
# The request with the least work left

`SRTFSchedulerPolicy` ranks requests by the figure it keeps of their remaining
work and takes infinity for one it has no figure of. The figure is dropped when
a charge takes it to nothing, so a request that has tasks left then, all
estimated at nothing, is ranked last. In runs where this happens to no request
every task dispatched on a group is of a request with the least work left.
-/

namespace GfDit

open Prog

def WorkBooks.unseen (books : WorkBooks) (requestId : String) : ℚ :=
  ((Backlog.jobs (Backlog.unclosed books.log)).get? requestId).elim 0 Backlog.Job.owed

theorem WorkBooks.unseen_of_open {books : WorkBooks} (h : books.job? requestId = some job) :
    books.unseen requestId = job.owed := by
  rw [unseen, Backlog.get?_jobs_unclosed h]
  rfl

namespace Srtf

variable {load : Workload} {estimator : TaskRuntimeEstimator} {w w₁ w' : World Srtf} {p p' : Srtf}

def Least (books : WorkBooks) (entries : List SrtfEntry) (x : Posting) : Prop :=
  ∀ y ∈ waitingIn entries, y.2 = x.2 → books.unseen x.1.requestId ≤ books.unseen y.1.requestId

def AllStarted (load : Workload) (p : Srtf) (requestId : String) : Prop :=
  ∀ task ∈ (load.plan requestId).tasks.values, task.taskId ∈ (Roster.started p.roster).map idOf

/-- An open request without a figure has no task left to dispatch. -/
def Spent (load : Workload) (p : Srtf) : Prop :=
  ∀ requestId job, p.books.job? requestId = some job →
    p.books.requestRemainingWork.get? requestId = none → AllStarted load p requestId

/-- A charge takes all that is left of a request only when every task of it was
dispatched. -/
def Priced (load : Workload) (w : World Srtf) : Ask → Prop
  | .event event => event.kind.charges = true →
      ∀ job, w.policy.books.job? event.requestId = some job →
        (job.pay event.taskId).owed = 0 → AllStarted load w.policy event.requestId
  | .submitted _ | .runnable _ | .acquire _ | .release _ => True

theorem Spent.congr (h : Spent load p)
    (hj : ∀ requestId job, p'.books.job? requestId = some job →
      p'.books.requestRemainingWork.get? requestId = none →
        p.books.job? requestId = some job ∧
          p.books.requestRemainingWork.get? requestId = none)
    (hs : Roster.started p.roster ⊆ Roster.started p'.roster) : Spent load p' := by
  intro requestId job hopen hnone task hm
  obtain ⟨hopen, hnone⟩ := hj requestId job hopen hnone
  exact List.map_subset idOf hs (h requestId job hopen hnone task hm)

-- ---------------------------------------------------------------------------
-- Choices
-- ---------------------------------------------------------------------------

/-- The figure of a request that waits is what it owes. -/
theorem Spent.remainingWork (hs : Spent load w.policy) (h : Sound load estimator w)
    (hm : x ∈ w.policy.waiting) :
    w.policy.remainingWork x.1.requestId = (w.policy.books.unseen x.1.requestId : ℚ) := by
  obtain ⟨job, hj, -⟩ := h.fed x hm
  have hcovers := h.kept.sound.opened _ job hj
  unfold Srtf.remainingWork
  cases hr : w.policy.books.requestRemainingWork.get? x.1.requestId with
  | none =>
    have hstarted := hs _ job hj hr x.1 (h.has hm)
    have honce := h.fresh.once
    rw [List.map_append, List.nodup_append] at honce
    exact absurd rfl (honce.2.2 _ (List.mem_map_of_mem hm) _ hstarted)
  | some work =>
    have howed := hcovers.remaining
    rw [Dict.getD_of_get? hr] at howed
    rw [WorkBooks.unseen_of_open hj, ← howed]

theorem selectShortestRequest_least (h : Sound load estimator w) (hs : Spent load w.policy)
    (hb : w.policy.runnableByGroup.get? groupId = some byRequest)
    (hselect : (selectShortestRequest w.policy groupId byRequest).1 = some requestId)
    (hq : byRequest.get? requestId = some (task :: queue)) :
    Least w.policy.books w.policy.log (task, groupId) := by
  obtain ⟨hm, howner⟩ := h.mem_waiting hb hq
  obtain ⟨-, hle⟩ := leastBy_least hselect
  intro y hy hlane
  obtain ⟨byRequest', hb', hkey⟩ := h.queued.mem_keys hy
  obtain rfl : byRequest = byRequest' := by
    rw [show y.2 = groupId from hlane, hb] at hb'
    exact Option.some.inj hb'
  have hfirst : w.policy.remainingWork requestId ≤ w.policy.remainingWork y.1.requestId := by
    rcases Prod.Lex.toLex_le_toLex.mp (hle _ hkey) with hlt | ⟨heq, -⟩
    · exact hlt.le
    · exact heq.le
  rw [← howner, hs.remainingWork h hm, hs.remainingWork h hy] at hfirst
  exact WithTop.coe_le_coe.mp hfirst

-- ---------------------------------------------------------------------------
-- Calls
-- ---------------------------------------------------------------------------

structure Ranked (load : Workload) (estimator : TaskRuntimeEstimator) (w : World Srtf) : Prop where
  sound : Sound load estimator w
  spent : Spent load w.policy

theorem started_subset (hl : p'.log = noted ++ p.log) :
    Roster.started p.roster ⊆ Roster.started p'.roster := by
  rw [roster, roster, hl, List.filterMap_append, Roster.started_append]
  exact List.subset_append_left _ _

theorem Ranked.turn (h : Ranked load estimator w)
    (ht : Turn selectShortestRequest groupId w xs w') : Ranked load estimator w' := by
  obtain ⟨-, hbooks, -, -, hlog⟩ := ht.frame selectShortestRequest_choice
  refine ⟨h.sound.turn selectShortestRequest_choice ht, h.spent.congr ?_ (started_subset hlog)⟩
  rw [hbooks]
  exact fun _ _ hj hr => ⟨hj, hr⟩

theorem Ranked.pass (h : Ranked load estimator w₁)
    (hp : Pass selectShortestRequest groups w₁ xs w') (hl : w₁.policy.log = noted ++ w.policy.log)
    (hn : ∀ entry ∈ noted, starts entry = false) (ask : Ask) :
    Ranked load estimator w' ∧ Serves Least w ask (xs.map Prod.fst) w' := by
  obtain ⟨-, hbooks, -, -, hlog⟩ := hp.frame selectShortestRequest_choice
  have hserved : Served (Least w₁.policy.books) w₁.policy.log xs :=
    hp.served selectShortestRequest_choice
    (fun _ _ _ _ h ht => h.turn ht)
    (fun _ _ _ _ _ _ h hb hs hq => selectShortestRequest_least h.sound h.spent hb hs hq) h
  refine ⟨hp.keeps (fun _ _ _ _ h ht => h.turn ht) h, noted, xs, hn, rfl, ?_, ?_⟩
  · rw [hlog, hl]
  · rw [hbooks, ← hl]
    exact hserved

theorem Ranked.reports (h : Ranked load estimator w) (hr : Reports load estimator w w') :
    Ranked load estimator w' := by
  obtain ⟨noted, hl, -⟩ := hr.noted
  refine ⟨hr.sound, h.spent.congr ?_ (started_subset hl)⟩
  rw [hr.books]
  exact fun _ _ hj hr => ⟨hj, hr⟩

theorem Ranked.opens (h : Ranked load estimator w) (ho : Opens load estimator w requestId job w') :
    Ranked load estimator w' := by
  refine ⟨ho.sound, h.spent.congr (fun other otherJob hj hr => ?_) ?_⟩
  · rw [ho.remaining, Dict.get?_set] at hr
    split at hr
    · cases hr
    · rename_i hne
      rw [WorkBooks.job?, ho.log] at hj
      exact ⟨(Dict.get?_set_ne _ hne _).symm.trans hj, hr⟩
  · rw [ho.policy, number_eq]
    exact List.Subset.refl _

theorem Ranked.refuses (h : Ranked load estimator w) (hr : Refuses load estimator w requestId w') :
    Ranked load estimator w' := by
  refine ⟨hr.sound, h.spent.congr ?_ ?_⟩
  · intro other job hj hnone
    rw [WorkBooks.job?, hr.log] at hj
    rw [hr.remaining] at hnone
    exact ⟨hj, hnone⟩
  · rw [hr.policy, number_eq]
    exact List.Subset.refl _

/-- A charge leaves a figure, or the request has no task left to dispatch. -/
theorem Spent.charge (hs : Spent load p) (hb : p.books.Sound load)
    (hk : event.taskId ∈ (load.plan event.requestId).tasks.keys)
    (hpriced : ∀ job, p.books.job? event.requestId = some job →
      (job.pay event.taskId).owed = 0 → AllStarted load p event.requestId) :
    Spent load (p.chargeCompletedTask event) := by
  intro requestId job hj hr
  obtain ⟨cost, hfigures, -, -⟩ := hb.chargeOf hk
  have hcovers := (hb.charge hk).opened requestId job hj
  replace hj : (p.books.chargeCompletedTask event.requestId event.taskId).job? requestId =
    some job := hj
  rw [WorkBooks.job?_charge] at hj
  split at hj
  · rename_i heq
    subst heq
    obtain ⟨before, hbefore, rfl⟩ := Option.map_eq_some_iff.mp hj
    refine hpriced before hbefore ?_
    rw [← hcovers.remaining]
    exact Dict.getD_of_none hr 0
  · rename_i hne
    exact hs requestId job hj ((hfigures.other requestId hne).symm.trans hr)

theorem Ranked.noteEvent (h : Ranked load estimator w) (hr : Regular load w (.event event))
    (hp : Prompt w (.event event)) (hpriced : Priced load w (.event event)) :
    Ranked load estimator { w with policy := w.policy.noteEvent event } := by
  refine ⟨h.sound.noteEvent hr hp, ?_⟩
  -- the entries of launches and ends change no figure
  have hmarked : ∀ p₁ : Srtf, p₁.books = w.policy.books →
      Roster.started p₁.roster = Roster.started w.policy.roster →
        Spent load p₁ ∧ (event.kind.charges = true → Spent load (p₁.chargeCompletedTask event)) := by
    intro p₁ hbooks hstarted
    have hspent : Spent load p₁ := by
      refine h.spent.congr ?_ (hstarted ▸ List.Subset.refl _)
      rw [hbooks]
      exact fun _ _ hj hr => ⟨hj, hr⟩
    refine ⟨hspent, fun hk => hspent.charge ?_ (hr hk) fun job hj howed task hm => ?_⟩
    · rw [hbooks]
      exact h.sound.kept.sound
    · rw [hbooks] at hj
      rw [hstarted]
      exact hpriced hk job hj howed task hm
  have hroster : (w.policy.markTaskLaunchFinished event.taskId).roster = w.policy.roster := by
    unfold markTaskLaunchFinished
    simp only
    split <;> rfl
  have hmark := hmarked _ (markTaskLaunchFinished_books w.policy event.taskId) (by rw [hroster])
  have hrelease := hmarked
    ((w.policy.markTaskLaunchFinished event.taskId).releaseDispatchedTask event.taskId)
    (markTaskLaunchFinished_books w.policy event.taskId)
    (show Roster.started (w.policy.markTaskLaunchFinished event.taskId).roster = _ by rw [hroster])
  cases hk : event.kind with
  | taskLaunchEnd =>
    simp only [Srtf.noteEvent, hk]
    exact hmark.2 (by rw [hk]; rfl)
  | taskExecEnd =>
    simp only [Srtf.noteEvent, hk]
    exact hrelease.2 (by rw [hk]; rfl)
  | taskFailed =>
    simp only [Srtf.noteEvent, hk]
    exact hrelease.1
  | requestFinished | requestFailed =>
    simp only [Srtf.noteEvent, hk, endRequest_eq]
    refine h.spent.congr (fun requestId job hj hnone => ?_) (List.Subset.refl _)
    rw [WorkBooks.job?_cleanup] at hj
    split at hj
    · cases hj
    · rename_i hne
      exact ⟨hj, (Dict.get?_erase_ne _ hne).symm.trans hnone⟩
  | taskLaunchBegin | taskExecBegin =>
    simp only [Srtf.noteEvent, hk]
    exact h.spent

/-- Calls in which no request is dropped from the ranking. -/
def InRank (load : Workload) (w : World Srtf) (ask : Ask) : Prop :=
  Regular load w ask ∧ Prompt w ask ∧ Priced load w ask

theorem Serves.nothing (rule : WorkBooks → List SrtfEntry → Posting → Prop) (ask : Ask)
    (hl : w'.policy.log = w.policy.log) : Serves rule w ask [] w' :=
  ⟨[], [], fun _ hm => absurd hm List.not_mem_nil, rfl, hl, trivial⟩

theorem ask_ranked (h : Ranked load estimator w) (ask : Ask) (ha : InRank load w ask) :
    wp (ask.run srtfPolicy) (fun out w' => Ranked load estimator w' ∧ Serves Least w ask out w')
      (fun _ w' => Ranked load estimator w' ∧ Serves Least w ask [] w') w := by
  obtain ⟨hr, hp, hpriced⟩ := ha
  cases ask with
  | submitted plan =>
    obtain ⟨hplan, hn, -⟩ := hr
    simp only [Ask.run, srtfPolicy]
    rw [hplan]
    refine wp_mono (onRequestSubmitted_opens selectShortestRequest_choice h.sound hn)
      ?_ fun _ w' href => ?_
    · rintro out w' ⟨job, w₁, w₂, xs, ho, hreports, hpass, hout, -⟩
      obtain ⟨noted, hl, hnoted⟩ := hreports.noted
      rw [hout]
      refine ((h.opens ho).reports hreports).pass hpass (w := w) ?_ hnoted _
      rw [hl, ho.policy, number_eq]
    · refine ⟨h.refuses href, .nothing _ _ ?_⟩
      rw [href.policy, number_eq]
  | runnable tasks =>
    obtain ⟨hnodup, hm⟩ := hr
    refine wp_mono (onTasksRunnable_reports selectShortestRequest_choice h.sound hnodup
      fun task ht => ⟨(hm task ht).1, (hm task ht).2.1, hp task ht⟩)
      ?_ fun _ _ he => he.elim
    rintro out w' ⟨w₁, xs, hreports, hpass, hout, -⟩
    obtain ⟨noted, hl, hnoted⟩ := hreports.noted
    rw [hout]
    exact (h.reports hreports).pass hpass hl hnoted _
  | event event =>
    refine wp_mono (onWorkerEvent_notes selectShortestRequest_choice h.sound hr hp)
      ?_ fun _ _ he => he.elim
    rintro out w' ⟨groups, xs, -, hpass, hout, -⟩
    obtain ⟨noted, hl, hnoted⟩ := noteEvent_log w.policy event
    rw [hout]
    exact (h.noteEvent hr hp hpriced).pass hpass hl hnoted _
  | acquire ranks | release ranks => exact ⟨h, .nothing _ _ rfl⟩

end Srtf

/-- Every task is dispatched for a request with the least work left among those
that wait for the group. -/
theorem srtf_picks_least (load : Workload) (estimator : TaskRuntimeEstimator) (w : World Srtf)
    (hinit : w.policy = .init estimator w.topology) (asks : List Ask)
    (ha : Along srtfPolicy (Srtf.InRank load) asks w) :
    EachCall srtfPolicy (Srtf.Serves Srtf.Least) asks w := by
  have hw : Srtf.Ranked load estimator w := by
    refine ⟨.init load estimator hinit, ?_⟩
    rw [hinit]
    exact fun _ _ hj => by cases hj
  exact (eachCall_of_keeps (fun w ask h ha => Srtf.ask_ranked h ask ha) hw asks ha).1

-- Two requests for one group, the second of which has more work.

def rankTask (taskId requestId stage : String) (dependencies : List String) : InferenceTask :=
  ⟨taskId, requestId, .textEncode, none, .pending, 0, dependencies, [], [], none,
    Dict.set ∅ "stage" (.text stage)⟩

def headPlan : RequestExecutionPlan :=
  ⟨"a", (Dict.set ∅ "a1" (rankTask "a1" "a" "head" [])).set "a2"
    (rankTask "a2" "a" "tail" ["a1"]), ["a2"], [], ∅⟩

def longPlan : RequestExecutionPlan :=
  ⟨"b", Dict.set ∅ "b1" (rankTask "b1" "b" "long" []), ["b1"], [], ∅⟩

def rankLoad : Workload :=
  .ofList [headPlan, longPlan] (by decide) (by decide) (by decide) (by decide)

def rankEstimator (tail : ℚ) : TaskRuntimeEstimator := fun _ _ stage =>
  pure ((if stage = "head" then 1 else if stage = "tail" then tail else 5 : ℚ) : WithTop ℚ)

def rankStart (tail : ℚ) : World Srtf :=
  ⟨soloTopology "g", ∅, 0, .init (rankEstimator tail) (soloTopology "g")⟩

def rankAsks : List Ask :=
  [.submitted headPlan, .submitted longPlan,
    .event ⟨"a1", "a", "g", .taskLaunchEnd, 0, "", []⟩,
    .runnable [rankTask "a2" "a" "tail" ["a1"]]]

theorem WorkBooks.exists_open {books : WorkBooks} (h : (books.job? requestId).isSome = true) :
    (∃ job, books.job? requestId = some job) ∧ ∃ job, .opened requestId job ∈ books.log := by
  obtain ⟨job, hj⟩ := Option.isSome_iff_exists.mp h
  obtain ⟨first, hm, -⟩ := Backlog.lane_of_jobs hj
  exact ⟨⟨job, hj⟩, first, hm⟩

/-- The request with less work left goes first. -/
theorem rank_picks_least : EachCall srtfPolicy (Srtf.Serves Srtf.Least) rankAsks (rankStart 2) := by
  refine srtf_picks_least rankLoad (rankEstimator 2) (rankStart 2) rfl rankAsks
    ⟨⟨⟨by decide +kernel, Fcfs.not_opened (by decide +kernel), by decide +kernel⟩, trivial, trivial⟩,
      ⟨⟨by decide +kernel, Fcfs.not_opened (by decide +kernel), by decide +kernel⟩, trivial,
        trivial⟩, ⟨fun _ => ?_, fun he => (by cases he), fun _ job hj howed => ?_⟩,
      ⟨⟨by decide +kernel, fun task hm => ?_⟩, fun task hm => ?_, trivial⟩, trivial⟩
  · show "a1" ∈ (rankLoad.plan "a").tasks.keys
    decide +kernel
  · have hleft : ((after ((Ask.submitted longPlan).run srtfPolicy)
        (after ((Ask.submitted headPlan).run srtfPolicy) (rankStart 2))).policy.books.job? "a").all
          (fun job => (job.pay "a1").owed ≠ 0) = true := by decide +kernel
    rw [hj] at hleft
    exact absurd howed (of_decide_eq_true hleft)
  · obtain rfl := List.mem_singleton.mp hm
    refine ⟨?_, by decide +kernel, (WorkBooks.exists_open (by decide +kernel)).2⟩
    show _ ∈ (rankLoad.plan "a").tasks.values
    decide +kernel
  · obtain rfl := List.mem_singleton.mp hm
    exact (WorkBooks.exists_open (by decide +kernel)).1

/-- A last task that is estimated at nothing is passed over. -/
theorem free_task_passed_over :
    ¬ ∀ (load : Workload) (estimator : TaskRuntimeEstimator) (w : World Srtf),
      w.policy = .init estimator w.topology → ∀ asks : List Ask,
        Along srtfPolicy (Srtf.Regular load) asks w →
          EachCall srtfPolicy (Srtf.Serves Srtf.Least) asks w := by
  intro h
  have hregular : Along srtfPolicy (Srtf.Regular rankLoad) rankAsks (rankStart 0) := by
    refine ⟨⟨by decide +kernel, Fcfs.not_opened (by decide +kernel), by decide +kernel⟩,
      ⟨by decide +kernel, Fcfs.not_opened (by decide +kernel), by decide +kernel⟩, fun _ => ?_,
      ⟨by decide +kernel, fun task hm => ?_⟩, trivial⟩
    · show "a1" ∈ (rankLoad.plan "a").tasks.keys
      decide +kernel
    · obtain rfl := List.mem_singleton.mp hm
      refine ⟨?_, by decide +kernel, (WorkBooks.exists_open (by decide +kernel)).2⟩
      show _ ∈ (rankLoad.plan "a").tasks.values
      decide +kernel
  obtain ⟨-, -, -, hlast, -⟩ := h rankLoad (rankEstimator 0) (rankStart 0) rfl rankAsks hregular
  have hpick := after_of_wp (wp_mono hlast
    (fun _ _ hs => hs.only (rankTask "b1" "b" "long" []) "g"
      [.reported (rankTask "a2" "a" "tail" ["a1"]) "g"])
    fun _ _ hs => hs.only (rankTask "b1" "b" "long" []) "g"
      [.reported (rankTask "a2" "a" "tail" ["a1"]) "g"])
  have hless := hpick (by decide +kernel) (by decide +kernel)
    (rankTask "a2" "a" "tail" ["a1"], "g") (by decide +kernel) rfl
  exact absurd hless (by decide +kernel)

end GfDit
