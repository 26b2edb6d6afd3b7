import GfDit.Simulator.RankDp

/-!
# When something is taken

With all ranks free and the requests, groups and metadata known, a call takes
a task exactly when some ready request is not held back: it is not paused, and
one of the groups it may go to runs its task at a positive score.
-/

namespace GfDit

namespace StepPreemptive

open Driver (Dispatch)

variable {settings : Settings} {state : State}

-- ---------------------------------------------------------------------------
-- Pauses of other requests
-- ---------------------------------------------------------------------------

section Congr

variable {since : Dict String ℚ} {requestId : String}

theorem pauseAgedOut_congr (h : since.get? requestId = state.pausedSinceMs.get? requestId) :
    pauseAgedOut settings { state with pausedSinceMs := since } requestId =
    pauseAgedOut settings state requestId := by
  simp only [pauseAgedOut, h]

theorem candidateGroupIds_congr (h : since.get? requestId = state.pausedSinceMs.get? requestId)
    (info : RequestMeta) (task : InferenceTask) :
    candidateGroupIds settings { state with pausedSinceMs := since } info requestId task =
      candidateGroupIds settings state info requestId task := by
  simp only [candidateGroupIds, pauseAgedOut_congr h]
  rfl

theorem pauses_congr (h : since.get? requestId = state.pausedSinceMs.get? requestId)
    (info : RequestMeta) (task : InferenceTask) :
    pauses settings { state with pausedSinceMs := since } info requestId task =
      pauses settings state info requestId task := by
  simp only [pauses, candidateGroupIds_congr h, pauseAgedOut_congr h]
  rfl

theorem candidateOn_congr (h : since.get? requestId = state.pausedSinceMs.get? requestId)
    (info : RequestMeta) (task : InferenceTask)
    (source : Option ExecutionGroupSpec) (group : ExecutionGroupSpec) :
    candidateOn settings { state with pausedSinceMs := since } info requestId task source group =
      candidateOn settings state info requestId task source group := by
  have hpaused : pausedScore { state with pausedSinceMs := since } requestId =
      pausedScore state requestId := by
    simp only [pausedScore, h]
  simp only [candidateOn, scoreOn, scoreAction, hpaused]
  rfl

/-- Nothing looks at the pauses of other requests. -/
theorem candidateActions_congr (h : since.get? requestId = state.pausedSinceMs.get? requestId)
    (task : InferenceTask) :
    candidateActions settings { state with pausedSinceMs := since } requestId task =
      candidateActions settings state requestId task := by
  have hmeta : metaOf { state with pausedSinceMs := since } requestId = metaOf state requestId := rfl
  have hsource : sourceGroup settings { state with pausedSinceMs := since } requestId =
      sourceGroup settings state requestId := rfl
  have hcandidate : ∀ info source,
      candidateOn settings { state with pausedSinceMs := since } info requestId task source =
        candidateOn settings state info requestId task source :=
    fun info source => funext (candidateOn_congr h info task source)
  simp only [candidateActions, hmeta, hsource, candidateGroupIds_congr h, hcandidate]

end Congr

-- ---------------------------------------------------------------------------
-- Lookups
-- ---------------------------------------------------------------------------

structure Lookups (settings : Settings) (state : State) : Prop where
  metas : ∀ requestId, state.readyByRequest.getD requestId [] ≠ [] →
    (state.requestMeta.get? requestId).isSome
  lastGroup : ∀ requestId groupId, state.requestLastGroup.get? requestId = some groupId →
    (settings.topology.find groupId).isSome

theorem mem_addGroups {ordered items : List String} {groupId : String} :
    groupId ∈ addGroups ordered items ↔ groupId ∈ ordered ∨ groupId ∈ items := by
  unfold addGroups
  induction items generalizing ordered with
  | nil => simp
  | cons item rest ih =>
    rw [List.foldl_cons, ih]
    split
    · next hmem =>
      constructor
      · rintro (h | h)
        · exact .inl h
        · exact .inr (List.mem_cons_of_mem _ h)
      · rintro (h | h)
        · exact .inl h
        · rcases List.mem_cons.mp h with rfl | h
          · exact .inl hmem
          · exact .inr h
    · simp [or_assoc]

theorem groupIds_known {groupId : String} (h : groupId ∈ groupIds settings) :
    (settings.topology.find groupId).isSome := by
  obtain ⟨group, hmem, rfl⟩ := List.mem_map.mp h
  rw [RuntimeTopology.find, List.find?_isSome]
  exact ⟨group, hmem, by simp⟩

theorem latencyGroupIds_sub {groupId : String} (h : groupId ∈ latencyGroupIds settings) :
    groupId ∈ groupIds settings := by
  obtain ⟨group, hmem, rfl⟩ := List.mem_map.mp h
  exact List.mem_map_of_mem (List.mem_of_mem_filter hmem)

theorem smallGroupIds_sub {groupId : String} (h : groupId ∈ smallGroupIds settings) :
    groupId ∈ groupIds settings := by
  obtain ⟨group, hmem, rfl⟩ := List.mem_map.mp h
  refine List.mem_map_of_mem ?_
  split at hmem <;> exact List.mem_of_mem_filter hmem

theorem candidateGroupIds_sub {info : RequestMeta} {requestId groupId : String}
    {task : InferenceTask}
    (h : groupId ∈ candidateGroupIds settings state info requestId task) :
    state.requestLastGroup.get? requestId = some groupId ∨ groupId ∈ groupIds settings := by
  have hall : ∀ items, (∀ id ∈ items, id ∈ groupIds settings) →
      groupId ∈ addGroups (state.requestLastGroup.get? requestId).toList items →
      state.requestLastGroup.get? requestId = some groupId ∨ groupId ∈ groupIds settings := by
    intro items hitems hmem
    rcases mem_addGroups.mp hmem with hmem | hmem
    · exact .inl (Option.mem_toList.mp hmem)
    · exact .inr (hitems groupId hmem)
  have hmore : ∀ items more, (∀ id ∈ items, id ∈ groupIds settings) →
      (∀ id ∈ more, id ∈ groupIds settings) →
      groupId ∈ addGroups (addGroups (state.requestLastGroup.get? requestId).toList items) more →
      state.requestLastGroup.get? requestId = some groupId ∨ groupId ∈ groupIds settings := by
    intro items more hitems hmoreItems hmem
    rcases mem_addGroups.mp hmem with hmem | hmem
    · exact hall items hitems hmem
    · exact .inr (hmoreItems groupId hmem)
  simp only [candidateGroupIds] at h
  split_ifs at h
  · exact hmore _ _ (fun _ => latencyGroupIds_sub) (fun _ => id) h
  · cases h
  · exact hmore _ _ (fun _ => smallGroupIds_sub) (fun _ => id) h
  · exact hall _ (fun _ => smallGroupIds_sub) h
  · exact hmore _ _ (fun _ => smallGroupIds_sub) (fun _ => latencyGroupIds_sub) h
  · exact hmore _ _ (fun _ => latencyGroupIds_sub) (fun _ => id) h

theorem candidateGroup_known (hlookups : Lookups settings state) {info : RequestMeta}
    {requestId groupId : String} {task : InferenceTask}
    (h : groupId ∈ candidateGroupIds settings state info requestId task) :
    (settings.topology.find groupId).isSome :=
  (candidateGroupIds_sub h).elim (hlookups.lastGroup requestId groupId) groupIds_known

theorem candidateActions_ok (hlookups : Lookups settings state) {info : RequestMeta}
    {requestId : String} (hmeta : state.requestMeta.get? requestId = some info)
    (task : InferenceTask) :
    ∃ candidates, candidateActions settings state requestId task = .ok candidates ∧
      candidates.Pairwise (fun a b => b.score ≤ a.score) ∧
      ∀ candidate, candidate ∈ candidates ↔
        ∃ groupId ∈ candidateGroupIds settings state info requestId task,
          ∃ group, settings.topology.find groupId = some group ∧
            candidateOn settings state info requestId task
              (sourceGroup settings state requestId) group = some candidate := by
  obtain ⟨groups, hgroups⟩ : ∃ groups, (candidateGroupIds settings state info requestId task).mapM
      settings.topology.getGroup = .ok groups := by
    refine Except.exists_mapM_ok fun groupId hmem => ?_
    obtain ⟨group, hfind⟩ := Option.isSome_iff_exists.mp (candidateGroup_known hlookups hmem)
    exact ⟨group, RuntimeTopology.getGroup_eq_ok.mpr hfind⟩
  have hfound := Except.forall₂_of_mapM hgroups
  have hinfo : metaOf state requestId = .ok info := by
    rw [metaOf, hmeta]
    rfl
  refine ⟨_, by rw [candidateActions, hinfo, Except.ok_bind, hgroups]; rfl, ?_, fun candidate => ?_⟩
  · refine (List.pairwise_mergeSort ?_ ?_ _).imp fun {a b} hle => ?_
    · intro a b c hab hbc
      simp only [decide_eq_true_eq] at hab hbc ⊢
      exact hab.trans hbc
    · intro a b
      simpa using le_total a.sortKey b.sortKey
    · have hkey := Prod.Lex.toLex_le_toLex.mp (of_decide_eq_true hle)
      rcases hkey with hlt | ⟨heq, -⟩
      · exact (neg_lt_neg_iff.mp hlt).le
      · exact (neg_inj.mp heq).symm.le
  · rw [List.mem_mergeSort, List.mem_filterMap]
    constructor
    · rintro ⟨group, hgroup, hcandidate⟩
      obtain ⟨groupId, hmem, hok⟩ := forall₂_mem_right hfound hgroup
      exact ⟨groupId, hmem, group, RuntimeTopology.getGroup_eq_ok.mp hok, hcandidate⟩
    · rintro ⟨groupId, hmem, group, hfind, hcandidate⟩
      obtain ⟨group', hgroup, hok⟩ := forall₂_mem_left hfound hmem
      cases hfind.symm.trans (RuntimeTopology.getGroup_eq_ok.mp hok)
      exact ⟨group, hgroup, hcandidate⟩

theorem readyRequestIds_ok (hlookups : Lookups settings state) :
    ∃ ids, readyRequestIds state = .ok ids ∧
      ∀ requestId, requestId ∈ ids ↔ state.readyByRequest.getD requestId [] ≠ [] := by
  have hready : ∀ requestId,
      requestId ∈ (state.readyByRequest.entries.filter fun entry => entry.2 ≠ []).map (·.1) ↔
        state.readyByRequest.getD requestId [] ≠ [] := by
    intro requestId
    simp only [List.mem_map, List.mem_filter, decide_eq_true_eq]
    constructor
    · rintro ⟨entry, ⟨hmem, hne⟩, rfl⟩
      rwa [Dict.getD_of_get? (state.readyByRequest.get?_eq_some.mpr hmem)]
    · intro hne
      cases hget : state.readyByRequest.get? requestId with
      | none => exact absurd (Dict.getD_of_none hget []) hne
      | some queue =>
        rw [Dict.getD_of_get? hget] at hne
        exact ⟨(requestId, queue), ⟨state.readyByRequest.get?_eq_some.mp hget, hne⟩, rfl⟩
  have hkey : ∀ requestId ∈
      (state.readyByRequest.entries.filter fun entry => entry.2 ≠ []).map (·.1),
      ∃ pair : RequestKey × String, (do
        pure (← requestSortKey state requestId, requestId) : Except PyError _) = .ok pair ∧
          pair.2 = requestId := by
    intro requestId hmem
    obtain ⟨info, hinfo⟩ :=
      Option.isSome_iff_exists.mp (hlookups.metas requestId ((hready requestId).mp hmem))
    have hkey : ∃ key, requestSortKey state requestId = .ok key :=
      ⟨_, by rw [requestSortKey, metaOf, hinfo]; rfl⟩
    obtain ⟨key, hkey⟩ := hkey
    exact ⟨(key, requestId), by rw [hkey]; rfl, rfl⟩
  obtain ⟨keyed, hkeyed⟩ := Except.exists_mapM_ok fun requestId hmem => (hkey requestId hmem).imp
    fun _ h => h.1
  refine ⟨_, by rw [readyRequestIds, hkeyed]; rfl, fun requestId => ?_⟩
  rw [← hready, List.mem_map]
  have hpairs := Except.forall₂_of_mapM hkeyed
  constructor
  · rintro ⟨pair, hpair, rfl⟩
    obtain ⟨other, hother, hok⟩ := forall₂_mem_right hpairs (List.mem_mergeSort.mp hpair)
    obtain ⟨pair', hok', hid⟩ := hkey other hother
    cases hok.symm.trans hok'
    rwa [hid]
  · intro hmem
    obtain ⟨pair, hpair, hok⟩ := forall₂_mem_left hpairs hmem
    obtain ⟨pair', hok', hid⟩ := hkey requestId hmem
    cases hok.symm.trans hok'
    exact ⟨pair, List.mem_mergeSort.mpr hpair, hid⟩

-- ---------------------------------------------------------------------------
-- Collecting
-- ---------------------------------------------------------------------------

/-- What a request contributes: the best candidates of its head task, unless
it is busy or paused. -/
structure Contributes (settings : Settings) (state : State)
    (entry : String × List ActionCandidate) (info : RequestMeta) (task : InferenceTask)
    (candidates : List ActionCandidate) : Prop where
  known : state.requestMeta.get? entry.1 = some info
  idle : Counter.count state.requestInflight entry.1 = 0
  head : (state.readyByRequest.getD entry.1 []).head? = some task
  unpaused : pauses settings state info entry.1 task = false
  found : candidateActions settings state entry.1 task = .ok candidates
  nonempty : candidates ≠ []
  best : entry.2 = candidates.take settings.topK

theorem shouldPause_eq {since : Dict String ℚ} {requestId : String} {info : RequestMeta}
    (hsince : since.get? requestId = state.pausedSinceMs.get? requestId)
    (hinfo : state.requestMeta.get? requestId = some info) (task : InferenceTask) :
    ∃ later : Dict String ℚ,
      (∀ other, other ≠ requestId → later.get? other = since.get? other) ∧
      (pauses settings state info requestId task = false → later = since) ∧
      shouldPause settings { state with pausedSinceMs := since } requestId task =
        .ok (pauses settings state info requestId task, { state with pausedSinceMs := later }) := by
  have hmeta : metaOf { state with pausedSinceMs := since } requestId = .ok info := by
    rw [metaOf, hinfo]
    rfl
  rw [shouldPause, hmeta, Except.ok_bind, pauses_congr hsince]
  cases pauses settings state info requestId task with
  | false => exact ⟨since, fun _ _ => rfl, fun _ => rfl, rfl⟩
  | true =>
    exact ⟨_, fun other hne => Dict.get?_set_ne since hne.symm _, Bool.noConfusion, rfl⟩

/-- Who contributes does so with the head of its queue. -/
theorem Contributes.same {entry : String × List ActionCandidate} {info info' : RequestMeta}
    {task task' : InferenceTask} {queue : List InferenceTask} {found : List ActionCandidate}
    (h : Contributes settings state entry info' task' found)
    (hinfo : state.requestMeta.get? entry.1 = some info)
    (hqueue : state.readyByRequest.getD entry.1 [] = task :: queue) :
    info' = info ∧ task' = task := by
  have hhead := h.head
  rw [hqueue, List.head?_cons] at hhead
  exact ⟨Option.some.inj (h.known.symm.trans hinfo), (Option.some.inj hhead).symm⟩

/-- A request that contributes nothing is passed over. -/
theorem contributes_pass {requestId : String} {rest : List String}
    {entries : List (String × List ActionCandidate)}
    (hnone : ∀ candidates info task found,
      ¬ Contributes settings state (requestId, candidates) info task found)
    (hentries : ∀ entry, entry ∈ entries ↔ entry.1 ∈ rest ∧
      ∃ info task candidates, Contributes settings state entry info task candidates)
    (entry : String × List ActionCandidate) :
    entry ∈ entries ↔ entry.1 ∈ requestId :: rest ∧
      ∃ info task candidates, Contributes settings state entry info task candidates := by
  rw [hentries]
  constructor
  · rintro ⟨hmem, hcontributes⟩
    exact ⟨List.mem_cons_of_mem _ hmem, hcontributes⟩
  · rintro ⟨hmem, info, task, found, hcontributes⟩
    refine ⟨(List.mem_cons.mp hmem).resolve_left fun heq => ?_, info, task, found, hcontributes⟩
    subst heq
    exact hnone entry.2 info task found hcontributes

theorem collect_ok (hlookups : Lookups settings state) {ids : List String} (hn : ids.Nodup)
    (hready : ∀ requestId ∈ ids, state.readyByRequest.getD requestId [] ≠ [])
    (since : Dict String ℚ)
    (hsince : ∀ requestId ∈ ids, since.get? requestId = state.pausedSinceMs.get? requestId) :
    ∃ entries later, collect settings { state with pausedSinceMs := since } ids =
        .ok (entries, { state with pausedSinceMs := later }) ∧
      ∀ entry, entry ∈ entries ↔ entry.1 ∈ ids ∧
        ∃ info task candidates, Contributes settings state entry info task candidates := by
  induction ids generalizing since with
  | nil => exact ⟨[], since, rfl, by simp⟩
  | cons requestId rest ih =>
    obtain ⟨hfresh, hn⟩ := List.nodup_cons.mp hn
    have hreadyRest := fun other hmem => hready other (List.mem_cons_of_mem _ hmem)
    obtain ⟨task, queue, hqueue⟩ :=
      List.exists_cons_of_ne_nil (hready requestId (List.mem_cons_self ..))
    obtain ⟨info, hinfo⟩ := Option.isSome_iff_exists.mp
      (hlookups.metas requestId (hready requestId (List.mem_cons_self ..)))
    unfold collect
    by_cases hbusy : 0 < Counter.count state.requestInflight requestId
    · obtain ⟨entries, later, hok, hentries⟩ :=
        ih hn hreadyRest since fun other hmem => hsince other (List.mem_cons_of_mem _ hmem)
      refine ⟨entries, later, by rw [if_pos hbusy, hok], contributes_pass ?_ hentries⟩
      intro _ _ _ _ hcontributes
      rw [hcontributes.idle] at hbusy
      cases hbusy
    · obtain ⟨noted, hother, hsame, hpause⟩ :=
        @shouldPause_eq settings _ _ _ _ (hsince requestId (List.mem_cons_self ..)) hinfo task
      have hnoted : ∀ other ∈ rest, noted.get? other = state.pausedSinceMs.get? other :=
        fun other hmem => (hother other fun heq => hfresh (heq ▸ hmem)).trans
          (hsince other (List.mem_cons_of_mem _ hmem))
      obtain ⟨entries, later, hok, hentries⟩ := ih hn hreadyRest noted hnoted
      rw [if_neg hbusy]
      simp only [hqueue, hpause, Except.ok_bind]
      cases hpaused : pauses settings state info requestId task with
      | true =>
        refine ⟨entries, later, hok, contributes_pass ?_ hentries⟩
        intro _ _ _ _ hcontributes
        obtain ⟨rfl, rfl⟩ := hcontributes.same hinfo hqueue
        cases hpaused.symm.trans hcontributes.unpaused
      | false =>
        obtain rfl := hsame hpaused
        obtain ⟨candidates, hfound, -⟩ := candidateActions_ok hlookups hinfo task
        rw [if_neg (by simp), candidateActions_congr (hsince requestId (List.mem_cons_self ..)),
          hfound, Except.ok_bind, hok, Except.ok_bind]
        simp only
        by_cases hnone : candidates = []
        · refine ⟨entries, later, if_pos hnone, contributes_pass ?_ hentries⟩
          intro _ _ _ _ hcontributes
          obtain ⟨rfl, rfl⟩ := hcontributes.same hinfo hqueue
          cases hfound.symm.trans hcontributes.found
          exact hcontributes.nonempty hnone
        · refine ⟨(requestId, candidates.take settings.topK) :: entries, later, if_neg hnone,
            fun entry => ?_⟩
          rw [List.mem_cons, hentries]
          constructor
          · rintro (rfl | ⟨hmem, hcontributes⟩)
            · exact ⟨List.mem_cons_self .., info, task, candidates, hinfo,
                Nat.eq_zero_of_not_pos hbusy,
                by simp [hqueue], hpaused, hfound, hnone, rfl⟩
            · exact ⟨List.mem_cons_of_mem _ hmem, hcontributes⟩
          · rintro ⟨hmem, info', task', found, hcontributes⟩
            rcases List.mem_cons.mp hmem with rfl | hmem
            · obtain ⟨rfl, rfl⟩ := hcontributes.same hinfo hqueue
              cases hfound.symm.trans hcontributes.found
              exact .inl (Prod.ext rfl hcontributes.best)
            · exact .inr ⟨hmem, info', task', found, hcontributes⟩

-- ---------------------------------------------------------------------------
-- Taking
-- ---------------------------------------------------------------------------

/-- A request that is not held back: its head task is not paused, and a group
considered for it runs the task at a positive score. -/
def Startable (settings : Settings) (state : State) (requestId : String) : Prop :=
  ∃ info task, state.requestMeta.get? requestId = some info ∧
    (state.readyByRequest.getD requestId []).head? = some task ∧
    pauses settings state info requestId task = false ∧
    ∃ groupId ∈ candidateGroupIds settings state info requestId task,
      ∃ group, settings.topology.find groupId = some group ∧
        task.kind ∈ group.supportedTaskKinds ∧
        0 < scoreOn settings state info requestId task (sourceGroup settings state requestId) group

structure AtRest (state : State) : Prop where
  inflight : ∀ requestId, Counter.count state.requestInflight requestId = 0
  ranks : ∀ rank, Counter.count state.accounts.outstandingPerRank rank = 0 ∧
    Counter.count state.accounts.reshardHoldsByRank rank = 0

theorem AtRest.candidateOn (h : AtRest state) (settings : Settings) {info : RequestMeta} {requestId : String}
    {task : InferenceTask} {source : Option ExecutionGroupSpec} {group : ExecutionGroupSpec}
    (hkind : task.kind ∈ group.supportedTaskKinds) : ∃ candidate,
      candidateOn settings state info requestId task source group = some candidate ∧
        candidate.score = scoreOn settings state info requestId task source group := by
  have hfree : state.accounts.canDispatchRanks
      (claimedRanksOn group (movedFrom source group)) = true := by
    refine List.all_eq_true.mpr fun rank _ => ?_
    simp [(h.ranks rank).1, (h.ranks rank).2]
  exact ⟨_, by simp only [StepPreemptive.candidateOn, hkind, not_true_eq_false, if_false, hfree,
    Bool.not_true, Bool.false_eq_true]; rfl, rfl⟩

theorem candidateOn_score {info : RequestMeta} {requestId : String} {task : InferenceTask}
    {source : Option ExecutionGroupSpec} {group : ExecutionGroupSpec} {candidate : ActionCandidate}
    (h : candidateOn settings state info requestId task source group = some candidate) :
    task.kind ∈ group.supportedTaskKinds ∧ candidate.groupId = group.groupId ∧
      candidate.score = scoreOn settings state info requestId task source group := by
  simp only [candidateOn] at h
  split at h
  · cases h
  · next hkind =>
    split at h
    · cases h
    · obtain rfl := Option.some.inj h
      exact ⟨not_not.mp hkind, rfl, rfl⟩

/-- At rest, some contributed candidate is worth something when some request
is not held back. -/
theorem exists_positive_iff (hlookups : Lookups settings state) (hrest : AtRest state)
    {entries : List (String × List ActionCandidate)} {ids : List String}
    (hids : ∀ requestId, requestId ∈ ids ↔ state.readyByRequest.getD requestId [] ≠ [])
    (hentries : ∀ entry, entry ∈ entries ↔ entry.1 ∈ ids ∧
      ∃ info task candidates, Contributes settings state entry info task candidates) :
    (∃ entry ∈ entries, ∃ candidate ∈ entry.2, 0 < candidate.score) ↔
      ∃ requestId, Startable settings state requestId := by
  constructor
  · rintro ⟨⟨requestId, best⟩, hentry, candidate, hcandidate, hpos⟩
    obtain ⟨-, info, task, candidates, hcontributes⟩ := (hentries _).mp hentry
    obtain ⟨found, hfound, -, hmem⟩ := candidateActions_ok hlookups hcontributes.known task
    cases hfound.symm.trans hcontributes.found
    rw [hcontributes.best] at hcandidate
    obtain ⟨groupId, hgroup, group, hfind, hon⟩ :=
      (hmem candidate).mp (List.mem_of_mem_take hcandidate)
    obtain ⟨hkind, -, hscore⟩ := candidateOn_score hon
    exact ⟨requestId, info, task, hcontributes.known, hcontributes.head, hcontributes.unpaused,
      groupId, hgroup, group, hfind, hkind, hscore ▸ hpos⟩
  · rintro ⟨requestId, info, task, hinfo, hhead, hunpaused, groupId, hgroup, group, hfind, hkind, hpos⟩
    obtain ⟨candidates, hfound, hsorted, hmem⟩ := candidateActions_ok hlookups hinfo task
    obtain ⟨candidate, hon, hscore⟩ := hrest.candidateOn settings hkind
    have hcandidate := (hmem candidate).mpr ⟨groupId, hgroup, group, hfind, hon⟩
    -- The first of the candidates is kept, and no other is worth more.
    obtain ⟨first, others, rfl⟩ := List.exists_cons_of_ne_nil (List.ne_nil_of_mem hcandidate)
    have hfirst : candidate.score ≤ first.score := by
      rcases List.mem_cons.mp hcandidate with rfl | hother
      · exact le_rfl
      · exact List.rel_of_pairwise_cons hsorted hother
    have hready : requestId ∈ ids := (hids requestId).mpr fun hnil => by
      rw [hnil] at hhead
      cases hhead
    refine ⟨(requestId, (first :: others).take settings.topK), (hentries _).mpr ⟨hready, info, task,
      _, hinfo, hrest.inflight requestId, hhead, hunpaused, hfound, List.cons_ne_nil first others, rfl⟩,
      first, ?_, (hscore ▸ hpos).trans_le hfirst⟩
    obtain ⟨topK, htopK⟩ := Nat.exists_eq_succ_of_ne_zero settings.topK_pos.ne'
    rw [htopK, List.take_succ_cons]
    exact List.mem_cons_self ..

/-- A call that knows what it needs takes heads of different queues, and at
rest some, unless all ready requests are held back. -/
theorem takeDispatchableTasks_ok (hlookups : Lookups settings state) :
    ∃ later selected, takeDispatchableTasks settings state =
        .ok (dispatchSelected { state with pausedSinceMs := later } selected) ∧
      (selected.map (·.requestId)).Nodup ∧
      (∀ candidate ∈ selected, (state.readyByRequest.getD candidate.requestId []).head? =
        some candidate.task ∧ (settings.topology.find candidate.groupId).isSome) ∧
      (AtRest state → (selected ≠ [] ↔ ∃ requestId, Startable settings state requestId)) := by
  obtain ⟨ids, hids, hready⟩ := readyRequestIds_ok hlookups
  obtain ⟨entries, later, hcollect, hentries⟩ := collect_ok hlookups (readyRequestIds_nodup hids)
    (fun requestId hmem => (hready requestId).mp hmem) state.pausedSinceMs fun _ _ => rfl
  have hok : takeDispatchableTasks settings state =
      .ok (dispatchSelected { state with pausedSinceMs := later } (solveRankDp entries)) := by
    rw [takeDispatchableTasks, hids, Except.ok_bind, hcollect, Except.ok_bind]
    rfl
  obtain ⟨hstate, hsub, hoffers⟩ := collect_spec hcollect
  obtain ⟨hchoice, -, -⟩ := solveRankDp_best entries
  obtain ⟨hsub', hmem⟩ := choice_offered hchoice hoffers
  refine ⟨later, _, hok, (readyRequestIds_nodup hids).sublist (hsub'.trans hsub),
    fun candidate hcandidate => ?_, fun hrest => ?_⟩
  · obtain ⟨entry, hentry, hin⟩ := hmem candidate hcandidate
    obtain ⟨hid, hhead, -⟩ := (hoffers entry hentry).2 candidate hin
    obtain ⟨-, info, task, candidates, hcontributes⟩ := (hentries entry).mp hentry
    obtain ⟨found, hfound, -, hall⟩ := candidateActions_ok hlookups hcontributes.known task
    cases hfound.symm.trans hcontributes.found
    rw [hcontributes.best] at hin
    obtain ⟨groupId, -, group, hfind, hon⟩ := (hall candidate).mp (List.mem_of_mem_take hin)
    obtain ⟨-, hgroup, -⟩ := candidateOn_score hon
    obtain ⟨hmember, rfl⟩ := RuntimeTopology.find_eq_some.mp hfind
    rw [hid, hgroup, hfind]
    exact ⟨hhead, rfl⟩
  · rw [solveRankDp_ne_nil]
    exact exists_positive_iff hlookups hrest hready hentries

end StepPreemptive

end GfDit
