import GfDit.Scheduler.Balance
import GfDit.Scheduler.Finish
import GfDit.Scheduler.Held

/-!
# Reference counts of artifacts

The count of an artifact is the number of times it is listed as an input by
tasks whose inputs are not yet consumed. The dispatch that brings it to zero
tells the workers to release the artifact, and no later task asks for it.
-/

namespace GfDit

open History Agenda

-- ---------------------------------------------------------------------------
-- Open inputs
-- ---------------------------------------------------------------------------

def SchedulerEntry.indexes (task : InferenceTask) : SchedulerEntry → Bool
  | .indexed t => t = task
  | _ => false

def isIndexed (entries : List SchedulerEntry) (task : InferenceTask) : Bool :=
  entries.any (SchedulerEntry.indexes task)

theorem isIndexed_iff : isIndexed entries task = true ↔ .indexed task ∈ entries := by
  unfold isIndexed
  rw [List.any_eq_true]
  constructor
  · rintro ⟨entry, hm, he⟩
    cases entry with
    | indexed t =>
      have : t = task := by simpa [SchedulerEntry.indexes] using he
      exact this ▸ hm
    | _ => cases he
  · exact fun hm => ⟨_, hm, by simp [SchedulerEntry.indexes]⟩

def isOpen (entries : List SchedulerEntry) (task : InferenceTask) : Bool :=
  isIndexed entries task && consumed entries task == 0

def InferenceTask.inputKeys (task : InferenceTask) : List ArtifactKey :=
  task.inputs.map ArtifactHandle.key

def openInputs (load : Workload) (entries : List SchedulerEntry) (key : ArtifactKey) : Nat :=
  (((load.plan key.1).tasks.values.filter (isOpen entries)).flatMap
    InferenceTask.inputKeys).count key

variable {load : Workload}

theorem Workload.Has.request_of_input (h : load.Has task) (hk : key ∈ task.inputKeys) :
    key.1 = task.requestId := by
  obtain ⟨artifact, ha, rfl⟩ := List.mem_map.mp hk
  exact (load.owned _ task h).2 artifact (List.mem_append_left _ ha)

/-- When one task closes, its inputs are no longer open. -/
theorem openInputs_close (hhas : load.Has task) (hopen : isOpen entries task = true)
    (hclosed : isOpen entries' task = false)
    (hsame : ∀ other, other ≠ task → isOpen entries other = isOpen entries' other)
    (key : ArtifactKey) :
    openInputs load entries key = task.inputKeys.count key + openInputs load entries' key := by
  by_cases hr : key.1 = task.requestId
  · have hm : task ∈ (load.plan key.1).tasks.values := by
      rw [hr]
      exact hhas
    unfold openInputs
    exact Counter.count_flatMap_filter (load.values_nodup key.1) hm hopen hclosed
      (fun other _ hne => hsame other hne) InferenceTask.inputKeys key
  · have hnot : key ∉ task.inputKeys := fun hk => hr (hhas.request_of_input hk)
    have heq : (load.plan key.1).tasks.values.filter (isOpen entries) =
        (load.plan key.1).tasks.values.filter (isOpen entries') := by
      refine List.filter_congr fun other ho => hsame other fun e => hr ?_
      rw [← e]
      exact ((load.owned key.1 other ho).1).symm
    rw [List.count_eq_zero_of_not_mem hnot, Nat.zero_add]
    unfold openInputs
    rw [heq]

theorem openInputs_nil (key : ArtifactKey) : openInputs load [] key = 0 := by
  unfold openInputs
  rw [List.filter_eq_nil_iff.mpr fun task _ => by simp [isOpen, isIndexed]]
  rfl

theorem openInputs_congr (h : ∀ task, isOpen entries task = isOpen entries' task)
    (key : ArtifactKey) : openInputs load entries key = openInputs load entries' key := by
  unfold openInputs
  rw [List.filter_congr fun task _ => h task]

theorem openInputs_pos (hhas : load.Has task) (hopen : isOpen entries task = true)
    (hk : key ∈ task.inputKeys) : 0 < openInputs load entries key := by
  refine List.count_pos_iff.mpr (List.mem_flatMap.mpr ⟨task, List.mem_filter.mpr ⟨?_, hopen⟩, hk⟩)
  rw [hhas.request_of_input hk]
  exact hhas

-- ---------------------------------------------------------------------------
-- Releases
-- ---------------------------------------------------------------------------

def SchedulerEntry.consumer : SchedulerEntry → Option InferenceTask
  | .dispatched task .. | .resharded task => some task
  | _ => none

def SchedulerEntry.releases (key : ArtifactKey) : SchedulerEntry → Bool
  | .dispatched task _ _ releaseAfterExec => key.1 = task.requestId && key.2 ∈ releaseAfterExec
  | _ => false

def isReleased (entries : List SchedulerEntry) (key : ArtifactKey) : Bool :=
  entries.any (SchedulerEntry.releases key)

/-- A task does not consume what was released before, and a dispatch that
releases an artifact consumes its last open occurrence. -/
def ReleasesLast (load : Workload) (entry : SchedulerEntry) (earlier : List SchedulerEntry) :
    Prop :=
  (∀ task ∈ entry.consumer, ∀ key ∈ task.inputKeys, isReleased earlier key = false) ∧
  ∀ task groupId inlineInputs releaseAfterExec,
    entry = .dispatched task groupId inlineInputs releaseAfterExec →
      releaseAfterExec.Nodup ∧ ∀ artifactId ∈ releaseAfterExec,
        (task.requestId, artifactId) ∈ task.inputKeys ∧
        openInputs load (entry :: earlier) (task.requestId, artifactId) = 0

/-- An entry that opens, closes and releases nothing. -/
def SchedulerEntry.plain : SchedulerEntry → Bool
  | .indexed _ | .dispatched .. | .resharded _ => false
  | _ => true

theorem isOpen_cons {entry : SchedulerEntry} (h : entry.plain = true)
    (earlier : List SchedulerEntry) (task : InferenceTask) :
    isOpen (entry :: earlier) task = isOpen earlier task := by
  cases entry with
  | indexed | dispatched | resharded => cases h
  | _ => simp [isOpen, isIndexed, SchedulerEntry.indexes, consumed, SchedulerEntry.consumes]

theorem isOpen_plain (h : ∀ entry ∈ entries, SchedulerEntry.plain entry = true)
    (earlier : List SchedulerEntry) (task : InferenceTask) :
    isOpen (entries ++ earlier) task = isOpen earlier task := by
  induction entries with
  | nil => rfl
  | cons entry entries ih =>
    obtain ⟨hp, hall⟩ := List.forall_mem_cons.mp h
    rw [List.cons_append, isOpen_cons hp, ih hall]

theorem isReleased_plain (h : ∀ entry ∈ entries, SchedulerEntry.plain entry = true)
    (earlier : List SchedulerEntry) (key : ArtifactKey) :
    isReleased (entries ++ earlier) key = isReleased earlier key := by
  induction entries with
  | nil => rfl
  | cons entry entries ih =>
    obtain ⟨hp, hall⟩ := List.forall_mem_cons.mp h
    rw [← ih hall]
    cases entry with
    | indexed | dispatched | resharded => cases hp
    | _ => simp [isReleased, SchedulerEntry.releases]

theorem releasesLast_plain {entry : SchedulerEntry} (h : entry.plain = true)
    (earlier : List SchedulerEntry) : ReleasesLast load entry earlier := by
  cases entry with
  | indexed | dispatched | resharded => cases h
  | _ => exact ⟨fun _ ht => (by cases ht), fun _ _ _ _ he => (by cases he)⟩

/-- Consuming the inputs of an open task closes it. -/
theorem openInputs_consume {entry : SchedulerEntry} (hhas : load.Has task)
    (hopen : isOpen earlier task = true) (hc : entry.consumer = some task) (key : ArtifactKey) :
    openInputs load earlier key =
      task.inputKeys.count key + openInputs load (entry :: earlier) key := by
  refine openInputs_close hhas hopen ?_ (fun other hne => ?_) key
  · have : 0 < consumed (entry :: earlier) task := by
      cases entry with
      | dispatched | resharded =>
        cases hc
        simp only [consumed, SchedulerEntry.consumes, total_cons, if_true]
        omega
      | _ => cases hc
    simp [isOpen, Nat.pos_iff_ne_zero.mp this]
  · cases entry with
    | dispatched | resharded =>
      cases hc
      simp [isOpen, isIndexed, SchedulerEntry.indexes, consumed, SchedulerEntry.consumes, Ne.symm hne]
    | _ => cases hc

/-- Indexing a task opens it. -/
theorem openInputs_index (hhas : load.Has task) (hn : .indexed task ∉ earlier)
    (hc : consumed earlier task = 0) (key : ArtifactKey) :
    openInputs load (.indexed task :: earlier) key =
      task.inputKeys.count key + openInputs load earlier key := by
  refine openInputs_close hhas ?_ ?_ (fun other hne => ?_) key
  · have : consumed (.indexed task :: earlier) task = 0 := by
      simpa [consumed, SchedulerEntry.consumes] using hc
    simp [isOpen, isIndexed, SchedulerEntry.indexes, this]
  · have : isIndexed earlier task = false := by
      rw [Bool.eq_false_iff]
      exact fun h => hn (isIndexed_iff.mp h)
    simp [isOpen, this]
  · simp [isOpen, isIndexed, SchedulerEntry.indexes, consumed, SchedulerEntry.consumes, Ne.symm hne]

-- ---------------------------------------------------------------------------
-- Consuming inputs
-- ---------------------------------------------------------------------------

namespace Scheduler

theorem consumeInput_fst (refcounts : Dict ArtifactKey Nat) (artifact : ArtifactHandle) :
    (consumeInput refcounts artifact).1 = Counter.drop refcounts artifact.key := by
  unfold consumeInput Counter.drop Counter.count Dict.getD
  cases h : refcounts.get? artifact.key with
  | none =>
    refine (Dict.ext' ?_).symm
    simp only [Option.getD_none, Nat.zero_le, if_true, Dict.entries_erase]
    refine List.filter_eq_self.mpr fun entry hm => ?_
    have hk : entry.1 ≠ artifact.key := by
      intro heq
      rw [← heq, (Dict.get?_eq_some _).mpr hm] at h
      cases h
    simpa using hk
  | some n =>
    simp only [Option.getD_some]
    by_cases hn : n ≤ 1
    · rw [if_pos (by omega), if_pos hn]
    · rw [if_neg (by omega), if_neg hn]

theorem consumeInputs_eq (refcounts : Dict ArtifactKey Nat) (inputs : List ArtifactHandle) :
    consumeInputs refcounts inputs =
      Counter.dropAll refcounts (inputs.map ArtifactHandle.key) := by
  induction inputs generalizing refcounts with
  | nil => rfl
  | cons artifact inputs ih =>
    show consumeInputs (consumeInput refcounts artifact).1 inputs = _
    rw [ih, consumeInput_fst]
    rfl

/-- What is released was counted, and counts nothing afterwards. -/
theorem mem_releasedInputs {refcounts : Dict ArtifactKey Nat} {inputs : List ArtifactHandle}
    (h : artifactId ∈ releasedInputs refcounts inputs) : ∃ artifact ∈ inputs, artifact.artifactId = artifactId ∧
      (refcounts.get? artifact.key).isSome = true ∧
      Counter.count (consumeInputs refcounts inputs) artifact.key = 0 := by
  induction inputs generalizing refcounts with
  | nil => cases h
  | cons artifact inputs ih =>
    have hstep : consumeInputs refcounts (artifact :: inputs) =
      consumeInputs (consumeInput refcounts artifact).1 inputs := rfl
    have htail : artifactId ∈ releasedInputs (consumeInput refcounts artifact).1 inputs →
        ∃ a ∈ artifact :: inputs, a.artifactId = artifactId ∧ (refcounts.get? a.key).isSome = true ∧
          Counter.count (consumeInputs refcounts (artifact :: inputs)) a.key = 0 := by
      intro hm
      obtain ⟨a, ha, hid, hs, hz⟩ := ih hm
      refine ⟨a, List.mem_cons_of_mem _ ha, hid, ?_, hstep ▸ hz⟩
      rw [consumeInput_fst] at hs
      unfold Counter.drop at hs
      split at hs
      · rw [Dict.get?_erase] at hs
        split at hs
        · cases hs
        · exact hs
      · rename_i hgt
        rw [Dict.get?_set] at hs
        split at hs
        · rename_i heq
          rw [← heq]
          unfold Counter.count Dict.getD at hgt
          cases hg : refcounts.get? artifact.key with
          | none => simp [hg] at hgt
          | some n => rfl
        · exact hs
    unfold releasedInputs at h
    simp only at h
    split at h
    · rename_i hlast
      rcases List.mem_cons.mp h with rfl | hm
      · refine ⟨artifact, List.mem_cons_self .., rfl, ?_⟩
        unfold consumeInput at hlast
        cases hg : refcounts.get? artifact.key with
        | none => simp [hg] at hlast
        | some n =>
          have hn : n - 1 = 0 := by
            by_contra hne
            simp [hg, hne] at hlast
          refine ⟨rfl, ?_⟩
          rw [consumeInputs_eq, Counter.count_dropAll]
          have hc : Counter.count refcounts artifact.key = n := by simp [Counter.count, Dict.getD, hg]
          rw [List.map_cons, List.count_cons_self, hc]
          omega
      · exact htail hm
    · exact htail h

theorem releasedInputs_nodup {refcounts : Dict ArtifactKey Nat} {inputs : List ArtifactHandle}
    (hr : ∀ artifact ∈ inputs, artifact.requestId = requestId) :
    (releasedInputs refcounts inputs).Nodup := by
  induction inputs generalizing refcounts with
  | nil => exact List.nodup_nil
  | cons artifact inputs ih =>
    obtain ⟨hhead, hrest⟩ := List.forall_mem_cons.mp hr
    unfold releasedInputs
    simp only
    split
    · rename_i hlast
      refine List.nodup_cons.mpr ⟨fun hm => ?_, ih hrest⟩
      obtain ⟨a, ha, hid, hs, -⟩ := mem_releasedInputs hm
      have hkey : a.key = artifact.key := by
        unfold ArtifactHandle.key
        rw [hrest a ha, hhead, hid]
      -- the entry was erased when the artifact was released
      unfold consumeInput at hlast hs
      cases hg : refcounts.get? artifact.key with
      | none => simp [hg] at hlast
      | some n =>
        rw [hg] at hlast hs
        simp only at hlast hs
        split at hlast
        · rename_i hz
          rw [if_pos hz, hkey, Dict.get?_erase_self] at hs
          cases hs
        · cases hlast
    · exact ih hrest

-- ---------------------------------------------------------------------------
-- The counts are exact
-- ---------------------------------------------------------------------------

variable {σ : Type} {rt : Runtime σ} {load : Workload} {s s' : Scheduler σ}

structure Counts (load : Workload) (s : Scheduler σ) : Prop where
  -- a clean-up forgets the counts of its request
  counted : ∀ key, Counter.count s.artifactRefcounts key = openInputs load s.log key ∨
    key.1 ∈ s.cleanedRequests ∧ Counter.count s.artifactRefcounts key = 0
  positive : Counter.Positive s.artifactRefcounts
  listed : ∀ requestId keys, s.requestArtifacts.get? requestId = some keys →
    ∀ key ∈ keys, key.1 = requestId
  released : ∀ key, isReleased s.log key = true → openInputs load s.log key = 0
  stored : ∀ task, .indexed task ∈ s.log → (s.parkedPending.get? task.taskId).isSome = true →
    Stored s.artifactStore task.inputs
  history : Each (ReleasesLast load) s.log

namespace Counts

theorem init (w : World σ) : Counts load (.init w) where
  counted := fun key => .inl (openInputs_nil key).symm
  positive := Counter.Positive.empty
  listed := fun _ _ h => by cases h
  released := fun _ h => by cases h
  stored := fun _ h => absurd h List.not_mem_nil
  history := trivial

theorem frame (h : Counts load s) (entries : List SchedulerEntry)
    (hlog : s'.log = entries ++ s.log) (hp : ∀ entry ∈ entries, SchedulerEntry.plain entry = true)
    (hcounts : s'.artifactRefcounts = s.artifactRefcounts)
    (hlisted : s'.requestArtifacts = s.requestArtifacts)
    (hcleaned : ∀ requestId ∈ s.cleanedRequests, requestId ∈ s'.cleanedRequests)
    (hstored : ∀ task, .indexed task ∈ s.log → (s'.parkedPending.get? task.taskId).isSome = true →
      Stored s'.artifactStore task.inputs) : Counts load s' where
  counted key := by
    rw [hlog, hcounts, openInputs_congr (isOpen_plain hp s.log)]
    exact (h.counted key).imp id fun hz => ⟨hcleaned _ hz.1, hz.2⟩
  positive := hcounts ▸ h.positive
  listed := hlisted ▸ h.listed
  released key hr := by
    rw [hlog, isReleased_plain hp] at hr
    rw [hlog, openInputs_congr (isOpen_plain hp s.log)]
    exact h.released key hr
  stored task hin hpark := by
    refine hstored task ?_ hpark
    rw [hlog] at hin
    refine (List.mem_append.mp hin).resolve_left fun hm => ?_
    have := hp _ hm
    cases this
  history := by
    rw [hlog]
    exact h.history.append fun entry hm earlier => releasesLast_plain (hp entry hm) earlier

theorem of_eq (h : Counts load s) (hlog : s'.log = s.log)
    (hcounts : s'.artifactRefcounts = s.artifactRefcounts)
    (hlisted : s'.requestArtifacts = s.requestArtifacts)
    (hcleaned : s'.cleanedRequests = s.cleanedRequests)
    (hstore : s'.artifactStore = s.artifactStore)
    (hpark : ∀ taskId, (s'.parkedPending.get? taskId).isSome = true →
      (s.parkedPending.get? taskId).isSome = true) : Counts load s' :=
  h.frame [] hlog (by simp) hcounts hlisted (fun _ hc => hcleaned ▸ hc) fun task hin hp =>
    hstore ▸ h.stored task hin (hpark _ hp)

theorem of_entry (h : Counts load s) (entry : SchedulerEntry) (hlog : s'.log = entry :: s.log)
    (hp : entry.plain = true) (hcounts : s'.artifactRefcounts = s.artifactRefcounts)
    (hlisted : s'.requestArtifacts = s.requestArtifacts)
    (hcleaned : s'.cleanedRequests = s.cleanedRequests)
    (hstore : ∀ key, (s.artifactStore.get? key).isSome = true →
      (s'.artifactStore.get? key).isSome = true)
    (hpark : ∀ taskId, (s'.parkedPending.get? taskId).isSome = true →
      (s.parkedPending.get? taskId).isSome = true) : Counts load s' :=
  h.frame [entry] hlog (by simpa using hp) hcounts hlisted (fun _ hc => hcleaned ▸ hc)
    fun task hin hpk artifact ha => hstore _ (h.stored task hin (hpark _ hpk) artifact ha)

theorem cleanup (hb : Base load s) (h : Counts load s) (requestId : String) :
    Counts load (s.cleanupRequestWorkerState requestId) := by
  unfold cleanupRequestWorkerState
  split
  · exact h
  · rename_i hnc
    have hplain : ∀ entry ∈ [SchedulerEntry.cleaned requestId], entry.plain = true := by
      simp [SchedulerEntry.plain]
    have hopen := isOpen_plain hplain s.log
    refine ⟨fun key => ?_, fun key => ?_, fun other keys hk => ?_, fun key hr => ?_,
      fun task hin hp => ?_, ⟨releasesLast_plain rfl _, h.history⟩⟩
    · have hget := Dict.get?_eraseAll s.artifactRefcounts (s.requestArtifacts.getD requestId []) key
      by_cases hm : key ∈ s.requestArtifacts.getD requestId []
      · rw [if_pos hm] at hget
        have hr : key.1 = requestId := by
          unfold Dict.getD at hm
          cases hg : s.requestArtifacts.get? requestId with
          | none => simp [hg] at hm
          | some keys => exact h.listed requestId keys hg key (by simpa [hg] using hm)
        exact .inr ⟨hr ▸ List.mem_cons_self .., Counter.count_of_none hget⟩
      · rw [if_neg hm] at hget
        have hcount : Counter.count
            (s.artifactRefcounts.eraseAll (s.requestArtifacts.getD requestId [])) key =
              Counter.count s.artifactRefcounts key := Counter.count_congr hget
        show Counter.count _ key = openInputs load (.cleaned requestId :: s.log) key ∨ _
        rw [hcount, ← List.singleton_append, openInputs_congr hopen]
        exact (h.counted key).imp id fun hz => ⟨List.mem_cons_of_mem _ hz.1, hz.2⟩
    · simp only [Dict.get?_eraseAll]
      split
      · simp
      · exact h.positive key
    · simp only [Dict.get?_erase] at hk
      split at hk
      · cases hk
      · exact h.listed other keys hk
    · have hr' : isReleased ([.cleaned requestId] ++ s.log) key = true := hr
      show openInputs load ([.cleaned requestId] ++ s.log) key = 0
      rw [isReleased_plain hplain] at hr'
      rw [openInputs_congr hopen]
      exact h.released key hr'
    · have hold : .indexed task ∈ s.log := by simpa using hin
      simp only [Dict.get?_eraseAll] at hp
      split at hp
      · cases hp
      · -- a task that stays parked is of another request, and so are its inputs
        rename_i hnot
        have hne : task.requestId ≠ requestId :=
          fun heq => hnot ((hb.mem_plannedTasks hold hnc).mpr heq)
        intro artifact ha
        have howner : artifact.requestId = task.requestId :=
          (load.owned _ task (hb.indexed task hold).1).2 artifact (List.mem_append_left _ ha)
        show ((s.artifactStore.evictRequest requestId).get? artifact.key).isSome = true
        unfold ArtifactStore.evictRequest
        rw [Dict.get?_eraseAll, if_neg]
        · exact h.stored task hold hp artifact ha
        · simp [ArtifactHandle.key, howner, hne]

theorem failRequest (h : Counts load s) (requestId message : String) :
    Counts load (s.failRequest requestId message) := by
  unfold Scheduler.failRequest
  split
  · exact h
  · exact h.of_entry (.failed requestId) rfl rfl rfl rfl rfl (fun _ hs => hs) fun _ hs => hs

theorem consume (hb : Base load s) (h : Counts load s) (hin : .indexed task ∈ s.log)
    (hc : GfDit.consumed s.log task = 0) (entry : SchedulerEntry) (hlog : s'.log = entry :: s.log)
    (hentry : entry.consumer = some task)
    (hrel : ∀ t groupId inline release, entry = .dispatched t groupId inline release →
      release = releasedInputs s.artifactRefcounts task.inputs)
    (hcounts : s'.artifactRefcounts = consumeInputs s.artifactRefcounts task.inputs)
    (hlisted : s'.requestArtifacts = s.requestArtifacts)
    (hcleaned : s'.cleanedRequests = s.cleanedRequests)
    (hstore : s'.artifactStore = s.artifactStore)
    (hpark : s'.parkedPending = s.parkedPending) : Counts load s' := by
  have hhas := (hb.indexed task hin).1
  have hopen : isOpen s.log task = true := by simp [isOpen, isIndexed_iff.mpr hin, hc]
  have hclose := openInputs_consume hhas hopen hentry
  have hcount : ∀ key, Counter.count s'.artifactRefcounts key =
      Counter.count s.artifactRefcounts key - task.inputKeys.count key := by
    intro key
    rw [hcounts, consumeInputs_eq, Counter.count_dropAll]
    rfl
  -- what is released had a count of one, and had it rightly
  have hreleased : ∀ artifactId ∈ releasedInputs s.artifactRefcounts task.inputs,
      (task.requestId, artifactId) ∈ task.inputKeys ∧
        openInputs load (entry :: s.log) (task.requestId, artifactId) = 0 := by
    intro artifactId hm
    obtain ⟨artifact, ha, rfl, hs, hz⟩ := mem_releasedInputs hm
    have hkey : artifact.key = (task.requestId, artifact.artifactId) := by
      unfold ArtifactHandle.key
      rw [(load.owned _ task hhas).2 artifact (List.mem_append_left _ ha)]
    have hmem : artifact.key ∈ task.inputKeys := List.mem_map.mpr ⟨artifact, ha, rfl⟩
    rw [← hkey]
    refine ⟨hmem, ?_⟩
    rw [← hcounts, hcount] at hz
    have hnz : Counter.count s.artifactRefcounts artifact.key ≠ 0 := by
      obtain ⟨n, hn⟩ := Option.isSome_iff_exists.mp hs
      have hpos := h.positive artifact.key
      rw [hn] at hpos
      simp only [Counter.count, Dict.getD, hn, Option.getD_some]
      exact fun hz => hpos (by rw [hz])
    have heq := (h.counted artifact.key).resolve_right fun hz => hnz hz.2
    have := hclose artifact.key
    omega
  have hnot : ∀ key ∈ task.inputKeys, isReleased s.log key = false := by
    intro key hk
    rw [Bool.eq_false_iff]
    intro hr
    have hpos := openInputs_pos hhas hopen hk
    rw [h.released key hr] at hpos
    exact absurd hpos (Nat.lt_irrefl 0)
  refine ⟨fun key => ?_, ?_, hlisted ▸ h.listed, fun key hr => ?_, fun t ht hp => ?_, ?_⟩
  · rw [hlog, hcount, hcleaned]
    have := hclose key
    rcases h.counted key with heq | ⟨hc, hz⟩
    · exact .inl (by omega)
    · exact .inr ⟨hc, by omega⟩
  · rw [hcounts, consumeInputs_eq]
    exact h.positive.dropAll _
  · rw [hlog] at hr ⊢
    rcases Bool.or_eq_true_iff.mp hr with hr | hr
    · cases entry with
      | dispatched t groupId inline release =>
        cases hentry
        obtain ⟨hreq, hmem⟩ : key.1 = task.requestId ∧ key.2 ∈ release := by
          simpa [SchedulerEntry.releases] using hr
        rw [hrel _ _ _ _ rfl] at hmem
        have := (hreleased key.2 hmem).2
        rw [← hreq] at this
        exact this
      | _ => cases hr
    · have := hclose key
      have := h.released key hr
      omega
  · rw [hstore]
    refine h.stored t ?_ (hpark ▸ hp)
    rw [hlog] at ht
    refine (List.mem_cons.mp ht).resolve_left fun heq => ?_
    rw [← heq] at hentry
    cases hentry
  · rw [hlog]
    refine ⟨⟨fun t ht => ?_, fun t groupId inline release he => ?_⟩, h.history⟩
    · rw [hentry] at ht
      cases ht
      exact hnot
    · have hr := hrel t groupId inline release he
      rw [he] at hentry
      cases hentry
      rw [hr]
      refine ⟨releasedInputs_nodup fun artifact ha =>
        (load.owned _ task hhas).2 artifact (List.mem_append_left _ ha), hreleased⟩

theorem indexTask (hb : Base load s) (hr : Reports s) (honce : OncePerReport s.log)
    (hbal : Balanced d s) (h : Counts load s) (ht : Taking plan s.log)
    (hm : task ∈ plan.tasks.values) (hn : .indexed task ∉ s.log) :
    Counts load (s.indexTask task) := by
  have heq := hb.accepted plan ht.accepted_mem
  rw [heq] at hm
  have howner := (load.owned _ task hm).1
  have hhas : load.Has task := .of_mem hm
  have hc : GfDit.consumed s.log task = 0 := by
    by_contra hne
    exact hn (hbal.consumed task (Nat.pos_of_ne_zero hne))
  have hopen := openInputs_index hhas hn hc
  have hcount : ∀ key, Counter.count (s.indexTask task).artifactRefcounts key =
      Counter.count s.artifactRefcounts key + task.inputKeys.count key :=
    fun key => Counter.count_raiseAll ..
  refine ⟨fun key => ?_, h.positive.raiseAll _, h.listed, fun key hrel => ?_, fun t hin hp => ?_,
    ⟨⟨fun _ ht => (by cases ht), fun _ _ _ _ he => (by cases he)⟩, h.history⟩⟩
  · rw [hcount]
    show _ = openInputs load (.indexed task :: s.log) key ∨ _
    have := hopen key
    by_cases hk : key ∈ task.inputKeys
    · -- the request that takes its tasks in is not cleaned up
      have hlive : key.1 ∉ s.cleanedRequests := by
        rw [hhas.request_of_input hk, howner]
        exact hb.taking plan ht
      have := (h.counted key).resolve_right fun hz => hlive hz.1
      exact .inl (by omega)
    · rw [List.count_eq_zero_of_not_mem hk] at this ⊢
      rcases h.counted key with heq | ⟨hcl, hz⟩
      · exact .inl (by omega)
      · exact .inr ⟨hcl, by omega⟩
  · have hrel' : isReleased s.log key = true := by
      simpa [Scheduler.indexTask, isReleased, SchedulerEntry.releases] using hrel
    show openInputs load (.indexed task :: s.log) key = 0
    have := hopen key
    have := h.released key hrel'
    have hzero : task.inputKeys.count key = 0 := by
      refine List.count_eq_zero_of_not_mem fun hk => ?_
      -- a dispatch of the request would come after its report
      obtain ⟨entry, hmem, he⟩ := List.any_eq_true.mp hrel'
      cases entry with
      | dispatched t groupId inline release =>
        obtain ⟨hreq, -⟩ : key.1 = t.requestId ∧ key.2 ∈ release := by
          simpa [SchedulerEntry.releases] using he
        have hpos : 0 < GfDit.consumed s.log t :=
          total_pos.mpr ⟨_, hmem, by simp [SchedulerEntry.consumes]⟩
        have hle := hbal.taken t (hbal.consumed t hpos)
        have hrep := OncePerReport.le honce t
        have hfresh := hr.fresh plan ht t (by rw [← hreq, hhas.request_of_input hk, howner])
        unfold Scheduler.taken at hle
        omega
      | _ => cases he
    omega
  · rcases List.mem_cons.mp hin with hin | hin
    · cases hin
      obtain ⟨t, hmem, hid⟩ := hbal.parked task.taskId hp
      exact absurd ((hb.indexed t hmem).1.eq hhas hid ▸ hmem) hn
    · exact h.stored t hin hp

theorem isSome_put {store : ArtifactStore} {artifact : ArtifactHandle} {value : StoredValue}
    (h : (store.get? key).isSome = true) : ((store.put artifact value).get? key).isSome = true := by
  unfold ArtifactStore.put
  rw [Dict.get?_set]
  split
  · rfl
  · exact h

theorem isSome_puts {store : ArtifactStore} (artifacts : List ArtifactValue)
    (h : (store.get? key).isSome = true) : ((artifacts.foldl (fun store artifact =>
      store.put artifact.handle (.host artifact.value)) store).get? key).isSome = true := by
  induction artifacts generalizing store with
  | nil => exact h
  | cons artifact artifacts ih => exact ih (isSome_put h)

theorem park (hb : Base load s) (h : Counts load s) (hin : .indexed task ∈ s.log)
    (hs : Stored s.artifactStore task.inputs) (groupId : String) (cross : List ArtifactHandle) :
    Counts load (s.park task groupId cross) := by
  refine h.frame [.parked task groupId cross] rfl (by simp [SchedulerEntry.plain]) rfl rfl
    (fun _ hc => hc) fun t ht hp => ?_
  by_cases heq : task = t
  · exact heq ▸ hs
  · refine h.stored t ht ?_
    simpa [Scheduler.park, Dict.get?_set_ne _ (hb.id_ne hin ht heq)] using hp

theorem occasion (h : Counts load s) (ho : Occasion d s question d' s') : Counts load s' := by
  cases ho with
  | runnable => exact h.of_entry (.launched _) rfl rfl rfl rfl rfl (fun _ hs => hs) fun _ hs => hs
  | ended => exact h.of_eq rfl rfl rfl rfl rfl fun _ hs => hs
  | failed =>
    refine Counts.failRequest ?_ _ _
    exact h.of_eq rfl rfl rfl rfl rfl fun _ hs => hs
  | refused => exact h.of_entry (.began _) rfl rfl rfl rfl rfl (fun _ hs => hs) fun _ hs => hs
  | submitted | launchEnd | finished | emitted | requested | acquire | freed => exact h

theorem asked (h : Counts load s) (question : Ask) (out : List InferenceTask) (w : World σ) :
    Counts load (s.asked question out w) :=
  h.of_entry (.asked _ _ _ _) rfl rfl rfl rfl rfl (fun _ hs => hs) fun _ hs => hs

theorem land (h : Counts load s) (hp : s.parkedPending.get? task.taskId = some n)
    (artifact : ArtifactHandle) (groupId : String) (rank : Rank) (left : Nat) :
    Counts load (s.land task artifact groupId rank left) :=
  h.of_entry (.migrated _ _ _) rfl rfl rfl rfl rfl (fun _ hs => isSome_put hs)
    fun _ hs => Balanced.land_parked hp hs

theorem unpark (h : Counts load s) (task : InferenceTask) : Counts load (s.unpark task) := by
  refine h.of_eq rfl rfl rfl rfl rfl fun taskId hs => ?_
  simp only [Scheduler.unpark, Dict.get?_erase] at hs
  split at hs
  · cases hs
  · exact hs

theorem listArtifacts (hb : Base load s) (h : Counts load s) (ht : Taking plan s.log) :
    Counts load (s.listArtifacts plan) := by
  refine { h with listed := fun requestId keys hk => ?_ }
  simp only [Scheduler.listArtifacts, Dict.get?_set] at hk
  split at hk
  · rename_i heq
    cases hk
    intro key hm
    have hplan := hb.accepted plan ht.accepted_mem
    rw [← heq]
    rcases List.mem_append.mp hm with hm | hm
    · obtain ⟨t, htask, hm⟩ := List.mem_flatMap.mp hm
      obtain ⟨artifact, ha, rfl⟩ := List.mem_map.mp hm
      rw [hplan] at htask
      exact (load.owned _ t htask).2 artifact ha
    · obtain ⟨artifact, ha, rfl⟩ := List.mem_map.mp hm
      rw [hplan] at ha
      exact load.initial _ artifact ha
  · exact h.listed requestId keys hk

theorem move (hb : Base load s) (hr : Reports s) (honce : OncePerReport s.log)
    (hbal : Balanced d s) (h : Counts load s) (hm : Move rt load d s d' s') : Counts load s' := by
  cases hm with
  | asked ho => exact (h.occasion ho).asked ..
  | accepted =>
    exact h.of_entry (.accepted _) rfl rfl rfl rfl rfl (fun _ hs => isSome_puts _ hs) fun _ hs => hs
  | indexed ht hin hn => exact h.indexTask hb hr honce hbal ht hin hn
  | listed ht => exact h.listArtifacts hb ht
  | finalized =>
    have hin := hbal.head _ rfl
    have hc := hbal.not_consumed hr honce hin (by simp [Duty.owes])
    refine h.consume hb hin hc (.dispatched _ _ _ _) rfl rfl ?_ rfl rfl rfl rfl rfl
    rintro _ _ _ _ ⟨⟩
    rfl
  | resharded =>
    have hin := hbal.head _ rfl
    have hc := hbal.not_consumed hr honce hin (by simp [Duty.owes])
    exact h.consume hb hin hc (.resharded _) rfl rfl (fun _ _ _ _ he => by cases he) rfl rfl rfl rfl
      rfl
  | parked _ _ hcross => exact h.park hb (hbal.head _ rfl) (stored_of_crossGroup hcross) _ _
  | begun | started | notStarted =>
    exact h.of_entry (.began _) rfl rfl rfl rfl rfl (fun _ hs => hs) fun _ hs => hs
  | received => exact h.of_entry (.received _) rfl rfl rfl rfl rfl (fun _ hs => hs) fun _ hs => hs
  | produced =>
    exact h.of_entry (.produced _) rfl rfl rfl rfl rfl (fun _ hs => isSome_put hs) fun _ hs => hs
  | failedRequest => exact h.failRequest _ _
  | cleaned => exact h.cleanup hb _
  | refused | abandoned => exact h.unpark _
  | landed _ hp => exact h.land hp _ _ _ _
  | landedLast hw hp hlast hlive hst =>
    rename_i n m d task artifact groupId rank ranks
    have hin : .indexed task ∈ s.log := hbal.head task (by simp [Duty.about, hw, Waiter.task])
    have hc := hbal.not_consumed hr honce hin (by rw [parks_eq_one hp]; omega)
    have hb' : Base load (s.land task artifact groupId rank 0) :=
      hb.of_entry (.migrated _ _ _) rfl rfl rfl rfl rfl rfl rfl
    have hc' : GfDit.consumed (s.land task artifact groupId rank 0).log task = 0 := by
      simpa [GfDit.consumed, Scheduler.land, SchedulerEntry.consumes] using hc
    refine (h.land hp artifact groupId rank 0).consume hb' (List.mem_cons_of_mem _ hin) hc'
      (.dispatched _ _ _ _) rfl rfl ?_ rfl rfl rfl rfl rfl
    rintro _ _ _ _ ⟨⟩
    rfl
  | completed =>
    refine Counts.cleanup ?_ ?_ _
    · exact hb.of_eq rfl rfl rfl rfl rfl rfl
    · exact h.of_eq rfl rfl rfl rfl rfl fun _ hs => hs
  | fetched =>
    refine Counts.cleanup ?_ ?_ _
    · exact hb.eraseFetch _ rfl rfl rfl rfl rfl rfl
    · exact h.frame [] rfl (by simp) rfl rfl (fun _ hc => hc) fun t hin hp artifact ha =>
        isSome_put (h.stored t hin hp artifact ha)
  | notFetched =>
    refine Counts.cleanup (Base.failRequest ?_ _ _) (Counts.failRequest ?_ _ _) _
    · exact hb.eraseFetch _ rfl rfl rfl rfl rfl rfl
    · exact h.of_eq rfl rfl rfl rfl rfl fun _ hs => hs
  | released => exact Counts.of_eq (h.cleanup hb _) rfl rfl rfl rfl rfl fun _ hs => hs
  | _ => exact h.of_eq rfl rfl rfl rfl rfl fun _ hs => hs

theorem stop (hbal : Balanced d s) (h : Counts load s) (hs : Stop rt d s s') : Counts load s' := by
  cases hs with
  | here => exact h
  | asked ho => exact (h.occasion ho).asked ..
  | lost => exact h.of_entry (.launched _) rfl rfl rfl rfl rfl (fun _ hs => hs) fun _ hs => hs
  | starved hw hp hst =>
    -- the inputs of a parked task do not leave the store
    rename_i n m d task artifact groupId rank refcounts ranks
    have hin : .indexed task ∈ s.log := hbal.head task (by simp [Duty.about, hw, Waiter.task])
    refine absurd (fun a ha => isSome_put ?_) hst
    exact h.stored task hin (by rw [hp]; rfl) a ha

theorem invariant (rt : Runtime σ) (load : Workload) :
    Invariant (machine rt load) fun d s =>
      ((Base load s ∧ Reports s) ∧ (OncePerReport s.log → Balanced d s)) ∧
        (OncePerReport s.log → Counts load s) :=
  (Balanced.invariant rt load).given
    (fun hm => OncePerReport.hereditary (Move.log_suffix hm))
    (fun hs => OncePerReport.hereditary (Stop.log_suffix hs))
    (fun hi h honce hm =>
      have honce := OncePerReport.hereditary (Move.log_suffix hm) honce
      h.move hi.1.1 hi.1.2 honce (hi.2 honce) hm)
    fun hi h honce hs => h.stop (hi.2 (OncePerReport.hereditary (Stop.log_suffix hs) honce)) hs

end Counts

def sharedArtifact : ArtifactHandle := ⟨"r", "x", some "codec"⟩

def sharedTask (taskId : String) (dependencies : List String)
    (inputs outputs : List ArtifactHandle) : InferenceTask :=
  ⟨taskId, "r", .textEncode, some "g", .pending, 0, dependencies, inputs, outputs, none, ∅⟩

def sharedTasks : Dict String InferenceTask :=
  ((Dict.set ∅ "p" (sharedTask "p" [] [] [sharedArtifact])).set "a"
    (sharedTask "a" ["p"] [sharedArtifact] [])).set "b"
    (sharedTask "b" ["p"] [sharedArtifact, sharedArtifact] [])

def sharedLoad : Workload :=
  .solo ⟨"r", sharedTasks, ["a", "b"], [], ∅⟩
    (by decide : ∀ entry ∈ sharedTasks.entries, entry.2.taskId = entry.1)
    (by decide : ∀ task ∈ sharedTasks.values, task.requestId = "r" ∧
      ∀ artifact ∈ task.inputs ++ task.outputs, artifact.requestId = "r")
    fun _ h => absurd h List.not_mem_nil

def sharedSteps : List Step :=
  [.submit "r", .event ⟨"p", "r", "g", .taskLaunchEnd, 0, "", [⟨sharedArtifact, "g", 0⟩]⟩,
    .event ⟨"p", "r", "g", .taskExecEnd, 0, "", []⟩]

def sharedEnd : Scheduler DynamicStepFcfs :=
  play fcfsRuntime sharedLoad sharedSteps (.init (soloStart "g"))

end Scheduler

end GfDit
