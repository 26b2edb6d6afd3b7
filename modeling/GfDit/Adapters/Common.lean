import GfDit.Policies.DynamicStepFcfs

/-!
# The chunked DiT plan

`build_chunked_dit_plan` of `adapters/common.py`: text encoding, DiT
preparation, the denoising steps in chunks, VAE decoding and finalizing, with
a RESHARD wherever the state has to change groups. Handles keep what the
scheduler looks at; the plan's metadata is not copied into every payload. The
length of a chunk comes from floating-point arithmetic and is a parameter.
-/

namespace GfDit

-- ---------------------------------------------------------------------------
-- The step schedule
-- ---------------------------------------------------------------------------

structure DitSegment where
  start : Nat
  stop : Nat
  groupId : Option String
  deriving DecidableEq

/-- The end of an entry; one that is open ends with the last step. -/
def StepScheduleItem.stopWithin (item : StepScheduleItem) (numSteps : Nat) : Int :=
  match item.stop with
  | none => numSteps
  | some stop => min stop numSteps

def checkCovered (numSteps expectedStart : Nat) : Except PyError Unit :=
  if expectedStart ≠ numSteps then
    throw (.valueError <| s!"dit_step_schedule must cover all {numSteps} steps; covered only " ++
      s!"[0, {expectedStart})")
  else pure ()

/-- The entries from an index on, the first of which has to start at
`expectedStart`. Entries after the last step are not looked at. -/
def normalizeFrom (numSteps : Nat) :
    Nat → Nat → List StepScheduleItem → Except PyError (List DitSegment)
  | _, expectedStart, [] => do
    checkCovered numSteps expectedStart
    pure []
  | index, expectedStart, item :: items => do
    let stop := item.stopWithin numSteps
    let groupId := item.groupId.getD ""
    if groupId = "" then
      throw (.valueError s!"dit_step_schedule[{index}] requires non-empty group_id")
    else if item.start ≠ expectedStart then
      throw (.valueError <| "dit_step_schedule must cover steps contiguously from 0: " ++
        s!"entry {index} starts at {item.start}, expected {expectedStart}")
    else if stop ≤ item.start then
      throw (.valueError s!"dit_step_schedule[{index}] has empty range [{item.start}, {stop})")
    else
      let segment : DitSegment := ⟨expectedStart, stop.toNat, some groupId⟩
      if numSteps ≤ stop.toNat then
        checkCovered numSteps stop.toNat
        pure [segment]
      else
        let rest ← normalizeFrom numSteps (index + 1) stop.toNat items
        pure (segment :: rest)

/-- `_normalize_dit_step_schedule`. Without a schedule all steps go to one
group, or are left unpinned. -/
def normalizeDitStepSchedule (numSteps : Nat) (defaultGroupId : Option String)
    (schedule : List StepScheduleItem) : Except PyError (List DitSegment) :=
  if schedule = [] then pure [⟨0, numSteps, defaultGroupId⟩]
  else normalizeFrom numSteps 0 0 schedule

def groupForStep (step : Nat) : List DitSegment → Except PyError (Nat × Option String)
  | [] => throw (.valueError s!"no DiT group configured for step {step}")
  | segment :: schedule =>
    if step < segment.stop then pure (segment.stop, segment.groupId)
    else groupForStep step schedule

-- ---------------------------------------------------------------------------
-- Arguments
-- ---------------------------------------------------------------------------

structure ChunkedDitPlanArgs where
  requestId : String
  requestValue : HostValue
  requestType : String
  numSteps : Nat
  chunkSize : Nat
  priority : Int
  groupId : Option String
  textSeqLen : Nat
  latentSeqLen : Nat
  stateCodecId : String
  decodedCodecId : Option String
  metadata : Dict String PyValue
  stageGroupIds : Option (Dict String String)
  ditStepSchedule : List StepScheduleItem
  ditStepDoTrueCfg : Option (List Bool)

def atLeastOne (name : String) (value : Nat) : Except PyError Unit :=
  if value < 1 then throw (.valueError s!"{name} must be >= 1, got {value}") else pure ()

def checkTrueCfg (numSteps : Nat) : Option (List Bool) → Except PyError Unit
  | none => pure ()
  | some flags =>
    if flags.length ≠ numSteps then
      throw (.valueError <| s!"dit_step_do_true_cfg length must match num_steps={numSteps}; " ++
        s!"got {flags.length}")
    else pure ()

structure StageGroups where
  aux : String
  dit : String
  aux_ne : aux ≠ ""
  dit_ne : dit ≠ ""
  distinct : aux ≠ dit

def optionText (text : Option String) : String := text.getD "None"

def dictText (d : Dict String String) : String :=
  "\x7b" ++ ", ".intercalate (d.entries.map fun entry => quoted entry.1 ++ ": " ++ quoted entry.2) ++
    "\x7d"

def checkStageGroups : Option (Dict String String) → Except PyError (Option StageGroups)
  | none => pure none
  | some ids =>
    match ids.get? stageAux, ids.get? stageDit with
    | some aux, some dit =>
      if h : aux = "" ∨ dit = "" then
        throw (.valueError <| "stage_group_ids values must be non-empty group_ids; got " ++
          dictText ids)
      else if hd : aux = dit then
        throw (.valueError <| "stage_group_ids requires distinct aux/dit groups; got both = " ++
          quoted aux)
      else pure (some ⟨aux, dit, fun e => h (.inl e), fun e => h (.inr e), hd⟩)
    | _, _ =>
      throw (.valueError <| "stage_group_ids must contain both " ++ quoted stageAux ++ " and " ++
        quoted stageDit ++ " keys; got " ++ dictText ids)

def taskKindToStage : TaskKind → Option String
  | .textEncode | .vaeDecode | .finalize => some stageAux
  | .ditPrepare | .timestepPrepare | .ditStepChunk => some stageDit
  | .reshard => none

def groupForKind (groupId : Option String) (stages : Option StageGroups) (kind : TaskKind) :
    Except PyError (Option String) :=
  match stages with
  | none => pure groupId
  | some groups =>
    match taskKindToStage kind with
    | none => throw (.valueError s!"no stage mapping for task kind {kind.value}")
    | some stage => pure (some (if stage = stageAux then groups.aux else groups.dit))

-- ---------------------------------------------------------------------------
-- Handles and tasks
-- ---------------------------------------------------------------------------

namespace ChunkedDitPlanArgs

variable (args : ChunkedDitPlanArgs)

def taskId (name : String) : String := args.requestId ++ (":" ++ name)

def reqHandle : ArtifactHandle := ⟨args.requestId, "request", none⟩

def stateHandle (artifactId : String) : ArtifactHandle :=
  ⟨args.requestId, artifactId, some args.stateCodecId⟩

def decoded : ArtifactHandle := ⟨args.requestId, "decoded", args.decodedCodecId⟩

def finalOutput : ArtifactHandle := ⟨args.requestId, "output", none⟩

def stageTask (name : String) (kind : TaskKind) (groupId : Option String)
    (dependencies : List String) (inputs outputs : List ArtifactHandle) (seqLen : Nat) :
    InferenceTask where
  taskId := args.taskId name
  requestId := args.requestId
  kind := kind
  groupId := groupId
  status := .pending
  priority := args.priority
  dependencies := dependencies
  inputs := inputs
  outputs := outputs
  stepRange := none
  payload := (Dict.set ∅ "seq_len" (.int seqLen)).set "request_stage" (.text kind.value)

def groupValue : Option String → PyValue
  | none => .none
  | some groupId => .text groupId

def reshardTask (name dependency : String) (input output : ArtifactHandle)
    (src dst : Option String) : InferenceTask where
  taskId := args.taskId name
  requestId := args.requestId
  kind := .reshard
  groupId := none
  status := .pending
  priority := args.priority
  dependencies := [dependency]
  inputs := [input]
  outputs := [output]
  stepRange := none
  payload := ((Dict.set ∅ reshardPayloadSrcGroupId (groupValue src)).set reshardPayloadDstGroupId
    (groupValue dst)).set "request_stage" (.text "reshard")

-- ---------------------------------------------------------------------------
-- The denoising loop
-- ---------------------------------------------------------------------------

structure Cursor where
  prevTaskId : String
  prevState : ArtifactHandle
  prevGroupId : Option String
  idx : Nat
  start : Nat

def switchGroup (c : Cursor) (currentGroupId : Option String) : List InferenceTask × Cursor :=
  if c.prevGroupId ≠ currentGroupId then
    let migratedState := args.stateHandle <|
      s!"{c.prevState.artifactId}_to_{optionText currentGroupId}_{c.idx}"
    let task := args.reshardTask s!"reshard_dit_step:{c.idx}" c.prevTaskId c.prevState migratedState
      c.prevGroupId currentGroupId
    ([task], { c with
      prevTaskId := task.taskId, prevState := migratedState, prevGroupId := currentGroupId })
  else ([], c)

def makeStepRange (start stop : Nat) : Except PyError StepRange :=
  if h : start < stop then pure ⟨start, stop, h⟩
  else
    throw (.valueError s!"end must be greater than start, got start={start}, end={stop}")

def chunkDoTrueCfg (start stop : Nat) : Option Bool :=
  args.ditStepDoTrueCfg.map fun flags => ((flags.drop start).take (stop - start)).any id

/-- The payload of a chunk; a truth value is an integer of Python. -/
def chunkPayload (seqLen : Nat) : Option Bool → Dict String PyValue
  | none =>
    (Dict.set ∅ "seq_len" (.int seqLen)).set "request_stage" (.text TaskKind.ditStepChunk.value)
  | some doTrueCfg =>
    (((Dict.set ∅ "seq_len" (.int seqLen)).set "request_stage"
      (.text TaskKind.ditStepChunk.value)).set "do_true_cfg" (.int doTrueCfg.toNat)).set
      "cost_model_stage"
      (.text (TaskKind.ditStepChunk.value ++ if doTrueCfg then "_cfg" else "_nocfg"))

variable (effectiveChunkSeqLen : Nat → Nat → Nat)

/-- The state a chunk leaves; the last one has a name of its own. -/
def outState (idx stop : Nat) : ArtifactHandle :=
  args.stateHandle (if stop = args.numSteps then "state_denoised" else s!"state_denoised_{idx}")

def chunkTask (c : Cursor) (currentGroupId : Option String) (range : StepRange) :
    InferenceTask where
  taskId := args.taskId s!"dit_step_chunk:{c.idx}"
  requestId := args.requestId
  kind := .ditStepChunk
  groupId := currentGroupId
  status := .pending
  priority := args.priority
  dependencies := [c.prevTaskId]
  inputs := [c.prevState]
  outputs := [args.outState c.idx range.stop]
  stepRange := some range
  payload := chunkPayload (effectiveChunkSeqLen args.latentSeqLen range.length)
    (args.chunkDoTrueCfg range.start range.stop)

/-- The tasks the loop adds, and the ids of the chunks among them. Every round
advances by a step, so it ends within as many rounds as there are steps. -/
def denoise (schedule : List DitSegment) :
    Nat → Cursor → Except PyError (List InferenceTask × List String)
  | 0, _ => pure ([], [])
  | rounds + 1, c => do
    if c.start < args.numSteps then
      let (scheduleEnd, currentGroupId) ← groupForStep c.start schedule
      let stop := min (min (c.start + args.chunkSize) scheduleEnd) args.numSteps
      let (reshards, c) := args.switchGroup c currentGroupId
      let range ← makeStepRange c.start stop
      let chunk := args.chunkTask effectiveChunkSeqLen c currentGroupId range
      let (tasks, denoiseIds) ← denoise schedule rounds
        ⟨chunk.taskId, args.outState c.idx stop, currentGroupId, c.idx + 1, stop⟩
      pure (reshards ++ chunk :: tasks, chunk.taskId :: denoiseIds)
    else pure ([], [])

-- ---------------------------------------------------------------------------
-- The plan
-- ---------------------------------------------------------------------------

def addTasks (tasks : Dict String InferenceTask) (added : List InferenceTask) :
    Dict String InferenceTask :=
  added.foldl (fun tasks task => tasks.set task.taskId task) tasks

/-- Point a task of the plan at another producer. -/
def rewire (name dependency : String) (input : ArtifactHandle)
    (tasks : Dict String InferenceTask) : Except PyError (Dict String InferenceTask) :=
  match tasks.get? (args.taskId name) with
  | none => throw (.keyError (args.taskId name))
  | some task =>
    pure (tasks.set (args.taskId name) { task with dependencies := [dependency], inputs := [input] })

/-- The tasks at both ends, VAE decoding without its input yet. -/
def endTasks (auxGroupId vaeGroupId finalGroupId firstDitGroupId : Option String) :
    List InferenceTask :=
  [args.stageTask "text_encode:0" .textEncode auxGroupId [] [args.reqHandle]
      [args.stateHandle "state_text"] args.textSeqLen,
    args.stageTask "dit_prepare:0" .ditPrepare firstDitGroupId [args.taskId "text_encode:0"]
      [args.stateHandle "state_text"] [args.stateHandle "state_latent"] args.latentSeqLen,
    args.stageTask "timestep_prepare:0" .timestepPrepare firstDitGroupId
      [args.taskId "dit_prepare:0"] [args.stateHandle "state_latent"]
      [args.stateHandle "state_timestep"] args.latentSeqLen,
    args.stageTask "vae_decode:0" .vaeDecode vaeGroupId [] [] [args.decoded] args.latentSeqLen,
    args.stageTask "finalize:0" .finalize finalGroupId [args.taskId "vae_decode:0"] [args.decoded]
      [args.finalOutput] 1]

def insertStageReshards (stages : Option StageGroups) (firstDitGroupId lastDitGroupId : Option String)
    (lastChunk : String) (tasks : Dict String InferenceTask) :
    Except PyError (Dict String InferenceTask) := do
  match stages with
  | none => pure tasks
  | some groups =>
    let textToDit := args.reshardTask "reshard_text_to_dit:0" (args.taskId "text_encode:0")
      (args.stateHandle "state_text") (args.stateHandle "state_text_dit") (some groups.aux)
      firstDitGroupId
    let tasks ← args.rewire "dit_prepare:0" textToDit.taskId (args.stateHandle "state_text_dit")
      (addTasks tasks [textToDit])
    let ditToAux := args.reshardTask "reshard_dit_to_aux:0" lastChunk
      (args.stateHandle "state_denoised") (args.stateHandle "state_denoised_aux") lastDitGroupId
      (some groups.aux)
    args.rewire "vae_decode:0" ditToAux.taskId (args.stateHandle "state_denoised_aux")
      (addTasks tasks [ditToAux])

def planMetadata : Dict String PyValue :=
  ((((Dict.set ∅ "request_type" (.text args.requestType)).set "num_steps"
    (.int args.numSteps)).set "chunk_size" (.int args.chunkSize)).set "text_seq_len"
    (.int args.textSeqLen)).set "latent_seq_len" (.int args.latentSeqLen)
    |>.insertAll args.metadata.entries

def check : Except PyError (Option StageGroups) := do
  atLeastOne "num_steps" args.numSteps
  atLeastOne "chunk_size" args.chunkSize
  atLeastOne "text_seq_len" args.textSeqLen
  atLeastOne "latent_seq_len" args.latentSeqLen
  checkTrueCfg args.numSteps args.ditStepDoTrueCfg
  checkStageGroups args.stageGroupIds

def ditSchedule (stages : Option StageGroups) : Except PyError (List DitSegment) := do
  let default ← groupForKind args.groupId stages .ditStepChunk
  normalizeDitStepSchedule args.numSteps default args.ditStepSchedule

def endGroup : Option DitSegment → Except PyError (Option String)
  | none => throw (.indexError "tuple index out of range")
  | some segment => pure segment.groupId

def buildTasks (stages : Option StageGroups) (schedule : List DitSegment) :
    Except PyError (Dict String InferenceTask) := do
  let firstDitGroupId ← endGroup schedule.head?
  let lastDitGroupId ← endGroup schedule.getLast?
  let textGroupId ← groupForKind args.groupId stages .textEncode
  let vaeGroupId ← groupForKind args.groupId stages .vaeDecode
  let finalGroupId ← groupForKind args.groupId stages .finalize
  let tasks := addTasks ∅ (args.endTasks textGroupId vaeGroupId finalGroupId firstDitGroupId)
  let (added, denoiseIds) ← args.denoise effectiveChunkSeqLen schedule args.numSteps
    ⟨args.taskId "timestep_prepare:0", args.stateHandle "state_timestep", firstDitGroupId, 0, 0⟩
  match denoiseIds.getLast? with
  | none => throw (.indexError "list index out of range")
  | some lastChunk =>
    let tasks ← args.rewire "vae_decode:0" lastChunk (args.stateHandle "state_denoised")
      (addTasks tasks added)
    args.insertStageReshards stages firstDitGroupId lastDitGroupId lastChunk tasks

def buildChunkedDitPlan : Except PyError RequestExecutionPlan := do
  let stages ← args.check
  let schedule ← args.ditSchedule stages
  let tasks ← args.buildTasks effectiveChunkSeqLen stages schedule
  pure {
    requestId := args.requestId
    tasks := tasks
    terminalTaskIds := [args.taskId "finalize:0"]
    initialArtifacts := [⟨args.reqHandle, args.requestValue⟩]
    metadata := args.planMetadata }

end ChunkedDitPlanArgs

end GfDit
