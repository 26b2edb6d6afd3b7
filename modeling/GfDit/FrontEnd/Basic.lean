import GfDit.Lib.Dict
import Mathlib.Data.Finset.Basic

/-!
# The asynchronous front end

`AsyncOmniDiffusion` of `async_omni_diffusion.py` in worker mode, where results
come back to `collect`. Coroutines of one event loop submit, collect and abort
requests; a control thread hands them to the engine, picks up what the engine
made of them and passes it to a pool of postprocess processes.

The thread and the coroutines share maps under one lock. A step is a block
that holds this lock, a call of a queue or a call of the engine; between two
steps of the thread the other parties may take theirs. The lock of the
submissions is never held across a suspension, so a coroutine that has seen
an answer returns it before another coroutine runs. What the outside can see
is kept in `log`, newest entry first; no step reads it.
-/

namespace GfDit.FrontEnd

/-- `_build_request`: a new object for each call, which carries one id. -/
structure OmniDiffusionRequest (ρ : Type) where
  serial : Nat
  requestId : String
  payload : ρ
  deriving DecidableEq

structure CollectedDiffusionResult (ρ δ : Type) where
  request : OmniDiffusionRequest ρ
  output : δ
  deriving DecidableEq

inductive Event (ρ ω : Type)
  | submitted (request : OmniDiffusionRequest ρ)
  | aborted (requestId : String)
  -- Handed to the engine.
  | passed (request : OmniDiffusionRequest ρ)
  -- What the engine or the postprocessing made of it.
  | produced (request : OmniDiffusionRequest ρ) (outcome : Except String ω)
  | returned (requestId : String) (outcome : Except String ω)
  deriving DecidableEq

/-- Where the control thread stands: what it took and has not put down. The
later points carry what is left of the round over the submissions. -/
inductive Control (ρ δ ω : Type)
  | draining
  | drained (requestId : String) (outcome : Except String ω)
  | submitting
  | taken (request : OmniDiffusionRequest ρ)
  | passing (request : OmniDiffusionRequest ρ)
  | passed (requestId submissionId : String)
  | refused (requestId message : String)
  | snapshot
  | polling (inflight : List (String × String))
  | collecting (requestId submissionId : String) (inflight : List (String × String))
  | lost (requestId message : String) (inflight : List (String × String))
  | collected (requestId : String) (result : CollectedDiffusionResult ρ δ)
    (inflight : List (String × String))
  | enqueueing (requestId : String) (result : CollectedDiffusionResult ρ δ)
    (inflight : List (String × String))
  | enqueued (requestId : String) (inflight : List (String × String))
  | undelivered (requestId message : String) (inflight : List (String × String))
  deriving DecidableEq

structure AsyncOmniDiffusion (ρ δ ω : Type) where
  -- How many request objects were built.
  built : Nat
  pendingSubmissions : Dict String String
  -- The values are `None` in worker mode.
  submitFutures : Dict String Unit
  -- The calls of `collect` that wait.
  collects : List String
  -- The answer a coroutine has seen and is about to return.
  answering : Option (String × Except String ω)
  submitQueue : List (OmniDiffusionRequest ρ)
  submissionIds : Dict String String
  postprocessInflight : Finset String
  cancelledRequests : Finset String
  completedResults : Dict String ω
  failedRequests : Dict String String
  control : Control ρ δ ω
  -- `_pending_requests` of the engine.
  pendingRequests : Dict String (OmniDiffusionRequest ρ)
  postprocessInQueue : List (String × CollectedDiffusionResult ρ δ)
  postprocessProcesses : Nat
  postprocessing : List (String × CollectedDiffusionResult ρ δ)
  postprocessOutQueue : List (String × Except String ω)
  log : List (Event ρ ω)
  deriving DecidableEq

namespace AsyncOmniDiffusion

variable {ρ δ ω : Type}

def start (processes : Nat) : AsyncOmniDiffusion ρ δ ω where
  built := 0
  pendingSubmissions := ∅
  submitFutures := ∅
  collects := []
  answering := none
  submitQueue := []
  submissionIds := ∅
  postprocessInflight := ∅
  cancelledRequests := ∅
  completedResults := ∅
  failedRequests := ∅
  control := .draining
  pendingRequests := ∅
  postprocessInQueue := []
  postprocessProcesses := processes
  postprocessing := []
  postprocessOutQueue := []
  log := []

def record (s : AsyncOmniDiffusion ρ δ ω) (event : Event ρ ω) : AsyncOmniDiffusion ρ δ ω :=
  { s with log := event :: s.log }

-- ---------------------------------------------------------------------------
-- The coroutines
-- ---------------------------------------------------------------------------

/-- `submit`; an id that is pending is refused. -/
def submit (s : AsyncOmniDiffusion ρ δ ω) (requestId : String) (payload : ρ) :
    Except String (AsyncOmniDiffusion ρ δ ω) :=
  if s.pendingSubmissions.contains requestId then
    .error ("Duplicate diffusion request_id submitted: " ++ requestId)
  else
    let request : OmniDiffusionRequest ρ := ⟨s.built, requestId, payload⟩
    .ok <| ({ s with
      built := s.built + 1
      pendingSubmissions := s.pendingSubmissions.set requestId ""
      submitFutures := s.submitFutures.set requestId ()
      submitQueue := s.submitQueue ++ [request] } :
      AsyncOmniDiffusion ρ δ ω).record (.submitted request)

/-- What `abort` and `_runtime_v2_finalize_request` both take out. -/
def forget (s : AsyncOmniDiffusion ρ δ ω) (requestId : String) : AsyncOmniDiffusion ρ δ ω :=
  { s with
    submissionIds := s.submissionIds.erase requestId
    postprocessInflight := s.postprocessInflight.erase requestId
    completedResults := s.completedResults.erase requestId
    failedRequests := s.failedRequests.erase requestId }

def finalizeRequest (s : AsyncOmniDiffusion ρ δ ω) (requestId : String) :
    AsyncOmniDiffusion ρ δ ω :=
  { s.forget requestId with cancelledRequests := s.cancelledRequests.erase requestId }

def dropPending (s : AsyncOmniDiffusion ρ δ ω) (requestId : String) : AsyncOmniDiffusion ρ δ ω :=
  { s with
    pendingSubmissions := s.pendingSubmissions.erase requestId
    submitFutures := s.submitFutures.erase requestId }

/-- `abort` of one id; the abort of the engine does nothing. -/
def abort (s : AsyncOmniDiffusion ρ δ ω) (requestId : String) : AsyncOmniDiffusion ρ δ ω :=
  { (s.dropPending requestId).forget requestId with
    cancelledRequests := insert requestId s.cancelledRequests }.record (.aborted requestId)

/-- The first lines of `collect`. -/
def collect (s : AsyncOmniDiffusion ρ δ ω) (requestId : String) :
    Except String (AsyncOmniDiffusion ρ δ ω) :=
  if s.pendingSubmissions.contains requestId ∧ s.submitFutures.contains requestId then
    .ok { s with collects := s.collects ++ [requestId] }
  else .error ("Unknown diffusion request_id: " ++ requestId)

/-- What a round of the loop in `collect` finds; an error goes first. -/
def answer (s : AsyncOmniDiffusion ρ δ ω) (requestId : String) : Option (Except String ω) :=
  match s.failedRequests.get? requestId with
  | some message => some (.error message)
  | none => (s.completedResults.get? requestId).map .ok

def poll (s : AsyncOmniDiffusion ρ δ ω) (requestId : String) : AsyncOmniDiffusion ρ δ ω :=
  match s.answer requestId with
  | some outcome =>
    { s with collects := s.collects.erase requestId, answering := some (requestId, outcome) }
  | none => s

/-- The end of `collect`, once it has found an answer. -/
def finish (s : AsyncOmniDiffusion ρ δ ω) (requestId : String) (outcome : Except String ω) :
    AsyncOmniDiffusion ρ δ ω :=
  ({ (s.dropPending requestId).finalizeRequest requestId with answering := none } :
    AsyncOmniDiffusion ρ δ ω).record (.returned requestId outcome)

-- ---------------------------------------------------------------------------
-- The control thread
-- ---------------------------------------------------------------------------

/-- The locked block of `_drain_runtime_v2_postprocess_results`. -/
def takeResult (s : AsyncOmniDiffusion ρ δ ω) (requestId : String) (outcome : Except String ω) :
    AsyncOmniDiffusion ρ δ ω :=
  let s :=
    if requestId ∈ s.cancelledRequests then
      { s with cancelledRequests := s.cancelledRequests.erase requestId }
    else
      match outcome with
      | .error message =>
        { s with failedRequests := s.failedRequests.set requestId message }
      | .ok result => { s with completedResults := s.completedResults.set requestId result }
  { s with postprocessInflight := s.postprocessInflight.erase requestId }

/-- What the engine answers to the call the thread makes, or a queue to a put. -/
inductive Reply (δ : Type)
  | raised (message : String)
  | timedOut
  | ready (output : δ)
  deriving DecidableEq

/-- The runner names a submission after its request. -/
def accepted (s : AsyncOmniDiffusion ρ δ ω) (request : OmniDiffusionRequest ρ) :
    AsyncOmniDiffusion ρ δ ω :=
  ({ s with
    pendingRequests := s.pendingRequests.set request.requestId request
    control := .passed request.requestId request.requestId } :
    AsyncOmniDiffusion ρ δ ω).record (.passed request)

def engineSubmit (s : AsyncOmniDiffusion ρ δ ω) (request : OmniDiffusionRequest ρ) :
    Reply δ → AsyncOmniDiffusion ρ δ ω
  | .raised message =>
    let message := "Diffusion submit failed: " ++ message
    (({ s with control := .refused request.requestId message } :
      AsyncOmniDiffusion ρ δ ω).record (.passed request)).record
        (.produced request (.error message))
  | .timedOut | .ready _ => s.accepted request

def engineCollectRaw (s : AsyncOmniDiffusion ρ δ ω) (requestId submissionId : String)
    (inflight : List (String × String)) (reply : Reply δ) : AsyncOmniDiffusion ρ δ ω :=
  match s.pendingRequests.get? submissionId with
  | none =>
    let message := "Diffusion collect failed: 'Unknown diffusion submission id: " ++
      submissionId ++ "'"
    { s with control := .lost requestId message inflight }
  | some request =>
    match reply with
    | .timedOut => { s with control := .polling inflight }
    | .raised message =>
      let message := "Diffusion collect failed: " ++ message
      ({ s with control := .lost requestId message inflight } :
        AsyncOmniDiffusion ρ δ ω).record (.produced request (.error message))
    | .ready output =>
      { s with
        pendingRequests := s.pendingRequests.erase submissionId
        control := .collected requestId ⟨request, output⟩ inflight }

def controlStep (s : AsyncOmniDiffusion ρ δ ω) (reply : Reply δ) : AsyncOmniDiffusion ρ δ ω :=
  match s.control with
  | .draining =>
    match s.postprocessOutQueue with
    | [] => { s with control := .submitting }
    | (requestId, outcome) :: rest =>
      { s with postprocessOutQueue := rest, control := .drained requestId outcome }
  | .drained requestId outcome =>
    { s.takeResult requestId outcome with control := .draining }
  | .submitting =>
    match s.submitQueue with
    | [] => { s with control := .snapshot }
    | request :: rest => { s with submitQueue := rest, control := .taken request }
  | .taken request =>
    -- The mark of an aborted id stays set here.
    if request.requestId ∈ s.cancelledRequests then { s with control := .submitting }
    else { s with control := .passing request }
  | .passing request => s.engineSubmit request reply
  | .passed requestId submissionId =>
    { s with
      submissionIds := s.submissionIds.set requestId submissionId, control := .submitting }
  | .refused requestId message =>
    { s with
      failedRequests := s.failedRequests.set requestId message, control := .submitting }
  | .snapshot => { s with control := .polling s.submissionIds.entries }
  | .polling [] => { s with control := .draining }
  | .polling ((requestId, submissionId) :: inflight) =>
    if requestId ∈ s.cancelledRequests then
      { s with
        submissionIds := s.submissionIds.erase requestId, control := .polling inflight }
    else { s with control := .collecting requestId submissionId inflight }
  | .collecting requestId submissionId inflight =>
    s.engineCollectRaw requestId submissionId inflight reply
  | .lost requestId message inflight =>
    { s with
      submissionIds := s.submissionIds.erase requestId
      failedRequests := s.failedRequests.set requestId message
      control := .polling inflight }
  | .collected requestId result inflight =>
    { s with
      submissionIds := s.submissionIds.erase requestId
      control := .enqueueing requestId result inflight }
  | .enqueueing requestId result inflight =>
    match reply with
    | .raised message =>
      let message := "Diffusion postprocess enqueue failed: " ++ message
      ({ s with control := .undelivered requestId message inflight } :
        AsyncOmniDiffusion ρ δ ω).record (.produced result.request (.error message))
    | .timedOut | .ready _ =>
      { s with
        postprocessInQueue := s.postprocessInQueue ++ [(requestId, result)]
        control := .enqueued requestId inflight }
  | .enqueued requestId inflight =>
    { s with
      postprocessInflight := insert requestId s.postprocessInflight
      control := .polling inflight }
  | .undelivered requestId message inflight =>
    { s with
      failedRequests := s.failedRequests.set requestId message
      control := .polling inflight }

-- ---------------------------------------------------------------------------
-- The postprocess processes
-- ---------------------------------------------------------------------------

/-- The end of a round of `_runtime_v2_postprocess_loop`. -/
def postprocess (s : AsyncOmniDiffusion ρ δ ω)
    (item : String × CollectedDiffusionResult ρ δ) (outcome : Except String ω) :
    AsyncOmniDiffusion ρ δ ω :=
  let outcome := outcome.mapError ("Diffusion postprocess failed: " ++ ·)
  ({ s with postprocessOutQueue := s.postprocessOutQueue ++ [(item.1, outcome)] } :
    AsyncOmniDiffusion ρ δ ω).record (.produced item.2.request outcome)

-- ---------------------------------------------------------------------------
-- Runs
-- ---------------------------------------------------------------------------

inductive Action (ρ δ ω : Type)
  | submit (requestId : String) (payload : ρ)
  | abort (requestId : String)
  | collect (requestId : String)
  -- A waiting `collect` wakes up, or is given up.
  | poll (requestId : String)
  | giveUp (requestId : String)
  | finish
  | control (reply : Reply δ)
  -- A process takes the next item; the item at a place is done.
  | take
  | postprocess (place : Nat) (outcome : Except String ω)
  deriving DecidableEq

/-- The steps of the coroutines wait while one of them is about to return. -/
def step (s : AsyncOmniDiffusion ρ δ ω) : Action ρ δ ω → Option (AsyncOmniDiffusion ρ δ ω)
  | .submit requestId payload =>
    if s.answering.isNone then (s.submit requestId payload).toOption else none
  | .abort requestId => if s.answering.isNone then some (s.abort requestId) else none
  | .collect requestId => if s.answering.isNone then (s.collect requestId).toOption else none
  | .poll requestId =>
    if s.answering.isNone ∧ requestId ∈ s.collects then some (s.poll requestId) else none
  | .giveUp requestId =>
    if s.answering.isNone ∧ requestId ∈ s.collects then
      some { s with collects := s.collects.erase requestId }
    else none
  | .finish => s.answering.map fun seen => s.finish seen.1 seen.2
  | .control reply => some (s.controlStep reply)
  | .take =>
    match s.postprocessInQueue with
    | [] => none
    | item :: rest =>
      if s.postprocessing.length < s.postprocessProcesses then
        some { s with postprocessInQueue := rest, postprocessing := s.postprocessing ++ [item] }
      else none
  | .postprocess place outcome =>
    (s.postprocessing[place]?).map fun item =>
      ({ s with postprocessing := s.postprocessing.eraseIdx place }.postprocess item outcome)

/-- Runs in which every step is one that `Allowed` admits. -/
inductive Run (Allowed : AsyncOmniDiffusion ρ δ ω → Action ρ δ ω → Prop)
    (s : AsyncOmniDiffusion ρ δ ω) : AsyncOmniDiffusion ρ δ ω → Prop
  | refl : Run Allowed s s
  | tail (h : Run Allowed s t) (ha : Allowed t action) (hs : t.step action = some u) :
      Run Allowed s u

end AsyncOmniDiffusion

end GfDit.FrontEnd
