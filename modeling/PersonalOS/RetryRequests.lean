import PersonalOS.Prog
import PersonalOS.WorkflowCommands
import PersonalOS.WorkflowProgress

/-! # Requests to retry or dismiss a failed step

What users do to the failed steps of workflows, and what workers do to the retries queued.

* **Rows.** A retry is a row of the queue under the key of its workflow, failure and attempt.  What
  a user did is an audit event.  `history` remembers who read which dismissals, what was dismissed
  and what was queued, in order.
* **Assessment.** `assessFailure` decides what may be done about a failure from the counts of its
  rows and the dismissals read before; the failures themselves are read from the checkpoints, and
  are among the inputs.
* **Requests.** `retryFailure` reads, assesses and selects, and queues one row in a transaction of
  its own. -/

namespace PersonalOS

open Concurrent Concurrent.Prog

inductive FailureClass where
  | modelTransient
  | modelSemantic
  | providerTransient
  | providerPermanent
  | concurrency
  | partialSideEffect
  | policyDenial
  | humanTimeout
  | unclassified
deriving DecidableEq, Repr

inductive FailureStatus where
  | failed
  | denied
  | retryQueued
  | dismissed
deriving DecidableEq, Repr

inductive RecoveryAction where
  | retry
  | dismiss
  | reconnect
deriving DecidableEq, Repr

/-- Total attempts a failed step may have, the first one included. -/
def maxFailureAttempts : ℕ := 5

/-! ### Assessment -/

/-- Where a failure stands, whether and why not it may be retried, and what is offered for it. -/
structure Disposition where
  status : FailureStatus
  retryable : Bool
  notRetryableReason : Option String
  actions : List RecoveryAction
deriving DecidableEq, Repr

def disposition (failureClass : FailureClass) (attempts : ℕ) (retryPending dismissed : Bool)
    (provider : Option String) : Disposition :=
  if dismissed then
    ⟨.dismissed, false, some "the failure was dismissed", []⟩
  else if failureClass = .policyDenial then
    ⟨.denied, false, some "policy denied this action; asking again gets the same answer",
      [.dismiss]⟩
  else if failureClass = .providerPermanent then
    ⟨.failed, false, some (provider.getD "the integration" ++
      " rejected the request permanently; reconnect it instead of retrying"), [.reconnect, .dismiss]⟩
  else if retryPending then
    ⟨.retryQueued, false, some "a retry is already queued", []⟩
  else if maxFailureAttempts ≤ attempts then
    ⟨.failed, false,
      some ("the step has failed " ++ toString attempts ++ " times, the most allowed"), [.dismiss]⟩
  else ⟨.failed, true, none, [.retry, .dismiss]⟩

/-- A failure as the checkpoints have it. -/
structure StoredFailure where
  failureId : UUID
  threadId : String
  /-- What the error itself is classed as. -/
  cause : FailureClass
  /-- The provider the error names. -/
  provider : Option String
  /-- The step had started a side effect that may have landed. -/
  sideEffects : Bool
deriving DecidableEq, Repr

structure WorkflowFailure where
  failureId : UUID
  threadId : String
  failureClass : FailureClass
  attempts : ℕ
  disposition : Disposition
  dismissedBy : Option String
deriving DecidableEq, Repr

/-- Decide everything about one failure from what the rows say about it. -/
def assessFailure (stored : StoredFailure) (retriesQueued : ℕ) (retryPending : Bool)
    (dismissedBy : Option String) : WorkflowFailure :=
  let failureClass := if stored.cause ≠ .policyDenial ∧ stored.cause ≠ .providerPermanent ∧
    stored.sideEffects then .partialSideEffect else stored.cause
  { failureId := stored.failureId, threadId := stored.threadId, failureClass,
    attempts := 1 + retriesQueued,
    disposition := disposition failureClass (1 + retriesQueued) retryPending dismissedBy.isSome
      stored.provider
    dismissedBy }

/-! ### Rows -/

/-- A retry command in the queue, and the call that queued it. -/
structure RetryRow (τ : Type) where
  command : WorkflowCommand
  failureId : UUID
  attempt : ℕ
  status : CommandStatus
  call : τ

namespace RetryRow

variable {τ : Type}

/-- No worker has finished with it. -/
def unfinished (row : RetryRow τ) : Bool := row.status == .pending || row.status == .inProgress

/-- The row is a retry of the workflow's failure. -/
def isOf (workflowId failureId : UUID) (row : RetryRow τ) : Bool :=
  row.command.workflowId == workflowId && row.failureId == failureId

/-- The unique key of the row. -/
def key (row : RetryRow τ) : UUID × UUID × ℕ := (row.command.workflowId, row.failureId, row.attempt)

end RetryRow

inductive FailureAction where
  | dismissed
  | retryRequested
deriving DecidableEq, Repr

/-- An audit event about a failure. -/
structure FailureAudit where
  action : FailureAction
  workflowId : UUID
  failureId : UUID
  actor : String
deriving DecidableEq, Repr

inductive RetryEvent (τ : Type) where
  /-- The call read these failures of the workflow as dismissed. -/
  | read (call : τ) (workflowId : UUID) (dismissed : List UUID)
  | dismissed (workflowId failureId : UUID)
  | queued (call : τ) (workflowId failureId : UUID) (attempt : ℕ)
deriving DecidableEq, Repr

structure RetryState (τ : Type) where
  rows : List (RetryRow τ)
  audits : List FailureAudit
  history : List (RetryEvent τ)

namespace RetryState

variable {τ : Type}

/-- The dismissals of the workflow's failures, first one first. -/
def dismissals (workflowId : UUID) (s : RetryState τ) : List FailureAudit :=
  s.audits.filter fun a => a.workflowId == workflowId && a.action == .dismissed

/-- The retries queued for a failure, in the order they were queued. -/
def retriesOf (workflowId failureId : UUID) (s : RetryState τ) : List (RetryRow τ) :=
  s.rows.filter (RetryRow.isOf workflowId failureId)

/-- How many retries were queued for a failure, and how many of them no worker has finished. -/
def countKeyed (workflowId failureId : UUID) (s : RetryState τ) : ℕ × ℕ :=
  ((s.retriesOf workflowId failureId).length,
    (s.retriesOf workflowId failureId).countP RetryRow.unfinished)

/-- Queue a retry; `false` when one is queued for the same attempt. -/
def enqueue (row : RetryRow τ) (s : RetryState τ) : Bool × RetryState τ :=
  if s.rows.any (·.key == row.key) then (false, s)
  else (true, { s with
    rows := s.rows ++ [row]
    history := s.history ++ [.queued row.call row.command.workflowId row.failureId row.attempt] })

def audit (event : FailureAudit) (s : RetryState τ) : RetryState τ :=
  { s with
    audits := s.audits ++ [event]
    history := s.history ++
      if event.action = .dismissed then [.dismissed event.workflowId event.failureId] else [] }

/-- Who dismissed which failure; the read is remembered. -/
def readDismissals (t : τ) (workflowId : UUID) (s : RetryState τ) :
    List FailureAudit × RetryState τ :=
  (s.dismissals workflowId, { s with
    history := s.history ++ [.read t workflowId ((s.dismissals workflowId).map (·.failureId))] })

end RetryState

/-! ### Requests -/

/-- A request about a failure of a workflow, which is optional while only one is open. -/
structure FailureRequest where
  workflowId : UUID
  failureId : Option UUID
  actorId : String
deriving DecidableEq, Repr

/-- What a worker does to a claimed command. -/
inductive WorkerAction where
  | claim
  | release
  | markDone
  | markFailed
deriving DecidableEq, Repr

def WorkerAction.onStatus : WorkerAction → CommandStatus → CommandStatus
  | .claim, status => if status = .pending ∨ status = .inProgress then .inProgress else status
  | .release, status => if status = .inProgress then .pending else status
  | .markDone, _ => .dispatched
  | .markFailed, _ => .failed

inductive RetryCall where
  | retry (request : FailureRequest)
  | dismiss (request : FailureRequest)
  | work (commandId : UUID) (action : WorkerAction)

/-- What the checkpoints say of a workflow. -/
structure FailureSnapshot where
  status : String
  recoverableFailures : List StoredFailure

/-- What the surroundings decide of a step. -/
structure RetryInput where
  /-- There is none of a workflow that does not exist. -/
  snapshot : Option FailureSnapshot
  newId : UUID

inductive RetryError where
  | notFound (message : String)
  | conflict (message : String)
  | duplicateWorkflowCommand (message : String)
  | valueError
deriving DecidableEq, Repr

inductive RetryAnswer where
  | retried (failure : WorkflowFailure) (command : WorkflowCommand) (attempt : ℕ)
  | dismissed (failureId : UUID) (status : FailureStatus) (dismissedBy : String)
  | worked

abbrev RetryProgram (τ α : Type) : Type 1 := Prog RetryInput (RetryState τ) RetryError α

namespace FailureRoutes

variable {τ : Type}

/-- Assess the workflow's failures one after another. -/
def assessAll (workflowId : UUID) (dismissals : List FailureAudit) :
    List StoredFailure → RetryProgram τ (List WorkflowFailure)
  | [] => return []
  | stored :: rest => do
      let (queued, unfinished) ← read (RetryState.countKeyed workflowId stored.failureId)
      let dismissal := dismissals.find? fun a => a.failureId == stored.failureId
      let failures ← assessAll workflowId dismissals rest
      return assessFailure stored queued (decide (0 < unfinished)) (dismissal.map (·.actor)) ::
        failures

/-- The failure a request means: the one named, or the only open one. -/
def select (status : String) (failures : List WorkflowFailure) (request : FailureRequest) :
    Except RetryError WorkflowFailure :=
  let workflow := "workflow " ++ UUID.text request.workflowId
  match request.failureId with
  | some failureId =>
      match failures.find? (·.failureId == failureId) with
      | some failure => .ok failure
      | none => .error (.notFound (workflow ++ " has no failure '" ++ UUID.text failureId ++ "'"))
  | none =>
      match failures.filter (·.disposition.status ≠ .dismissed) with
      | [] => .error (.conflict (workflow ++ " has no open failures (status: " ++ status ++ ")"))
      | [failure] => .ok failure
      | several => .error (.conflict (workflow ++ " has " ++ toString several.length ++
          " open failures (" ++ ", ".intercalate (several.map (UUID.text ·.failureId)) ++
          "); pass failure_id to say which one"))

/-- Read the workflow's failures, and select the one that is meant. -/
def selected (t : τ) (request : FailureRequest) :
    RetryProgram τ (FailureSnapshot × WorkflowFailure) := do
  match ← input (·.snapshot) with
  | none => raise (.notFound ("workflow '" ++ UUID.text request.workflowId ++ "' not found"))
  | some snapshot =>
      let dismissals ← act fun _ => RetryState.readDismissals t request.workflowId
      let failures ← assessAll request.workflowId dismissals snapshot.recoverableFailures
      match select snapshot.status failures request with
      | .error error => raise error
      | .ok failure => return (snapshot, failure)

/-- What is said of a failure that cannot be acted on. -/
def failureText (request : FailureRequest) (failure : WorkflowFailure) (text : String) : String :=
  "failure " ++ UUID.text failure.failureId ++ " of workflow " ++ UUID.text request.workflowId ++ text

def retryCommand (request : FailureRequest) (failure : WorkflowFailure) (commandId : UUID) :
    WorkflowCommand where
  commandId
  kind := .retry
  workflowId := request.workflowId
  threadId := failure.threadId
  actorId := request.actorId
  graphInput := .none
  interruptIds := []

/-- Queue a re-run of a failed step. -/
def retryFailure (t : τ) (request : FailureRequest) : RetryProgram τ RetryAnswer := do
  let (_, failure) ← selected t request
  if failure.disposition.retryable then
    let attempt := failure.attempts + 1
    let commandId ← input (·.newId)
    let command := retryCommand request failure commandId
    if ← act fun _ => RetryState.enqueue
        { command, failureId := failure.failureId, attempt, status := .pending, call := t } then
      write (RetryState.audit ⟨.retryRequested, request.workflowId, failure.failureId,
        request.actorId⟩)
      return .retried failure command attempt
    else
      raise (.duplicateWorkflowCommand ("a retry command for workflow " ++
        UUID.text request.workflowId ++ " answering the same state is already queued"))
  else
    raise (.conflict (failureText request failure
      (" cannot be retried: " ++ failure.disposition.notRetryableReason.getD "None")))

/-- Close a failure without retrying it. -/
def dismissFailure (t : τ) (request : FailureRequest) : RetryProgram τ RetryAnswer := do
  let (snapshot, failure) ← selected t request
  if failure.disposition.status = .dismissed then
    raise (.conflict (failureText request failure
      (" was already dismissed by " ++ failure.dismissedBy.getD "None")))
  else if failure.disposition.status = .retryQueued then
    raise (.conflict (failureText request failure
      " has a retry queued; it cannot be dismissed until that retry has run"))
  else
    write (RetryState.audit ⟨.dismissed, request.workflowId, failure.failureId, request.actorId⟩)
    let dismissals ← act fun _ => RetryState.readDismissals t request.workflowId
    let failures ← assessAll request.workflowId dismissals snapshot.recoverableFailures
    match failures.filter (·.failureId == failure.failureId) with
    | [dismissed] =>
        return .dismissed failure.failureId dismissed.disposition.status
          (dismissed.dismissedBy.getD request.actorId)
    | _ => raise .valueError

/-- A worker changes the status of the rows of a command. -/
def work (commandId : UUID) (action : WorkerAction) : RetryProgram τ RetryAnswer := do
  write fun s => { s with
    rows := s.rows.map fun row => if row.command.commandId = commandId
      then { row with status := action.onStatus row.status } else row }
  return .worked

end FailureRoutes

def RetryCall.program {τ : Type} (t : τ) : RetryCall → RetryProgram τ RetryAnswer
  | .retry request => FailureRoutes.retryFailure t request
  | .dismiss request => FailureRoutes.dismissFailure t request
  | .work commandId action => FailureRoutes.work commandId action

end PersonalOS
