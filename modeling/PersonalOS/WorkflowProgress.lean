import PersonalOS.Identifiers
import PersonalOS.Instants
import PersonalOS.JobSearch

/-! # Workflow progress

The progress events of workflows, which are rows of the log of domain events, and the readers that
page through them.

* **Recording.** `WorkflowProgress.record` stamps an event with the clock, or one microsecond past
  the newest event of the workflow when the clock is not past that one, and never raises.
* **Reading.** `WorkflowProgress.eventsAfter` takes the events after a cursor, which is the id of an
  event of the workflow, in the order of their times and then of their ids.
* **Readers.** In a run of `ProgressStep`s events are recorded one at a time, the rest of the log
  grows, and each reader asks for its next page with the last event it was given.

The redactor learns of secrets as it runs, so that each call is given its own `redact`. -/

namespace PersonalOS

/-- What happened in a workflow. -/
inductive ProgressEventType where
  | stepStarted
  | stepCompleted
  | approvalRequested
  | approvalResolved
  | failure
  | workflowCompleted
deriving DecidableEq, Repr

namespace ProgressEventType

def all : List ProgressEventType :=
  [.stepStarted, .stepCompleted, .approvalRequested, .approvalResolved, .failure,
    .workflowCompleted]

def value : ProgressEventType → String
  | stepStarted => "step_started"
  | stepCompleted => "step_completed"
  | approvalRequested => "approval_requested"
  | approvalResolved => "approval_resolved"
  | failure => "failure"
  | workflowCompleted => "workflow_completed"

def eventTypePrefix : String := "workflow."

/-- The event type a kind is recorded under. -/
def stored (kind : ProgressEventType) : String := eventTypePrefix ++ kind.value

/-- The kind an event type names. -/
def fromStored (eventType : String) : Option ProgressEventType :=
  match eventTypePrefix.toList.isPrefixOf? eventType.toList with
  | none => none
  | some rest => all.find? fun kind => kind.value.toList == rest

/-- Every event type a progress stream reads. -/
def storedProgressTypes : List String := all.map stored

theorem mem_all (kind : ProgressEventType) : kind ∈ all := by cases kind <;> simp [all]

theorem fromStored_stored (kind : ProgressEventType) : fromStored kind.stored = some kind := by
  cases kind <;> decide +kernel

end ProgressEventType

/-- The payload of a progress event, with details `δ`. -/
structure ProgressPayload (δ : Type) where
  threadId : Option String
  correlationId : Option String
  data : δ
deriving DecidableEq

/-- A row of the log of domain events. -/
structure EventLogRow (δ : Type) where
  id : UUID
  aggregateType : String
  aggregateId : UUID
  eventType : String
  payload : ProgressPayload δ
  occurredAt : Instant
deriving DecidableEq

def workflowAggregate : String := "workflow"

/-- The row is about the workflow. -/
def EventLogRow.ofWorkflow {δ : Type} (workflowId : UUID) (row : EventLogRow δ) : Bool :=
  row.aggregateType == workflowAggregate && row.aggregateId == workflowId

/-- One thing that happened in a workflow, as a watcher sees it. -/
structure WorkflowProgressEvent (δ : Type) where
  eventId : UUID
  type : ProgressEventType
  workflowId : UUID
  payload : ProgressPayload δ
  occurredAt : Instant
deriving DecidableEq

/-- A cursor that does not name an event of the workflow. -/
structure InvalidEventCursor where
  message : String
  workflowId : String
  lastEventId : String
deriving DecidableEq

def InvalidEventCursor.of (workflowId cursor : UUID) : InvalidEventCursor where
  message := "'" ++ UUID.text cursor ++ "' is not an event of workflow " ++ UUID.text workflowId ++
    "; reconnect without Last-Event-ID to read from the start"
  workflowId := UUID.text workflowId
  lastEventId := UUID.text cursor

namespace WorkflowProgress

variable {δ : Type}

/-- The rows of a workflow, in the order they were inserted. -/
def ofWorkflow (workflowId : UUID) (log : List (EventLogRow δ)) : List (EventLogRow δ) :=
  log.filter (EventLogRow.ofWorkflow workflowId)

/-- Insert a row; `none` when its id is taken. -/
def append (row : EventLogRow δ) (log : List (EventLogRow δ)) : Option (List (EventLogRow δ)) :=
  if row.id ∈ log.map (·.id) then none else some (log ++ [row])

/-! ### Recording -/

/-- The time to stamp the next event with; `none` when it is past the last datetime. -/
def nextTimestamp (now : Instant) (workflowId : UUID) (log : List (EventLogRow δ)) :
    Option Instant :=
  match ((ofWorkflow workflowId log).map (·.occurredAt)).max? with
  | none => some now
  | some newest =>
      if newest < now then some now
      else if newest + 1 ≤ Instant.last then some (newest + 1) else none

/-- An event to record, the clock and the id its row would get, and whether the database takes the
write. -/
structure RecordCall (δ : Type) where
  workflowId : UUID
  kind : ProgressEventType
  payload : ProgressPayload δ
  redact : ProgressPayload δ → ProgressPayload δ
  now : Instant
  newId : UUID
  accepted : Bool

/-- Append one event: its id, or `none` if it could not be written. -/
def record (call : RecordCall δ) (log : List (EventLogRow δ)) :
    Option UUID × List (EventLogRow δ) :=
  match nextTimestamp call.now call.workflowId log with
  | none => (none, log)
  | some occurredAt =>
      let row : EventLogRow δ :=
        { id := call.newId, aggregateType := workflowAggregate, aggregateId := call.workflowId,
          eventType := call.kind.stored, payload := call.redact call.payload, occurredAt }
      match append row log with
      | none => (none, log)
      | some log' => if call.accepted then (some row.id, log') else (none, log)

/-! ### Reading -/

/-- The event a row is; `none` for a row of another type. -/
def toEvent (redact : ProgressPayload δ → ProgressPayload δ) (row : EventLogRow δ) :
    Option (WorkflowProgressEvent δ) :=
  (ProgressEventType.fromStored row.eventType).map fun type =>
    { eventId := row.id, type, workflowId := row.aggregateId, payload := redact row.payload,
      occurredAt := row.occurredAt }

/-- The row comes after the cursor's. -/
def comesAfter (cursor row : EventLogRow δ) : Bool :=
  decide (cursor.occurredAt < row.occurredAt ∨
    row.occurredAt = cursor.occurredAt ∧ cursor.id < row.id)

/-- The order the rows are read in. -/
def readBefore (row row' : EventLogRow δ) : Bool :=
  decide (row.occurredAt < row'.occurredAt ∨
    row.occurredAt = row'.occurredAt ∧ row.id ≤ row'.id)

/-- The first rows of a query. -/
def page (redact : ProgressPayload δ → ProgressPayload δ) (limit : ℕ)
    (query : List (EventLogRow δ)) : List (WorkflowProgressEvent δ) :=
  ((query.mergeSort readBefore).take limit).filterMap (toEvent redact)

/-- The events of a workflow after `cursor`, from the first when there is none. -/
def eventsAfter (redact : ProgressPayload δ → ProgressPayload δ) (workflowId : UUID)
    (cursor : Option UUID) (limit : ℕ) (log : List (EventLogRow δ)) :
    Except InvalidEventCursor (List (WorkflowProgressEvent δ)) :=
  let query := log.filter fun row => row.ofWorkflow workflowId &&
    ProgressEventType.storedProgressTypes.contains row.eventType
  match cursor with
  | none => .ok (page redact limit query)
  | some after =>
      match log.find? fun row => row.id == after && row.ofWorkflow workflowId with
      | none => .error (.of workflowId after)
      | some row => .ok (page redact limit (query.filter (comesAfter row)))

end WorkflowProgress

/-! ### Readers of a growing log -/

/-- The log, and what each reader has been given of each workflow. -/
structure ProgressState (δ : Type) where
  log : List (EventLogRow δ)
  received : ℕ → UUID → List (WorkflowProgressEvent δ)

inductive ProgressStep (δ : Type) where
  | record (call : WorkflowProgress.RecordCall δ)
  /-- An event of something that is not a workflow. -/
  | other (row : EventLogRow δ) (row_other : row.aggregateType ≠ workflowAggregate)
  /-- A reader asks for what comes after the last event it was given. -/
  | page (reader : ℕ) (workflowId : UUID) (limit : ℕ) (limit_pos : 0 < limit)
      (redact : ProgressPayload δ → ProgressPayload δ)

namespace ProgressState

variable {δ : Type}

def initial : ProgressState δ := { log := [], received := fun _ _ => [] }

/-- The cursor of a reader. -/
def cursor (s : ProgressState δ) (reader : ℕ) (workflowId : UUID) : Option UUID :=
  (s.received reader workflowId).getLast?.map (·.eventId)

/-- A page that was refused gives the reader nothing. -/
def receive (reader : ℕ) (workflowId : UUID)
    (answer : Except InvalidEventCursor (List (WorkflowProgressEvent δ))) (s : ProgressState δ) :
    ProgressState δ :=
  { s with
    received := fun r w => if r = reader ∧ w = workflowId
      then s.received r w ++ answer.toOption.getD [] else s.received r w }

def step (s : ProgressState δ) : ProgressStep δ → ProgressState δ
  | .record call => { s with log := (WorkflowProgress.record call s.log).2 }
  | .other row _ => { s with log := (WorkflowProgress.append row s.log).getD s.log }
  | .page reader workflowId limit _ redact =>
      s.receive reader workflowId
        (WorkflowProgress.eventsAfter redact workflowId (s.cursor reader workflowId) limit s.log)

def run (s : ProgressState δ) (steps : List (ProgressStep δ)) : ProgressState δ :=
  steps.foldl step s

end ProgressState

/-- The step asks for a page of the workflow for the reader. -/
def ProgressStep.isPage {δ : Type} (reader : ℕ) (workflowId : UUID) : ProgressStep δ → Bool
  | .page r w _ _ _ => decide (r = reader ∧ w = workflowId)
  | _ => false

end PersonalOS
