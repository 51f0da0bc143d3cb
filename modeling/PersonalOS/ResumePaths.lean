import PersonalOS.ApprovalQueue

/-! # The other paths to a resume

Besides the approval queue, `POST /workflows/{id}/resume` and the event router answer a parked
interrupt, as programs on the same store.

* **The route** reads what is pending and queues the caller's decisions, or an event payload,
  under the parked checkpoint.
* **The router** reads what waits on the event's correlation id and queues the event under a
  key of its own, as a resume of what waits or else as a start of another thread.

Both read first and queue in a later transaction. -/

namespace PersonalOS

open Concurrent

/-! ### POST /workflows/{id}/resume -/

/-- A reviewer's answer to one request. -/
structure ApprovalDecisionInput where
  actionId : UUID
  actionFingerprint : String
  /-- The verdict: approved, or else rejected. -/
  approved : Bool
  requestId : Option UUID
  note : Option String
  fingerprint_nonempty : actionFingerprint ≠ ""

/-- The decision a caller's answer is queued as. -/
def ApprovalDecisionInput.decision (input : ApprovalDecisionInput) (actorId : String) (now : Time) :
    ApprovalDecision where
  actionId := input.actionId
  actionFingerprint := input.actionFingerprint
  verdict := if input.approved then .approved else .rejected
  decidedBy := actorId
  decidedAt := now
  note := input.note
  requestId := input.requestId

/-- Exactly one of decisions and an event. -/
inductive ResumeAnswer where
  | decisions (first : ApprovalDecisionInput) (rest : List ApprovalDecisionInput)
  /-- A mapping with an `action_id`. -/
  | eventRecord (decision : Dumped ApprovalDecision)
  | event (values : List ResumeValue)

/-- One request of the route. -/
structure ResumeCall where
  answer : ResumeAnswer
  threadId : Option String
  actorId : String
  now : Time

/-- The value the run is resumed with. -/
def ResumeCall.value (c : ResumeCall) : ResumeValue :=
  match c.answer with
  | .decisions first rest => .ofDecisions ((first :: rest).map (·.decision c.actorId c.now))
  | .eventRecord decision => .record decision
  | .event values => .mapping values

/-- A `Conflict` of the route. -/
inductive ResumeError where
  | notWaiting (threadId : Option String)
  | alreadyQueued
deriving DecidableEq, Repr

/-- The command that resumes the run with this value. -/
def ParkedInterrupt.answerCommand (p : ParkedInterrupt) (actorId : String) (value : ResumeValue)
    (commandId : UUID) : WorkflowCommand :=
  { p.resumeCommand actorId [] commandId with graphInput := value }

section programs

open Concurrent.Prog (act read raise)

variable {τ : Type} (p : ParkedInterrupt)

/-- Queue a command: whether it was new. -/
def queueCommand (command : UUID → WorkflowCommand) (dedupe : Dedupe) (commandId : UUID)
    (s : ApprovalStore τ) : Bool × ApprovalStore τ :=
  let queued := enqueue (command commandId) (some dedupe) s.commands
  (queued.1, { s with commands := queued.2 })

/-- Queue the answer to the interrupt a workflow is parked on. -/
def resumeWorkflow (c : ResumeCall) : Prog UUID (ApprovalStore τ) ResumeError Unit := do
  let waiting ← read fun s => p.isWaiting s.commands
  if waiting ∧ c.threadId.all (· == p.threadId) then
    if ← act (queueCommand (p.answerCommand c.actorId c.value) (.checkpoint p.checkpointId)) then
      return ()
    else raise .alreadyQueued
  else raise (.notWaiting c.threadId)

/-! ### The event router -/

/-- One event, as far as the router reads it. -/
structure EventEnvelope where
  type : String
  source : String
  /-- It carries the correlation id of the parked workflow, which is the oldest that waits on it. -/
  correlated : Bool
  /-- The hash of its type and its dedupe key. -/
  digest : String
  /-- Its fields as a mapping. -/
  fields : List ResumeValue

/-- What a graph receives for an event. -/
def EventEnvelope.resumeValue (envelope : EventEnvelope) : ResumeValue :=
  .mapping [.mapping envelope.fields]

/-- A delivery, and where a run the event starts would go. -/
structure EventDelivery where
  envelope : EventEnvelope
  /-- The types that start runs; `none` is all of them. -/
  startTypes : Option (List String)
  startedWorkflowId : UUID
  startedThreadId : String
  /-- The actor of the waiting thread. -/
  waitingActorId : String

def EventDelivery.startCommand (d : EventDelivery) (commandId : UUID) : WorkflowCommand where
  commandId := commandId
  kind := .start
  workflowId := d.startedWorkflowId
  threadId := d.startedThreadId
  actorId := "event:" ++ d.envelope.source
  graphInput := d.envelope.resumeValue
  interruptIds := []

inductive RouteKind where
  | resumed
  | started
  | alreadyRouted
  | unrouted
deriving DecidableEq, Repr

/-- Queue the command an event routes to, unless an earlier delivery did. -/
def queueRouted (d : EventDelivery) (command : UUID → WorkflowCommand) (kind : RouteKind) :
    Prog UUID (ApprovalStore τ) ResumeError RouteKind := do
  if ← act (queueCommand command (.event d.envelope.digest)) then return kind
  else return .alreadyRouted

/-- Route one event. -/
def routeEvent (d : EventDelivery) : Prog UUID (ApprovalStore τ) ResumeError RouteKind := do
  let waiting ← read fun s => d.envelope.correlated && p.isWaiting s.commands
  if waiting then queueRouted d (p.answerCommand d.waitingActorId d.envelope.resumeValue) .resumed
  else if d.startTypes.all (·.contains d.envelope.type) then queueRouted d d.startCommand .started
  else return .unrouted

end programs

/-! ### Calls -/

/-- What a reviewer, the expiry sweep or a caller of the route does. -/
inductive ReviewCall where
  | approval (c : ApprovalCall)
  | resume (c : ResumeCall)

/-- What answers a parked interrupt. -/
inductive AnswerCall where
  | review (c : ReviewCall)
  | event (d : EventDelivery)

/-- A call up to its end, whatever that is. -/
def AnswerCall.program {τ : Type} (call : τ) (p : ParkedInterrupt) :
    AnswerCall → Prog UUID (ApprovalStore τ) Empty Unit
  | .review (.approval c) => do let _ ← (c.program call p).attempt
  | .review (.resume c) => do let _ ← (resumeWorkflow p c).attempt
  | .event d => do let _ ← (routeEvent p d).attempt

end PersonalOS
