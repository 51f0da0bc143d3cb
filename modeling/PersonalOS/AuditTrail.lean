import PersonalOS.Instants
import PersonalOS.JobSearch
import PersonalOS.Keyed
import PersonalOS.OffsetPages

/-! # The audit trail

`AuditTrailStore` reads `audit_events` and joins each event to the policy decision, the tool execution and
the approval of the action that it belongs to.

* **Tables.** `AuditTables` are the rows it reads.  The primary keys are unique, and rows come in the order
  of the database, which a query without an order answers in.
* **Chains.** `Chains.load` fetches the rows that some events and decisions cite, or share the hash of an
  action with; `Chains.entry`, `Chains.intent` and `Chains.decision` are the entries with their links.
* **Reads.** `search` is one page of the events that match a query, the newest first; `workflowTrail` is all
  that was recorded for one workflow, the oldest first.

What the redactor does to a text, how a UUID is read and written and the thread of an application are
given with the `AuditTools`. -/

namespace PersonalOS

namespace AuditTrail

/-! ### Rows -/

inductive AuditEventResult where
  | success
  | failure
deriving DecidableEq, Repr

def AuditEventResult.value : AuditEventResult → String
  | success => "success"
  | failure => "failure"

/-- One row of `audit_events`. -/
structure EventRow where
  id : UUID
  actor : String
  workflowId : Option UUID
  action : String
  targetRef : String
  policyDecision : Option String
  policyDecisionId : Option UUID
  operationId : Option UUID
  approvalRef : Option String
  result : AuditEventResult
  timestamp : Instant
deriving DecidableEq, Repr

/-- One row of `policy_decisions`. -/
structure DecisionRow where
  id : UUID
  principal : String
  workflowId : Option UUID
  tool : String
  argsHash : String
  decision : String
  requestedScopes : List String
  decidedAt : Instant
deriving DecidableEq, Repr

/-- One row of `tool_executions`; `ρ` is what a receipt is. -/
structure ExecutionRow (ρ : Type) where
  operationId : UUID
  workflowId : Option UUID
  toolName : String
  idempotencyKey : String
  status : String
  requestFingerprint : Option String
  policyDecisionId : Option UUID
  approvalRef : Option String
  approvedBy : Option String
  attempts : ℕ
  receipt : Option ρ
  error : Option String
  createdAt : Instant
  completedAt : Option Instant

/-- One row of `approvals`. -/
structure SignOffRow where
  id : UUID
  actionHash : String
  status : String
  decidedAt : Option Instant
  createdAt : Instant
deriving DecidableEq, Repr

/-- The thread of a workflow, in `workflow_runs`. -/
structure RunRow where
  threadId : String
  workflowId : UUID
deriving DecidableEq, Repr

/-- Whose application it is, in `applications`. -/
structure OwnedApplication where
  id : UUID
  userId : UUID
deriving DecidableEq, Repr

/-- The tables that are read. -/
structure AuditTables (ρ : Type) where
  events : List EventRow
  decisions : List DecisionRow
  executions : List (ExecutionRow ρ)
  approvals : List SignOffRow
  workflows : List UUID
  runs : List RunRow
  applications : List OwnedApplication
  events_nodup : (events.map (·.id)).Nodup
  decisions_nodup : (decisions.map (·.id)).Nodup
  executions_nodup : (executions.map (·.operationId)).Nodup
  approvals_nodup : (approvals.map (·.id)).Nodup
  applications_nodup : (applications.map (·.id)).Nodup

/-- What the reads take from the program around them. -/
structure AuditTools (ρ : Type) where
  /-- What the redactor leaves of a text. -/
  redactText : String → String
  /-- What it leaves of a receipt. -/
  redactReceipt : ρ → ρ
  /-- `UUID(...)` of a text; `none` when it is none. -/
  parseUuid : String → Option UUID
  /-- `str` of a UUID. -/
  uuidText : UUID → String
  /-- `application_transition_thread_id`. -/
  applicationThreadId : UUID → UUID → String

/-! ### Entries -/

/-- Where in an action's life an entry sits. -/
inductive AuditStage where
  | intent
  | policyDecision
  | approval
  | execution
  | event
deriving DecidableEq, Repr

/-- The order that stages happen in. -/
def AuditStage.order : AuditStage → ℕ
  | intent => 0
  | policyDecision => 1
  | approval => 2
  | execution => 3
  | event => 4

structure LinkedDecision where
  id : UUID
  principal : String
  tool : String
  argsHash : String
  decision : String
  requestedScopes : List String
  decidedAt : Instant
deriving DecidableEq, Repr

structure LinkedExecution (ρ : Type) where
  operationId : UUID
  toolName : String
  idempotencyKey : String
  status : String
  requestFingerprint : Option String
  policyDecisionId : Option UUID
  approvalRef : Option String
  approvedBy : Option String
  attempts : ℕ
  receipt : Option ρ
  error : Option String
  createdAt : Instant
  completedAt : Option Instant

structure LinkedApproval where
  id : UUID
  status : String
  actionHash : String
  decidedBy : Option String
  requestedAt : Instant
  decidedAt : Option Instant
deriving DecidableEq, Repr

/-- The rest of the chain that an entry belongs to. -/
structure AuditLinks (ρ : Type) where
  policyDecision : Option LinkedDecision
  toolExecution : Option (LinkedExecution ρ)
  approval : Option LinkedApproval

/-- One step of what happened. -/
structure AuditTrailEntry (ρ : Type) where
  stage : AuditStage
  time : Instant
  actor : String
  action : String
  targetRef : Option String
  result : Option AuditEventResult
  policyDecision : Option String
  actionHash : Option String
  workflowId : Option UUID
  auditEventId : Option UUID
  links : AuditLinks ρ

namespace AuditTools

variable {ρ : Type} (tools : AuditTools ρ)

def linkedDecision (row : DecisionRow) : LinkedDecision where
  id := row.id
  principal := tools.redactText row.principal
  tool := tools.redactText row.tool
  argsHash := tools.redactText row.argsHash
  decision := tools.redactText row.decision
  requestedScopes := row.requestedScopes.map tools.redactText
  decidedAt := row.decidedAt

def linkedExecution (row : ExecutionRow ρ) : LinkedExecution ρ where
  operationId := row.operationId
  toolName := tools.redactText row.toolName
  idempotencyKey := tools.redactText row.idempotencyKey
  status := tools.redactText row.status
  requestFingerprint := row.requestFingerprint.map tools.redactText
  policyDecisionId := row.policyDecisionId
  approvalRef := row.approvalRef.map tools.redactText
  approvedBy := row.approvedBy.map tools.redactText
  attempts := row.attempts
  receipt := row.receipt.map tools.redactReceipt
  error := row.error.map tools.redactText
  createdAt := row.createdAt
  completedAt := row.completedAt

def linkedApproval (decidedBy : Option String) (row : SignOffRow) : LinkedApproval where
  id := row.id
  status := tools.redactText row.status
  actionHash := tools.redactText row.actionHash
  decidedBy := decidedBy.map tools.redactText
  requestedAt := row.createdAt
  decidedAt := row.decidedAt

end AuditTools

/-! ### Linking -/

/-- `a or b`, for texts: the empty text is false. -/
def orText (a b : Option String) : Option String :=
  match a with
  | some text => if text = "" then b else some text
  | none => b

/-- The action is an approval step. -/
def isApprovalAction (action : String) : Bool := "approval.".toList.isPrefixOf action.toList

/-- The rows behind a set of audit events. -/
structure Chains (ρ : Type) where
  decisions : List DecisionRow
  executions : List (ExecutionRow ρ)
  approvals : List SignOffRow
  /-- Who decided an approval. -/
  decidedBy : UUID → Option String

variable {ρ : Type}

/-- Who recorded an approval's decision, from its successful event. -/
def approvalDecidedBy (tools : AuditTools ρ) (tables : AuditTables ρ) (approvalId : UUID) : Option String :=
  ((tables.events.filter fun event =>
    event.approvalRef = some (tools.uuidText approvalId) && isApprovalAction event.action &&
      event.result = .success).map (·.actor)).getLast?

namespace Chains

section load

variable (tools : AuditTools ρ) (tables : AuditTables ρ) (events : List EventRow) (workflowIds : List UUID)
  (decisions : List DecisionRow)

def loadedWorkflowIds : List UUID := workflowIds ++ events.filterMap (·.workflowId)

def citedApprovalRefs : List String := (events.filterMap (·.approvalRef)).filter (· ≠ "")

def loadedExecutions : List (ExecutionRow ρ) :=
  tables.executions.filter fun row =>
    (events.filterMap (·.operationId)).contains row.operationId ||
      row.approvalRef.any (citedApprovalRefs events).contains ||
      row.workflowId.any (loadedWorkflowIds events workflowIds).contains ||
      row.requestFingerprint.any (decisions.map (·.argsHash)).contains

def loadedApprovals : List SignOffRow :=
  let executions := loadedExecutions tables events workflowIds decisions
  let approvalRefs := citedApprovalRefs events ++ (executions.filterMap (·.approvalRef)).filter (· ≠ "")
  tables.approvals.filter fun row =>
    (approvalRefs.filterMap tools.parseUuid).contains row.id ||
      (decisions.map (·.argsHash)).contains row.actionHash

def linkedDecisions : List DecisionRow :=
  let executions := loadedExecutions tables events workflowIds decisions
  let approvals := loadedApprovals tools tables events workflowIds decisions
  let hashes :=
    approvals.map (·.actionHash) ++ (executions.filterMap (·.requestFingerprint)).filter (· ≠ "")
  tables.decisions.filter fun row =>
    (events.filterMap (·.policyDecisionId) ++ executions.filterMap (·.policyDecisionId)).contains row.id ||
      row.workflowId.any (loadedWorkflowIds events workflowIds).contains && hashes.contains row.argsHash

/-- Fetch every row that the events and the decisions cite, or share the hash of an action with. -/
def load : Chains ρ where
  decisions := Keyed.upsertAll (·.id)
    (decisions ++ linkedDecisions tools tables events workflowIds decisions) []
  executions := loadedExecutions tables events workflowIds decisions
  approvals := loadedApprovals tools tables events workflowIds decisions
  decidedBy := approvalDecidedBy tools tables

end load

variable (tools : AuditTools ρ) (chains : Chains ρ)

/-- The decisions on an action, in the order they were made. -/
def decisionsByHash (actionHash : String) : List DecisionRow :=
  (chains.decisions.insertionSort fun row row' => row.decidedAt ≤ row'.decidedAt).filter
    (·.argsHash = actionHash)

/-- The latest execution that redeems an approval. -/
def executionByApproval (approvalRef : String) : Option (ExecutionRow ρ) :=
  ((chains.executions.insertionSort fun row row' => row.createdAt ≤ row'.createdAt).filter
    fun row => approvalRef ≠ "" ∧ row.approvalRef = some approvalRef).getLast?

/-- The latest execution of an action. -/
def executionByHash (actionHash : String) : Option (ExecutionRow ρ) :=
  ((chains.executions.insertionSort fun row row' => row.createdAt ≤ row'.createdAt).filter
    fun row => actionHash ≠ "" ∧ row.requestFingerprint = some actionHash).getLast?

/-- The latest approval of an action. -/
def approvalByHash (actionHash : String) : Option SignOffRow :=
  ((chains.approvals.insertionSort fun row row' => row.createdAt ≤ row'.createdAt).filter
    (·.actionHash = actionHash)).getLast?

def executionById (operationId : Option UUID) : Option (ExecutionRow ρ) :=
  operationId.bind fun id => Keyed.lookup (·.operationId) id chains.executions

def decisionById (decisionId : Option UUID) : Option DecisionRow :=
  decisionId.bind fun id => Keyed.lookup (·.id) id chains.decisions

def approvalByRef (ref : Option String) : Option SignOffRow :=
  ref.bind fun ref =>
    if ref = "" then none
    else (tools.parseUuid ref).bind fun id => Keyed.lookup (·.id) id chains.approvals

def decisionHash (decisionId : Option UUID) : Option String :=
  (chains.decisionById decisionId).map (·.argsHash)

/-- The latest decision on the action at or before a time, else its first. -/
def decisionBefore (actionHash : Option String) (time : Instant) : Option DecisionRow :=
  let candidates := chains.decisionsByHash (actionHash.getD "")
  let before := candidates.filter fun row => row.decidedAt ≤ time
  if before.isEmpty then candidates.head? else before.getLast?

/-- The execution and the approval that followed a decision. -/
def downstream (decision : DecisionRow) : Option (ExecutionRow ρ) × Option SignOffRow :=
  let execution := (chains.executions.find? fun row => row.policyDecisionId = some decision.id).or
    (chains.executionByHash decision.argsHash)
  let approval := (execution.bind fun row => chains.approvalByRef tools row.approvalRef).or
    (chains.approvalByHash decision.argsHash)
  (execution, approval)

/-- What the action was aimed at, from the first audit event in its chain. -/
def targetOf (actionHash : String) (events : List EventRow) : Option String :=
  (events.find? fun event =>
    [(chains.executionById event.operationId).bind (·.requestFingerprint),
      (chains.approvalByRef tools event.approvalRef).map (·.actionHash),
      chains.decisionHash event.policyDecisionId].contains (some actionHash)).map (·.targetRef)

def links (decision : Option DecisionRow) (execution : Option (ExecutionRow ρ))
    (approval : Option SignOffRow) : AuditLinks ρ where
  policyDecision := decision.map tools.linkedDecision
  toolExecution := execution.map tools.linkedExecution
  approval := approval.map fun row => tools.linkedApproval (chains.decidedBy row.id) row

/-! ### Entries of a chain -/

/-- The execution that an event names. -/
def namedExecution (event : EventRow) : Option (ExecutionRow ρ) := chains.executionById event.operationId

/-- The approval that an event names, or else its execution. -/
def eventApproval (event : EventRow) : Option SignOffRow :=
  (chains.approvalByRef tools event.approvalRef).or
    ((chains.namedExecution event).bind fun row => chains.approvalByRef tools row.approvalRef)

def eventStage (event : EventRow) : AuditStage :=
  if isApprovalAction event.action then .approval
  else if event.operationId.isSome then .execution
  else .event

/-- The execution of an event: of an approval step it may be the one that redeems the approval. -/
def eventExecution (event : EventRow) : Option (ExecutionRow ρ) :=
  if isApprovalAction event.action then
    (chains.namedExecution event).or (event.approvalRef.bind chains.executionByApproval)
  else chains.namedExecution event

def eventHash (event : EventRow) : Option String :=
  orText ((chains.eventExecution event).bind (·.requestFingerprint)) <|
    orText ((chains.eventApproval tools event).map (·.actionHash)) <|
      chains.decisionHash event.policyDecisionId

def eventDecision (event : EventRow) : Option DecisionRow :=
  ((chains.decisionById event.policyDecisionId).or
    ((chains.eventExecution event).bind fun row => chains.decisionById row.policyDecisionId)).or
      (chains.decisionBefore (chains.eventHash tools event) event.timestamp)

/-- An event, with its chain attached. -/
def entry (event : EventRow) : AuditTrailEntry ρ :=
  let decision := chains.eventDecision tools event
  { stage := eventStage event
    time := event.timestamp
    actor := tools.redactText event.actor
    action := tools.redactText event.action
    targetRef := some (tools.redactText event.targetRef)
    result := some event.result
    policyDecision := (orText event.policyDecision (decision.map (·.decision))).map tools.redactText
    actionHash := (chains.eventHash tools event).map tools.redactText
    workflowId := event.workflowId
    auditEventId := some event.id
    links := chains.links tools decision (chains.eventExecution event) (chains.eventApproval tools event) }

/-- The action as first proposed, read from the first decision on its hash. -/
def intent (decision : DecisionRow) (events : List EventRow) : AuditTrailEntry ρ :=
  let (execution, approval) := chains.downstream tools decision
  { stage := .intent
    time := decision.decidedAt
    actor := tools.redactText decision.principal
    action := tools.redactText decision.tool
    targetRef := (chains.targetOf tools decision.argsHash events).map tools.redactText
    result := none
    policyDecision := none
    actionHash := some (tools.redactText decision.argsHash)
    workflowId := decision.workflowId
    auditEventId := none
    links := chains.links tools (some decision) execution approval }

/-- One verdict of the policy engine. -/
def decision (decision : DecisionRow) : AuditTrailEntry ρ :=
  let (execution, approval) := chains.downstream tools decision
  { stage := .policyDecision
    time := decision.decidedAt
    actor := tools.redactText decision.principal
    action := tools.redactText decision.tool
    targetRef := none
    result := none
    policyDecision := some (tools.redactText decision.decision)
    actionHash := some (tools.redactText decision.argsHash)
    workflowId := decision.workflowId
    auditEventId := none
    links := chains.links tools (some decision) execution approval }

end Chains

/-! ### Reads -/

def defaultAuditPageSize : ℕ := 50

def maxAuditPageSize : ℕ := 200

/-- Which events are returned.  The bounds of the time are inclusive. -/
structure AuditFilter where
  workflowId : Option UUID := none
  applicationId : Option UUID := none
  actor : Option String := none
  action : Option String := none
  since : Option Instant := none
  upTo : Option Instant := none
  ordered : ∀ start ∈ since, ∀ stop ∈ upTo, start ≤ stop

/-- As many events as one page may hold. -/
structure PageSize where
  limit : ℕ := defaultAuditPageSize
  pos : 1 ≤ limit
  le_max : limit ≤ maxAuditPageSize

/-- A query: the filter, and which page of the events. -/
structure AuditQuery extends AuditFilter, PageSize where
  offset : ℕ := 0

/-- One page of audit events. -/
structure AuditPage (ρ : Type) where
  entries : List (AuditTrailEntry ρ)
  total : ℕ
  limit : ℕ
  offset : ℕ

/-- Where the next page starts; `none` on the last one. -/
def AuditPage.nextOffset (page : AuditPage ρ) : Option ℕ :=
  let following := page.offset + page.entries.length
  if following < page.total then some following else none

/-- The event is newer, or as new and of the greater id. -/
def newestFirst (row row' : EventRow) : Prop :=
  row'.timestamp < row.timestamp ∨ row'.timestamp = row.timestamp ∧ row'.id ≤ row.id

instance : DecidableRel newestFirst := fun _ _ => inferInstanceAs (Decidable (_ ∨ _))

/-- The event is older, or as old and of the smaller id. -/
def oldestFirst (row row' : EventRow) : Prop :=
  row.timestamp < row'.timestamp ∨ row.timestamp = row'.timestamp ∧ row.id ≤ row'.id

instance : DecidableRel oldestFirst := fun _ _ => inferInstanceAs (Decidable (_ ∨ _))

/-- The decision was made earlier, or at the same time and is of the smaller id. -/
def decidedFirst (row row' : DecisionRow) : Prop :=
  row.decidedAt < row'.decidedAt ∨ row.decidedAt = row'.decidedAt ∧ row.id ≤ row'.id

instance : DecidableRel decidedFirst := fun _ _ => inferInstanceAs (Decidable (_ ∨ _))

/-- The order of a trail: by the time, then by the stage. -/
def happensFirst (entry entry' : AuditTrailEntry ρ) : Prop :=
  entry.time < entry'.time ∨ entry.time = entry'.time ∧ entry.stage.order ≤ entry'.stage.order

instance : DecidableRel (happensFirst (ρ := ρ)) := fun _ _ => inferInstanceAs (Decidable (_ ∨ _))

namespace AuditTables

variable (tools : AuditTools ρ) (tables : AuditTables ρ)

/-- The workflows that are run on an application's own thread. -/
def applicationWorkflowIds (applicationId : UUID) : List UUID :=
  match Keyed.lookup (·.id) applicationId tables.applications with
  | none => []
  | some application =>
      (tables.runs.filter fun run =>
        run.threadId = tools.applicationThreadId application.userId applicationId).map (·.workflowId)

/-- The event matches every filter that is given. -/
def matchesFilter (filter : AuditFilter) (event : EventRow) : Bool :=
  filter.workflowId.all (fun id => event.workflowId = some id) &&
    filter.applicationId.all (fun id =>
      event.workflowId.any (tables.applicationWorkflowIds tools id).contains) &&
    filter.actor.all (event.actor = ·) &&
    filter.action.all (event.action = ·) &&
    filter.since.all (· ≤ event.timestamp) &&
    filter.upTo.all (event.timestamp ≤ ·)

/-- The events that match, the newest first. -/
def matching (filter : AuditFilter) : List EventRow :=
  (tables.events.filter (tables.matchesFilter tools filter)).insertionSort newestFirst

/-- Audit events that match the query, the newest first, a page at a time. -/
def search (query : AuditQuery) : AuditPage ρ :=
  let rows := tables.matching tools query.toAuditFilter
  let events := Paging.page rows query.offset query.limit
  let chains := Chains.load tools tables events [] []
  { entries := events.map (chains.entry tools)
    total := rows.length
    limit := query.limit
    offset := query.offset }

/-- The intent before the first decision on each hash, and every decision. -/
def proposals (chains : Chains ρ) (events : List EventRow) :
    List DecisionRow → List String → List (AuditTrailEntry ρ)
  | [], _ => []
  | row :: rows, proposed =>
      if proposed.contains row.argsHash then
        chains.decision tools row :: proposals chains events rows proposed
      else
        chains.intent tools row events :: chains.decision tools row ::
          proposals chains events rows (row.argsHash :: proposed)

def eventsOf (workflowId : UUID) : List EventRow :=
  (tables.events.filter (·.workflowId = some workflowId)).insertionSort oldestFirst

def decisionsOf (workflowId : UUID) : List DecisionRow :=
  (tables.decisions.filter (·.workflowId = some workflowId)).insertionSort decidedFirst

/-- The chains of a workflow's own events and decisions. -/
def chainsOf (workflowId : UUID) : Chains ρ :=
  Chains.load tools tables (tables.eventsOf workflowId) [workflowId] (tables.decisionsOf workflowId)

/-- Everything that was recorded for one workflow, the oldest first; `none` if there is no such workflow. -/
def workflowTrail (workflowId : UUID) : Option (List (AuditTrailEntry ρ)) :=
  if workflowId ∈ tables.workflows then
    let events := tables.eventsOf workflowId
    let chains := tables.chainsOf tools workflowId
    some ((proposals tools chains events (tables.decisionsOf workflowId) [] ++
      events.map (chains.entry tools)).insertionSort happensFirst)
  else none

end AuditTables

end AuditTrail

end PersonalOS
