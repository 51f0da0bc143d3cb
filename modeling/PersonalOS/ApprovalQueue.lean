import PersonalOS.WorkflowCommands

/-! # The approval queue

`ApprovalQueue.decide` and `expire_overdue` over one parked interrupt, as programs whose
atomic steps are the database transactions the code makes.

* **State.** The rows of `approvals` and of `audit_events`, newest first, and the command
  queue.  Each row of `approvals` is kept with the call of type `τ` that wrote it, which the
  database does not store.
* **Inserts.** `insertDecision` writes an `approvals` row and its audit row together, and does
  neither when the request's id is taken.
* **Calls.** A call reads its clock once, before its first transaction, so `now` is one of its
  arguments.  The id drawn for a command is the input of the step that queues it.

Only the interrupt's own rows are kept; what links a row to its run, and when it was created,
is left out. -/

namespace PersonalOS

/-- What a recorded decision was. -/
inductive ApprovalOutcome where
  | approved
  | deniedByUser
  | expired
deriving DecidableEq, Repr

def ApprovalOutcome.value : ApprovalOutcome → String
  | approved => "APPROVED"
  | deniedByUser => "DENIED_BY_USER"
  | expired => "EXPIRED"

/-- The states a stored approval is in. -/
inductive ApprovalState where
  | approved
  | denied
deriving DecidableEq, Repr

def statusByOutcome : ApprovalOutcome → ApprovalState
  | .approved => .approved
  | .deniedByUser => .denied
  -- Stored as a denial, and told apart by the outcome in the row's note.
  | .expired => .denied

def verdictByState : ApprovalState → ApprovalVerdict
  | .approved => .approved
  | .denied => .rejected

/-- One row of `approvals`, under its request's id. -/
structure ApprovalRow where
  id : UUID
  actionHash : String
  status : ApprovalState
  note : ApprovalOutcome
  decidedAt : Time
deriving DecidableEq, Repr

def ApprovalRow.outcome (row : ApprovalRow) : ApprovalOutcome :=
  if row.status = .approved then .approved
  else if row.note = .expired then .expired
  else .deniedByUser

/-- A row and the call that wrote it. -/
structure RecordedRow (τ : Type) where
  row : ApprovalRow
  call : τ

inductive ApprovalAuditAction where
  | decision (outcome : ApprovalOutcome)
  | refusedHashMismatch
  | refusedExpired
deriving DecidableEq, Repr

/-- One row of `audit_events` about an approval. -/
structure ApprovalAudit where
  actor : String
  action : ApprovalAuditAction
  target : String
  approvalRef : UUID
deriving DecidableEq, Repr

structure ApprovalStore (τ : Type) where
  approvals : List (RecordedRow τ)
  audits : List ApprovalAudit
  commands : List CommandRow

/-- What `decide` raises. -/
inductive ApprovalError where
  | notFound (approvalId : UUID)
  | hashMismatch (approvalId : UUID)
  | expired (approvalId : UUID) (expiresAt : Time)
  | alreadyDecided (approvalId : UUID) (status : ApprovalState)
  /-- A `KeyError`: the row just written or found is gone. -/
  | missingRow
deriving DecidableEq, Repr

/-- What `decide` returns. -/
structure RecordedApprovalDecision where
  approvalId : UUID
  actionHash : String
  state : ApprovalState
  outcome : ApprovalOutcome
  decidedBy : Option String
  decidedAt : Time
  resumed : Bool
  replayed : Bool
deriving DecidableEq, Repr

section transactions

variable {τ : Type}

namespace ApprovalStore

/-- The recorded decision of a request. -/
def decidedRow (approvalId : UUID) (s : ApprovalStore τ) : Option ApprovalRow :=
  (s.approvals.find? (·.row.id == approvalId)).map (·.row)

/-- Who decided a request, from the audit trail. -/
def decidedBy (approvalId : UUID) (s : ApprovalStore τ) : Option String :=
  (s.audits.find? fun audit => audit.approvalRef == approvalId &&
    (match audit.action with | .decision _ => true | _ => false)).map (·.actor)

/-- Write the approval's row and its audit row, or neither: whether they were written. -/
def insertDecision (call : τ) (request : ApprovalRequest) (outcome : ApprovalOutcome)
    (actorId : String) (now : Time) (s : ApprovalStore τ) : Bool × ApprovalStore τ :=
  if s.approvals.any (·.row.id == request.requestId) then (false, s)
  else (true,
    { s with
      approvals :=
        { row := { id := request.requestId, actionHash := request.actionHash,
                   status := statusByOutcome outcome, note := outcome, decidedAt := now },
          call } :: s.approvals
      audits :=
        { actor := actorId, action := .decision outcome, target := request.target,
          approvalRef := request.requestId } :: s.audits })

/-- Audit a refused decision. -/
def auditRefusal (request : ApprovalRequest) (actorId : String) (action : ApprovalAuditAction)
    (s : ApprovalStore τ) : ApprovalStore τ :=
  { s with audits :=
      { actor := actorId, action, target := request.target,
        approvalRef := request.requestId } :: s.audits }

/-- The open request with this id. -/
def openRequest (p : ParkedInterrupt) (approvalId : UUID) (s : ApprovalStore τ) :
    Option ApprovalRequest :=
  if p.isWaiting s.commands then p.requests.find? (·.requestId == approvalId) else none

/-- The recorded decisions of a batch, once every request has one. -/
def decidedBatch (requests : List ApprovalRequest) (s : ApprovalStore τ) :
    Option (List (ApprovalRequest × ApprovalRow)) :=
  if requests.all fun request => (s.decidedRow request.requestId).isSome then
    some (requests.filterMap fun request => (s.decidedRow request.requestId).map (request, ·))
  else none

end ApprovalStore

/-! ### Resuming -/

/-- The decision the run is resumed with for one request. -/
def resumeDecision (deciders : UUID → Option String) (actorId : String)
    (decided : ApprovalRequest × ApprovalRow) : ApprovalDecision where
  actionId := decided.1.actionId
  actionFingerprint := decided.2.actionHash
  verdict := verdictByState decided.2.status
  decidedBy := (deciders decided.1.requestId).getD actorId
  decidedAt := decided.2.decidedAt
  note := some decided.2.note.value
  requestId := some decided.1.requestId

/-- What several decisions look like as a resume value. -/
def ResumeValue.ofDecisions (decisions : List ApprovalDecision) : ResumeValue :=
  .sequence (decisions.map fun decision => .record (some decision))

/-- The command that resumes the run with the recorded decisions. -/
def ParkedInterrupt.resumeCommand (p : ParkedInterrupt) (actorId : String)
    (decisions : List ApprovalDecision) (commandId : UUID) : WorkflowCommand where
  commandId := commandId
  kind := .resume
  workflowId := p.workflowId
  threadId := p.threadId
  actorId := actorId
  graphInput := .ofDecisions decisions
  interruptIds := p.interruptIds

end transactions

/-! ### The calls -/

/-- A call of the queue, step by step; the input is the id drawn for a command. -/
abbrev ApprovalProgram (τ : Type) := Concurrent.Prog UUID (ApprovalStore τ) ApprovalError

namespace ApprovalQueue

open Concurrent.Prog (act read write raise)

variable {τ : Type} (call : τ) (p : ParkedInterrupt)

/-- Queue the resume once every request of the interrupt has a decision. -/
def resumeIfAnswered (actorId : String) : ApprovalProgram τ Bool := do
  match ← read (ApprovalStore.decidedBatch p.requests) with
  | none => return false
  | some decided =>
      let deciders ← read fun s => fun id => s.decidedBy id
      let decisions := decided.map (resumeDecision deciders actorId)
      -- A duplicate is an answer already queued: the call goes on.
      act fun commandId s => (true,
        { s with commands :=
          (enqueue (p.resumeCommand actorId decisions commandId) (some (.checkpoint p.checkpointId))
            s.commands).2 })

/-- The arguments of one `decide` call. -/
structure DecideCall where
  approvalId : UUID
  approved : Bool
  actionHash : String
  actorId : String
  now : Time

def DecideCall.outcome (c : DecideCall) : ApprovalOutcome :=
  if c.approved then .approved else .deniedByUser

/-- The end of `decide`, once a decision is on record. -/
def settleDecision (c : DecideCall) (found : Option ApprovalRequest) (recorded : ApprovalRow)
    (replayed : Bool) : ApprovalProgram τ RecordedApprovalDecision := do
  if replayed ∧ c.actionHash ≠ recorded.actionHash then
    raise (.hashMismatch c.approvalId)
  else if replayed ∧ recorded.status ≠ statusByOutcome c.outcome then
    raise (.alreadyDecided c.approvalId recorded.status)
  else
    let resumed ← if found.isNone then pure true else resumeIfAnswered p c.actorId
    let decidedBy ← read (ApprovalStore.decidedBy c.approvalId)
    return { approvalId := c.approvalId, actionHash := recorded.actionHash,
             state := recorded.status, outcome := recorded.outcome, decidedBy,
             decidedAt := recorded.decidedAt, resumed, replayed }

/-- Record a reviewer's decision and, once its interrupt is answered, resume the run. -/
def decide (c : DecideCall) : ApprovalProgram τ RecordedApprovalDecision := do
  let found ← read (ApprovalStore.openRequest p c.approvalId)
  let recorded ← read (ApprovalStore.decidedRow c.approvalId)
  match recorded, found with
  | some recorded, found => settleDecision p c found recorded true
  | none, none => raise (.notFound c.approvalId)
  | none, some request =>
      if c.actionHash ≠ request.actionHash then
        write (ApprovalStore.auditRefusal request c.actorId .refusedHashMismatch)
        raise (.hashMismatch request.requestId)
      else if c.approved ∧ request.isExpired c.now then
        write (ApprovalStore.auditRefusal request c.actorId .refusedExpired)
        raise (.expired request.requestId request.expiresAt)
      else
        let inserted ← act fun _ =>
          ApprovalStore.insertDecision call request c.outcome c.actorId c.now
        match ← read (ApprovalStore.decidedRow c.approvalId) with
        | none => raise .missingRow
        | some recorded => settleDecision p c (some request) recorded (!inserted)

/-- Close the overdue ones of these requests: the ids of those this call expired. -/
def expireRequests (actorId : String) (now : Time) (decided : List UUID) :
    List ApprovalRequest → ApprovalProgram τ (List UUID)
  | [] => return []
  | request :: requests => do
      if request.requestId ∈ decided ∨ request.isExpired now = false then
        expireRequests actorId now decided requests
      else if ← act fun _ => ApprovalStore.insertDecision call request .expired actorId now then
        let _ ← resumeIfAnswered p actorId
        let expired ← expireRequests actorId now decided requests
        return request.requestId :: expired
      else
        expireRequests actorId now decided requests

/-- Close every unanswered request past its expiry, resuming the run if it is now answered. -/
def expireOverdue (now : Time) (actorId : String) : ApprovalProgram τ (List UUID) := do
  let requests ← read fun s => if p.isWaiting s.commands then p.requests else []
  let decided ← read fun s => s.approvals.map (·.row.id)
  expireRequests call p actorId now decided requests

end ApprovalQueue

/-- A call made on the queue. -/
inductive ApprovalCall where
  | decide (c : ApprovalQueue.DecideCall)
  | expireOverdue (now : Time) (actorId : String)

/-- What a call returns. -/
inductive ApprovalResult where
  | decided (decision : RecordedApprovalDecision)
  | expired (approvalIds : List UUID)

def ApprovalCall.program {τ : Type} (call : τ) (p : ParkedInterrupt) :
    ApprovalCall → ApprovalProgram τ ApprovalResult
  | .decide c => do return .decided (← ApprovalQueue.decide call p c)
  | .expireOverdue now actorId => do
      return .expired (← ApprovalQueue.expireOverdue call p now actorId)

/-! ### What the transactions read and write -/

/-- Every request of the interrupt has a row. -/
def AllDecided {τ : Type} (p : ParkedInterrupt) (s : ApprovalStore τ) : Prop :=
  ∀ request ∈ p.requests, ∃ r ∈ s.approvals, r.row.id = request.requestId

namespace ApprovalStore

variable {τ : Type} {s : ApprovalStore τ}

theorem decidedRow_eq_some {approvalId : UUID} {row : ApprovalRow}
    (h : s.decidedRow approvalId = some row) : (∃ r ∈ s.approvals, r.row = row) ∧ row.id = approvalId := by
  obtain ⟨r, hr, rfl⟩ := Option.map_eq_some_iff.mp h
  exact ⟨⟨r, List.mem_of_find?_eq_some hr, rfl⟩, by simpa using List.find?_some hr⟩

theorem decidedRow_eq_none {approvalId : UUID} :
    s.decidedRow approvalId = none ↔ ∀ r ∈ s.approvals, r.row.id ≠ approvalId := by
  simp [decidedRow]

theorem openRequest_eq_some {p : ParkedInterrupt} {approvalId : UUID} {request : ApprovalRequest}
    (h : s.openRequest p approvalId = some request) :
    request ∈ p.requests ∧ request.requestId = approvalId := by
  unfold openRequest at h
  split at h
  · exact ⟨List.mem_of_find?_eq_some h, by simpa using List.find?_some h⟩
  · cases h

/-- A batch read as decided has every request with a row of its own. -/
theorem decidedBatch_eq_some {requests : List ApprovalRequest}
    {decided : List (ApprovalRequest × ApprovalRow)} (h : s.decidedBatch requests = some decided) :
    decided.map (·.1) = requests ∧
      ∀ q ∈ decided, (∃ r ∈ s.approvals, r.row = q.2) ∧ q.2.id = q.1.requestId := by
  unfold decidedBatch at h
  split at h
  · rename_i hall
    obtain rfl := Option.some.inj h
    refine ⟨?_, ?_⟩
    · clear h
      induction requests with
      | nil => rfl
      | cons request requests ih =>
          simp only [List.all_cons, Bool.and_eq_true] at hall
          obtain ⟨row, hrow⟩ := Option.isSome_iff_exists.mp hall.1
          simp [hrow, ih hall.2]
    · intro q hq
      obtain ⟨request, -, hq⟩ := List.mem_filterMap.mp hq
      obtain ⟨row, hrow, rfl⟩ := Option.map_eq_some_iff.mp hq
      exact decidedRow_eq_some hrow
  · cases h

theorem decidedBatch_eq_none {requests : List ApprovalRequest} (h : s.decidedBatch requests = none) :
    ∃ request ∈ requests, ∀ r ∈ s.approvals, r.row.id ≠ request.requestId := by
  unfold decidedBatch at h
  split at h
  · cases h
  · rename_i hall
    simpa [decidedRow_eq_none] using hall

theorem insertDecision_commands (call : τ) (request : ApprovalRequest) (outcome : ApprovalOutcome)
    (actorId : String) (now : Time) (s : ApprovalStore τ) :
    (s.insertDecision call request outcome actorId now).2.commands = s.commands := by
  unfold insertDecision
  split <;> rfl

/-- The row an insert writes where the id is free. -/
theorem insertDecision_approvals {call : τ} {request : ApprovalRequest} {outcome : ApprovalOutcome}
    {actorId : String} {now : Time} (h : ∀ r ∈ s.approvals, r.row.id ≠ request.requestId) :
    (s.insertDecision call request outcome actorId now).2.approvals =
      ⟨⟨request.requestId, request.actionHash, statusByOutcome outcome, outcome, now⟩, call⟩ ::
        s.approvals := by
  have hnone : s.approvals.any (·.row.id == request.requestId) = false := by simpa using h
  simp [insertDecision, hnone]

/-- An insert writes the row and its audit row where the id is free, and nothing otherwise. -/
theorem insertDecision_cases (call : τ) (request : ApprovalRequest) (outcome : ApprovalOutcome)
    (actorId : String) (now : Time) (s : ApprovalStore τ) :
    (∃ r ∈ s.approvals, r.row.id = request.requestId) ∧
        s.insertDecision call request outcome actorId now = (false, s) ∨
      (∀ r ∈ s.approvals, r.row.id ≠ request.requestId) ∧
        (s.insertDecision call request outcome actorId now).1 = true ∧
        ∃ r ∈ (s.insertDecision call request outcome actorId now).2.approvals,
          r.row.id = request.requestId := by
  unfold insertDecision
  split
  · rename_i h
    obtain ⟨r, hr, hid⟩ := List.any_eq_true.mp h
    exact Or.inl ⟨⟨r, hr, by simpa using hid⟩, rfl⟩
  · rename_i h
    refine Or.inr ⟨fun r hr hid => h ?_, rfl, _, List.mem_cons_self, rfl⟩
    exact List.any_eq_true.mpr ⟨r, hr, by simp [hid]⟩

end ApprovalStore

end PersonalOS
