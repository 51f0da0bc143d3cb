import PersonalOS.JobSearch
import Mathlib.Logic.Function.Basic

/-! # The execution ledger

The rows of `tool_executions`, `audit_events` and `outbox_events` that record mutating
actions, and the transactions `ExecutionLedger` and `ToolExecutionRepository` make on them.
Every operation here is one committed transaction: it answers and leaves the ledger, and
one that fails leaves the ledger as it was.

* **Keys.** `executions` maps an idempotency key to its row, so the unique constraint on the
  key holds by construction; `claim` inserts only where there is none.
* **Operation ids.** The `n`-th row inserted gets the id `n`: a freshly drawn UUID is one no
  row has.
* **Outcomes.** `complete` and `fail` are the row updates; `recordOutcome` and
  `recordFailure` commit them together with the audit row and the event, or not at all.

The workflow a row is linked to and the timestamps are left out: no decision reads them. -/

namespace PersonalOS

inductive ToolExecutionStatus where
  | inProgress
  | completed
  | failed
  | unknown
deriving DecidableEq, Repr

def ToolExecutionStatus.value : ToolExecutionStatus → String
  | inProgress => "in_progress"
  | completed => "completed"
  | failed => "failed"
  | unknown => "unknown"

/-- One row of `tool_executions`. -/
structure ToolExecution where
  operationId : UUID
  toolName : String
  status : ToolExecutionStatus
  requestFingerprint : Option String
  policyDecisionId : Option UUID
  approvalRef : Option String
  approvedBy : Option String
  attempts : ℕ
  receipt : Option ActionReceipt
  error : Option String
deriving DecidableEq, Repr

/-- What an execution is being made under. -/
structure ExecutionAuthorization where
  policyDecisionId : Option UUID
  approvalRef : Option String
  approvedBy : Option String
deriving DecidableEq, Repr

/-- Who did what to what; the decision and the result are added by the ledger. -/
structure AuditEntry where
  actor : String
  action : String
  targetRef : String
deriving DecidableEq, Repr

/-- One row of `audit_events`. -/
structure AuditEvent where
  entry : AuditEntry
  succeeded : Bool
  operationId : UUID
  policyDecisionId : Option UUID
  approvalRef : Option String
deriving DecidableEq, Repr

/-- An event to enqueue alongside an outcome. -/
structure DomainEvent where
  type : String
  payload : List (String × Option String)
deriving DecidableEq, Repr

/-- One row of `outbox_events`. -/
structure OutboxEvent where
  type : String
  dedupeKey : String
  payload : List (String × Option String)
deriving DecidableEq, Repr

structure Ledger where
  executions : String → Option ToolExecution
  audits : List AuditEvent
  outbox : List OutboxEvent
  nextOperationId : UUID

def Ledger.empty : Ledger where
  executions _ := none
  audits := []
  outbox := []
  nextOperationId := 0

/-- The redactor's effect on a text. -/
abbrev RedactText := String → String

/-- A text column is redacted unless it is empty. -/
def RedactText.column (redactText : RedactText) (text : String) : String :=
  if text = "" then text else redactText text

def ActionReceipt.redact (redactText : RedactText) (receipt : ActionReceipt) : ActionReceipt :=
  { receipt with
    externalReference := receipt.externalReference.map redactText
    detail := receipt.detail.map redactText }

namespace Ledger

/-- The receipt stored under a key. -/
def storedReceipt (l : Ledger) (key : String) : Option ActionReceipt :=
  (l.executions key).bind (·.receipt)

/-- Put `row` under `key`. -/
def setRow (l : Ledger) (key : String) (row : ToolExecution) : Ledger :=
  { l with executions := Function.update l.executions key (some row) }

@[simp] theorem setRow_executions_self (l : Ledger) (key : String) (row : ToolExecution) :
    (l.setRow key row).executions key = some row := Function.update_self ..

theorem setRow_executions_ne (l : Ledger) {key key' : String} (row : ToolExecution)
    (h : key' ≠ key) : (l.setRow key row).executions key' = l.executions key' :=
  Function.update_of_ne h ..

/-- Insert the claimed row, unless the key has one: the row under the key and whether this
call inserted it. -/
def insertClaim (redactText : RedactText) (key toolName fingerprint : String)
    (authorization : ExecutionAuthorization) (l : Ledger) : (ToolExecution × Bool) × Ledger :=
  match l.executions key with
  | some winner => ((winner, false), l)
  | none =>
      let row : ToolExecution :=
        { operationId := l.nextOperationId, toolName, status := .inProgress,
          requestFingerprint := some fingerprint,
          policyDecisionId := authorization.policyDecisionId,
          approvalRef := authorization.approvalRef.map redactText.column,
          approvedBy := authorization.approvedBy.map redactText.column,
          attempts := 1, receipt := none, error := none }
      ((row, true), { l.setRow key row with nextOperationId := l.nextOperationId + 1 })

/-- Flag an execution with no recorded outcome as in doubt. -/
def markUnknown (key : String) (l : Ledger) : Bool × Ledger :=
  match l.executions key with
  | none => (false, l)
  | some row =>
      if row.status = .inProgress ∨ row.status = .failed then
        (true, l.setRow key { row with status := .unknown })
      else (row.status == .unknown, l)

/-- Take an `unknown` execution back for another attempt. -/
def reclaim (redactText : RedactText) (key : String) (authorization : ExecutionAuthorization)
    (l : Ledger) : Bool × Ledger :=
  match l.executions key with
  | none => (false, l)
  | some row =>
      if row.status = .unknown then
        (true, l.setRow key
          { row with
            status := .inProgress
            attempts := row.attempts + 1
            error := none
            policyDecisionId := authorization.policyDecisionId
            approvalRef := authorization.approvalRef.map redactText.column
            approvedBy := authorization.approvedBy.map redactText.column })
      else (false, l)

/-- The row with a recorded outcome. -/
def complete (redactText : RedactText) (receipt : ActionReceipt) (row : ToolExecution) :
    ToolExecution :=
  { row with status := .completed, receipt := some (receipt.redact redactText), error := none }

/-- The row with a recorded failure, whatever its status was. -/
def fail (redactText : RedactText) (error : String) (row : ToolExecution) : ToolExecution :=
  { row with status := .failed, error := some (redactText.column error) }

/-- The audit row of an execution, citing what that execution was authorized by. -/
def auditRow (row : ToolExecution) (entry : AuditEntry) (succeeded : Bool) : AuditEvent where
  entry := entry
  succeeded := succeeded
  operationId := row.operationId
  policyDecisionId := row.policyDecisionId
  approvalRef := row.approvalRef

/-- Some event in the outbox has this dedupe key. -/
def announced (l : Ledger) (dedupeKey : String) : Bool := l.outbox.any (·.dedupeKey == dedupeKey)

/-- Commit the provider's receipt, its audit row and, for a success, its event; `false` when
the commit fails as a unit. -/
def recordOutcome (redactText : RedactText) (key : String) (receipt : ActionReceipt)
    (audit : AuditEntry) (event : DomainEvent) (l : Ledger) : Bool × Ledger :=
  match l.executions key with
  | none => (false, l)
  | some row =>
      let dedupeKey := s!"{event.type}:{row.operationId}"
      let staged : List OutboxEvent := if receipt.ok then
          [{ type := event.type, dedupeKey,
             payload := event.payload ++ [("operation_id", some s!"{row.operationId}")] }]
        else []
      -- The outbox row of a success is staged without looking: a duplicate fails the commit.
      if receipt.ok && l.announced dedupeKey then (false, l)
      else (true,
        { l.setRow key (complete redactText receipt row) with
          audits := auditRow row audit receipt.ok :: l.audits
          outbox := staged ++ l.outbox })

/-- Commit a call that raised, with its audit row and event; an event already in the outbox
is not staged again. -/
def recordFailure (redactText : RedactText) (key : String) (error : String) (audit : AuditEntry)
    (event : DomainEvent) (l : Ledger) : Bool × Ledger :=
  match l.executions key with
  | none => (false, l)
  | some row =>
      let dedupeKey := s!"{event.type}:{row.operationId}:{row.attempts}"
      let staged : List OutboxEvent := if l.announced dedupeKey then []
        else [{ type := event.type, dedupeKey,
                payload := event.payload ++ [("operation_id", some s!"{row.operationId}"),
                  ("attempts", some s!"{row.attempts}")] }]
      (true,
        { l.setRow key (fail redactText error row) with
          audits := auditRow row audit false :: l.audits
          outbox := staged ++ l.outbox })

/-! ### What each transaction does to the row of its key -/

section rows

variable {redactText : RedactText} {l : Ledger} {key : String} {row : ToolExecution}

theorem setRow_self (h : l.executions key = some row) : l.setRow key row = l := by
  cases l
  simp only [setRow] at *
  rw [← h, Function.update_eq_self]

theorem markUnknown_eq (h : l.executions key = some row) (hs : row.status ≠ .completed) :
    markUnknown key l = (true, l.setRow key { row with status := .unknown }) := by
  simp only [markUnknown, h]
  split
  · rfl
  · rename_i hn
    have hu : row.status = .unknown := by
      cases hrow : row.status <;> simp_all
    have hrow : ({ row with status := .unknown } : ToolExecution) = row := by rw [← hu]
    rw [hrow, setRow_self h, hu]
    rfl

theorem reclaim_eq (redactText : RedactText) (authorization : ExecutionAuthorization)
    (h : l.executions key = some row) (hs : row.status = .unknown) :
    ∃ row', reclaim redactText key authorization l = (true, l.setRow key row') ∧
      row'.status = .inProgress ∧ row'.receipt = row.receipt := by
  simp only [reclaim, h, hs, if_true]
  exact ⟨_, rfl, rfl, rfl⟩

theorem recordOutcome_cases {receipt : ActionReceipt} {audit : AuditEntry} {event : DomainEvent}
    (h : l.executions key = some row) :
    recordOutcome redactText key receipt audit event l = (false, l) ∨
      ∃ l', recordOutcome redactText key receipt audit event l = (true, l') ∧
        l'.executions = (l.setRow key (complete redactText receipt row)).executions := by
  simp only [recordOutcome, h]
  split
  · exact Or.inl rfl
  · exact Or.inr ⟨_, rfl, rfl⟩

theorem recordFailure_eq {error : String} {audit : AuditEntry} {event : DomainEvent}
    (h : l.executions key = some row) :
    ∃ l', recordFailure redactText key error audit event l = (true, l') ∧
      l'.executions = (l.setRow key (fail redactText error row)).executions := by
  simp only [recordFailure, h]
  exact ⟨_, rfl, rfl⟩

theorem insertClaim_eq (redactText : RedactText) (toolName fingerprint : String)
    (authorization : ExecutionAuthorization) (h : l.executions key = none) :
    ∃ row' l', insertClaim redactText key toolName fingerprint authorization l = ((row', true), l') ∧
      row'.status = .inProgress ∧ row'.receipt = none ∧
        l'.executions = (l.setRow key row').executions := by
  simp only [insertClaim, h]
  exact ⟨_, _, rfl, rfl, rfl, rfl⟩

end rows

end Ledger

end PersonalOS
