import PersonalOS.ExecutionLedger

/-! # The executor every mutating action goes through

`ToolExecutor.execute` as a program of atomic steps over a `World`: the ledger, and the
calls made outside this system (`CallEvent`, newest first), which only the provider and the
reconciler see.  Every committed transaction and every call is one step, so a crash can fall
between any two of them; entering the provider call and getting its answer are two steps,
since a crash can fall there as well.

* **Surroundings.** One `Env` a step: the policy verdict, the provider's answer, and the
  reconciler's (`none` when asking it raised).
* **Retry policies.** `retryPolicyFor` gives the budget of a tool from its permission class.
  A policy is `Guarded` when it allows no retry or none without reconciliation; `send` and
  `calendarWrite` are.
* **The retry loop.** `run` recurses on the retries its policy leaves, so every run of it ends.

Tracing, logging, the backoff delay and the floating point of its computation are left out. -/

namespace PersonalOS

/-! ### Retry policies -/

inductive OperationClass where
  | read
  | draft
  | send
  | calendarWrite
  | eventDelivery
deriving DecidableEq, Repr

def OperationClass.value : OperationClass → String
  | read => "read"
  | draft => "draft"
  | send => "send"
  | calendarWrite => "calendar_write"
  | eventDelivery => "event_delivery"

/-- An automatic-retry budget. -/
structure RetryPolicy where
  operationClass : OperationClass
  maxRetries : ℕ
  requiresReconciliation : Bool
deriving DecidableEq, Repr

namespace RetryPolicy

/-- Whether attempt number `attempt`, counting from 1, may be followed by another. -/
def allowsRetry (policy : RetryPolicy) (attempt : ℕ) : Bool := decide (attempt ≤ policy.maxRetries)

def read : RetryPolicy := ⟨.read, 3, false⟩
def draft : RetryPolicy := ⟨.draft, 2, false⟩
def send : RetryPolicy := ⟨.send, 0, false⟩
def calendarWrite : RetryPolicy := ⟨.calendarWrite, 1, true⟩

/-- No retry is made blindly. -/
def Guarded (policy : RetryPolicy) : Prop :=
  policy.maxRetries = 0 ∨ policy.requiresReconciliation = true

theorem send_guarded : send.Guarded := Or.inl rfl

theorem calendarWrite_guarded : calendarWrite.Guarded := Or.inr rfl

theorem Guarded.requires {policy : RetryPolicy} (h : policy.Guarded) {attempt : ℕ}
    (ha : 1 ≤ attempt) (hr : policy.allowsRetry attempt = true) :
    policy.requiresReconciliation = true := by
  rcases h with h | h
  · simp only [allowsRetry, h, decide_eq_true_eq] at hr
    omega
  · exact h

end RetryPolicy

inductive PermissionClass where
  | readLocal
  | readExternal
  | writeReversible
  | writeExternal
  | destructive
  | sensitive
deriving DecidableEq, Repr

/-- The permission class of every tool the job-search scope classifies. -/
def defaultToolPermissions : List (String × PermissionClass) :=
  [("jobs.filter_jobs", .readLocal), ("files.read_file", .readLocal),
   ("jobs.search_jobs", .readExternal), ("jobs.scrape_job_details", .readExternal),
   ("job_providers.search", .readExternal), ("job_providers.get_job", .readExternal),
   ("google.gmail_read_message", .readExternal), ("google.calendar_list_events", .readExternal),
   ("jobs.save_favorite_job", .writeReversible), ("google.gmail_create_draft", .writeReversible),
   ("google.calendar_create_tentative_block", .writeReversible),
   ("files.write_file", .writeReversible), ("artifacts.create_draft", .writeReversible),
   ("google.gmail_send_message", .writeExternal), ("google.calendar_create_event", .writeExternal),
   ("google.calendar_update_event", .writeExternal), ("jobs.submit_application", .writeExternal),
   ("files.delete_file", .destructive), ("files.overwrite_document", .destructive),
   ("google.update_credentials", .sensitive), ("google.change_permissions", .sensitive)]

def calendarWriteTools : List String :=
  ["google.calendar_create_event", "google.calendar_update_event"]

def policyByClass : PermissionClass → RetryPolicy
  | .readLocal => .read
  | .readExternal => .read
  | .writeReversible => .draft
  | .writeExternal => .send
  | .destructive => .send
  | .sensitive => .send

/-- The retry budget for a classified tool; an unclassified one gets none. -/
def retryPolicyFor (toolRef : String) : RetryPolicy :=
  if toolRef ∈ calendarWriteTools then .calendarWrite
  else match defaultToolPermissions.lookup toolRef with
    | none => .send
    | some permissionClass => policyByClass permissionClass

/-- The classified tool each kind of action is evaluated as. -/
def actionTools : ActionKind → Option String
  | .submitApplication => some "jobs.submit_application"
  | .sendRecruiterMessage => some "google.gmail_send_message"
  | .overwriteDocument => some "files.overwrite_document"
  | .createCalendarEvent => some "google.calendar_create_event"
  | .updateCalendarEvent => some "google.calendar_update_event"

theorem retryPolicyFor_actionTools (kind : ActionKind) :
    ∃ tool, actionTools kind = some tool ∧
      (retryPolicyFor tool = .send ∨ retryPolicyFor tool = .calendarWrite) := by
  cases kind <;> exact ⟨_, rfl, by decide⟩

/-! ### Errors and answers -/

/-- What the retry and failure code reads off an exception's type. -/
inductive ErrorClass where
  /-- A `PolicyError`. -/
  | policy (code : String) (failureClass : Option String)
  /-- Any other `PersonalOSError`. -/
  | personalOS (retryable : Bool) (code : String) (failureClass : Option String)
  /-- Anything else. -/
  | other
deriving DecidableEq, Repr

/-- An exception the provider call raised, with its `str` and its `describe_exception`. -/
structure RaisedError where
  errorClass : ErrorClass
  text : String
  description : String
deriving DecidableEq, Repr

namespace RaisedError

/-- True when an automatic retry of the same dispatch is allowed. -/
def isRetryable (error : RaisedError) : Bool :=
  match error.errorClass with
  | .personalOS retryable _ _ => retryable
  | _ => false

def code (error : RaisedError) : String :=
  match error.errorClass with
  | .policy code _ => code
  | .personalOS _ code _ => code
  | .other => "internal"

def failureClass (error : RaisedError) : String :=
  match error.errorClass with
  | .policy _ failureClass => failureClass.getD "unclassified"
  | .personalOS _ _ failureClass => failureClass.getD "unclassified"
  | .other => "unclassified"

end RaisedError

inductive Decision where
  | allow
  | requireApproval
  | deny
deriving DecidableEq, Repr

/-- The policy engine's verdict and the decision-log row it was recorded as. -/
structure PolicyDecision where
  decision : Decision
  recordId : Option UUID
deriving DecidableEq, Repr

inductive ReconcileOutcome where
  | applied
  | notApplied
  | indeterminate
deriving DecidableEq, Repr

/-- A reconciler's answer. -/
structure Reconciliation where
  outcome : ReconcileOutcome
  receipt : Option ActionReceipt
deriving DecidableEq, Repr

/-- What the surroundings answer at one step. -/
structure Env where
  verdict : PolicyDecision
  answer : Except RaisedError ActionReceipt
  /-- `none` when asking the reconciler raised. -/
  reconciliation : Option Reconciliation

/-- What `execute` raises. -/
inductive ExecuteError where
  | policyDenied (verdict : PolicyDecision)
  | approvalRequired (verdict : PolicyDecision)
  | idempotencyConflict (message : String)
  /-- A commit that failed as a unit. -/
  | commitFailed
  /-- The provider's own exception. -/
  | provider (error : RaisedError)

/-- A call that left this system. -/
inductive CallEvent where
  /-- `inner.execute` was entered under `key` while the ledger held `stored` for it. -/
  | entered (key : String) (stored : Option ActionReceipt)
  /-- The reconciler answered for `key`. -/
  | reconciled (key : String) (outcome : ReconcileOutcome)
deriving DecidableEq, Repr

/-- The ledger, and the calls made outside so far, newest first. -/
structure World where
  ledger : Ledger
  calls : List CallEvent

def World.init : World := ⟨.empty, []⟩

/-! ### The executor -/

structure ToolExecutor where
  /-- A reconciler is registered. -/
  reconciler : Bool
  actionTools : ActionKind → Option String
  retryPolicies : String → RetryPolicy
  redactText : RedactText

/-- The executor with the default tools and budgets. -/
def ToolExecutor.default (reconciler : Bool) (redactText : RedactText) : ToolExecutor where
  reconciler := reconciler
  actionTools := PersonalOS.actionTools
  retryPolicies := retryPolicyFor
  redactText := redactText

/-- One attempt of the executor, step by step. -/
abbrev Execution := Concurrent.Prog Env World ExecuteError

open Concurrent.Prog (act read write input raise)

/-- One transaction on the ledger. -/
def onLedger {β : Type} (f : Ledger → β × Ledger) : Execution β :=
  act fun _ w => ((f w.ledger).1, { w with ledger := (f w.ledger).2 })

/-- Enter the provider call. -/
def enterProvider (key : String) : Execution Unit :=
  write fun w => { w with calls := .entered key (w.ledger.storedReceipt key) :: w.calls }

/-- Ask the reconciler: its answer, or `none` when asking raised. -/
def reconcile (key : String) : Execution (Option Reconciliation) :=
  act fun env w => (env.reconciliation,
    match env.reconciliation with
    | none => w
    | some answer => { w with calls := .reconciled key answer.outcome :: w.calls })

/-- What `_prepare_retry` leaves to do. -/
inductive Prepared where
  | retry
  | abandon
  | settled (receipt : ActionReceipt)

namespace ToolExecutor

variable {P : Type} [ActionPayload P] (ex : ToolExecutor)

/-- The tool an action is evaluated as; a kind with none falls through to an unclassified name. -/
def toolFor (kind : ActionKind) : String :=
  (ex.actionTools kind).getD ("job_search." ++ kind.value)

theorem default_retryPolicies (reconciler : Bool) (redactText : RedactText) (kind : ActionKind) :
    let ex := ToolExecutor.default reconciler redactText
    ex.retryPolicies (ex.toolFor kind) = .send ∨
      ex.retryPolicies (ex.toolFor kind) = .calendarWrite := by
  intro ex
  obtain ⟨tool, htool, hpolicy⟩ := retryPolicyFor_actionTools kind
  have : ex.toolFor kind = tool := by simp [ex, toolFor, ToolExecutor.default, htool]
  rw [this]
  exact hpolicy

/-- `decision` is an approval of exactly this intent. -/
def approved (intent : ActionIntent P) (decision : Option ApprovalDecision) : Bool :=
  decision.any (·.authorizes intent)

def authorization (intent : ActionIntent P) (decision : Option ApprovalDecision)
    (verdict : PolicyDecision) : ExecutionAuthorization where
  policyDecisionId := verdict.recordId
  approvalRef := if approved intent decision then
    decision.map fun d => toString (d.requestId.getD d.actionId) else none
  approvedBy := if approved intent decision then decision.map (·.decidedBy) else none

/-- Get this attempt's policy verdict and check the approval against it. -/
def authorize (intent : ActionIntent P) (decision : Option ApprovalDecision) :
    Execution ExecutionAuthorization := do
  let verdict ← input Env.verdict
  if verdict.decision = .deny then
    raise (.policyDenied verdict)
  else if verdict.decision = .requireApproval ∧ approved intent decision = false then
    raise (.approvalRequired verdict)
  else
    return authorization intent decision verdict

/-- Claim the key: look for a row, and insert one if there was none. -/
def claim (intent : ActionIntent P) (tool : String) (authorization : ExecutionAuthorization) :
    Execution (ToolExecution × Bool) := do
  match ← read fun w => w.ledger.executions intent.idempotencyKey with
  | some existing => return (existing, false)
  | none => onLedger (Ledger.insertClaim ex.redactText intent.idempotencyKey tool
      intent.fingerprint authorization)

def auditEntry (intent : ActionIntent P) (tool : String) : AuditEntry where
  actor := intent.requestedBy
  action := tool
  targetRef := intent.target

/-- Commit a receipt as the key's outcome, redacted, and return it. -/
def recordReceipt (intent : ActionIntent P) (tool : String) (receipt : ActionReceipt) :
    Execution ActionReceipt := do
  let receipt := receipt.redact ex.redactText
  let event : DomainEvent :=
    { type := "action.succeeded",
      payload := [("kind", some intent.kind.value), ("target", some intent.target),
        ("idempotency_key", some intent.idempotencyKey),
        ("external_reference", receipt.externalReference)] }
  if ← onLedger (Ledger.recordOutcome ex.redactText intent.idempotencyKey receipt
      (auditEntry intent tool) event) then
    return receipt
  else
    raise .commitFailed

/-- Commit the failure with its event, and raise the provider's exception. -/
def failWith (intent : ActionIntent P) (tool : String) (error : RaisedError) :
    Execution ActionReceipt := do
  let event : DomainEvent :=
    { type := "tool.operation.failed",
      payload := [("kind", some intent.kind.value), ("tool", some tool),
        ("target", some intent.target), ("idempotency_key", some intent.idempotencyKey),
        ("operation_class", some (ex.retryPolicies tool).operationClass.value),
        ("failure_class", some error.failureClass), ("error_code", some error.code),
        ("retryable", some (toString error.isRetryable)),
        ("error", some error.description)] }
  if ← onLedger (Ledger.recordFailure ex.redactText intent.idempotencyKey error.text
      (auditEntry intent tool) event) then
    raise (.provider error)
  else
    raise .commitFailed

/-- Make a failed attempt safe to repeat. -/
def prepareRetry (intent : ActionIntent P) (tool : String) : Execution Prepared := do
  let _ ← onLedger (Ledger.markUnknown intent.idempotencyKey)
  if (ex.retryPolicies tool).requiresReconciliation = false then
    return .retry
  else if ex.reconciler = false then
    return .abandon
  else
    match ← reconcile intent.idempotencyKey with
    | none => return .abandon
    | some ⟨.applied, some receipt⟩ =>
        return .settled (← ex.recordReceipt intent tool { receipt with actionId := intent.actionId })
    | some ⟨.notApplied, _⟩ => return .retry
    | some _ => return .abandon

/-- Call the provider for a claimed key, retrying as policy allows, and commit the outcome. -/
def run (intent : ActionIntent P) (tool : String) (authorization : ExecutionAuthorization)
    (attempt : ℕ) : Execution ActionReceipt := do
  enterProvider intent.idempotencyKey
  match ← input Env.answer with
  | .ok receipt => ex.recordReceipt intent tool receipt
  | .error error =>
      if _h : (ex.retryPolicies tool).allowsRetry attempt = true ∧ error.isRetryable = true then
        match ← ex.prepareRetry intent tool with
        | .settled receipt => return receipt
        | .abandon => ex.failWith intent tool error
        | .retry =>
            if ← onLedger (Ledger.reclaim ex.redactText intent.idempotencyKey authorization) then
              run intent tool authorization (attempt + 1)
            else
              -- Another attempt took the key over: its outcome is the action's.
              raise (.provider error)
      else
        ex.failWith intent tool error
termination_by (ex.retryPolicies tool).maxRetries + 1 - attempt
decreasing_by
  have := _h.1
  simp only [RetryPolicy.allowsRetry, decide_eq_true_eq] at this
  omega

/-- The receipt of an action whose outcome nobody recorded. -/
def inDoubt (intent : ActionIntent P) (record : ToolExecution) (why : String) : ActionReceipt where
  actionId := intent.actionId
  ok := false
  externalReference := none
  detail := some (s!"a previous attempt at '{intent.idempotencyKey}' did not record an outcome " ++
    s!"(status={record.status.value}) and {why}; not retried, because this action " ++
    "may already have taken effect outside this system")

/-- Settle a key that was claimed before and has no receipt. -/
def resolveInDoubt (intent : ActionIntent P) (tool : String) (record : ToolExecution)
    (authorization : ExecutionAuthorization) : Execution ActionReceipt := do
  let _ ← onLedger (Ledger.markUnknown intent.idempotencyKey)
  if ex.reconciler = false then
    return inDoubt intent record "no reconciler is configured for it"
  else
    match ← reconcile intent.idempotencyKey with
    | none => return inDoubt intent record "the provider could not be asked"
    | some ⟨.applied, some receipt⟩ =>
        ex.recordReceipt intent tool { receipt with actionId := intent.actionId }
    | some ⟨.notApplied, _⟩ =>
        if ← onLedger (Ledger.reclaim ex.redactText intent.idempotencyKey authorization) then
          -- The reconciled re-execution is this action's second attempt.
          ex.run intent tool authorization 2
        else
          return inDoubt intent record "another attempt took it over"
    | some _ => return inDoubt intent record "the provider could not confirm either way"

/-- The key was claimed for a different action. -/
def conflicts (intent : ActionIntent P) (record : ToolExecution) : Bool :=
  record.requestFingerprint.any fun stored => stored != "" && stored != intent.fingerprint

/-- Authorize, then execute the action unless its key already has an outcome. -/
def execute (intent : ActionIntent P) (decision : Option ApprovalDecision) :
    Execution ActionReceipt := do
  let tool := ex.toolFor intent.kind
  let authorization ← authorize intent decision
  let (record, claimed) ← ex.claim intent tool authorization
  if claimed then
    ex.run intent tool authorization 1
  else if conflicts intent record then
    raise (.idempotencyConflict (s!"idempotency_key '{intent.idempotencyKey}' was already used " ++
      "for a different action; use a new key"))
  else
    match record.status, record.receipt with
    | .completed, some receipt => return { receipt with actionId := intent.actionId }
    | _, _ => ex.resolveInDoubt intent tool record authorization

end ToolExecutor

end PersonalOS
