import PersonalOS.Prog
import Mathlib.Data.Int.Notation

/-! # Actions, approval requests and decisions

The values `personalos.domain.job_search` passes between the graph, the reviewer and the
executor, and the last gate before a side effect.

* **Identities and clocks.** A UUID is a natural number and a time an integer number of
  seconds; only equality of the first and order and addition of the second are used.
* **Payloads.** A payload is a value of an arbitrary type `P`.  What the code computes from
  it is the class `ActionPayload`: the SHA-256 of the canonical JSON of kind, target and
  payload, and whether a preview can be read out of it.
* **Requests.** An `ApprovalRequest` carries the proof that it expires after it was raised,
  the check its validator makes.
* **The gate.** `authorizeExecution` returns the refusal, or `none` when the action may
  still be executed; `authorizeExecution_eq_none` says exactly when that is. -/

namespace PersonalOS

abbrev UUID := ℕ

/-- Seconds since some fixed moment, and spans of seconds. -/
abbrev Time := ℤ

inductive ActionKind where
  | submitApplication
  | sendRecruiterMessage
  | overwriteDocument
  | createCalendarEvent
  | updateCalendarEvent
deriving DecidableEq, Repr

def ActionKind.value : ActionKind → String
  | submitApplication => "submit_application"
  | sendRecruiterMessage => "send_recruiter_message"
  | overwriteDocument => "overwrite_document"
  | createCalendarEvent => "create_calendar_event"
  | updateCalendarEvent => "update_calendar_event"

inductive RiskLevel where
  | low
  | medium
  | high
deriving DecidableEq, Repr

/-- The review terms attached to one kind of action. -/
structure ActionRiskProfile where
  risk : RiskLevel
  scopes : List String
  approvalTtl : Time
deriving DecidableEq, Repr

def days (n : Time) : Time := 86400 * n

def riskProfileFor : ActionKind → ActionRiskProfile
  | .submitApplication => ⟨.high, ["applications:submit", "artifacts:read"], days 7⟩
  | .sendRecruiterMessage => ⟨.medium, ["communications:send"], days 3⟩
  | .overwriteDocument => ⟨.medium, ["artifacts:write"], days 1⟩
  | .createCalendarEvent => ⟨.low, ["calendar:write"], days 2⟩
  | .updateCalendarEvent => ⟨.medium, ["calendar:write"], days 2⟩

theorem riskProfileFor_wellFormed (kind : ActionKind) :
    (riskProfileFor kind).scopes ≠ [] ∧ 0 < (riskProfileFor kind).approvalTtl := by
  cases kind <;> decide

/-! ### Intents -/

/-- What an action's fingerprint covers. -/
structure ActionDocument (P : Type) where
  kind : ActionKind
  target : String
  payload : P
deriving DecidableEq, Repr

/-- What the code computes from a payload. -/
class ActionPayload (P : Type) where
  /-- `_canonical_hash` of the document. -/
  canonicalHash : ActionDocument P → String
  /-- `ActionPreview.for_intent` reads the payload without raising. -/
  previewable : P → Bool

/-- The empty payload. -/
inductive PlainPayload where
  | empty
deriving DecidableEq, Repr

def ActionKind.letter : ActionKind → Char
  | submitApplication => 'S'
  | sendRecruiterMessage => 'M'
  | overwriteDocument => 'O'
  | createCalendarEvent => 'C'
  | updateCalendarEvent => 'U'

theorem ActionKind.letter_injective : Function.Injective letter := by
  intro kind kind' h
  cases kind <;> cases kind' <;> first | rfl | exact absurd h (by decide)

/-- A letter for the kind, and the target: a hash that is readable and injective. -/
instance : ActionPayload PlainPayload where
  canonicalHash document := String.ofList (document.kind.letter :: document.target.toList)
  previewable _ := true

theorem canonicalHash_plainPayload :
    Function.Injective (ActionPayload.canonicalHash : ActionDocument PlainPayload → String) := by
  rintro ⟨kind, target, ⟨⟩⟩ ⟨kind', target', ⟨⟩⟩ h
  have hlist := List.cons.inj (String.ofList_injective h)
  obtain rfl : kind = kind' := ActionKind.letter_injective hlist.1
  obtain rfl : target = target' := String.toList_injective hlist.2
  rfl

/-- A proposed outward-facing action. -/
structure ActionIntent (P : Type) where
  actionId : UUID
  kind : ActionKind
  target : String
  summary : String
  payload : P
  idempotencyKey : String
  requestedBy : String
deriving DecidableEq, Repr

variable {P : Type}

def ActionIntent.document (intent : ActionIntent P) : ActionDocument P where
  kind := intent.kind
  target := intent.target
  payload := intent.payload

variable [ActionPayload P]

/-- Stable hash of the side effect this intent describes. -/
def ActionIntent.fingerprint (intent : ActionIntent P) : String :=
  ActionPayload.canonicalHash intent.document

/-- What the graph and the executor raise about their own contracts. -/
inductive ContractError where
  /-- An approval request that does not expire after it was raised. -/
  | expiryNotAfterRequest (expiresAt requestedAt : Time)
  /-- A value in graph state or in a resume that does not validate. -/
  | malformed
  /-- An action at the approval checkpoint with no request on file. -/
  | noRequestOnFile (actionId : UUID) (kind : ActionKind)
  /-- A resume value no decision can be read out of. -/
  | unreadableResume
deriving DecidableEq, Repr

/-! ### Requests and decisions -/

/-- What a reviewer is shown, and what an approval is later checked against. -/
structure ApprovalRequest where
  requestId : UUID
  actionId : UUID
  actionHash : String
  kind : ActionKind
  target : String
  summary : String
  risk : RiskLevel
  requestedScopes : List String
  idempotencyKey : String
  requestedBy : String
  requestedAt : Time
  expiresAt : Time
  expiry_after_request : requestedAt < expiresAt
deriving DecidableEq, Repr

namespace ApprovalRequest

/-- How long a request stays open: a missing or zero `ttl` gives way to the kind's own. -/
def reviewWindow (kind : ActionKind) (ttl : Option Time) : Time :=
  if ttl.getD 0 = 0 then (riskProfileFor kind).approvalTtl else ttl.getD 0

/-- Raise the request a reviewer answers for this intent. -/
def forIntent (requestId : UUID) (intent : ActionIntent P) (now : Time) (ttl : Option Time) :
    Except ContractError ApprovalRequest :=
  let profile := riskProfileFor intent.kind
  let expiresAt := now + reviewWindow intent.kind ttl
  if ActionPayload.previewable intent.payload then
    if h : now < expiresAt then
      .ok { requestId, actionId := intent.actionId, actionHash := intent.fingerprint,
            kind := intent.kind, target := intent.target, summary := intent.summary,
            risk := profile.risk, requestedScopes := profile.scopes,
            idempotencyKey := intent.idempotencyKey, requestedBy := intent.requestedBy,
            requestedAt := now, expiresAt, expiry_after_request := h }
    else .error (.expiryNotAfterRequest expiresAt now)
  else .error .malformed

def isExpired (request : ApprovalRequest) (now : Time) : Bool := decide (request.expiresAt ≤ now)

def describes (request : ApprovalRequest) (intent : ActionIntent P) : Bool :=
  request.actionId == intent.actionId

theorem isExpired_eq_false {request : ApprovalRequest} {now : Time} :
    request.isExpired now = false ↔ now < request.expiresAt := by
  simp [isExpired]

theorem forIntent_pins {requestId : UUID} {intent : ActionIntent P} {now : Time} {ttl : Option Time}
    {request : ApprovalRequest} (h : forIntent requestId intent now ttl = .ok request) :
    request.actionId = intent.actionId ∧ request.actionHash = intent.fingerprint ∧
      request.kind = intent.kind ∧ request.target = intent.target ∧ request.requestedAt = now := by
  simp only [forIntent] at h
  split at h
  · split at h
    · obtain rfl := Except.ok.inj h
      exact ⟨rfl, rfl, rfl, rfl, rfl⟩
    · cases h
  · cases h

end ApprovalRequest

inductive ApprovalVerdict where
  | approved
  | rejected
  | pending
deriving DecidableEq, Repr

def ApprovalVerdict.value : ApprovalVerdict → String
  | approved => "approved"
  | rejected => "rejected"
  | pending => "pending"

/-- A reviewer's verdict on one action, bound to its fingerprint. -/
structure ApprovalDecision where
  actionId : UUID
  actionFingerprint : String
  verdict : ApprovalVerdict
  decidedBy : String
  decidedAt : Time
  note : Option String
  requestId : Option UUID
deriving DecidableEq, Repr

namespace ApprovalDecision

/-- True only for an approval issued for exactly this intent. -/
def authorizes (decision : ApprovalDecision) (intent : ActionIntent P) : Bool :=
  decision.verdict == .approved && decision.actionId == intent.actionId &&
    decision.actionFingerprint == intent.fingerprint

/-- True when this decision was issued for exactly that request. -/
def answers (decision : ApprovalDecision) (request : ApprovalRequest) : Bool :=
  decision.actionId == request.actionId &&
    (decision.requestId == none || decision.requestId == some request.requestId)

/-- The decision would clear the action the request was raised for, as far as the request
and the decision go. -/
def clears (decision : ApprovalDecision) (request : ApprovalRequest) : Bool :=
  decision.answers request && decision.verdict == .approved &&
    decision.actionFingerprint == request.actionHash

end ApprovalDecision

/-! ### Receipts and refusals -/

/-- What came back from redeeming one approved action. -/
structure ActionReceipt where
  actionId : UUID
  ok : Bool
  externalReference : Option String
  detail : Option String
deriving DecidableEq, Repr

def approvalExpiryActor : String := "system:approval_expiry"

inductive RefusalReason where
  | noRequest
  | notApproved
  | deniedByUser
  | misdirectedDecision
  | hashMismatch
  | expired
deriving DecidableEq, Repr

/-- A refusal to execute, recorded rather than raised. -/
structure ApprovalRefusal where
  actionId : UUID
  requestId : Option UUID
  reason : RefusalReason
  detail : String
  approvedHash : Option String
  recomputedHash : Option String
deriving DecidableEq, Repr

/-- Why a decision that is not an approval refuses its action. -/
def nonApprovalReason (decision : ApprovalDecision) : RefusalReason :=
  if decision.decidedBy = approvalExpiryActor then .expired
  else if decision.verdict = .rejected then .deniedByUser
  else .notApproved

/-- Decide whether an approved action may still be executed: the refusal, or `none` for yes. -/
def authorizeExecution (intent : ActionIntent P) (request : Option ApprovalRequest)
    (decision : Option ApprovalDecision) (now : Time) : Option ApprovalRefusal :=
  let recomputed := intent.fingerprint
  match request with
  | none => some
      { actionId := intent.actionId, requestId := none, reason := .noRequest,
        detail := s!"no approval request on file for action {intent.actionId} " ++
          s!"({intent.kind.value}); it was never put to a reviewer",
        approvedHash := none, recomputedHash := some recomputed }
  | some request =>
      let refuse (reason : RefusalReason) (detail : String) : Option ApprovalRefusal := some
        { actionId := intent.actionId, requestId := some request.requestId, reason, detail,
          approvedHash := some request.actionHash, recomputedHash := some recomputed }
      if request.describes intent then
        match decision with
        | none => refuse .notApproved
            (s!"no decision recorded for action {intent.actionId} " ++
              s!"({intent.kind.value}); the request is still unanswered")
        | some decision =>
            if !decision.answers request then refuse .misdirectedDecision
              (s!"decision for action {decision.actionId} / request " ++
                s!"{decision.requestId} does not answer request {request.requestId} " ++
                s!"for action {request.actionId}")
            else if decision.verdict ≠ .approved then refuse (nonApprovalReason decision)
              (s!"action {intent.actionId} ({intent.kind.value}) was not approved: " ++
                s!"verdict={decision.verdict.value}")
            else if decision.actionFingerprint ≠ request.actionHash then refuse .hashMismatch
              (s!"the approval for action {intent.actionId} is bound to hash " ++
                s!"{decision.actionFingerprint}, which is not the hash the request " ++
                "was raised with")
            else if recomputed ≠ request.actionHash then refuse .hashMismatch
              (s!"action {intent.actionId} ({intent.kind.value}) changed after it was " ++
                s!"approved: approved hash {request.actionHash}, now {recomputed}. " ++
                "Refusing to execute under an approval given for a different action")
            else if request.isExpired now then refuse .expired
              (s!"the approval for action {intent.actionId} expired at " ++
                s!"{request.expiresAt}; it must be requested again")
            else none
      else refuse .misdirectedDecision
        (s!"approval request {request.requestId} was raised for action " ++
          s!"{request.actionId}, not {intent.actionId}")

/-- The gate opens exactly for an unexpired request raised for this action, a decision that
clears it, and an intent that still hashes to what the request went out with. -/
theorem authorizeExecution_eq_none {intent : ActionIntent P} {request : Option ApprovalRequest}
    {decision : Option ApprovalDecision} {now : Time} :
    authorizeExecution intent request decision now = none ↔
      ∃ r d, request = some r ∧ decision = some d ∧ r.actionId = intent.actionId ∧
        d.clears r = true ∧ intent.fingerprint = r.actionHash ∧ now < r.expiresAt := by
  cases request with
  | none => simp [authorizeExecution]
  | some r =>
      cases decision with
      | none =>
          simp only [authorizeExecution]
          split <;> simp
      | some d =>
          simp only [authorizeExecution, ApprovalRequest.describes, beq_iff_eq,
            ApprovalDecision.clears, Bool.and_eq_true]
          cases hx : r.isExpired now with
          | true =>
              have : ¬ now < r.expiresAt := by simpa [ApprovalRequest.isExpired] using hx
              repeat' split
              all_goals simp_all
          | false =>
              have : now < r.expiresAt := ApprovalRequest.isExpired_eq_false.mp hx
              repeat' split
              all_goals simp_all

theorem authorizeExecution_actionId {intent : ActionIntent P} {request : Option ApprovalRequest}
    {decision : Option ApprovalDecision} {now : Time} {refusal : ApprovalRefusal}
    (h : authorizeExecution intent request decision now = some refusal) :
    refusal.actionId = intent.actionId := by
  simp only [authorizeExecution] at h
  repeat' split at h
  all_goals first
    | (obtain rfl := Option.some.inj h; rfl)
    | cases h

/-! ### Two plain actions -/

def submission : ActionIntent PlainPayload :=
  { actionId := 1, kind := .submitApplication, target := "acme", summary := "apply to Acme",
    payload := .empty, idempotencyKey := "submit-acme", requestedBy := "graph:job_search" }

def recruiterReply : ActionIntent PlainPayload :=
  { actionId := 2, kind := .sendRecruiterMessage, target := "recruiter", summary := "reply",
    payload := .empty, idempotencyKey := "reply-recruiter", requestedBy := "graph:job_search" }

def submissionApproval : ApprovalDecision :=
  { actionId := 1, actionFingerprint := "Sacme", verdict := .approved, decidedBy := "reviewer",
    decidedAt := 5, note := none, requestId := some 100 }

/-- What was put to a reviewer for the submission at time 0, for the next ten seconds. -/
def submissionRequest : ApprovalRequest :=
  { requestId := 100, actionId := 1, actionHash := "Sacme", kind := .submitApplication,
    target := "acme", summary := "apply to Acme", risk := .high,
    requestedScopes := ["applications:submit", "artifacts:read"], idempotencyKey := "submit-acme",
    requestedBy := "graph:job_search", requestedAt := 0, expiresAt := 10,
    expiry_after_request := by decide }

end PersonalOS
