import PersonalOS.ApplicationLifecycle
import PersonalOS.Instants
import PersonalOS.Texts
import Mathlib.Data.Rat.Defs

/-! # Recruiter events

One inbound message, what it is, what it commits anyone to and which application it is about.

* **Values.** A `RecruiterEvent` is a message with its classification and its correlation; an
  `ApplicationCorrelation` names an application exactly if it matched one.
* **Triage.** `triage` decides whether an event is recorded, put before a person or dropped.
* **Reading.** How a number is written in a text, the hash of a message id and which actions read
  like an interview are taken as given: `MessageReading`. -/

namespace PersonalOS

inductive CommunicationEventClassification where
  | recruiterResponse
  | interviewInvite
  | rejection
  | offer
  | actionRequired
  | generalUpdate
  | unrelated
deriving DecidableEq, Repr

def CommunicationEventClassification.value : CommunicationEventClassification → String
  | recruiterResponse => "recruiter_response"
  | interviewInvite => "interview_invite"
  | rejection => "rejection"
  | offer => "offer"
  | actionRequired => "action_required"
  | generalUpdate => "general_update"
  | unrelated => "unrelated"

/-- `IMPLIED_STATUS`: the lifecycle move each classification proposes. -/
def impliedStatus : CommunicationEventClassification → Option ApplicationStatus
  | .recruiterResponse => some .response
  | .interviewInvite => some .interviewing
  | .rejection => some .rejected
  | .offer => some .offer
  | .actionRequired => some .response
  | .generalUpdate => none
  | .unrelated => none

/-- Who a commitment binds. -/
inductive CommitmentActor where
  | user
  | externalPerson
deriving DecidableEq, Repr

/-- A commitment tied to the message it was read out of. -/
structure Commitment where
  actor : CommitmentActor
  action : String
  dueAt : Option Instant
  condition : Option String
  confidence : ℚ
  sourceMessageId : String
deriving DecidableEq, Repr

/-- Which extractor an extraction came from. -/
inductive ExtractionSource where
  | model
  | fallback
deriving DecidableEq, Repr

inductive CorrelationSignal where
  | reviewerConfirmed
  | thread
  | reference
  | knownSender
  | senderDomain
  | companyName
  | title
deriving DecidableEq, Repr

inductive CorrelationOutcome where
  | matched
  | needsReview
  | unmatched
deriving DecidableEq, Repr

/-- One application a message might be about, and why. -/
structure CorrelationCandidate where
  applicationId : UUID
  confidence : ℚ
  signals : List CorrelationSignal
deriving DecidableEq, Repr

/-- Which application a message is about, if that could be established. -/
structure ApplicationCorrelation where
  outcome : CorrelationOutcome
  applicationId : Option UUID
  confidence : ℚ
  signals : List CorrelationSignal
  threshold : ℚ
  candidates : List CorrelationCandidate
  linked_only_when_matched : outcome = .matched ↔ applicationId.isSome

/-- One inbound recruiter-side message. -/
structure RecruiterMessage where
  providerMessageId : String
  receivedAt : Instant
  body : String
  subject : Option String
  fromAddress : Option String
  threadId : Option String
deriving DecidableEq, Repr

/-- One inbound message, classified and correlated. -/
structure RecruiterEvent where
  message : RecruiterMessage
  classification : CommunicationEventClassification
  confidence : ℚ
  summary : Option String
  requiresReply : Bool
  commitments : List Commitment
  source : ExtractionSource
  correlation : ApplicationCorrelation

/-- What the texts depend on beyond this module. -/
structure MessageReading where
  /-- `format(x, '.2f')`. -/
  twoDecimals : ℚ → String
  /-- The hex digest of the SHA-256 of a text. -/
  sha256 : String → String
  /-- The action reads like an interview, and not like arranging one. -/
  statesInterview : String → Bool

/-- What `record_recruiter_events` and the recorder raise. -/
inductive RecruiterError where
  /-- `JobSearchContractError`. -/
  | contract (message : String)
  /-- A `ValueError` of the recorder. -/
  | value (message : String)
  /-- The application of a recorded message is gone: an attribute of `None`. -/
  | attribute
  /-- A unique violation that another delivery does not explain. -/
  | integrity
  /-- `ApplicationTransitionConflict`. -/
  | conflict (message : String)
deriving DecidableEq, Repr

def maxReadableMessageId : ℕ := 200

/-- The key one inbound message is recorded under, however often it is delivered. -/
def communicationDedupeKey (reading : MessageReading) (providerMessageId : String) :
    Except RecruiterError String :=
  let messageId := strip providerMessageId
  if messageId = "" then
    .error (.contract "a message with no provider id cannot be deduplicated")
  else if maxReadableMessageId < messageId.length then
    .ok s!"message:sha256:{reading.sha256 messageId}"
  else .ok s!"message:{messageId}"

def RecruiterEvent.dedupeKey (reading : MessageReading) (event : RecruiterEvent) :
    Except RecruiterError String :=
  communicationDedupeKey reading event.message.providerMessageId

/-! ### Triage -/

inductive TriageAction where
  | record
  | review
  | ignore
deriving DecidableEq, Repr

/-- What to do with one event. -/
structure RecruiterEventTriage where
  action : TriageAction
  transition : Option ApplicationStatus
  reviewReason : Option String
deriving DecidableEq, Repr

/-- Decide whether an event is recorded, reviewed or dropped. -/
def triage (reading : MessageReading) (minClassificationConfidence : ℚ) (event : RecruiterEvent) :
    RecruiterEventTriage :=
  let unrelated := event.classification == .unrelated
  match event.correlation.outcome with
  | .matched =>
      if unrelated && !event.correlation.signals.contains .reviewerConfirmed then
        ⟨.review, none, some "classified unrelated, but its identifiers match an application"⟩
      else if event.confidence < minClassificationConfidence then
        ⟨.record, none, some (s!"classification confidence {reading.twoDecimals event.confidence} " ++
          s!"is below {reading.twoDecimals minClassificationConfidence}")⟩
      else ⟨.record, impliedStatus event.classification, none⟩
  | .needsReview =>
      if unrelated then ⟨.ignore, none, none⟩
      else ⟨.review, none, some
        (s!"application match confidence {reading.twoDecimals event.correlation.confidence} is " ++
          s!"below {reading.twoDecimals event.correlation.threshold} or not unique")⟩
  | .unmatched =>
      if unrelated || event.classification == .generalUpdate then ⟨.ignore, none, none⟩
      else ⟨.review, none, some "no application on file matches this message"⟩

/-! ### What a recorded event says -/

/-- Payload of `application.interview_invite_received`. -/
structure InterviewInviteReceived where
  applicationId : UUID
  sourceMessageId : String
  receivedAt : Instant
  threadId : Option String
  fromAddress : Option String
  subject : Option String
  summary : Option String
  commitments : List Commitment
deriving DecidableEq, Repr

def InterviewInviteReceived.fromEvent (event : RecruiterEvent) (applicationId : UUID) :
    InterviewInviteReceived where
  applicationId := applicationId
  sourceMessageId := event.message.providerMessageId
  receivedAt := event.message.receivedAt
  threadId := event.message.threadId
  fromAddress := event.message.fromAddress
  subject := event.message.subject
  summary := event.summary
  commitments := event.commitments

/-- What storing one event did, as the store reported it. -/
structure RecruiterEventRecord where
  dedupeKey : String
  applicationId : UUID
  communicationEventId : UUID
  created : Bool
  status : ApplicationStatus
  transitioned : Bool
  refusedTransition : Option ApplicationStatus
deriving DecidableEq, Repr

/-- One event waiting on a person. -/
structure RecruiterEventReview where
  dedupeKey : String
  providerMessageId : String
  classification : CommunicationEventClassification
  reason : String
  applicationId : Option UUID
  candidates : List CorrelationCandidate
deriving DecidableEq, Repr

/-- A proposed reply. -/
structure ReplyDraft where
  recipient : String
  subject : String
  body : String
deriving DecidableEq, Repr

end PersonalOS
