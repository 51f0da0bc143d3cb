import PersonalOS.RecruiterEventStore
import PersonalOS.InterviewScheduling

/-! # Recording recruiter messages

The node that records what was matched, hands the rest to a person and drafts owed replies.

* **Rounds.** `recordRound` is what the node does for one event: at most one write of the store and
  one staged event, which are the atomic steps between which it can crash.
* **Update.** `recordRecruiterEvents` makes one round an event and collects what they found; a
  message that is already stored is skipped. -/

namespace PersonalOS

open Concurrent

/-- Payload of the proposal to send a reply. -/
structure ReplyPayload where
  applicationId : UUID
  inReplyTo : String
  classification : CommunicationEventClassification
  recipient : String
  subject : String
  body : String
deriving DecidableEq, Repr

abbrev RecruiterProgram := Prog Unit RecruiterDb RecruiterError

/-- A step that may raise. -/
def RecruiterProgram.attempting {α : Type} (f : RecruiterDb → Except RecruiterError α × RecruiterDb) :
    RecruiterProgram α := do
  match ← Prog.act fun _ db => f db with
  | .ok a => return a
  | .error e => Prog.raise e

namespace RecruiterProgram

variable {α β : Type} {f : RecruiterDb → Except RecruiterError α × RecruiterDb} {a : α}
variable {db after : RecruiterDb}

theorem attempting_finish :
    (attempting f).finish () db = (.ok a, after) ↔ f db = (.ok a, after) := by
  unfold attempting
  rw [Prog.act_bind, Prog.finish_call]
  generalize f db = answer
  obtain ⟨answer, after'⟩ := answer
  cases answer with
  | ok b => exact Iff.rfl
  | error e =>
      constructor
      · intro h
        cases (Prod.mk.inj h).1
      · intro h
        cases (Prod.mk.inj h).1

theorem attempting_exec {g : α → RecruiterProgram β} (h : f db = (.ok a, after)) (inputs : List Unit) :
    (attempting f >>= g).exec (() :: inputs) db = (g a).exec inputs after := by
  have hstep : (attempting f >>= g).step () db = (g a, after) := by
    unfold attempting
    rw [Prog.act_bind, Prog.call_bind]
    unfold Prog.step
    dsimp only
    rw [h]
    rfl
  rw [Prog.exec_cons, hstep]

theorem attempting_stepsOnly {P : RecruiterDb → RecruiterDb → Prop} (h : ∀ db, P db (f db).2) :
    (attempting f).stepsOnly P := by
  refine ⟨fun _ db => h db, fun answer => ?_⟩
  cases answer with
  | ok a => trivial
  | error e => trivial

end RecruiterProgram

/-- What the node found out about one event. -/
structure RecordRound where
  record : Option RecruiterEventRecord
  review : Option RecruiterEventReview
  emitted : List EmittedEvent
  intent : Option (ActionIntent ReplyPayload)
  interview : Option InterviewRequest
deriving DecidableEq, Repr

namespace RecordRound

/-- Nothing. -/
def empty : RecordRound := ⟨none, none, [], none, none⟩

end RecordRound

/-- The part of the state update the node returns that others act on, and what it recorded. -/
structure RecorderUpdate where
  records : List RecruiterEventRecord
  reviews : List RecruiterEventReview
  emitted : List EmittedEvent
  pendingActions : List (ActionIntent ReplyPayload)
  interviewRequests : List InterviewRequest
deriving DecidableEq, Repr

section node

variable (surroundings : RecruiterSurroundings)

/-- The domain events recording one matched event produces. -/
def eventsForRecorded (event : RecruiterEvent) (decision : RecruiterEventTriage) :
    Except RecruiterError (List EmittedEvent) :=
  match event.correlation.applicationId with
  | none => .error (.contract "an unmatched recruiter event cannot be recorded")
  | some applicationId => do
      let key ← event.dedupeKey surroundings.reading
      let recorded : EmittedEvent :=
        { type := .recruiterResponseRecorded
          aggregateId := applicationId
          payload := .responseRecorded applicationId event.message.providerMessageId
            event.classification decision.transition event.commitments
          dedupeKey := s!"recruiter_event:{key}"
          occurredAt := surroundings.now }
      let invited : EmittedEvent :=
        { type := .interviewInviteReceived
          aggregateId := applicationId
          payload := .inviteReceived (InterviewInviteReceived.fromEvent event applicationId)
          dedupeKey := s!"interview_invite:{key}"
          occurredAt := surroundings.now }
      if event.classification = .interviewInvite ∧ decision.transition.isSome then
        return [recorded, invited]
      else return [recorded]

/-- The interview a recorded event puts on the calendar: one, or none. -/
def interviewRequestsFor (event : RecruiterEvent) (decision : RecruiterEventTriage)
    (applicationId : UUID) : Option InterviewRequest :=
  if event.classification = .interviewInvite ∧ decision.transition.isSome then
    interviewRequestFrom surroundings.reading (InterviewInviteReceived.fromEvent event applicationId)
  else none

/-- The approval-gated proposal to send a draft in reply to an event's message. -/
def replyIntent (event : RecruiterEvent) (applicationId : UUID) : ActionIntent ReplyPayload :=
  let draft := surroundings.draft event
  let message := event.message
  let key := RecruiterEvent.column255 s!"reply-{applicationId}-{message.providerMessageId}"
  let recipient := if draft.recipient = "" then "recruiter" else draft.recipient
  let thread := (message.threadId.filter (· ≠ "")).getD message.providerMessageId
  let subject := (message.subject.filter (· ≠ "")).getD message.providerMessageId
  let classification := event.classification.value.map fun c => if c = '_' then ' ' else c
  { actionId := surroundings.actionId key
    kind := .sendRecruiterMessage
    target := s!"{recipient} (thread {thread})"
    summary := s!"Reply to the recruiter's {classification}: {subject}"
    payload :=
      { applicationId
        inReplyTo := message.providerMessageId
        classification := event.classification
        recipient := draft.recipient
        subject := draft.subject
        body := draft.body }
    idempotencyKey := key
    requestedBy := "graph:job_search#record_recruiter_events" }

/-- Why a person is told about an event, once it is recorded or not. -/
def reviewReasonOf (decision : RecruiterEventTriage) (record : Option RecruiterEventRecord) :
    Option String :=
  match record.bind fun record => record.refusedTransition.map fun refused => (record, refused) with
  | some (record, refused) =>
      some (s!"the application is '{record.status.value}', and the lifecycle does " ++
        s!"not allow '{refused.value}' from there")
  | none => decision.reviewReason

def RecruiterEvent.review (key : String) (reason : String) (record : Option RecruiterEventRecord)
    (event : RecruiterEvent) : RecruiterEventReview where
  dedupeKey := key
  providerMessageId := event.message.providerMessageId
  classification := event.classification
  reason
  applicationId := record.map (·.applicationId)
  candidates := event.correlation.candidates

def reviewEvent (review : RecruiterEventReview) : EmittedEvent where
  type := .recruiterEventReviewRequired
  -- An unmatched message gets a stable aggregate of its own.
  aggregateId := review.applicationId.getD (surroundings.uuid5 review.dedupeKey)
  payload := .reviewRequired review
  dedupeKey := s!"recruiter_event_review:{review.dedupeKey}"
  occurredAt := surroundings.now

/-- What follows for an event that was not seen before: a review, or an interview and a reply. -/
def followUp (event : RecruiterEvent) (decision : RecruiterEventTriage)
    (record : Option RecruiterEventRecord) (outgoing : List EmittedEvent) :
    RecruiterProgram RecordRound :=
  match reviewReasonOf decision record with
  | some reason =>
      match event.dedupeKey surroundings.reading with
      | .error e => Prog.raise e
      | .ok key => do
          let review := event.review key reason record
          Prog.act fun _ db => ((), db.stage surroundings (reviewEvent surroundings review))
          return { record, review := some review,
                   emitted := outgoing ++ [reviewEvent surroundings review],
                   intent := none, interview := none }
  | none =>
      return { record, review := none, emitted := outgoing
               intent := record.bind fun record =>
                 if event.requiresReply then
                   some (replyIntent surroundings event record.applicationId)
                 else none
               interview := record.bind fun record =>
                 interviewRequestsFor surroundings event decision record.applicationId }

/-- What the node does for one event. -/
def recordRound (event : RecruiterEvent) : RecruiterProgram RecordRound :=
  let decision := triage surroundings.reading surroundings.minClassificationConfidence event
  match decision.action with
  | .ignore => return RecordRound.empty
  | .review => followUp surroundings event decision none []
  | .record =>
      match eventsForRecorded surroundings event decision with
      | .error e => Prog.raise e
      | .ok outgoing => do
          let record ← RecruiterProgram.attempting fun db =>
            db.record surroundings event decision.transition outgoing
          if !record.created then return { RecordRound.empty with record := some record }
          else followUp surroundings event decision (some record) outgoing

def recordRounds : List RecruiterEvent → RecruiterProgram (List RecordRound)
  | [] => return []
  | event :: events => do
      let round ← recordRound surroundings event
      let rounds ← recordRounds events
      return round :: rounds

/-- The update the rounds add up to. -/
def RecorderUpdate.of (emitted : List EmittedEvent) (rounds : List RecordRound) : RecorderUpdate where
  records := rounds.filterMap (·.record)
  reviews := rounds.filterMap (·.review)
  emitted := emitted ++ rounds.flatMap (·.emitted)
  pendingActions := rounds.filterMap (·.intent)
  interviewRequests := rounds.filterMap (·.interview)

/-- Record what was matched, hand the rest to a person, draft owed replies. -/
def recordRecruiterEvents (emitted : List EmittedEvent) (events : List RecruiterEvent) :
    RecruiterProgram RecorderUpdate := do
  return RecorderUpdate.of emitted (← recordRounds surroundings events)

end node

end PersonalOS
