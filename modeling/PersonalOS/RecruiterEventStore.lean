import PersonalOS.RecruiterEvents

/-! # The store of recruiter events

One event, the application's move and the events they produce, in one transaction or not at all.

* **Tables.** The applications with their event log, the communication events under their dedupe
  keys, the commitments and the outbox.
* **Record.** `record` finds the row of a message that is already stored, or writes all of it; a
  move the lifecycle refuses is reported back and the event is recorded all the same.
* **Emit.** `emit` stages an event in a transaction of its own, unless its key is staged.

What one run cannot decide is given by `RecruiterSurroundings`: the clock, and a fresh id for each
message it is for.  The store runs in one process, so that no other delivery comes between. -/

namespace PersonalOS

open Concurrent

inductive RecruiterEventType where
  | recruiterResponseRecorded
  | interviewInviteReceived
  | recruiterEventReviewRequired
deriving DecidableEq, Repr

/-- The payloads of these events. -/
inductive RecruiterEventPayload where
  | responseRecorded (applicationId : UUID) (providerMessageId : String)
      (classification : CommunicationEventClassification) (impliedStatus : Option ApplicationStatus)
      (commitments : List Commitment)
  | inviteReceived (invite : InterviewInviteReceived)
  | reviewRequired (review : RecruiterEventReview)
deriving DecidableEq, Repr

/-- One domain event handed to the outbox, with its dedupe identity. -/
structure EmittedEvent where
  type : RecruiterEventType
  aggregateId : UUID
  payload : RecruiterEventPayload
  dedupeKey : String
  occurredAt : Instant
deriving DecidableEq, Repr

/-- What one run of the node is surrounded by. -/
structure RecruiterSurroundings where
  reading : MessageReading
  minClassificationConfidence : ℚ
  /-- The clock of the run. -/
  now : Instant
  /-- The fresh ids of a message's row, of the log entry of its move and of its reply. -/
  rowId : String → UUID
  eventId : String → UUID
  actionId : String → UUID
  /-- `uuid5(NAMESPACE_URL, ...)`. -/
  uuid5 : String → UUID
  draft : RecruiterEvent → ReplyDraft
  redactText : RedactText
  redactPayload : RecruiterEventPayload → RecruiterEventPayload

/-- The metadata of a `communication_events` row. -/
structure CommunicationMetadata where
  subject : Option String
  fromAddress : Option String
  threadId : Option String
  summary : Option String
  requiresReply : Bool
  classificationConfidence : ℚ
  extractionSource : ExtractionSource
  correlationConfidence : ℚ
  correlationSignals : List CorrelationSignal
deriving DecidableEq, Repr

structure CommunicationEventRow where
  id : UUID
  applicationId : UUID
  classification : CommunicationEventClassification
  occurredAt : Instant
  providerMessageId : String
  dedupeKey : String
  metadata : CommunicationMetadata
deriving DecidableEq, Repr

structure CommitmentRow where
  communicationEventId : UUID
  applicationId : UUID
  commitment : Commitment
deriving DecidableEq, Repr

structure StagedEvent where
  type : RecruiterEventType
  payload : RecruiterEventPayload
  dedupeKey : String
deriving DecidableEq, Repr

/-- The tables. -/
structure RecruiterDb where
  lifecycle : LifecycleDb Unit
  communications : List CommunicationEventRow
  commitments : List CommitmentRow
  outbox : List StagedEvent

/-- The move a message proposes for the application as it stands: its own, or the way back from a
stall. -/
def proposedMove (row : ApplicationRow) (transition : Option ApplicationStatus) :
    Option ApplicationStatus :=
  if transition = none ∨ transition = some row.status then
    -- A message that changes nothing is still activity.
    if row.status = .stalled then row.resumeStatus else none
  else transition

/-- The application's row with something happening on it. -/
def LifecycleDb.touch (applicationId : UUID) (now : Instant) (db : LifecycleDb Unit) :
    LifecycleDb Unit :=
  { db with
    applications := Function.update db.applications applicationId
      ((db.applications applicationId).map fun row => { row with lastActivityAt := some now }) }

namespace RecruiterEvent

variable (surroundings : RecruiterSurroundings)

def metadata (event : RecruiterEvent) : CommunicationMetadata where
  subject := event.message.subject
  fromAddress := event.message.fromAddress
  threadId := event.message.threadId
  summary := event.summary
  requiresReply := event.requiresReply
  classificationConfidence := event.confidence
  extractionSource := event.source
  correlationConfidence := event.correlation.confidence
  correlationSignals := event.correlation.signals

def column255 (text : String) : String := String.ofList (text.toList.take 255)

def row (key : String) (applicationId : UUID) (event : RecruiterEvent) : CommunicationEventRow where
  id := surroundings.rowId key
  applicationId
  classification := event.classification
  occurredAt := event.message.receivedAt
  providerMessageId := column255 event.message.providerMessageId
  dedupeKey := key
  metadata := event.metadata

def commitmentRows (key : String) (applicationId : UUID) (event : RecruiterEvent) :
    List CommitmentRow :=
  event.commitments.map fun commitment =>
    { communicationEventId := surroundings.rowId key
      applicationId
      commitment := { commitment with sourceMessageId := column255 commitment.sourceMessageId } }

/-- The lifecycle move a message makes. -/
def move (applicationId : UUID) (target : ApplicationStatus) (event : RecruiterEvent) : StatusMove where
  applicationId
  newStatus := target
  reason := some s!"{event.classification.value} in message {event.message.providerMessageId}"
  actor := "recruiter_event"
  now := some surroundings.now
  quietSince := none

end RecruiterEvent

namespace RecruiterDb

variable (surroundings : RecruiterSurroundings)

/-- The key is in the outbox. -/
def staged (key : String) (db : RecruiterDb) : Bool := db.outbox.any (·.dedupeKey == key)

/-- `stage_raw_event`, skipping a key that is staged. -/
def stage (event : EmittedEvent) (db : RecruiterDb) : RecruiterDb :=
  if db.staged event.dedupeKey then db
  else
    { db with
      outbox := db.outbox ++ [⟨event.type, surroundings.redactPayload event.payload, event.dedupeKey⟩] }

/-- Make the proposed move: the application's tables, whether it moved and what was refused. -/
def proposeMove (key : String) (applicationId : UUID) (event : RecruiterEvent)
    (target : Option ApplicationStatus) (db : LifecycleDb Unit) :
    Except RecruiterError (LifecycleDb Unit × Bool × Option ApplicationStatus) :=
  match target with
  | none => .ok (db.touch applicationId surroundings.now, false, none)
  | some target =>
      let moved := (ApplicationLifecycleStore.updateStatus surroundings.redactText ()
        (event.move surroundings applicationId target)).finish
          ⟨surroundings.now, surroundings.eventId key, true⟩ db
      match moved.1 with
      | .ok _ => .ok (moved.2, true, none)
      | .error (.invalidApplicationTransition _ _) =>
          .ok (moved.2.touch applicationId surroundings.now, false, some target)
      | .error .integrity => .error .integrity
      | .error (.notFound message) => .error (.value message)
      | .error (.applicationTransitionConflict message) => .error (.conflict message)
      | .error .aborted => .error .integrity

/-- `_write`. -/
def write (key : String) (event : RecruiterEvent) (applicationId : UUID)
    (transition : Option ApplicationStatus) (emit : List EmittedEvent) (db : RecruiterDb) :
    Except RecruiterError (RecruiterEventRecord × RecruiterDb) :=
  match db.lifecycle.applications applicationId with
  | none => .error (.value s!"Application {applicationId} not found")
  | some application =>
      let row := event.row surroundings key applicationId
      if db.communications.any fun other =>
          other.applicationId == applicationId && other.providerMessageId == row.providerMessageId then
        .error .integrity
      else do
        let moved ← proposeMove surroundings key applicationId event
          (proposedMove application transition) db.lifecycle
        let stored : RecruiterDb :=
          { lifecycle := moved.1
            communications := db.communications ++ [row]
            commitments := db.commitments ++ event.commitmentRows surroundings key applicationId
            outbox := db.outbox }
        let record : RecruiterEventRecord :=
          { dedupeKey := key
            applicationId
            communicationEventId := row.id
            created := true
            status := ((moved.1.applications applicationId).getD application).status
            transitioned := moved.2.1
            refusedTransition := moved.2.2 }
        return (record, emit.foldl (fun db event => db.stage surroundings event) stored)

/-- `_duplicate`. -/
def duplicate (existing : CommunicationEventRow) (db : RecruiterDb) :
    Except RecruiterError RecruiterEventRecord :=
  match db.lifecycle.applications existing.applicationId with
  | none => .error .attribute
  | some application =>
      .ok
        { dedupeKey := existing.dedupeKey
          applicationId := existing.applicationId
          communicationEventId := existing.id
          created := false
          status := application.status
          transitioned := false
          refusedTransition := none }

/-- The row already recorded for a message. -/
def getByDedupeKey (key : String) (db : RecruiterDb) : Option CommunicationEventRow :=
  db.communications.find? (·.dedupeKey == key)

/-- Store one event against the application it was matched to, exactly once. -/
def record (event : RecruiterEvent) (transition : Option ApplicationStatus)
    (emit : List EmittedEvent) (db : RecruiterDb) :
    Except RecruiterError RecruiterEventRecord × RecruiterDb :=
  match event.correlation.outcome, event.correlation.applicationId with
  | .matched, some applicationId =>
      match event.dedupeKey surroundings.reading with
      | .error e => (.error e, db)
      | .ok key =>
          match db.getByDedupeKey key with
          | some existing => (db.duplicate existing, db)
          | none =>
              match db.write surroundings key event applicationId transition emit with
              | .error e => (.error e, db)
              | .ok (record, db) => (.ok record, db)
  | _, _ =>
      (.error (.value (s!"message {event.message.providerMessageId} is not matched to an " ++
        "application and cannot be recorded")), db)

end RecruiterDb

/-- The lifecycle refuses the move a message proposes. -/
def refusesMove (row : ApplicationRow) (transition : Option ApplicationStatus) : Bool :=
  (proposedMove row transition).any fun target =>
    !(allowedApplicationTransitions row.status row.resumeStatus).contains target

/-! ### The move -/

section move

variable {move : StatusMove} {row : ApplicationRow} {db : LifecycleDb Unit} {now : Instant}

theorem updateStatus_finish_refused (redactText : RedactText) (i : LifecycleInput)
    (hrow : db.applications move.applicationId = some row)
    (h : move.newStatus ∉ allowedApplicationTransitions row.status row.resumeStatus) :
    ∃ message allowed, (ApplicationLifecycleStore.updateStatus redactText () move).finish i db =
      (.error (.invalidApplicationTransition message allowed), (db.see () move.applicationId).2) := by
  obtain ⟨message, allowed, herror⟩ : ∃ message allowed,
      validateApplicationStatusTransition row.status move.newStatus row.resumeStatus =
        .error (.invalidApplicationTransition message allowed) := by
    unfold validateApplicationStatusTransition
    dsimp only
    rw [if_neg (by simpa using h)]
    exact ⟨_, _, rfl⟩
  refine ⟨message, allowed, ?_⟩
  unfold ApplicationLifecycleStore.updateStatus
  rw [Prog.act_bind, Prog.finish_call]
  have hsee : (db.see () move.applicationId).1 = some row := hrow
  rw [hsee]
  dsimp only
  rw [herror]
  rfl

theorem updateStatus_finish_allowed (redactText : RedactText) (i : LifecycleInput)
    (hrow : db.applications move.applicationId = some row) (hnow : move.now = some now)
    (h : move.newStatus ∈ allowedApplicationTransitions row.status row.resumeStatus) :
    (ApplicationLifecycleStore.updateStatus redactText () move).finish i db =
      (db.see () move.applicationId).2.writeMove redactText move row now i := by
  have hvalid : validateApplicationStatusTransition row.status move.newStatus row.resumeStatus =
      .ok move.newStatus := by
    unfold validateApplicationStatusTransition
    exact if_pos (by simpa using h)
  unfold ApplicationLifecycleStore.updateStatus
  rw [Prog.act_bind, Prog.finish_call]
  have hsee : (db.see () move.applicationId).1 = some row := hrow
  rw [hsee]
  dsimp only
  rw [hvalid, hnow]
  unfold ApplicationLifecycleStore.nowOr
  dsimp only
  rw [Prog.pure_eq, Prog.ret_bind, Prog.act_bind, Prog.finish_call]
  generalize (db.see () move.applicationId).2.writeMove redactText move row now i = written
  obtain ⟨answer, after⟩ := written
  cases answer with
  | ok _ => rfl
  | error e => rfl

/-- A move that was validated fails, if it does, for another reason, and loses no application. -/
theorem writeMove_outcome (redactText : RedactText) (seen : ApplicationRow) (now : Instant)
    (i : LifecycleInput) (move : StatusMove) (db : LifecycleDb Unit) :
    (∀ message allowed, (db.writeMove redactText move seen now i).1 ≠
      .error (.invalidApplicationTransition message allowed)) ∧
      ∀ id, db.applications id ≠ none → (db.writeMove redactText move seen now i).2.applications id ≠ none := by
  unfold LifecycleDb.writeMove
  split
  · exact ⟨fun _ _ => by simp, fun _ h => h⟩
  · split
    · exact ⟨fun _ _ => by simp, fun _ h => h⟩
    · split
      · refine ⟨fun _ _ => by simp, fun id h => ?_⟩
        unfold LifecycleDb.record
        dsimp only
        unfold Function.update
        split
        · simp
        · exact h
      · exact ⟨fun _ _ => by simp, fun _ h => h⟩

theorem touch_applications (applicationId id : UUID) (h : db.applications id ≠ none) :
    (db.touch applicationId now).applications id ≠ none := by
  unfold LifecycleDb.touch Function.update
  dsimp only
  split
  · rename_i heq
    subst heq
    simpa using h
  · exact h

/-- What is reported as refused is what the lifecycle refuses, and no application is lost. -/
theorem proposeMove_ok {surroundings : RecruiterSurroundings} {key : String} {applicationId : UUID}
    {event : RecruiterEvent} {target : Option ApplicationStatus}
    {moved : LifecycleDb Unit × Bool × Option ApplicationStatus}
    (hrow : db.applications applicationId = some row)
    (h : RecruiterDb.proposeMove surroundings key applicationId event target db = .ok moved) :
    moved.2.2.isSome = target.any (fun target =>
        !(allowedApplicationTransitions row.status row.resumeStatus).contains target) ∧
      ∀ id, db.applications id ≠ none → moved.1.applications id ≠ none := by
  unfold RecruiterDb.proposeMove at h
  cases target with
  | none =>
      obtain rfl := Except.ok.inj h
      exact ⟨rfl, fun id hid => touch_applications _ _ hid⟩
  | some target =>
      dsimp only at h
      by_cases hallowed : target ∈ allowedApplicationTransitions row.status row.resumeStatus
      · obtain ⟨hvalid, hkept⟩ := writeMove_outcome surroundings.redactText row surroundings.now
          ⟨surroundings.now, surroundings.eventId key, true⟩
          (event.move surroundings applicationId target) (db.see () applicationId).2
        rw [updateStatus_finish_allowed surroundings.redactText _ hrow rfl hallowed] at h
        split at h
        · obtain rfl := Except.ok.inj h
          refine ⟨?_, hkept⟩
          simpa using hallowed
        · rename_i message allowed hinvalid
          exact absurd hinvalid (hvalid message allowed)
        · cases h
        · cases h
        · cases h
        · cases h
      · have hmove : (event.move surroundings applicationId target).newStatus ∉
            allowedApplicationTransitions row.status row.resumeStatus := hallowed
        obtain ⟨message, allowed, hfinish⟩ := updateStatus_finish_refused surroundings.redactText
          ⟨surroundings.now, surroundings.eventId key, true⟩ hrow hmove
        rw [hfinish] at h
        obtain rfl := Except.ok.inj h
        refine ⟨?_, fun id hid => touch_applications _ _ hid⟩
        simpa using hallowed

end move

/-! ### What a write leaves -/

/-- What is stored stays stored: the messages with their rows, the applications and the keys in the
outbox. -/
structure RecruiterDb.Extends (db db' : RecruiterDb) : Prop where
  communications : ∀ key row, db.getByDedupeKey key = some row → db'.getByDedupeKey key = some row
  applications : ∀ id, db.lifecycle.applications id ≠ none → db'.lifecycle.applications id ≠ none
  outbox : ∀ key, db.staged key = true → db'.staged key = true

/-- Everything but the outbox is the same. -/
structure RecruiterDb.SameRows (db db' : RecruiterDb) : Prop where
  lifecycle : db.lifecycle = db'.lifecycle
  communications : db.communications = db'.communications
  commitments : db.commitments = db'.commitments

namespace RecruiterDb

variable {surroundings : RecruiterSurroundings} {db db' db'' : RecruiterDb} {key : String}
variable {event : RecruiterEvent} {emitted : EmittedEvent}

theorem Extends.refl (db : RecruiterDb) : Extends db db :=
  ⟨fun _ _ h => h, fun _ h => h, fun _ h => h⟩

theorem Extends.trans (h : Extends db db') (h' : Extends db' db'') : Extends db db'' :=
  ⟨fun key row hrow => h'.communications key row (h.communications key row hrow),
    fun id hid => h'.applications id (h.applications id hid),
    fun key hkey => h'.outbox key (h.outbox key hkey)⟩

theorem SameRows.trans (h : SameRows db db') (h' : SameRows db' db'') : SameRows db db'' :=
  ⟨h.lifecycle.trans h'.lifecycle, h.communications.trans h'.communications,
    h.commitments.trans h'.commitments⟩

theorem SameRows.symm (h : SameRows db db') : SameRows db' db :=
  ⟨h.lifecycle.symm, h.communications.symm, h.commitments.symm⟩

theorem stage_sameRows (surroundings : RecruiterSurroundings) (emitted : EmittedEvent) (db : RecruiterDb) :
    SameRows (db.stage surroundings emitted) db := by
  unfold stage
  split
  · exact ⟨rfl, rfl, rfl⟩
  · exact ⟨rfl, rfl, rfl⟩

theorem staged_stage : (db.stage surroundings emitted).staged emitted.dedupeKey = true := by
  unfold stage
  split
  · assumption
  · unfold staged
    simp

/-- An event that is staged is not staged again. -/
theorem stage_of_staged (h : db.staged emitted.dedupeKey = true) : db.stage surroundings emitted = db :=
  if_pos h

theorem stage_extends (surroundings : RecruiterSurroundings) (emitted : EmittedEvent) (db : RecruiterDb) :
    Extends db (db.stage surroundings emitted) := by
  have hsame := stage_sameRows surroundings emitted db
  refine ⟨fun key row h => ?_, fun id h => ?_, fun key h => ?_⟩
  · unfold getByDedupeKey
    rw [hsame.communications]
    exact h
  · rw [hsame.lifecycle]
    exact h
  · unfold stage
    split
    · exact h
    · unfold staged at h ⊢
      rw [List.any_append, h, Bool.true_or]

theorem stageAll_sameRows (surroundings : RecruiterSurroundings) (emit : List EmittedEvent) (db : RecruiterDb) :
    SameRows (emit.foldl (fun db event => db.stage surroundings event) db) db := by
  induction emit generalizing db with
  | nil => exact ⟨rfl, rfl, rfl⟩
  | cons emitted emit ih => exact (ih _).trans (stage_sameRows surroundings emitted db)

theorem stageAll_extends (surroundings : RecruiterSurroundings) (emit : List EmittedEvent) (db : RecruiterDb) :
    Extends db (emit.foldl (fun db event => db.stage surroundings event) db) := by
  induction emit generalizing db with
  | nil => exact Extends.refl db
  | cons emitted emit ih => exact (stage_extends surroundings emitted db).trans (ih _)

/-- A message that was not stored is stored now, nothing that was stored is lost, and what is
reported as refused is what the lifecycle refuses. -/
theorem write_ok {applicationId : UUID} {transition : Option ApplicationStatus}
    {emit : List EmittedEvent} {record : RecruiterEventRecord} (hnew : db.getByDedupeKey key = none)
    (h : db.write surroundings key event applicationId transition emit = .ok (record, db')) :
    Extends db db' ∧ record.created = true ∧ record.applicationId = applicationId ∧
      db'.getByDedupeKey key = some (event.row surroundings key applicationId) ∧
      ∃ row, db.lifecycle.applications applicationId = some row ∧
        record.refusedTransition.isSome = refusesMove row transition := by
  unfold write at h
  split at h
  · cases h
  rename_i row hrow
  dsimp only at h
  split at h
  · cases h
  obtain ⟨moved, hmoved, h⟩ := bind_eq_ok h
  obtain ⟨hrefused, happlications⟩ := proposeMove_ok hrow hmoved
  obtain ⟨hrecord, hdb⟩ := Prod.mk.inj (Except.ok.inj h)
  subst hrecord hdb
  have hkept := stageAll_extends surroundings emit
    { lifecycle := moved.1
      communications := db.communications ++ [event.row surroundings key applicationId]
      commitments := db.commitments ++ event.commitmentRows surroundings key applicationId
      outbox := db.outbox }
  refine ⟨Extends.trans ?_ hkept, rfl, rfl, ?_, row, hrow, hrefused⟩
  · refine ⟨fun other found hfound => ?_, happlications, fun _ hstaged => hstaged⟩
    unfold getByDedupeKey at hfound ⊢
    rw [List.find?_append, hfound, Option.some_or]
  · refine hkept.communications key _ ?_
    unfold getByDedupeKey at hnew ⊢
    rw [List.find?_append, hnew, Option.none_or, List.find?_cons]
    have hkey : ((event.row surroundings key applicationId).dedupeKey == key) = true := beq_self_eq_true key
    rw [hkey]

/-- What is stored or answered does not depend on the outbox. -/
theorem write_sameRows {applicationId : UUID} {transition : Option ApplicationStatus}
    {emit : List EmittedEvent} {record : RecruiterEventRecord} (hsame : SameRows db db')
    (h : db.write surroundings key event applicationId transition emit = .ok (record, db'')) :
    ∃ after, db'.write surroundings key event applicationId transition emit = .ok (record, after) ∧
      SameRows db'' after := by
  obtain ⟨lifecycle, communications, commitments, outbox⟩ := db
  obtain ⟨lifecycle', communications', commitments', outbox'⟩ := db'
  obtain ⟨hlifecycle, hcommunications, hcommitments⟩ := hsame
  dsimp only at hlifecycle hcommunications hcommitments
  subst hlifecycle hcommunications hcommitments
  unfold write at h ⊢
  dsimp only at h ⊢
  split at h
  · cases h
  split at h
  · cases h
  rename_i hunique
  rw [if_neg hunique]
  obtain ⟨moved, hmoved, h⟩ := bind_eq_ok h
  rw [hmoved]
  obtain ⟨hrecord, hdb⟩ := Prod.mk.inj (Except.ok.inj h)
  subst hrecord hdb
  refine ⟨_, rfl, ?_⟩
  refine (stageAll_sameRows surroundings emit _).trans
    (SameRows.trans ?_ (stageAll_sameRows surroundings emit _).symm)
  exact ⟨rfl, rfl, rfl⟩

section record

variable {transition : Option ApplicationStatus} {emit : List EmittedEvent}
variable {record : RecruiterEventRecord} {applicationId : UUID}

/-- An event is stored, or was, and is answered for what it is. -/
theorem record_ok (h : db.record surroundings event transition emit = (.ok record, db')) :
    ∃ applicationId key, event.correlation.applicationId = some applicationId ∧
      event.dedupeKey surroundings.reading = .ok key ∧
      ((∃ existing, db.getByDedupeKey key = some existing ∧
          db.lifecycle.applications existing.applicationId ≠ none ∧ record.created = false ∧ db' = db) ∨
        (db.getByDedupeKey key = none ∧
          db.write surroundings key event applicationId transition emit = .ok (record, db'))) := by
  unfold RecruiterDb.record at h
  split at h
  · rename_i applicationId _ happlication
    split at h
    · cases (Prod.mk.inj h).1
    rename_i key hkey
    refine ⟨applicationId, key, happlication, hkey, ?_⟩
    split at h
    · rename_i existing hexisting
      obtain ⟨hrecord, rfl⟩ := Prod.mk.inj h
      left
      unfold duplicate at hrecord
      split at hrecord
      · cases hrecord
      rename_i row hrow
      obtain rfl := Except.ok.inj hrecord
      exact ⟨existing, hexisting, by simp [hrow], rfl, rfl⟩
    · rename_i hnew
      split at h
      · cases (Prod.mk.inj h).1
      · rename_i record' after hwrite
        obtain ⟨hrecord, rfl⟩ := Prod.mk.inj h
        obtain rfl := Except.ok.inj hrecord
        exact Or.inr ⟨hnew, hwrite⟩
  · cases (Prod.mk.inj h).1

theorem matched_of_application (h : event.correlation.applicationId = some applicationId) :
    event.correlation.outcome = .matched := by
  apply event.correlation.linked_only_when_matched.mpr
  rw [h]
  rfl

theorem record_of_stored {existing : CommunicationEventRow}
    (h : event.correlation.applicationId = some applicationId)
    (hkey : event.dedupeKey surroundings.reading = .ok key)
    (hstored : db.getByDedupeKey key = some existing) :
    db.record surroundings event transition emit = (db.duplicate existing, db) := by
  unfold RecruiterDb.record
  rw [matched_of_application h, h, hkey]
  dsimp only
  rw [hstored]

theorem record_of_new (h : event.correlation.applicationId = some applicationId)
    (hkey : event.dedupeKey surroundings.reading = .ok key) (hnew : db.getByDedupeKey key = none)
    (hwrite : db.write surroundings key event applicationId transition emit = .ok (record, db')) :
    db.record surroundings event transition emit = (.ok record, db') := by
  unfold RecruiterDb.record
  rw [matched_of_application h, h, hkey]
  dsimp only
  rw [hnew]
  dsimp only
  rw [hwrite]

/-- A message that is stored is not stored again. -/
theorem record_again {existing : CommunicationEventRow} (transition : Option ApplicationStatus)
    (emit : List EmittedEvent) (h : event.correlation.applicationId = some applicationId)
    (hkey : event.dedupeKey surroundings.reading = .ok key)
    (hstored : db.getByDedupeKey key = some existing)
    (hrow : db.lifecycle.applications existing.applicationId ≠ none) :
    ∃ record, db.record surroundings event transition emit = (.ok record, db) ∧
      record.created = false := by
  obtain ⟨row, hrow⟩ := Option.ne_none_iff_exists'.mp hrow
  rw [record_of_stored h hkey hstored]
  unfold duplicate
  rw [hrow]
  exact ⟨_, rfl, rfl⟩

theorem record_sameRows {after : RecruiterDb} (hsame : SameRows db db')
    (h : db.record surroundings event transition emit = (.ok record, after)) :
    ∃ after', db'.record surroundings event transition emit = (.ok record, after') ∧
      SameRows after after' := by
  obtain ⟨applicationId, key, happlication, hkey, hcases⟩ := record_ok h
  have hget : db'.getByDedupeKey key = db.getByDedupeKey key := by
    unfold getByDedupeKey
    rw [hsame.communications]
  rcases hcases with ⟨existing, hstored, -, -, rfl⟩ | ⟨hnew, hwrite⟩
  · refine ⟨db', ?_, hsame⟩
    rw [record_of_stored happlication hkey hstored] at h
    rw [record_of_stored happlication hkey (hget.trans hstored)]
    have hduplicate : db'.duplicate existing = after.duplicate existing := by
      unfold duplicate
      rw [hsame.lifecycle]
    rw [hduplicate, (Prod.mk.inj h).1]
  · obtain ⟨after', hwrite', hafter⟩ := write_sameRows hsame hwrite
    exact ⟨after', record_of_new happlication hkey (hget.trans hnew) hwrite', hafter⟩

theorem record_extends (event : RecruiterEvent) (transition : Option ApplicationStatus)
    (emit : List EmittedEvent) (db : RecruiterDb) :
    Extends db (db.record surroundings event transition emit).2 := by
  unfold RecruiterDb.record
  split
  · split
    · exact Extends.refl db
    · split
      · exact Extends.refl db
      · rename_i hnew
        split
        · exact Extends.refl db
        · rename_i record after hwrite
          exact (write_ok hnew hwrite).1
  · exact Extends.refl db

end record

end RecruiterDb

end PersonalOS
