import PersonalOS.ExecutionLedger
import PersonalOS.Pool
import Mathlib.Data.List.Nodup

/-! # The application lifecycle

Which moves between application statuses are legal, and the one statement that makes one.

* **Rules.** `allowedApplicationTransitions` reads the lifecycle table; a holding status has no
  row of its own, so what may follow it depends on the status it was entered from.
* **Rows.** An application, the append-only `EventLog` with its unique ids, and the status view.
  The log holds the moves, and what the board records of an application besides.
* **Programs.** `updateStatus` reads the application in one step and writes in a later one: the
  row lock that its guarded `UPDATE` takes is held until the commit, so that the `UPDATE`, the
  event, the view and the commit are one atomic step, which changes everything or nothing.  What
  the board appends is one transaction too.
* **State.** Next to the tables stands what no column keeps: the row each process of type `τ`
  last validated a move against.

An event's statuses are kept as such: the redactor acts on the free texts of the payload.  The
job, the documents and the notes of an application are left out. -/

namespace PersonalOS

open Concurrent

/-- Lifecycle of a tracked job application. -/
inductive ApplicationStatus where
  | discovered
  | saved
  | preparing
  | readyToApply
  | applied
  | response
  | interviewing
  | offer
  | accepted
  | declined
  | rejected
  | withdrawn
  | skipped
  | followUpPending
  | stalled
deriving DecidableEq, Repr

def ApplicationStatus.value : ApplicationStatus → String
  | discovered => "discovered"
  | saved => "saved"
  | preparing => "preparing"
  | readyToApply => "ready_to_apply"
  | applied => "applied"
  | response => "response"
  | interviewing => "interviewing"
  | offer => "offer"
  | accepted => "accepted"
  | declined => "declined"
  | rejected => "rejected"
  | withdrawn => "withdrawn"
  | skipped => "skipped"
  | followUpPending => "follow_up_pending"
  | stalled => "stalled"

/-- `ALLOWED_APPLICATION_TRANSITIONS`.  The two holding states have no row of their own. -/
def ApplicationStatus.successors : ApplicationStatus → List ApplicationStatus
  | .discovered => [.saved, .skipped]
  | .saved => [.preparing, .skipped, .stalled]
  | .preparing => [.readyToApply, .skipped, .stalled]
  | .readyToApply => [.applied, .skipped, .stalled]
  | .applied => [.response, .interviewing, .rejected, .withdrawn, .followUpPending, .stalled]
  | .response => [.interviewing, .rejected, .withdrawn, .followUpPending, .stalled]
  | .interviewing => [.offer, .rejected, .withdrawn, .followUpPending, .stalled]
  | .offer => [.accepted, .declined, .withdrawn, .stalled]
  | .accepted | .declined | .rejected | .withdrawn | .skipped => []
  | .followUpPending | .stalled => []

def holdingApplicationStatuses : List ApplicationStatus := [.followUpPending, .stalled]

/-- An application is parked in this status rather than progressing through it. -/
def ApplicationStatus.holding (status : ApplicationStatus) : Bool :=
  holdingApplicationStatuses.contains status

/-- Every status reachable from `current` in one step. -/
def allowedApplicationTransitions (current : ApplicationStatus)
    (resumeStatus : Option ApplicationStatus) : List ApplicationStatus :=
  if !current.holding then current.successors
  else
    match resumeStatus with
    | none => []
    | some resume =>
        if resume.holding then []
        else (resume :: resume.successors).filter (· != current)

/-- What the lifecycle raises. -/
inductive LifecycleError where
  /-- The `ValueError` of a missing application. -/
  | notFound (message : String)
  | invalidApplicationTransition (message : String) (allowedNextStates : List ApplicationStatus)
  | applicationTransitionConflict (message : String)
  /-- A unique violation, here of an event's id. -/
  | integrity
  /-- The transaction was rolled back by its caller or by the database. -/
  | aborted
deriving DecidableEq, Repr

/-- Check that `current → new` is an allowed step on the application lifecycle. -/
def validateApplicationStatusTransition (current new : ApplicationStatus)
    (resumeStatus : Option ApplicationStatus) : Except LifecycleError ApplicationStatus :=
  let allowed := allowedApplicationTransitions current resumeStatus
  if allowed.contains new then .ok new
  else
    .error (.invalidApplicationTransition
      s!"cannot transition application from '{current.value}' to '{new.value}'"
      (allowed.mergeSort fun a b => decide (a.value ≤ b.value)))

/-- The `resume_status` an application carries once `current → new` is applied. -/
def resumeStatusAfter (current new : ApplicationStatus) (resumeStatus : Option ApplicationStatus) :
    Option ApplicationStatus :=
  if !new.holding then none
  else if current.holding then resumeStatus
  else some current

theorem validateApplicationStatusTransition_ok {current new status : ApplicationStatus}
    {resumeStatus : Option ApplicationStatus}
    (h : validateApplicationStatusTransition current new resumeStatus = .ok status) :
    new ∈ allowedApplicationTransitions current resumeStatus := by
  unfold validateApplicationStatusTransition at h
  dsimp only at h
  split at h
  · rename_i hmem
    exact List.contains_iff_mem.mp hmem
  · cases h

/-- No move leads where the application already is. -/
theorem ne_of_allowed {current new : ApplicationStatus} {resumeStatus : Option ApplicationStatus}
    (h : new ∈ allowedApplicationTransitions current resumeStatus) : new ≠ current := by
  unfold allowedApplicationTransitions at h
  split at h
  · rintro rfl
    cases new <;> simp [ApplicationStatus.successors] at h
  · cases resumeStatus with
    | none => cases h
    | some resume =>
        dsimp only at h
        split at h
        · cases h
        · simpa using (List.mem_filter.mp h).2

/-! ### The tables -/

/-- One `applications` row: what the lifecycle reads and writes of it. -/
structure ApplicationRow where
  status : ApplicationStatus
  resumeStatus : Option ApplicationStatus
  appliedAt : Option Time
  lastActivityAt : Option Time
  updatedAt : Time
deriving DecidableEq, Repr

namespace ApplicationRow

/-- The row of an application that was just created. -/
def create (now : Time) : ApplicationRow where
  status := .discovered
  resumeStatus := none
  appliedAt := none
  lastActivityAt := some now
  updatedAt := now

/-- The guard of the `UPDATE`; a comparison with `NULL` is not true. -/
def guarded (current : ApplicationStatus) (quietSince : Option Time) (row : ApplicationRow) : Bool :=
  row.status == current &&
    quietSince.elim true fun quietSince =>
      row.lastActivityAt.elim false fun lastActivityAt => decide (lastActivityAt ≤ quietSince)

/-- The values of the `UPDATE`, for a call that has read `seen`. -/
def moved (row seen : ApplicationRow) (newStatus : ApplicationStatus) (now : Time) : ApplicationRow where
  status := newStatus
  resumeStatus := resumeStatusAfter seen.status newStatus seen.resumeStatus
  -- Resuming a held application back to APPLIED does not re-date when it was applied to.
  appliedAt := if newStatus = .applied ∧ seen.appliedAt = none then some now else row.appliedAt
  -- Stalling is the absence of activity, not an instance of it.
  lastActivityAt := if newStatus ≠ .stalled then some now else row.lastActivityAt
  updatedAt := now

theorem status_of_guarded {current : ApplicationStatus} {quietSince : Option Time}
    {row : ApplicationRow} (h : row.guarded current quietSince = true) : row.status = current := by
  unfold guarded at h
  exact beq_iff_eq.mp (Bool.and_eq_true_iff.mp h).1

end ApplicationRow

/-- An `application.status_changed` row of `event_log`. -/
structure LifecycleEvent where
  id : UUID
  aggregateId : UUID
  source : ApplicationStatus
  target : ApplicationStatus
  resumeStatus : Option ApplicationStatus
  actor : String
  reason : Option String
  occurredAt : Time
deriving DecidableEq, Repr

/-- What the board records of an application. -/
inductive BoardRecordKind where
  | matchRecorded
  | transitionRequested
deriving DecidableEq, Repr

def BoardRecordKind.eventType : BoardRecordKind → String
  | matchRecorded => "application.match_recorded"
  | transitionRequested => "application.transition_requested"

/-- A row of `event_log` that the board appends. -/
structure BoardRecord where
  id : UUID
  aggregateId : UUID
  kind : BoardRecordKind
  payload : String
  occurredAt : Time
deriving DecidableEq, Repr

/-- A row of `event_log`. -/
inductive LoggedEvent where
  | moved (event : LifecycleEvent)
  | recorded (record : BoardRecord)
deriving DecidableEq, Repr

namespace LoggedEvent

def id : LoggedEvent → UUID
  | moved event => event.id
  | recorded record => record.id

def aggregateId : LoggedEvent → UUID
  | moved event => event.aggregateId
  | recorded record => record.aggregateId

def occurredAt : LoggedEvent → Time
  | moved event => event.occurredAt
  | recorded record => record.occurredAt

/-- The move that the row records. -/
def move? : LoggedEvent → Option LifecycleEvent
  | moved event => some event
  | recorded _ => none

end LoggedEvent

/-- The durable event history, in commit order. -/
structure EventLog where
  events : List LoggedEvent
  ids_nodup : (events.map (·.id)).Nodup

namespace EventLog

def empty : EventLog := ⟨[], List.nodup_nil⟩

/-- Append an event, unless its id is taken. -/
def append (event : LoggedEvent) (log : EventLog) : Option EventLog :=
  if h : ∀ e ∈ log.events, e.id ≠ event.id then
    some
      { events := log.events ++ [event]
        ids_nodup := by
          rw [List.map_append]
          refine log.ids_nodup.append (List.nodup_singleton _) ?_
          simpa using h }
  else none

/-- All rows of one application, in commit order. -/
def ofAggregate (aggregateId : UUID) (log : EventLog) : List LoggedEvent :=
  log.events.filter (·.aggregateId == aggregateId)

/-- The moves of one application, in commit order. -/
def ofApplication (applicationId : UUID) (log : EventLog) : List LifecycleEvent :=
  (log.ofAggregate applicationId).filterMap LoggedEvent.move?

theorem append_eq_some {event : LoggedEvent} {log log' : EventLog}
    (h : log.append event = some log') : log'.events = log.events ++ [event] := by
  unfold append at h
  split at h
  · obtain rfl := Option.some.inj h
    rfl
  · cases h

theorem ofAggregate_append_self {event : LoggedEvent} {log log' : EventLog}
    (h : log.append event = some log') : log'.ofAggregate event.aggregateId =
      log.ofAggregate event.aggregateId ++ [event] := by
  unfold ofAggregate
  rw [append_eq_some h, List.filter_append]
  simp

theorem ofAggregate_append_ne {event : LoggedEvent} {log log' : EventLog}
    (h : log.append event = some log') {aggregateId : UUID} (hne : aggregateId ≠ event.aggregateId) :
    log'.ofAggregate aggregateId = log.ofAggregate aggregateId := by
  unfold ofAggregate
  rw [append_eq_some h, List.filter_append]
  simp [Ne.symm hne]

theorem ofApplication_append_self {event : LifecycleEvent} {log log' : EventLog}
    (h : log.append (.moved event) = some log') : log'.ofApplication event.aggregateId =
      log.ofApplication event.aggregateId ++ [event] := by
  have hrows : log'.ofAggregate event.aggregateId =
      log.ofAggregate event.aggregateId ++ [.moved event] := ofAggregate_append_self h
  rw [ofApplication, hrows, List.filterMap_append]
  rfl

theorem ofApplication_append_ne {event : LifecycleEvent} {log log' : EventLog}
    (h : log.append (.moved event) = some log') {applicationId : UUID}
    (hne : applicationId ≠ event.aggregateId) :
    log'.ofApplication applicationId = log.ofApplication applicationId := by
  rw [ofApplication, ofAggregate_append_ne h hne]
  rfl

/-- What the board records is no move. -/
theorem ofApplication_append_recorded {record : BoardRecord} {log log' : EventLog}
    (h : log.append (.recorded record) = some log') (applicationId : UUID) :
    log'.ofApplication applicationId = log.ofApplication applicationId := by
  by_cases hid : applicationId = record.aggregateId
  · have hrows : log'.ofAggregate record.aggregateId =
        log.ofAggregate record.aggregateId ++ [.recorded record] := ofAggregate_append_self h
    rw [hid, ofApplication, hrows, List.filterMap_append]
    exact List.append_nil _
  · rw [ofApplication, ofAggregate_append_ne h hid]
    rfl

end EventLog

/-- One row of `application_status_view`. -/
structure StatusView where
  status : ApplicationStatus
  lastEventId : Option UUID
deriving DecidableEq, Repr

/-- The database, and the row each process last read to validate a move against. -/
structure LifecycleDb (τ : Type) where
  applications : UUID → Option ApplicationRow
  eventLog : EventLog
  statusView : UUID → Option StatusView
  seen : τ → Option ApplicationRow

/-- Where an application is on its lifecycle. -/
structure ApplicationLifecycleState where
  applicationId : UUID
  status : ApplicationStatus
  resumeStatus : Option ApplicationStatus
  lastActivityAt : Time
  lastEventId : Option UUID
deriving DecidableEq, Repr

/-- The arguments of one `update_status` call. -/
structure StatusMove where
  applicationId : UUID
  newStatus : ApplicationStatus
  reason : Option String
  actor : String
  now : Option Time
  quietSince : Option Time
deriving DecidableEq, Repr

/-- What the surroundings answer at one step. -/
structure LifecycleInput where
  clock : Time
  /-- A fresh `uuid4`. -/
  eventId : UUID
  /-- Whether the transaction commits. -/
  commits : Bool
deriving DecidableEq, Repr

/-- The event of a move from the row `seen`. -/
def StatusMove.event (redactText : RedactText) (eventId : UUID) (seen : ApplicationRow) (now : Time)
    (move : StatusMove) : LifecycleEvent where
  id := eventId
  aggregateId := move.applicationId
  source := seen.status
  target := move.newStatus
  resumeStatus := resumeStatusAfter seen.status move.newStatus seen.resumeStatus
  actor := redactText move.actor
  reason := move.reason.map redactText
  occurredAt := now

namespace LifecycleDb

variable {τ : Type}

/-- The application as process `t` reads it. -/
def see [DecidableEq τ] (t : τ) (applicationId : UUID) (db : LifecycleDb τ) :
    Option ApplicationRow × LifecycleDb τ :=
  (db.applications applicationId,
    { db with seen := Function.update db.seen t (db.applications applicationId) })

/-- The three writes of a move, in a transaction that commits. -/
def record (event : LifecycleEvent) (log : EventLog) (row : ApplicationRow) (db : LifecycleDb τ) :
    LifecycleDb τ :=
  { db with
    applications := Function.update db.applications event.aggregateId (some row)
    eventLog := log
    statusView := Function.update db.statusView event.aggregateId
      (some { status := event.target, lastEventId := some event.id }) }

/-- The transaction of a move that was validated against `seen`. -/
def writeMove (redactText : RedactText) (move : StatusMove) (seen : ApplicationRow) (now : Time)
    (i : LifecycleInput) (db : LifecycleDb τ) : Except LifecycleError Unit × LifecycleDb τ :=
  match (db.applications move.applicationId).filter (·.guarded seen.status move.quietSince) with
  | none =>
      (.error (.applicationTransitionConflict (s!"application {move.applicationId} changed while " ++
        s!"moving it from '{seen.status.value}' to '{move.newStatus.value}'")), db)
  | some row =>
      match db.eventLog.append (.moved (move.event redactText i.eventId seen now)) with
      | none => (.error .integrity, db)
      | some log =>
          if i.commits then
            (.ok (), db.record (move.event redactText i.eventId seen now) log
              (row.moved seen move.newStatus now))
          else (.error .aborted, db)

/-- The guarded bump of `last_activity_at`: whether it updated a row. -/
def bump (applicationId : UUID) (status : ApplicationStatus) (now : Time) (db : LifecycleDb τ) :
    Bool × LifecycleDb τ :=
  match (db.applications applicationId).filter (·.status == status) with
  | none => (false, db)
  | some row =>
      (true, { db with
        applications := Function.update db.applications applicationId
          (some { row with lastActivityAt := some now }) })

/-- The transaction of what the board records of an application. -/
def recordOnBoard (redactText : RedactText) (applicationId : UUID) (kind : BoardRecordKind)
    (payload : String) (now : Option Time) (i : LifecycleInput) (db : LifecycleDb τ) :
    Except LifecycleError UUID × LifecycleDb τ :=
  match db.applications applicationId with
  | none => (.error (.notFound s!"Application {applicationId} not found"), db)
  | some _ =>
      match db.eventLog.append (.recorded
        { id := i.eventId, aggregateId := applicationId, kind, payload := redactText payload,
          occurredAt := now.getD i.clock }) with
      | none => (.error .integrity, db)
      | some log =>
          if i.commits then (.ok i.eventId, { db with eventLog := log }) else (.error .aborted, db)

/-- Where one application is, or `none` if it does not exist. -/
def stateOf (applicationId : UUID) (db : LifecycleDb τ) : Option ApplicationLifecycleState :=
  (db.applications applicationId).map fun row =>
    { applicationId
      status := row.status
      resumeStatus := row.resumeStatus
      lastActivityAt := row.lastActivityAt.getD row.updatedAt
      lastEventId := (db.statusView applicationId).bind (·.lastEventId) }

/-- A database in which these applications were created, each at its time, and nothing else. -/
def created (applications : UUID → Option Time) : LifecycleDb τ where
  applications applicationId := (applications applicationId).map ApplicationRow.create
  eventLog := EventLog.empty
  statusView _ := none
  seen _ := none

end LifecycleDb

/-! ### The programs -/

abbrev LifecycleProgram (τ : Type) := Prog LifecycleInput (LifecycleDb τ) LifecycleError

namespace ApplicationLifecycleStore

open Concurrent.Prog (act read raise input)

variable {τ : Type} [DecidableEq τ] (redactText : RedactText) (t : τ)

omit [DecidableEq τ] in
/-- `now or self.clock()`. -/
def nowOr (now : Option Time) : LifecycleProgram τ Time :=
  match now with
  | some now => return now
  | none => input (·.clock)

/-- `ApplicationRepository.update_status`: move an application, and record that it moved. -/
def updateStatus (move : StatusMove) : LifecycleProgram τ Unit := do
  match ← act fun _ db => db.see t move.applicationId with
  | none => raise (.notFound s!"Application {move.applicationId} not found")
  | some seen =>
      match validateApplicationStatusTransition seen.status move.newStatus seen.resumeStatus with
      | .error e => raise e
      | .ok _ =>
          let now ← nowOr move.now
          match ← act fun i db => db.writeMove redactText move seen now i with
          | .error e => raise e
          | .ok _ => return

omit [DecidableEq τ] in
def get (applicationId : UUID) : LifecycleProgram τ (Option ApplicationLifecycleState) :=
  read fun db => db.stateOf applicationId

/-- Move an application to `new_status`. -/
def transition (applicationId : UUID) (newStatus : ApplicationStatus) (reason : Option String)
    (actor : String) (now : Option Time) : LifecycleProgram τ ApplicationLifecycleState := do
  let now ← nowOr now
  updateStatus redactText t
    { applicationId, newStatus, reason, actor, now := some now, quietSince := none }
  match ← get applicationId with
  | some state => return state
  | none => raise (.notFound s!"Application {applicationId} not found")

/-- Note that something happened on an application, in so many passes. -/
def recordActivityIn (applicationId : UUID) (reason : Option String) (now : Time) :
    ℕ → LifecycleProgram τ ApplicationLifecycleState
  | 0 => raise (.applicationTransitionConflict
      s!"application {applicationId} kept changing while recording activity on it")
  | passes + 1 => do
      match ← get applicationId with
      | none => raise (.notFound s!"Application {applicationId} not found")
      | some state =>
          match (if state.status = .stalled then state.resumeStatus else none) with
          | some resume =>
              match ← (transition redactText t applicationId resume
                (some ((reason.filter (· ≠ "")).getD "activity resumed")) "system" (some now)).attempt with
              | .ok state => return state
              | .error (.applicationTransitionConflict _) =>
                  recordActivityIn applicationId reason now passes
              | .error e => raise e
          | none =>
              if ← act fun _ db => db.bump applicationId state.status now then
                return { state with lastActivityAt := now }
              else recordActivityIn applicationId reason now passes

/-- Note that something happened on an application, restarting its stall window. -/
def recordActivity (applicationId : UUID) (reason : Option String) (now : Option Time) :
    LifecycleProgram τ ApplicationLifecycleState := do
  recordActivityIn redactText t applicationId reason (← nowOr now) 2

def stallMonitorActor : String := "stall_monitor"

/-- Move one application to STALLED if it is still quiet: whether it moved. -/
def markStalled (applicationId : UUID) (quietSince : Time) (now : Option Time) :
    LifecycleProgram τ Bool := do
  let now ← nowOr now
  match ← (updateStatus redactText t
    { applicationId, newStatus := .stalled, reason := some s!"no activity since {quietSince}",
      actor := stallMonitorActor, now := some now, quietSince := some quietSince }).attempt with
  | .ok _ => return true
  | .error (.applicationTransitionConflict _) => return false
  | .error (.invalidApplicationTransition _ _) => return false
  | .error e => raise e

end ApplicationLifecycleStore

namespace ApplicationBoardStore

open Concurrent.Prog (act raise)

variable {τ : Type} (redactText : RedactText)

/-- `_append`. -/
def append (applicationId : UUID) (kind : BoardRecordKind) (payload : String) (now : Option Time) :
    LifecycleProgram τ UUID := do
  match ← act fun i db => db.recordOnBoard redactText applicationId kind payload now i with
  | .error e => raise e
  | .ok eventId => return eventId

/-- Append the scored match for an application. -/
def recordMatch (applicationId : UUID) (payload : String) (now : Option Time) :
    LifecycleProgram τ UUID :=
  append redactText applicationId .matchRecorded payload now

/-- Append the fact that a transition with an external effect was asked for. -/
def recordTransitionRequest (applicationId : UUID) (payload : String) (requestedAt : Time) :
    LifecycleProgram τ UUID :=
  append redactText applicationId .transitionRequested payload (some requestedAt)

end ApplicationBoardStore

/-- What one actor does to an application. -/
inductive LifecycleTask where
  | updateStatus (move : StatusMove)
  | transition (applicationId : UUID) (newStatus : ApplicationStatus) (reason : Option String)
      (actor : String) (now : Option Time)
  | recordActivity (applicationId : UUID) (reason : Option String) (now : Option Time)
  | markStalled (applicationId : UUID) (quietSince : Time) (now : Option Time)
  | recordMatch (applicationId : UUID) (payload : String) (now : Option Time)
  | recordTransitionRequest (applicationId : UUID) (payload : String) (requestedAt : Time)
deriving DecidableEq, Repr

/-- What the actor is told. -/
inductive LifecycleAnswer where
  | done
  | recorded (eventId : UUID)
  | state (state : ApplicationLifecycleState)
  | moved (moved : Bool)
deriving DecidableEq, Repr

section pool

open ApplicationLifecycleStore

variable {τ : Type} [DecidableEq τ]

def LifecycleTask.program (redactText : RedactText) (t : τ) :
    LifecycleTask → LifecycleProgram τ LifecycleAnswer
  | updateStatus move => do
      ApplicationLifecycleStore.updateStatus redactText t move
      return .done
  | transition applicationId newStatus reason actor now => do
      return .state (← ApplicationLifecycleStore.transition redactText t applicationId newStatus
        reason actor now)
  | recordActivity applicationId reason now => do
      return .state (← ApplicationLifecycleStore.recordActivity redactText t applicationId reason now)
  | markStalled applicationId quietSince now => do
      return .moved (← ApplicationLifecycleStore.markStalled redactText t applicationId quietSince now)
  | recordMatch applicationId payload now => do
      return .recorded (← ApplicationBoardStore.recordMatch redactText applicationId payload now)
  | recordTransitionRequest applicationId payload requestedAt => do
      return .recorded (← ApplicationBoardStore.recordTransitionRequest redactText applicationId
        payload requestedAt)

/-- Any number of actors on the applications of a database. -/
def lifecyclePool (redactText : RedactText) (tasks : τ → LifecycleTask)
    (applications : UUID → Option Time) :
    Pool τ LifecycleInput (LifecycleDb τ) LifecycleError LifecycleAnswer where
  procs t := (tasks t).program redactText t
  state := LifecycleDb.created applications

end pool

end PersonalOS
