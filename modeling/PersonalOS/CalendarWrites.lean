import PersonalOS.ProviderCalendar
import PersonalOS.AtMostOnce

/-! # Calendar writes

From a change of a plan to the event on the calendar.

* **Keys.** `calendarCreateKey` and `calendarUpdateKey` name one write, with times to the minute.
* **Intents.** `calendarIntent` is the proposal to make one write, which is approved.
* **Executor.** `CalendarActionExecutor` looks before each write.
* **Execution.** `executeWrite` is the tool executor run against the calendar: entering the provider
  call is what the calendar takes.

That a datetime is read back from its text in a payload is taken as given. -/

namespace PersonalOS

open Concurrent

/-! ### Times as text -/

/-- A number with at least so many digits. -/
def paddedNumber (width n : ℕ) : String :=
  String.ofList (List.replicate (width - (toString n).length) '0') ++ toString n

/-- The year, month and day of a number of days since 1970. -/
def civilDate (days : ℤ) : ℤ × ℕ × ℕ :=
  let shifted := days + 719468
  let era := shifted / 146097
  let dayOfEra := (shifted % 146097).toNat
  let yearOfEra := (dayOfEra - dayOfEra / 1460 + dayOfEra / 36524 - dayOfEra / 146096) / 365
  let dayOfYear := dayOfEra - (365 * yearOfEra + yearOfEra / 4 - yearOfEra / 100)
  let month := (5 * dayOfYear + 2) / 153
  let day := dayOfYear - (153 * month + 2) / 5 + 1
  let january := if month < 10 then month + 3 else month - 9
  (yearOfEra + era * 400 + if january ≤ 2 then 1 else 0, january, day)

def clockText (separator : String) (moment : Instant) : String :=
  let minute := (WorkingHours.time moment / minutes 1).toNat
  paddedNumber 2 (minute / 60) ++ separator ++ paddedNumber 2 (minute % 60)

/-- `strftime("%Y%m%dT%H%M")`. -/
def stamp (moment : Instant) : String :=
  let date := civilDate (WorkingHours.date moment)
  s!"{date.1}" ++ paddedNumber 2 date.2.1 ++ paddedNumber 2 date.2.2 ++ "T" ++ clockText "" moment

example : stamp (1443 * dayLength + hours 9 + minutes 5 + 59999999) = "19731214T0905" := by decide +kernel

/-- A time range as a reviewer reads it. -/
def whenText (startsAt endsAt : Instant) : String :=
  let date := civilDate (WorkingHours.date startsAt)
  let weekday := (["Thu", "Fri", "Sat", "Sun", "Mon", "Tue", "Wed"][
    (WorkingHours.date startsAt % 7).toNat]?).getD ""
  let month := (["Jan", "Feb", "Mar", "Apr", "May", "Jun", "Jul", "Aug", "Sep", "Oct", "Nov", "Dec"][
    date.2.1 - 1]?).getD ""
  let starts := clockText ":" startsAt
  let ends := clockText ":" endsAt
  s!"{weekday} {paddedNumber 2 date.2.2} {month} {date.1} {starts}-{ends} UTC"

/-! ### Intents -/

def first255 (text : String) : String := String.ofList (text.toList.take 255)

/-- Idempotency key for creating one logical event at one time. -/
def calendarCreateKey (change : ScheduleChange) : String :=
  first255 s!"cal-create:{change.logicalKey}:{stamp change.startsAt}"

/-- Idempotency key for moving one event from where it is to where it should be. -/
def calendarUpdateKey (change : ScheduleChange) : String :=
  let was := (change.etag.filter (· ≠ "")).getD (change.previousStartsAt.elim "" stamp)
  let event := change.eventId.getD "None"
  first255 s!"cal-update:{event}:{was}:{stamp change.startsAt}"

/-- The idempotency key of the write a change asks for. -/
def ScheduleChange.idempotencyKey (change : ScheduleChange) : String :=
  if change.op = .create then calendarCreateKey change else calendarUpdateKey change

/-- The payload of the proposal to make one calendar write. -/
structure CalendarPayload where
  applicationId : UUID
  logicalKey : String
  role : CalendarEventRole
  title : String
  startsAt : Instant
  endsAt : Instant
  subject : String
  properties : Option (List (String × String))
  body : String
  eventId : Option String
  previousStartsAt : Option Instant
  previousEndsAt : Option Instant
  previousBody : Option String
deriving DecidableEq, Repr

/-- What the graph that plans and the executor are wired to. -/
structure CalendarSurroundings where
  provider : CalendarProvider
  executor : ToolExecutor
  isoformat : Instant → String
  prepBlocks : List PrepBlockSpec
  workingHours : WorkingHours
  /-- The fresh id of the action under a key. -/
  actionId : String → UUID
  /-- The decision-log row of a policy verdict, and who approves. -/
  recordId : Option UUID
  decidedBy : String
  decidedAt : Time

section intent

variable (surroundings : CalendarSurroundings)

/-- `_calendar_intent`: the approval-gated proposal to make one calendar write of a plan. -/
def calendarIntent (applicationId : UUID) (change : ScheduleChange) : ActionIntent CalendarPayload :=
  let when := whenText change.startsAt change.endsAt
  let was := whenText (change.previousStartsAt.getD 0) (change.previousEndsAt.getD 0)
  let event := change.eventId.getD "None"
  if change.op = .create then
    { actionId := surroundings.actionId change.idempotencyKey
      kind := .createCalendarEvent
      target := s!"calendar: new event '{change.title}'"
      summary := s!"Add '{change.title}' to the calendar, {when}"
      payload :=
        { applicationId
          logicalKey := change.logicalKey
          role := change.role
          title := change.title
          startsAt := change.startsAt
          endsAt := change.endsAt
          subject := change.title
          properties := some (eventProperties applicationId change)
          body := s!"{change.title}\n{when}"
          eventId := none
          previousStartsAt := none
          previousEndsAt := none
          previousBody := none }
      idempotencyKey := change.idempotencyKey
      requestedBy := "graph:job_search#plan_interview_schedule" }
  else
    { actionId := surroundings.actionId change.idempotencyKey
      kind := .updateCalendarEvent
      target := s!"calendar: event {event} ('{change.title}')"
      summary := s!"Move '{change.title}' from {was} to {when}"
      payload :=
        { applicationId
          logicalKey := change.logicalKey
          role := change.role
          title := change.title
          startsAt := change.startsAt
          endsAt := change.endsAt
          subject := change.title
          properties := none
          body := s!"{change.title}\n{when}"
          eventId := change.eventId
          previousStartsAt := change.previousStartsAt
          previousEndsAt := change.previousEndsAt
          previousBody := some s!"{change.title}\n{was}" }
      idempotencyKey := change.idempotencyKey
      requestedBy := "graph:job_search#plan_interview_schedule" }

/-- The approval of exactly one intent. -/
def approvalOf [ActionPayload CalendarPayload] (intent : ActionIntent CalendarPayload) :
    ApprovalDecision where
  actionId := intent.actionId
  actionFingerprint := intent.fingerprint
  verdict := .approved
  decidedBy := surroundings.decidedBy
  decidedAt := surroundings.decidedAt
  note := none
  requestId := none

end intent

/-! ### The executor -/

namespace CalendarActionExecutor

variable (provider : CalendarProvider)

/-- The `JobSearchContractError` of a write that does not say what to do. -/
def contractError (message : String) : RaisedError := ⟨.other, message, message⟩

def receipt (intent : ActionIntent CalendarPayload) (event : CalendarEvent) (detail : String) :
    ActionReceipt where
  actionId := intent.actionId
  ok := true
  externalReference := some event.eventId
  detail := some detail

/-- The event an earlier attempt at this create left behind, if any. -/
def createdBy (intent : ActionIntent CalendarPayload) (calendar : Calendar) : Option CalendarEvent :=
  calendar.events.find? fun event =>
    event.properties.lookup propIdempotencyKey == some intent.idempotencyKey

def alreadyAt (intent : ActionIntent CalendarPayload) (event : CalendarEvent) : Bool :=
  (event.startsAt, event.endsAt) == (intent.payload.startsAt, intent.payload.endsAt)

def create (intent : ActionIntent CalendarPayload) (calendar : Calendar) :
    Except RaisedError ActionReceipt × Calendar :=
  match createdBy intent calendar with
  | some existing =>
      (.ok (receipt intent existing "already on the calendar; not created again"), calendar)
  | none =>
      let created := calendar.createEvent provider
        (if intent.payload.title = "" then intent.summary else intent.payload.title)
        intent.payload.startsAt intent.payload.endsAt
        (mergeProperties (intent.payload.properties.getD [])
          [(propIdempotencyKey, intent.idempotencyKey)])
      (.ok (receipt intent created.1 "created"), created.2)

def update (intent : ActionIntent CalendarPayload) (calendar : Calendar) :
    Except RaisedError ActionReceipt × Calendar :=
  match intent.payload.eventId.filter (· ≠ "") with
  | none => (.error (contractError
      s!"calendar update {intent.actionId} does not name the event it moves"), calendar)
  | some eventId =>
      match calendar.getEvent eventId with
      | none =>
          (.ok { actionId := intent.actionId, ok := false, externalReference := none
                 detail := some s!"calendar event {eventId} no longer exists; nothing was moved" },
            calendar)
      | some current =>
          if alreadyAt intent current then
            (.ok (receipt intent current "already at the requested time; not updated again"), calendar)
          else
            let moved := calendar.updateEvent provider eventId
              (if intent.payload.title = "" then current.title else intent.payload.title)
              intent.payload.startsAt intent.payload.endsAt
              [(propIdempotencyKey, intent.idempotencyKey)]
            (.ok (receipt intent current "moved"), moved)

/-- Create or move the event the intent describes, unless it is already so. -/
def execute (intent : ActionIntent CalendarPayload) (calendar : Calendar) :
    Except RaisedError ActionReceipt × Calendar :=
  match intent.kind with
  | .createCalendarEvent => create provider intent calendar
  | .updateCalendarEvent => update provider intent calendar
  | kind => (.error (contractError (s!"CalendarActionExecutor cannot execute '{kind.value}' and " ++
      "has no fallback executor")), calendar)

/-- `CalendarReconciler.reconcile`; `none` where it raises. -/
def reconcile (intent : ActionIntent CalendarPayload) (calendar : Calendar) : Option Reconciliation :=
  match intent.kind with
  | .createCalendarEvent =>
      match createdBy intent calendar with
      | none => some ⟨.notApplied, none⟩
      | some event => some ⟨.applied,
          some (receipt intent event "found on the calendar; not created again")⟩
  | .updateCalendarEvent =>
      (intent.payload.eventId.filter (· ≠ "")).map fun eventId =>
        match (calendar.getEvent eventId).filter (alreadyAt intent) with
        | some event => ⟨.applied,
            some (receipt intent event "found at the requested time; not updated again")⟩
        | none => ⟨.notApplied, none⟩
  | _ => some ⟨.indeterminate, none⟩

end CalendarActionExecutor

/-! ### Execution -/

/-- The calendar, and what it answered to the last call it took. -/
structure CalendarSide where
  calendar : Calendar
  answer : Except RaisedError ActionReceipt

namespace CalendarSide

variable (surroundings : CalendarSurroundings) (intent : ActionIntent CalendarPayload)

/-- What one step of the executor is told: every write needs an approval. -/
def env (side : CalendarSide) : Env where
  verdict := ⟨.requireApproval, surroundings.recordId⟩
  answer := side.answer
  reconciliation := CalendarActionExecutor.reconcile intent side.calendar

/-- A step that entered the provider call is a call the calendar takes. -/
def after (w w' : World) (side : CalendarSide) : CalendarSide :=
  if w'.calls.length = w.calls.length + 1 ∧ (w'.calls.head?.any (·.isEntry intent.idempotencyKey)) then
    let done := CalendarActionExecutor.execute surroundings.provider intent side.calendar
    ⟨done.2, done.1⟩
  else side

end CalendarSide

abbrev CalendarExecution := Prog Unit (World × CalendarSide) ExecuteError

/-- Execute one approved calendar write. -/
def executeIntent [ActionPayload CalendarPayload] (surroundings : CalendarSurroundings)
    (intent : ActionIntent CalendarPayload) : CalendarExecution ActionReceipt :=
  (surroundings.executor.execute intent (some (approvalOf surroundings intent))).against
    (CalendarSide.env surroundings intent) (CalendarSide.after surroundings intent)

/-- Execute the writes of a plan, one after another. -/
def executeWrites [ActionPayload CalendarPayload] (surroundings : CalendarSurroundings)
    (applicationId : UUID) : List ScheduleChange → CalendarExecution (List ActionReceipt)
  | [] => return []
  | change :: changes => do
      let receipt ← executeIntent surroundings (calendarIntent surroundings applicationId change)
      let receipts ← executeWrites surroundings applicationId changes
      return receipt :: receipts

end PersonalOS
