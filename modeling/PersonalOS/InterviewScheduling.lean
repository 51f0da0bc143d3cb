import PersonalOS.Identifiers
import PersonalOS.RecruiterEvents
import Mathlib.Data.Prod.Lex
import Mathlib.Data.List.MinMax

/-! # Interview scheduling

What goes on the calendar for an interview, and where.

* **Calendar.** An event of ours carries the application and its logical key in its private
  properties; the ids of a `Calendar` are distinct.
* **Placement.** `latestFreeSlot` walks back from the latest end, past whatever is in the way.
* **Plan.** `planInterviewSchedule` reports for each logical event whether to create it, move it
  or leave it, and what could not be placed.

A datetime is a number of microseconds since a midnight, and the sums that would leave the range
of datetimes raise there and not here.  How a datetime is written is taken as given. -/

namespace PersonalOS

def propApplicationId : String := "personalos_application_id"
def propKey : String := "personalos_key"
def propRole : String := "personalos_role"
def propInterviewKey : String := "personalos_interview_key"

def minutes (n : ℤ) : Instant := 60000000 * n
def hours (n : ℤ) : Instant := minutes (60 * n)

def dayLength : Instant := 86400000000

/-- `DEFAULT_INTERVIEW_DURATION`. -/
def defaultInterviewDuration : Instant := hours 1

/-- Bound on the slot search. -/
def maxPlacementSteps : ℕ := 500

inductive CalendarEventRole where
  | interview
  | prep
deriving DecidableEq, Repr

def CalendarEventRole.value : CalendarEventRole → String
  | interview => "interview"
  | prep => "prep"

/-- One event as the calendar reports it. -/
structure CalendarEvent where
  eventId : String
  title : String
  startsAt : Instant
  endsAt : Instant
  properties : List (String × String)
  busy : Bool
  etag : Option String
deriving DecidableEq, Repr

namespace CalendarEvent

def applicationId (event : CalendarEvent) : Option String := event.properties.lookup propApplicationId

def logicalKey (event : CalendarEvent) : Option String := event.properties.lookup propKey

/-- An event of ours for this application: one with a logical key. -/
def isOwn (application : String) (event : CalendarEvent) : Bool :=
  event.applicationId == some application && event.logicalKey.any (· ≠ "")

end CalendarEvent

/-- An interview at a known time. -/
structure InterviewRequest where
  applicationId : UUID
  startsAt : Instant
  duration : Instant
  title : String
  sourceMessageId : Option String
deriving DecidableEq, Repr

def InterviewRequest.endsAt (request : InterviewRequest) : Instant := request.startsAt + request.duration

/-! ### The interview an invite asks for -/

/-- How a stated time ranks: the confidence, turned around, and then the time. -/
def StatedRank := ℚ ×ₗ ℤ

-- spelled out, for there is an order on the integers that cannot be computed with
instance : LinearOrder StatedRank :=
  @Prod.Lex.instLinearOrder ℚ ℤ Rat.linearOrder Int.instLinearOrder

def statedRank (stated : ℚ × Instant) : StatedRank := toLex (-stated.1, stated.2)

/-- The interview's start time, if one of the commitments states it: the most confident, then the
earliest. -/
def interviewTimeFrom (reading : MessageReading) (commitments : List Commitment) : Option Instant :=
  let stated := commitments.filterMap fun commitment =>
    if reading.statesInterview commitment.action then
      commitment.dueAt.map fun dueAt => (commitment.confidence, dueAt)
    else none
  (stated.argmin statedRank).map (·.2)

/-- The interview an invite asks for, or `none` when it names no time. -/
def interviewRequestFrom (reading : MessageReading) (invite : InterviewInviteReceived) :
    Option InterviewRequest :=
  (interviewTimeFrom reading invite.commitments).map fun startsAt =>
    let subject := strip (invite.subject.getD "")
    let title := if subject = "" then "Interview" else s!"Interview: {subject}"
    { applicationId := invite.applicationId
      startsAt
      duration := defaultInterviewDuration
      title := String.ofList (title.toList.take 200)
      sourceMessageId := some invite.sourceMessageId }

/-! ### Working hours -/

/-- The part of the day a prep block may be placed in. -/
structure WorkingHours where
  startTime : Instant
  endTime : Instant
  utcOffset : Instant
  start_nonneg : 0 ≤ startTime
  start_before_end : startTime < endTime
  end_within_day : endTime < dayLength

namespace WorkingHours

/-- `datetime.date`, as a number of days. -/
def date (moment : Instant) : ℤ := moment / dayLength

/-- `datetime.time`. -/
def time (moment : Instant) : Instant := moment % dayLength

/-- `datetime.combine`. -/
def combine (day : ℤ) (time : Instant) : Instant := day * dayLength + time

def length (hours : WorkingHours) : Instant := hours.endTime - hours.startTime

/-- The block lies within the working hours of one day. -/
def contains (startsAt endsAt : Instant) (hours : WorkingHours) : Bool :=
  let localStart := startsAt + hours.utcOffset
  let localEnd := endsAt + hours.utcOffset
  date localStart == date localEnd && decide (hours.startTime ≤ time localStart)
    && decide (localStart ≤ localEnd) && decide (localEnd ≤ combine (date localEnd) hours.endTime)

/-- The latest moment at or before `endsAt` a block of `duration` can end at. -/
def latestEnd (endsAt duration : Instant) (hours : WorkingHours) : Instant :=
  let moment := endsAt + hours.utcOffset
  let dayEnd := combine (date moment) hours.endTime
  let moment := if dayEnd < moment then dayEnd else moment
  let moment :=
    if moment - duration < combine (date moment) hours.startTime then
      combine (date moment - 1) hours.endTime
    else moment
  moment - hours.utcOffset

/-- From eight to twenty, in UTC. -/
def standard : WorkingHours where
  startTime := hours 8
  endTime := hours 20
  utcOffset := 0
  start_nonneg := by decide
  start_before_end := by decide
  end_within_day := by decide

theorem latestEnd_le (endsAt duration : Instant) (hours : WorkingHours) :
    hours.latestEnd endsAt duration ≤ endsAt := by
  have hend := hours.end_within_day
  unfold latestEnd combine date dayLength at *
  unfold Instant at *
  dsimp only
  split
  · split
    · omega
    · omega
  · split
    · omega
    · omega

theorem contains_latestEnd {endsAt duration : Instant} {hours : WorkingHours} (h0 : 0 ≤ duration)
    (hlength : duration ≤ hours.length) :
    hours.contains (hours.latestEnd endsAt duration - duration) (hours.latestEnd endsAt duration) =
      true := by
  obtain ⟨startTime, endTime, utcOffset, hstart, hbefore, hend⟩ := hours
  have hcases : ∃ day : ℤ, ∃ moment : Instant,
      latestEnd endsAt duration ⟨startTime, endTime, utcOffset, hstart, hbefore, hend⟩ =
        moment - utcOffset ∧
      day * dayLength + startTime ≤ moment - duration ∧ moment ≤ day * dayLength + endTime := by
    unfold length at hlength
    unfold latestEnd combine
    dsimp only at *
    unfold Instant at *
    split
    · split
      · refine ⟨date (date (endsAt + utcOffset) * dayLength + endTime) - 1, _, rfl, ?_, ?_⟩
        · omega
        · omega
      · rename_i h
        refine ⟨_, _, rfl, Int.not_lt.mp h, ?_⟩
        unfold date dayLength at *
        unfold Instant at *
        omega
    · split
      · refine ⟨date (endsAt + utcOffset) - 1, _, rfl, ?_, ?_⟩
        · omega
        · omega
      · rename_i hle h
        exact ⟨_, _, rfl, Int.not_lt.mp h, Int.not_lt.mp hle⟩
  obtain ⟨day, moment, hlatest, hfrom, hto⟩ := hcases
  rw [hlatest]
  unfold contains combine date time dayLength at *
  unfold Instant at *
  simp only [Bool.and_eq_true, beq_iff_eq, decide_eq_true_eq]
  refine ⟨⟨⟨?_, ?_⟩, ?_⟩, ?_⟩
  · omega
  · omega
  · omega
  · omega

end WorkingHours

/-! ### The plan -/

/-- One kind of prep block: how long, and where before the interview it may sit. -/
structure PrepBlockSpec where
  slot : String
  title : String
  duration : Instant
  /-- The block must end at least this long before the interview starts. -/
  lead : Instant
  /-- The block may start no earlier than this long before the interview. -/
  horizon : Instant
  workingHoursOnly : Bool
deriving DecidableEq, Repr

/-- `DEFAULT_PREP_BLOCKS`: a long block the day before, and a short one right before the
interview. -/
def defaultPrepBlocks : List PrepBlockSpec :=
  [{ slot := "deep_prep", title := "Interview prep", duration := minutes 90, lead := hours 12,
     horizon := hours 72, workingHoursOnly := true },
   { slot := "warm_up", title := "Interview warm-up", duration := minutes 30, lead := minutes 15,
     horizon := hours 2, workingHoursOnly := false }]

inductive ScheduleOp where
  | create
  | update
  /-- Already on the calendar where it should be. -/
  | keep
deriving DecidableEq, Repr

/-- One logical event of the schedule, and what the calendar needs for it. -/
structure ScheduleChange where
  op : ScheduleOp
  logicalKey : String
  role : CalendarEventRole
  title : String
  startsAt : Instant
  endsAt : Instant
  eventId : Option String
  etag : Option String
  previousStartsAt : Option Instant
  previousEndsAt : Option Instant
deriving DecidableEq, Repr

def ScheduleChange.slot (change : ScheduleChange) : Instant × Instant := (change.startsAt, change.endsAt)

inductive ConflictKind where
  | interviewOverlap
  | prepUnplaceable
  | interviewInPast
deriving DecidableEq, Repr

structure ScheduleConflict where
  kind : ConflictKind
  logicalKey : String
  detail : String
  eventId : Option String
deriving DecidableEq, Repr

/-- The interview and its prep blocks, reconciled against the calendar. -/
structure InterviewSchedulePlan where
  applicationId : UUID
  interviewKey : String
  interviewStartsAt : Instant
  interviewEndsAt : Instant
  changes : List ScheduleChange
  conflicts : List ScheduleConflict
deriving DecidableEq, Repr

/-- The logical key of an application's interview event. -/
def interviewEventKey (applicationId : UUID) : String := s!"interview:{UUID.text applicationId}"

/-- The logical key of one of an application's prep blocks. -/
def prepBlockKey (applicationId : UUID) (slot : String) : String := s!"prep:{UUID.text applicationId}:{slot}"

def overlaps (startsAt endsAt : Instant) (other : Instant × Instant) : Bool :=
  decide (other.1 < endsAt) && decide (startsAt < other.2)

/-- The latest gap of `duration` that nothing occupies and that ends by `latestEnd`, in so many
steps. -/
def latestFreeSlot (duration earliestStart : Instant) (busy : List (Instant × Instant))
    (hours : Option WorkingHours) : ℕ → Instant → Option (Instant × Instant)
  | 0, _ => none
  | steps + 1, latestEnd =>
      let endsAt := hours.elim latestEnd fun hours => hours.latestEnd latestEnd duration
      let startsAt := endsAt - duration
      if startsAt < earliestStart then none
      else
        match busy.filter (overlaps startsAt endsAt) with
        | [] => some (startsAt, endsAt)
        -- Try to end where the earliest thing in the way begins.
        | blocker :: blockers =>
            latestFreeSlot duration earliestStart busy hours steps
              ((blockers.map (·.1)).foldl min blocker.1)

/-- `_change`. -/
def scheduleChange (logicalKey : String) (role : CalendarEventRole) (title : String)
    (slot : Instant × Instant) : Option CalendarEvent → ScheduleChange
  | none => ⟨.create, logicalKey, role, title, slot.1, slot.2, none, none, none, none⟩
  | some existing =>
      { op := if (existing.startsAt, existing.endsAt) ≠ slot then .update else .keep
        logicalKey
        role
        -- A title the candidate edited is theirs; only the time is reconciled.
        title := if existing.title = "" then title else existing.title
        startsAt := slot.1
        endsAt := slot.2
        eventId := some existing.eventId
        etag := existing.etag
        previousStartsAt := some existing.startsAt
        previousEndsAt := some existing.endsAt }

/-- The `JobSearchContractError` of a prep block longer than the working day. -/
structure SchedulingError where
  message : String
deriving DecidableEq, Repr

section plan

variable (isoformat : Instant → String) (request : InterviewRequest)
variable (events : List CalendarEvent) (now : Instant) (hours : WorkingHours)

/-- The event of ours under a logical key: the first. -/
def ownEvent (logicalKey : String) : Option CalendarEvent :=
  events.find? fun event =>
    event.isOwn (UUID.text request.applicationId) && event.logicalKey == some logicalKey

/-- What else is booked. -/
def foreignEvents : List CalendarEvent :=
  events.filter fun event => !event.isOwn (UUID.text request.applicationId) && event.busy

def PrepBlockSpec.hoursOf (spec : PrepBlockSpec) : Option WorkingHours :=
  if spec.workingHoursOnly then some hours else none

def PrepBlockSpec.earliestStart (spec : PrepBlockSpec) : Instant := max (request.startsAt - spec.horizon) now

def PrepBlockSpec.latestEnd (spec : PrepBlockSpec) : Instant := request.startsAt - spec.lead

/-- A block on the calendar that is over, or may stay where it is. -/
def PrepBlockSpec.stays (busy : List (Instant × Instant)) (block : Instant × Instant)
    (spec : PrepBlockSpec) : Bool :=
  decide (block.2 ≤ now) ||
    (decide (spec.earliestStart request now ≤ block.1) && decide (block.2 ≤ spec.latestEnd request)
      && (spec.hoursOf hours).all (·.contains block.1 block.2)
      && !busy.any (overlaps block.1 block.2))

/-- Where a prep block goes, given where it is. -/
def PrepBlockSpec.place (busy : List (Instant × Instant)) (existing : Option (Instant × Instant))
    (spec : PrepBlockSpec) : Option (Instant × Instant) :=
  match existing.filter fun block => spec.stays request now hours busy block with
  | some block => some block
  | none => latestFreeSlot spec.duration (spec.earliestStart request now) busy (spec.hoursOf hours)
      maxPlacementSteps (spec.latestEnd request)

/-- The `PREP_UNPLACEABLE` conflict of a prep block. -/
def PrepBlockSpec.unplaceable (existing : Option CalendarEvent) (spec : PrepBlockSpec) :
    ScheduleConflict where
  kind := .prepUnplaceable
  logicalKey := prepBlockKey request.applicationId spec.slot
  detail := s!"no free {spec.duration / minutes 1}-minute slot for '{spec.title}' between " ++
    s!"{isoformat (spec.earliestStart request now)} and {isoformat (spec.latestEnd request)}"
  eventId := existing.map (·.eventId)

/-- The prep blocks one after another, each around what is busy and the ones before it. -/
def planPrepBlocks : List PrepBlockSpec → List (Instant × Instant) →
    Except SchedulingError (List ScheduleChange × List ScheduleConflict)
  | [], _ => .ok ([], [])
  | spec :: specs, busy =>
      let key := prepBlockKey request.applicationId spec.slot
      let existing := ownEvent request events key
      if (spec.hoursOf hours).any fun hours => hours.length < spec.duration then
        .error ⟨s!"prep block '{spec.slot}' is longer than the working day it must fit in"⟩
      else
        match spec.place request now hours busy (existing.map fun e => (e.startsAt, e.endsAt)) with
        | none => do
            let rest ← planPrepBlocks specs busy
            return (rest.1, spec.unplaceable isoformat request now existing :: rest.2)
        | some slot => do
            let rest ← planPrepBlocks specs (busy ++ [slot])
            return (scheduleChange key .prep spec.title slot existing :: rest.1, rest.2)

/-- The conflict of something that is booked over the interview. -/
def interviewOverlap (event : CalendarEvent) : ScheduleConflict where
  kind := .interviewOverlap
  logicalKey := interviewEventKey request.applicationId
  detail :=
    let name := if event.title = "" then event.eventId else event.title
    s!"'{name}' ({isoformat event.startsAt} to {isoformat event.endsAt}) overlaps the interview"
  eventId := some event.eventId

/-- Reconcile an interview and its prep blocks against the calendar. -/
def planInterviewSchedule (prepBlocks : List PrepBlockSpec) :
    Except SchedulingError InterviewSchedulePlan :=
  let interviewKey := interviewEventKey request.applicationId
  let foreign := foreignEvents request events
  if request.startsAt ≤ now then
    .ok
      { applicationId := request.applicationId
        interviewKey
        interviewStartsAt := request.startsAt
        interviewEndsAt := request.endsAt
        changes := []
        conflicts := [{ kind := .interviewInPast
                        logicalKey := interviewKey
                        detail := s!"the interview time {isoformat request.startsAt} has passed"
                        eventId := none }] }
  else do
    let busy := foreign.map fun event => (event.startsAt, event.endsAt)
    let prep ← planPrepBlocks isoformat request events now hours prepBlocks
      (busy ++ [(request.startsAt, request.endsAt)])
    return {
      applicationId := request.applicationId
      interviewKey
      interviewStartsAt := request.startsAt
      interviewEndsAt := request.endsAt
      changes := scheduleChange interviewKey .interview request.title
        (request.startsAt, request.endsAt) (ownEvent request events interviewKey) :: prep.1
      conflicts := (foreign.filter fun event =>
        overlaps request.startsAt request.endsAt (event.startsAt, event.endsAt)).map
          (interviewOverlap isoformat request) ++ prep.2 }

end plan

/-- The private extended properties a created event is stamped with. -/
def eventProperties (applicationId : UUID) (change : ScheduleChange) : List (String × String) :=
  [(propApplicationId, UUID.text applicationId), (propKey, change.logicalKey),
    (propRole, change.role.value)] ++
  if change.role = .prep then [(propInterviewKey, interviewEventKey applicationId)] else []

end PersonalOS
