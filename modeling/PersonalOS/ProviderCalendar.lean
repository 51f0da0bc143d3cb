import PersonalOS.InterviewScheduling
import PersonalOS.Keyed
import Mathlib.Data.List.Nodup

/-! # The provider's calendar

What the writes of a plan leave behind.

* **Calendar.** Its events, with distinct ids.  A provider names a new event freshly, and may
  report an etag for each version of one.
* **Writes.** `createEvent` inserts an event, `updateEvent` moves one and merges properties into
  its own.
* **Reads.** Writing the change a plan has for one logical key changes the times found under that
  key and nothing else that planning reads. -/

namespace PersonalOS

def propIdempotencyKey : String := "personalos_idempotency_key"

/-- The events a calendar holds, and how many writes it has taken. -/
structure Calendar where
  events : List CalendarEvent
  writes : ℕ
  ids_nodup : (events.map (·.eventId)).Nodup

/-- How the provider names the events it stores. -/
structure CalendarProvider where
  newId : Calendar → String
  etag : ℕ → Option String
  newId_fresh : ∀ calendar, newId calendar ∉ calendar.events.map (·.eventId)

/-- `dict.update`. -/
def mergeProperties (old new : List (String × String)) : List (String × String) :=
  new ++ old.filter fun p => (new.lookup p.1).isNone

theorem lookup_mergeProperties (old new : List (String × String)) {name : String}
    (h : new.lookup name = none) : (mergeProperties old new).lookup name = old.lookup name := by
  unfold mergeProperties
  rw [List.lookup_append, h, Option.none_or]
  induction old with
  | nil => rfl
  | cons p old ih =>
      rw [List.filter_cons]
      by_cases hname : name = p.1
      · have hnone : (new.lookup p.1).isNone = true := by
          rw [← hname, h]
          rfl
        rw [if_pos hnone, List.lookup_cons, List.lookup_cons, hname]
        simp
      · have hne : (name == p.1) = false := by simpa using hname
        split
        · rw [List.lookup_cons, List.lookup_cons, hne]
          exact ih
        · rw [List.lookup_cons, hne]
          exact ih

namespace Calendar

variable (provider : CalendarProvider)

/-- Insert an event and return it as stored. -/
def createEvent (title : String) (startsAt endsAt : Instant) (properties : List (String × String))
    (calendar : Calendar) : CalendarEvent × Calendar :=
  let event : CalendarEvent :=
    { eventId := provider.newId calendar
      title
      startsAt
      endsAt
      properties
      busy := true
      etag := provider.etag calendar.writes }
  (event,
    { events := calendar.events ++ [event]
      writes := calendar.writes + 1
      ids_nodup := by
        rw [List.map_append, List.nodup_append']
        refine ⟨calendar.ids_nodup, List.nodup_singleton _, ?_⟩
        simpa using provider.newId_fresh calendar })

/-- An event where a write moves it to. -/
def moved (title : String) (startsAt endsAt : Instant) (properties : List (String × String))
    (calendar : Calendar) (event : CalendarEvent) : CalendarEvent :=
  { event with
      title
      startsAt
      endsAt
      properties := mergeProperties event.properties properties
      etag := provider.etag calendar.writes }

/-- Move an existing event, merging properties into its own. -/
def updateEvent (eventId title : String) (startsAt endsAt : Instant)
    (properties : List (String × String)) (calendar : Calendar) : Calendar where
  events := calendar.events.map fun event =>
    if event.eventId = eventId then calendar.moved provider title startsAt endsAt properties event
    else event
  writes := calendar.writes + 1
  ids_nodup := by
    have hids : ∀ event ∈ calendar.events,
        ((fun e : CalendarEvent => e.eventId) ∘ fun event : CalendarEvent =>
          if event.eventId = eventId then
            calendar.moved provider title startsAt endsAt properties event
          else event) event = event.eventId := by
      intro event _
      dsimp only [Function.comp]
      split
      · rfl
      · rfl
    rw [List.map_map, List.map_congr_left hids]
    exact calendar.ids_nodup

/-- One event by id. -/
def getEvent (eventId : String) (calendar : Calendar) : Option CalendarEvent :=
  calendar.events.find? fun event => event.eventId = eventId

/-- Make the write a change asks for, stamped with its idempotency key. -/
def applyChange (stamp : ScheduleChange → String) (applicationId : UUID) (calendar : Calendar)
    (change : ScheduleChange) : Calendar :=
  match change.op with
  | .create =>
      (calendar.createEvent provider change.title change.startsAt change.endsAt
        (mergeProperties (eventProperties applicationId change)
          [(propIdempotencyKey, stamp change)])).2
  | .update =>
      calendar.updateEvent provider (change.eventId.getD "") change.title change.startsAt
        change.endsAt [(propIdempotencyKey, stamp change)]
  | .keep => calendar

/-- Make all the writes a plan asks for. -/
def applyPlan (stamp : ScheduleChange → String) (plan : InterviewSchedulePlan)
    (calendar : Calendar) : Calendar :=
  plan.changes.foldl (applyChange provider stamp plan.applicationId) calendar

end Calendar

/-! ### What planning reads -/

section reads

variable {request : InterviewRequest} {events : List CalendarEvent} {key : String}
variable {provider : CalendarProvider} {stamp : ScheduleChange → String} {calendar : Calendar}
variable {change : ScheduleChange}

/-- Where the event of ours under a logical key is. -/
def ownTimes (request : InterviewRequest) (events : List CalendarEvent) (key : String) :
    Option (Instant × Instant) :=
  (ownEvent request events key).map fun event => (event.startsAt, event.endsAt)

/-- The change is the one for its logical key on a calendar that holds these events. -/
def ScheduleChange.Reconciles (request : InterviewRequest) (events : List CalendarEvent)
    (change : ScheduleChange) : Prop :=
  change.logicalKey ≠ "" ∧ ∃ title, change = scheduleChange change.logicalKey change.role title
    change.slot (ownEvent request events change.logicalKey)

theorem ownEvent_eq_some {event : CalendarEvent} (h : ownEvent request events key = some event) :
    event ∈ events ∧ event.isOwn (UUID.text request.applicationId) = true ∧
      event.logicalKey = some key := by
  unfold ownEvent at h
  have hfound := List.find?_some h
  simp only [Bool.and_eq_true, beq_iff_eq] at hfound
  exact ⟨List.mem_of_find?_eq_some h, hfound.1, hfound.2⟩

theorem ownEvent_map {f : CalendarEvent → CalendarEvent}
    (happ : ∀ event, (f event).applicationId = event.applicationId)
    (hkey : ∀ event, (f event).logicalKey = event.logicalKey) :
    ownEvent request (events.map f) key = (ownEvent request events key).map f := by
  unfold ownEvent
  rw [List.find?_map]
  congr 2
  funext event
  simp only [Function.comp, CalendarEvent.isOwn, happ, hkey]

theorem foreignEvents_map {f : CalendarEvent → CalendarEvent}
    (happ : ∀ event, (f event).applicationId = event.applicationId)
    (hkey : ∀ event, (f event).logicalKey = event.logicalKey)
    (hself : ∀ event ∈ events, event.isOwn (UUID.text request.applicationId) = false →
      f event = event) :
    foreignEvents request (events.map f) = foreignEvents request events := by
  unfold foreignEvents
  induction events with
  | nil => rfl
  | cons event events ih =>
      have hown : (f event).isOwn (UUID.text request.applicationId) =
          event.isOwn (UUID.text request.applicationId) := by
        simp only [CalendarEvent.isOwn, happ, hkey]
      have htail := ih fun e he => hself e (List.mem_cons_of_mem _ he)
      rw [List.map_cons, List.filter_cons, List.filter_cons, hown, htail]
      cases hforeign : event.isOwn (UUID.text request.applicationId) with
      | true => simp
      | false => rw [hself event List.mem_cons_self hforeign]

namespace Calendar

theorem lookup_stamp {value name : String} (hname : name ≠ propIdempotencyKey) :
    [(propIdempotencyKey, value)].lookup name = none := by
  have hne : (name == propIdempotencyKey) = false := by simpa using hname
  rw [List.lookup_cons, hne]
  rfl

theorem lookup_stampedProperties (applicationId : UUID) (change : ScheduleChange) (value : String) :
    (mergeProperties (eventProperties applicationId change)
        [(propIdempotencyKey, value)]).lookup propApplicationId = some (UUID.text applicationId) ∧
      (mergeProperties (eventProperties applicationId change)
        [(propIdempotencyKey, value)]).lookup propKey = some change.logicalKey := by
  rw [lookup_mergeProperties _ _ (lookup_stamp (by decide)),
    lookup_mergeProperties _ _ (lookup_stamp (by decide))]
  constructor
  · simp [eventProperties]
  · simp [eventProperties, List.lookup_cons, propKey, propApplicationId]

theorem lookup_linking_moved {event : CalendarEvent} {title : String} {startsAt endsAt : Instant}
    {value name : String} (hname : name ≠ propIdempotencyKey) :
    (calendar.moved provider title startsAt endsAt [(propIdempotencyKey, value)]
      event).properties.lookup name = event.properties.lookup name :=
  lookup_mergeProperties _ _ (lookup_stamp hname)

/-- What a write does to one event: only the one it names is moved. -/
def rewrite (provider : CalendarProvider) (eventId title : String) (startsAt endsAt : Instant)
    (value : String) (calendar : Calendar) (event : CalendarEvent) : CalendarEvent :=
  if event.eventId = eventId then
    calendar.moved provider title startsAt endsAt [(propIdempotencyKey, value)] event
  else event

section updateEvent

variable {eventId title value : String} {startsAt endsAt : Instant} {event : CalendarEvent}

theorem events_updateEvent :
    (calendar.updateEvent provider eventId title startsAt endsAt [(propIdempotencyKey, value)]).events =
      calendar.events.map (calendar.rewrite provider eventId title startsAt endsAt value) := rfl

theorem lookup_linking_rewrite {name : String} (hname : name ≠ propIdempotencyKey) :
    (calendar.rewrite provider eventId title startsAt endsAt value event).properties.lookup name =
      event.properties.lookup name := by
  unfold rewrite
  by_cases hid : event.eventId = eventId
  · rw [if_pos hid]
    exact lookup_linking_moved hname
  · rw [if_neg hid]

theorem applicationId_rewrite :
    (calendar.rewrite provider eventId title startsAt endsAt value event).applicationId =
      event.applicationId :=
  lookup_linking_rewrite (by decide)

theorem logicalKey_rewrite :
    (calendar.rewrite provider eventId title startsAt endsAt value event).logicalKey =
      event.logicalKey :=
  lookup_linking_rewrite (by decide)

theorem ownEvent_updateEvent_ne {other : String} (hmem : event ∈ calendar.events)
    (hkey : event.logicalKey = some key) (hother : other ≠ key) :
    ownEvent request (calendar.updateEvent provider event.eventId title startsAt endsAt
      [(propIdempotencyKey, value)]).events other = ownEvent request calendar.events other := by
  rw [events_updateEvent, ownEvent_map (fun _ => applicationId_rewrite) fun _ => logicalKey_rewrite]
  cases hfound : ownEvent request calendar.events other with
  | none => rfl
  | some e =>
      obtain ⟨he, -, hekey⟩ := ownEvent_eq_some hfound
      have hid : e.eventId ≠ event.eventId := by
        intro hid
        rw [Keyed.eq_of_key calendar.ids_nodup he hmem hid, hkey] at hekey
        exact hother (Option.some.inj hekey).symm
      rw [Option.map_some, rewrite, if_neg hid]

end updateEvent

theorem updateEvent_reads {event : CalendarEvent} (provider : CalendarProvider) (title : String)
    (startsAt endsAt : Instant) (value : String)
    (h : ownEvent request calendar.events key = some event) :
    let after := calendar.updateEvent provider event.eventId title startsAt endsAt
      [(propIdempotencyKey, value)]
    foreignEvents request after.events = foreignEvents request calendar.events ∧
      (∀ other, other ≠ key → ownEvent request after.events other = ownEvent request calendar.events other) ∧
      ownEvent request after.events key =
        some (calendar.moved provider title startsAt endsAt [(propIdempotencyKey, value)] event) := by
  obtain ⟨hmem, hown, hkey⟩ := ownEvent_eq_some h
  intro after
  refine ⟨?_, fun other hother => ownEvent_updateEvent_ne hmem hkey hother, ?_⟩
  · apply foreignEvents_map (fun _ => applicationId_rewrite) fun _ => logicalKey_rewrite
    intro e he hforeign
    have hid : e.eventId ≠ event.eventId := by
      intro hid
      rw [Keyed.eq_of_key calendar.ids_nodup he hmem hid, hown] at hforeign
      cases hforeign
    exact if_neg hid
  · have hafter : after.events = calendar.events.map
        (calendar.rewrite provider event.eventId title startsAt endsAt value) := events_updateEvent
    rw [hafter, ownEvent_map (fun _ => applicationId_rewrite) fun _ => logicalKey_rewrite, h,
      Option.map_some, rewrite, if_pos rfl]

theorem ownEvent_createEvent_ne {properties : List (String × String)} {title other : String}
    {startsAt endsAt : Instant} (hlogical : properties.lookup propKey = some key)
    (hother : other ≠ key) :
    ownEvent request (calendar.createEvent provider title startsAt endsAt properties).2.events other =
      ownEvent request calendar.events other := by
  have hcreated : (calendar.createEvent provider title startsAt endsAt properties).1.logicalKey =
      some key := hlogical
  have hafter : (calendar.createEvent provider title startsAt endsAt properties).2.events =
      calendar.events ++ [(calendar.createEvent provider title startsAt endsAt properties).1] := rfl
  have hne : (some key == some other) = false := by simpa using fun heq => hother heq.symm
  unfold ownEvent
  rw [hafter, List.find?_append, List.find?_cons, hcreated, hne, Bool.and_false]
  simp

theorem createEvent_reads {properties : List (String × String)} (provider : CalendarProvider)
    (title : String) (startsAt endsAt : Instant)
    (h : ownEvent request calendar.events key = none) (hkey : key ≠ "")
    (happ : properties.lookup propApplicationId = some (UUID.text request.applicationId))
    (hlogical : properties.lookup propKey = some key) :
    let created := calendar.createEvent provider title startsAt endsAt properties
    foreignEvents request created.2.events = foreignEvents request calendar.events ∧
      (∀ other, other ≠ key →
        ownEvent request created.2.events other = ownEvent request calendar.events other) ∧
      ownEvent request created.2.events key = some created.1 := by
  intro created
  have hafter : created.2.events = calendar.events ++ [created.1] := rfl
  have hcreated : created.1.logicalKey = some key := hlogical
  have hown : created.1.isOwn (UUID.text request.applicationId) = true := by
    have hid : created.1.applicationId = some (UUID.text request.applicationId) := happ
    simp [CalendarEvent.isOwn, hid, hcreated, hkey]
  refine ⟨?_, fun other hother => ownEvent_createEvent_ne hlogical hother, ?_⟩
  · unfold foreignEvents
    rw [hafter, List.filter_append, List.filter_cons, hown]
    simp
  · unfold ownEvent at h ⊢
    rw [hafter, List.find?_append, h, List.find?_cons, hcreated, hown]
    simp

/-- Writing a change puts the event of its logical key where the change says, and touches nothing
else that planning reads. -/
theorem applyChange_reads (provider : CalendarProvider) (stamp : ScheduleChange → String)
    (h : change.Reconciles request calendar.events) :
    let after := calendar.applyChange provider stamp request.applicationId change
    foreignEvents request after.events = foreignEvents request calendar.events ∧
      (∀ other, other ≠ change.logicalKey →
        ownEvent request after.events other = ownEvent request calendar.events other) ∧
      ownTimes request after.events change.logicalKey = some change.slot := by
  obtain ⟨hkey, title, hchange⟩ := h
  intro after
  unfold ownTimes
  cases hown : ownEvent request calendar.events change.logicalKey with
  | none =>
      rw [hown] at hchange
      have hop : change.op = .create := by rw [hchange]; rfl
      have hafter : after = (calendar.createEvent provider change.title change.startsAt change.endsAt
          (mergeProperties (eventProperties request.applicationId change)
            [(propIdempotencyKey, stamp change)])).2 := by
        simp only [after, applyChange, hop]
      obtain ⟨happ, hlogical⟩ := lookup_stampedProperties request.applicationId change (stamp change)
      obtain ⟨hforeign, hothers, hthis⟩ := createEvent_reads provider change.title
        change.startsAt change.endsAt hown hkey happ hlogical
      rw [hafter]
      refine ⟨hforeign, hothers, ?_⟩
      rw [hthis]
      rfl
  | some event =>
      rw [hown] at hchange
      have heventId : change.eventId = some event.eventId := by rw [hchange]; rfl
      by_cases hmoved : (event.startsAt, event.endsAt) = change.slot
      · have hop : change.op = .keep := by
          rw [hchange]
          exact if_neg (not_not.mpr hmoved)
        have hafter : after = calendar := by simp only [after, applyChange, hop]
        rw [hafter]
        refine ⟨rfl, fun _ _ => rfl, ?_⟩
        rw [hown, ← hmoved]
        rfl
      · have hop : change.op = .update := by
          rw [hchange]
          exact if_pos hmoved
        have hafter : after = calendar.updateEvent provider event.eventId change.title
            change.startsAt change.endsAt [(propIdempotencyKey, stamp change)] := by
          simp only [after, applyChange, hop, heventId, Option.getD_some]
        obtain ⟨hforeign, hothers, hthis⟩ := updateEvent_reads provider change.title
          change.startsAt change.endsAt (stamp change) hown
        rw [hafter]
        refine ⟨hforeign, hothers, ?_⟩
        rw [hthis]
        rfl

end Calendar

end reads

end PersonalOS
