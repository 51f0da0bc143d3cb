import PersonalOS.ApprovedWrites

/-! # The calendar follows the interview

* **Rounds.** In a round the calendar is edited, an interview planned on what is there then, and
  the writes of the plan are approved and executed.
* **Invariant.** No operation of the ledger is announced before it is claimed (`Unannounced`).
* **Convergence.** As long as no write has the key of an earlier one, every write is made, and the
  interview is on the calendar at its times after each round.
* **Where it does not.** A key has the times of a move to the minute and, where the calendar
  reports no etag, nothing else: the second move from one time to another is the first. -/

namespace PersonalOS

open Concurrent

/-- The changes that need a calendar write. -/
def InterviewSchedulePlan.writes (plan : InterviewSchedulePlan) : List ScheduleChange :=
  plan.changes.filter (·.op ≠ .keep)

/-- One round: what happens to the calendar, and the interview that is planned then. -/
structure CalendarRound where
  edit : Calendar → Calendar
  request : InterviewRequest
  now : Instant

namespace CalendarRound

variable (surroundings : CalendarSurroundings) (round : CalendarRound)
variable (state : World × CalendarSide)

/-- The world with the calendar as the round finds it. -/
def edited : World × CalendarSide := (state.1, { state.2 with calendar := round.edit state.2.calendar })

/-- The plan on the calendar as it is. -/
def plan : Except SchedulingError InterviewSchedulePlan :=
  planInterviewSchedule surroundings.isoformat round.request (round.edited state).2.calendar.events
    round.now surroundings.workingHours surroundings.prepBlocks

/-- Plan, and execute the writes of the plan. -/
def run [ActionPayload CalendarPayload] : World × CalendarSide :=
  match round.plan surroundings state with
  | .error _ => round.edited state
  | .ok plan => ((executeWrites surroundings plan.applicationId plan.writes).finish ()
      (round.edited state)).2

/-- The rounds one after another. -/
def runAll [ActionPayload CalendarPayload] (rounds : List CalendarRound) : World × CalendarSide :=
  rounds.foldl (fun state round => round.run surroundings state) state

/-- The interview is ahead, and no write of its plan has the key of an earlier one. -/
structure NewWrites : Prop where
  ahead : round.now < round.request.startsAt
  fits : ∀ spec ∈ surroundings.prepBlocks, spec.workingHoursOnly = true →
    spec.duration ≤ surroundings.workingHours.length
  distinct : ∀ plan, round.plan surroundings state = .ok plan →
    (plan.writes.map (·.idempotencyKey)).Nodup
  unused : ∀ plan, round.plan surroundings state = .ok plan → ∀ change ∈ plan.writes,
    state.1.ledger.executions change.idempotencyKey = none
  unstamped : ∀ plan, round.plan surroundings state = .ok plan → ∀ change ∈ plan.writes,
    change.op = .create → ∀ event ∈ (round.edited state).2.calendar.events,
      event.properties.lookup propIdempotencyKey ≠ some change.idempotencyKey
  named : ∀ plan, round.plan surroundings state = .ok plan → ∀ change ∈ plan.writes,
    change.eventId ≠ some ""

/-- Every write of the plan is made by a call of its own, and the interview is where it should be. -/
def Converges [ActionPayload CalendarPayload] : Prop :=
  ∃ plan receipts, round.plan surroundings state = .ok plan ∧
    ((executeWrites surroundings plan.applicationId plan.writes).finish () (round.edited state)).1 =
      .ok receipts ∧
    (∀ receipt ∈ receipts, receipt.ok = true) ∧
    (round.run surroundings state).1.calls =
      (plan.writes.map fun change => CallEvent.entered change.idempotencyKey none).reverse ++
        state.1.calls ∧
    ownTimes round.request (round.run surroundings state).2.calendar.events
        (interviewEventKey round.request.applicationId) =
      some (round.request.startsAt, round.request.endsAt)

end CalendarRound

/-! ### The writes of a plan -/

section writes

variable {change : ScheduleChange} {changes : List ScheduleChange}
variable {w : World} {side : CalendarSide}

/-- What the writes of a plan leave. -/
structure WritesMade (request : InterviewRequest) (changes : List ScheduleChange)
    (state after : World × CalendarSide) (receipts : List ActionReceipt) : Prop where
  ok : ∀ receipt ∈ receipts, receipt.ok = true
  calls : after.1.calls =
    (changes.map fun change => CallEvent.entered change.idempotencyKey none).reverse ++ state.1.calls
  unannounced : Unannounced after.1
  others : ∀ key ∉ changes.map (·.logicalKey),
    ownEvent request after.2.calendar.events key = ownEvent request state.2.calendar.events key
  reads : ∀ change ∈ changes, change.Reconciles request state.2.calendar.events →
    (∀ other ∈ changes, other.logicalKey = change.logicalKey → other = change) →
      ownTimes request after.2.calendar.events change.logicalKey = some change.slot

theorem executeIntent_writable [ActionPayload CalendarPayload]
    (surroundings : CalendarSurroundings) (request : InterviewRequest) (hkeep : change.op ≠ .keep)
    (h : change.Writable side.calendar)
    (hnew : w.ledger.executions change.idempotencyKey = none) (hunannounced : Unannounced w) :
    ∃ receipt w' side', receipt.ok = true ∧
      (executeIntent surroundings (calendarIntent surroundings request.applicationId change)).finish ()
        (w, side) = (.ok receipt, (w', side')) ∧
      w'.calls = .entered change.idempotencyKey none :: w.calls ∧
      (∀ key, key ≠ change.idempotencyKey → w'.ledger.executions key = w.ledger.executions key) ∧
      Unannounced w' ∧ WroteOnly request change side.calendar side'.calendar ∧
      (change.Reconciles request side.calendar.events →
        ownTimes request side'.calendar.events change.logicalKey = some change.slot) := by
  obtain ⟨receipt, after, hok, hexecute, honly⟩ :=
    execute_writable surroundings request.applicationId request hkeep h
  obtain ⟨w', hfinish, hcalls, hkeys, hunannounced'⟩ := executeIntent_new
    (by rw [idempotencyKey_calendarIntent]; exact hnew) hunannounced hexecute
  rw [idempotencyKey_calendarIntent] at hcalls hkeys
  refine ⟨receipt.redact surroundings.executor.redactText, w', ⟨after, .ok receipt⟩, hok, hfinish,
    hcalls, hkeys, hunannounced', honly, fun hreconciles => ?_⟩
  have hthis := execute_reconciles surroundings hkeep h hreconciles
  rw [hexecute] at hthis
  exact hthis

theorem executeWrites_new [ActionPayload CalendarPayload]
    (surroundings : CalendarSurroundings) (request : InterviewRequest)
    (hkeep : ∀ change ∈ changes, change.op ≠ .keep)
    (hdistinct : (changes.map (·.idempotencyKey)).Nodup)
    (hwritable : ∀ change ∈ changes, change.Writable side.calendar)
    (hnew : ∀ change ∈ changes, w.ledger.executions change.idempotencyKey = none)
    (hunannounced : Unannounced w) :
    ∃ receipts state, (executeWrites surroundings request.applicationId changes).finish () (w, side) =
        (.ok receipts, state) ∧ WritesMade request changes (w, side) state receipts := by
  induction changes generalizing w side with
  | nil =>
      refine ⟨[], _, rfl, ?_, rfl, hunannounced, fun _ _ => rfl, ?_⟩
      · intro receipt hreceipt
        cases hreceipt
      · intro change hchange
        cases hchange
  | cons change changes ih =>
      obtain ⟨receipt, w', side', hok, hfinish, hcalls, hkeys, hunannounced', honly, hthis⟩ :=
        executeIntent_writable surroundings request (hkeep change List.mem_cons_self)
          (hwritable change List.mem_cons_self) (hnew change List.mem_cons_self) hunannounced
      obtain ⟨hhead, htail⟩ := List.nodup_cons.mp hdistinct
      have hne : ∀ other ∈ changes, other.idempotencyKey ≠ change.idempotencyKey := by
        intro other hother heq
        have hmem := List.mem_map_of_mem (f := fun change => change.idempotencyKey) hother
        rw [heq] at hmem
        exact hhead hmem
      obtain ⟨receipts, state, hrest, hmade⟩ := ih
        (fun other hother => hkeep other (List.mem_cons_of_mem _ hother)) htail
        (fun other hother => honly.writable other (hne other hother)
          (hwritable other (List.mem_cons_of_mem _ hother)))
        (fun other hother => by
          rw [hkeys _ (hne other hother)]
          exact hnew other (List.mem_cons_of_mem _ hother)) hunannounced'
      have hdiffer : ∀ other ∈ changes, other ≠ change := by
        intro other hother heq
        exact hne other hother (congrArg _ heq)
      refine ⟨receipt :: receipts, state, ?_, ?_, ?_, hmade.unannounced, ?_, ?_⟩
      · rw [executeWrites, Prog.finish_bind_ok hfinish, Prog.finish_bind_ok hrest]
        rfl
      · exact List.forall_mem_cons.mpr ⟨hok, hmade.ok⟩
      · rw [hmade.calls]
        dsimp only
        rw [hcalls, List.map_cons, List.reverse_cons, List.append_assoc]
        rfl
      · intro key hkey
        rw [List.map_cons, List.mem_cons, not_or] at hkey
        rw [hmade.others key hkey.2]
        exact honly.others key hkey.1
      · intro written hwritten hreconciles honce
        rcases List.mem_cons.mp hwritten with rfl | hin
        · have hnot : written.logicalKey ∉ changes.map (·.logicalKey) := by
            intro hmem
            obtain ⟨other, hother, hkey⟩ := List.mem_map.mp hmem
            exact hdiffer other hother (honce other (List.mem_cons_of_mem _ hother) hkey)
          unfold ownTimes
          rw [hmade.others _ hnot]
          exact hthis hreconciles
        · have hkey : written.logicalKey ≠ change.logicalKey := by
            intro hkey
            exact hdiffer written hin (honce change List.mem_cons_self hkey.symm).symm
          apply hmade.reads written hin
          · unfold ScheduleChange.Reconciles
            dsimp only
            rw [honly.others _ hkey]
            exact hreconciles
          · intro other hother
            exact honce other (List.mem_cons_of_mem _ hother)

end writes

/-! ### The plan of a round -/

section plan

variable {isoformat : Instant → String} {request : InterviewRequest} {events : List CalendarEvent}
variable {now : Instant} {hours : WorkingHours} {specs : List PrepBlockSpec}
variable {busy : List (Instant × Instant)} {prep : List ScheduleChange × List ScheduleConflict}
variable {calendar : Calendar} {change : ScheduleChange}

theorem planPrepBlocks_ok (isoformat : Instant → String) (request : InterviewRequest)
    (events : List CalendarEvent) (now : Instant) (busy : List (Instant × Instant))
    (hfits : ∀ spec ∈ specs, spec.workingHoursOnly = true → spec.duration ≤ hours.length) :
    ∃ prep, planPrepBlocks isoformat request events now hours specs busy = .ok prep := by
  induction specs generalizing busy with
  | nil => exact ⟨_, rfl⟩
  | cons spec specs ih =>
      have hrest := fun busy => ih busy fun spec' hspec' => hfits spec' (List.mem_cons_of_mem _ hspec')
      have hthis := hfits spec List.mem_cons_self
      cases hplace : spec.place request now hours busy
          (ownTimes request events (prepBlockKey request.applicationId spec.slot)) with
      | none =>
          obtain ⟨rest, hrest⟩ := hrest busy
          exact ⟨_, planPrepBlocks_of_place_none hthis hplace hrest⟩
      | some slot =>
          obtain ⟨rest, hrest⟩ := hrest (busy ++ [slot])
          exact ⟨_, planPrepBlocks_of_place_some hthis hplace hrest⟩

theorem planPrepBlocks_reconciles
    (h : planPrepBlocks isoformat request events now hours specs busy = .ok prep) :
    ∀ change ∈ prep.1, change.logicalKey ≠ interviewEventKey request.applicationId ∧
      change.Reconciles request events := by
  induction specs generalizing busy prep with
  | nil =>
      obtain rfl := Except.ok.inj h
      intro change hchange
      cases hchange
  | cons spec specs ih =>
      obtain ⟨-, ⟨rest, -, hrest, rfl⟩ | ⟨rest, slot, -, hrest, rfl⟩⟩ := planPrepBlocks_cons h
      · intro change hchange
        exact ih hrest change hchange
      · intro change hchange
        rcases List.mem_cons.mp hchange with rfl | hin
        · rw [scheduleChange_logicalKey]
          exact ⟨prepBlockKey_ne_interviewEventKey _ _,
            reconciles_scheduleChange (prepBlockKey_ne_empty _ _)⟩
        · exact ih hrest change hin

theorem ScheduleChange.Reconciles.writable (h : change.Reconciles request calendar.events)
    (hunstamped : change.op = .create → ∀ event ∈ calendar.events,
      event.properties.lookup propIdempotencyKey ≠ some change.idempotencyKey)
    (hnamed : change.eventId ≠ some "") : change.Writable calendar := by
  unfold Writable
  split
  next hop => exact hunstamped hop
  next hop =>
    obtain ⟨-, title, hchange⟩ := h
    cases hown : ownEvent request calendar.events change.logicalKey with
    | none =>
        rw [hown] at hchange
        rw [hchange] at hop
        exact absurd rfl hop
    | some event =>
        obtain ⟨hmem, -, hkey⟩ := ownEvent_eq_some hown
        rw [hown] at hchange
        have hid : change.eventId = some event.eventId := by rw [hchange]; rfl
        refine ⟨event, hmem, hid, ?_, hkey⟩
        intro hempty
        apply hnamed
        rw [hid, hempty]

theorem ownTimes_of_keep (h : (interviewChange request events).op = .keep) :
    ownTimes request events (interviewEventKey request.applicationId) =
      some (request.startsAt, request.endsAt) := by
  unfold interviewChange at h
  unfold ownTimes
  cases hown : ownEvent request events (interviewEventKey request.applicationId) with
  | none =>
      rw [hown] at h
      cases h
  | some event =>
      rw [hown] at h
      unfold scheduleChange at h
      by_cases hslot : (event.startsAt, event.endsAt) = (request.startsAt, request.endsAt)
      · rw [← hslot]
        rfl
      · dsimp only at h
        rw [if_pos hslot] at h
        cases h

end plan

/-! ### The rounds -/

namespace CalendarRound

variable [ActionPayload CalendarPayload] {surroundings : CalendarSurroundings}
variable {round : CalendarRound} {state : World × CalendarSide}

theorem run_converges (hunannounced : Unannounced state.1) (h : round.NewWrites surroundings state) :
    Unannounced (round.run surroundings state).1 ∧ round.Converges surroundings state := by
  obtain ⟨prep, hprep⟩ := planPrepBlocks_ok surroundings.isoformat round.request
    (round.edited state).2.calendar.events round.now
    (busySlots round.request (foreignEvents round.request (round.edited state).2.calendar.events))
    h.fits
  obtain ⟨plan, hplan, hid, hchanges⟩ : ∃ plan, round.plan surroundings state = .ok plan ∧
      plan.applicationId = round.request.applicationId ∧
      plan.changes = interviewChange round.request (round.edited state).2.calendar.events :: prep.1 :=
    ⟨_, (planInterviewSchedule_ok h.ahead).mpr ⟨prep, hprep, rfl⟩, rfl, rfl⟩
  have hprepared := planPrepBlocks_reconciles hprep
  have hwrites : ∀ change ∈ plan.writes, change ∈ plan.changes ∧ change.op ≠ .keep := by
    intro change hchange
    have hboth := List.mem_filter.mp hchange
    exact ⟨hboth.1, of_decide_eq_true hboth.2⟩
  have hreconciles : ∀ change ∈ plan.changes,
      change.Reconciles round.request (round.edited state).2.calendar.events := by
    rw [hchanges]
    intro change hchange
    rcases List.mem_cons.mp hchange with rfl | hin
    · exact reconciles_scheduleChange (interviewEventKey_ne_empty _)
    · exact (hprepared change hin).2
  obtain ⟨receipts, after, hfinish, hmade⟩ := executeWrites_new surroundings round.request
    (fun change hchange => (hwrites change hchange).2) (h.distinct plan hplan)
    (fun change hchange => (hreconciles change (hwrites change hchange).1).writable
      (h.unstamped plan hplan change hchange) (h.named plan hplan change hchange))
    (h.unused plan hplan) hunannounced
  rw [← hid] at hfinish
  have hafter : round.run surroundings state = after := by
    unfold run
    rw [hplan]
    exact congrArg Prod.snd hfinish
  rw [hafter]
  refine ⟨hmade.unannounced, plan, receipts, hplan, congrArg Prod.fst hfinish, hmade.ok, ?_, ?_⟩
  · rw [hafter]
    exact hmade.calls
  · rw [hafter]
    -- No prep block has the interview's logical key.
    have honce : ∀ other ∈ plan.writes, other.logicalKey = interviewEventKey round.request.applicationId →
        other = interviewChange round.request (round.edited state).2.calendar.events := by
      intro other hother hkey
      have hin := (hwrites other hother).1
      rw [hchanges] at hin
      rcases List.mem_cons.mp hin with rfl | hin
      · rfl
      · exact absurd hkey (hprepared other hin).1
    by_cases hkeep : (interviewChange round.request (round.edited state).2.calendar.events).op = .keep
    · have hnot : interviewEventKey round.request.applicationId ∉ plan.writes.map (·.logicalKey) := by
        intro hmem
        obtain ⟨other, hother, hkey⟩ := List.mem_map.mp hmem
        apply (hwrites other hother).2
        rw [honce other hother hkey]
        exact hkeep
      unfold ownTimes
      rw [hmade.others _ hnot]
      exact ownTimes_of_keep hkeep
    · have hmem : interviewChange round.request (round.edited state).2.calendar.events ∈ plan.writes := by
        refine List.mem_filter.mpr ⟨?_, decide_eq_true hkeep⟩
        rw [hchanges]
        exact List.mem_cons_self
      have hreads := hmade.reads _ hmem (hreconciles _ (hwrites _ hmem).1) fun other hother hkey =>
        honce other hother (hkey.trans interviewChange_key)
      rw [interviewChange_key] at hreads
      rw [hreads]
      exact congrArg some (scheduleChange_slot ..)

theorem runAll_unannounced {rounds : List CalendarRound} (hunannounced : Unannounced state.1)
    (h : ∀ before round after, rounds = before ++ round :: after →
      round.NewWrites surroundings (runAll surroundings state before)) :
    Unannounced (runAll surroundings state rounds).1 := by
  induction rounds generalizing state with
  | nil => exact hunannounced
  | cons round rounds ih =>
      have hround : round.NewWrites surroundings state := h [] round rounds rfl
      refine ih (run_converges hunannounced hround).1 fun before later after hrounds => ?_
      exact h (round :: before) later after (by rw [hrounds]; rfl)

end CalendarRound

/-- **The calendar follows the interview.**  In every sequence of rounds, each planned on the
calendar as it then is and each with new writes, every write is made by a call of its own and the
interview is on the calendar at its times after each round. -/
theorem calendar_follows_interview [ActionPayload CalendarPayload]
    (surroundings : CalendarSurroundings) (side : CalendarSide) (rounds : List CalendarRound)
    (h : ∀ before round after, rounds = before ++ round :: after →
      round.NewWrites surroundings (CalendarRound.runAll surroundings (World.init, side) before)) :
    ∀ before round after, rounds = before ++ round :: after →
      round.Converges surroundings (CalendarRound.runAll surroundings (World.init, side) before) := by
  intro before round after hrounds
  have hinit : Unannounced World.init := fun _ _ => rfl
  refine (CalendarRound.run_converges ?_ (h before round after hrounds)).2
  refine CalendarRound.runAll_unannounced hinit fun before' round' after' hbefore => ?_
  apply h before' round' (after' ++ round :: after)
  rw [hrounds, hbefore, List.append_assoc]
  rfl

/-! ### There and back again -/

/-- A hash that is readable. -/
instance : ActionPayload CalendarPayload where
  canonicalHash document :=
    s!"{document.kind.letter}{document.target}|{document.payload.logicalKey}|" ++
      s!"{document.payload.startsAt}|{document.payload.endsAt}|{document.payload.body}"
  previewable _ := true

/-- A calendar that reports no etags. -/
def etaglessProvider : CalendarProvider where
  newId calendar :=
    String.ofList (List.replicate (Keyed.fresh (calendar.events.map (·.eventId.length))) 'e')
  etag _ := none
  newId_fresh := by
    intro calendar h
    obtain ⟨event, hevent, hid⟩ := List.mem_map.mp h
    have hlt := Keyed.lt_fresh
      (List.mem_map_of_mem (f := fun event : CalendarEvent => event.eventId.length) hevent)
    have hlength := congrArg String.length hid
    rw [String.length_ofList, List.length_replicate] at hlength
    exact absurd hlength (Nat.ne_of_lt hlt)

def etaglessSurroundings : CalendarSurroundings where
  provider := etaglessProvider
  executor := ToolExecutor.default true id
  isoformat := fun _ => ""
  prepBlocks := defaultPrepBlocks
  workingHours := WorkingHours.standard
  actionId := fun key => key.length
  recordId := none
  decidedBy := "candidate"
  decidedAt := 0

def emptyCalendar : CalendarSide where
  calendar := ⟨[], 0, List.nodup_nil⟩
  answer := .ok ⟨0, true, none, none⟩

/-- An interview of an hour, nothing having happened to the calendar. -/
def roundAt (startsAt : Instant) : CalendarRound where
  edit := id
  request := ⟨7, startsAt, hours 1, "Interview", none⟩
  now := 0

def noonOfDay (day : ℤ) : Instant := hours (24 * day + 12)

theorem roundAt_new {startsAt : Instant} {state : World × CalendarSide} (hahead : 0 < startsAt)
    (hplan : (((roundAt startsAt).plan etaglessSurroundings state).toOption.all fun plan =>
      decide ((plan.writes.map (·.idempotencyKey)).Nodup) && plan.writes.all fun change =>
        (state.1.ledger.executions change.idempotencyKey).isNone &&
          (((roundAt startsAt).edited state).2.calendar.events.all fun event =>
            decide (event.properties.lookup propIdempotencyKey ≠ some change.idempotencyKey)) &&
          decide (change.eventId ≠ some "")) = true) :
    (roundAt startsAt).NewWrites etaglessSurroundings state := by
  have hall : ∀ plan, (roundAt startsAt).plan etaglessSurroundings state = .ok plan →
      (plan.writes.map (·.idempotencyKey)).Nodup ∧ ∀ change ∈ plan.writes,
        state.1.ledger.executions change.idempotencyKey = none ∧
        (∀ event ∈ ((roundAt startsAt).edited state).2.calendar.events,
          event.properties.lookup propIdempotencyKey ≠ some change.idempotencyKey) ∧
        change.eventId ≠ some "" := by
    intro plan h
    rw [h] at hplan
    have hboth := Bool.and_eq_true_iff.mp hplan
    refine ⟨of_decide_eq_true hboth.1, fun change hchange => ?_⟩
    have hthis := List.all_eq_true.mp hboth.2 change hchange
    simp only [Bool.and_eq_true, Option.isNone_iff_eq_none, List.all_eq_true, decide_eq_true_eq] at hthis
    exact ⟨hthis.1.1, hthis.1.2, hthis.2⟩
  constructor
  · exact hahead
  · decide
  · exact fun plan h => (hall plan h).1
  · exact fun plan h change hchange => ((hall plan h).2 change hchange).1
  · exact fun plan h change hchange _ => ((hall plan h).2 change hchange).2.1
  · exact fun plan h change hchange => ((hall plan h).2 change hchange).2.2

theorem calendar_follows_interview_once_moved :
    (roundAt (noonOfDay 6)).Converges etaglessSurroundings
      (CalendarRound.runAll etaglessSurroundings (World.init, emptyCalendar) [roundAt (noonOfDay 5)]) := by
  have hnew : ∀ before round after,
      [roundAt (noonOfDay 5), roundAt (noonOfDay 6)] = before ++ round :: after →
        round.NewWrites etaglessSurroundings
          (CalendarRound.runAll etaglessSurroundings (World.init, emptyCalendar) before) := by
    intro before round after hrounds
    rcases before with _ | ⟨first, _ | ⟨second, before⟩⟩
    · obtain ⟨rfl, -⟩ := List.cons.inj hrounds
      exact roundAt_new (by decide) (by decide +kernel)
    · obtain ⟨rfl, hrest⟩ := List.cons.inj hrounds
      obtain ⟨rfl, -⟩ := List.cons.inj hrest
      exact roundAt_new (by decide) (by decide +kernel)
    · have hlength := congrArg List.length hrounds
      simp at hlength
  exact calendar_follows_interview etaglessSurroundings emptyCalendar
    [roundAt (noonOfDay 5), roundAt (noonOfDay 6)] hnew [roundAt (noonOfDay 5)] _ [] rfl

/-- Moved there, back and there again, the interview stays where it was: the second move is answered
with the receipt of the first. -/
theorem second_move_is_swallowed :
    ¬ ∀ (surroundings : CalendarSurroundings) (side : CalendarSide) (rounds : List CalendarRound),
        (∀ round ∈ rounds, round.now < round.request.startsAt) →
        (∀ spec ∈ surroundings.prepBlocks, spec.workingHoursOnly = true →
          spec.duration ≤ surroundings.workingHours.length) →
        ∀ before round after, rounds = before ++ round :: after → round.Converges surroundings
          (CalendarRound.runAll surroundings (World.init, side) before) := by
  intro h
  obtain ⟨plan, receipts, -, -, -, -, htimes⟩ := h etaglessSurroundings emptyCalendar
    [roundAt (noonOfDay 5), roundAt (noonOfDay 6), roundAt (noonOfDay 5), roundAt (noonOfDay 6)]
    (by decide) (by decide)
    [roundAt (noonOfDay 5), roundAt (noonOfDay 6), roundAt (noonOfDay 5)] (roundAt (noonOfDay 6)) [] rfl
  revert htimes
  decide +kernel

end PersonalOS
