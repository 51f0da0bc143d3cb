import PersonalOS.CalendarWrites
import PersonalOS.LedgerConsistency
import PersonalOS.ScheduleReconciliation

/-! # Approved calendar writes

What becomes of one write of a plan that is approved and executed.

* **New keys.** A write under a key that was never used is made, once, and its outcome recorded
  (`executeIntent_new`).
* **Effect.** A write that the calendar takes (`ScheduleChange.Writable`) is answered, touches
  nothing but what it is about (`execute_writable`), and puts the event of its logical key where
  the change says (`execute_reconciles`). -/

namespace PersonalOS

open Concurrent

section execution

variable {surroundings : CalendarSurroundings}
variable {intent : ActionIntent CalendarPayload} {w : World} {side : CalendarSide}
variable {receipt : ActionReceipt} {calendar : Calendar}

/-! ### One write -/

theorem authorizes_approvalOf [ActionPayload CalendarPayload] :
    (approvalOf surroundings intent).authorizes intent = true := by
  simp [approvalOf, ApprovalDecision.authorizes]

/-- A program of the executor run against the calendar. -/
def CalendarExecution.of {α : Type} (surroundings : CalendarSurroundings)
    (intent : ActionIntent CalendarPayload) (p : Execution α) : CalendarExecution α :=
  p.against (CalendarSide.env surroundings intent) (CalendarSide.after surroundings intent)

theorem CalendarExecution.of_bind {α β : Type} (p : Execution α) (g : α → Execution β) :
    CalendarExecution.of surroundings intent (p >>= g) =
      CalendarExecution.of surroundings intent p >>= fun a =>
        CalendarExecution.of surroundings intent (g a) :=
  Prog.against_bind _ _ p g

theorem after_of_calls_eq {w' : World} (h : w'.calls = w.calls) :
    CalendarSide.after surroundings intent w w' side = side := by
  unfold CalendarSide.after
  rw [h]
  exact if_neg fun hboth => absurd hboth.1 (by omega)

theorem onLedger_finish {α : Type} (f : Ledger → α × Ledger) :
    (CalendarExecution.of surroundings intent (onLedger f)).finish () (w, side) =
      (.ok (f w.ledger).1, ({ w with ledger := (f w.ledger).2 }, side)) := by
  have hsame : CalendarSide.after surroundings intent w { w with ledger := (f w.ledger).2 } side = side :=
    after_of_calls_eq rfl
  change (Except.ok (f w.ledger).1, ({ w with ledger := (f w.ledger).2 },
    CalendarSide.after surroundings intent w { w with ledger := (f w.ledger).2 } side)) = _
  rw [hsame]

theorem input_finish {α : Type} (f : Env → α) :
    (CalendarExecution.of surroundings intent (Prog.input f)).finish () (w, side) =
      (.ok (f (side.env surroundings intent)), (w, side)) := by
  change (Except.ok (f (side.env surroundings intent)), (w,
    CalendarSide.after surroundings intent w w side)) = _
  rw [after_of_calls_eq rfl]

theorem read_finish {α : Type} (f : World → α) :
    (CalendarExecution.of surroundings intent (Prog.read f)).finish () (w, side) =
      (.ok (f w), (w, side)) := by
  change (Except.ok (f w), (w, CalendarSide.after surroundings intent w w side)) = _
  rw [after_of_calls_eq rfl]

/-- The world in which the provider call was just entered. -/
def entering (key : String) (w : World) : World :=
  { w with calls := .entered key (w.ledger.storedReceipt key) :: w.calls }

theorem enterProvider_finish (hdone : CalendarActionExecutor.execute surroundings.provider intent
      side.calendar = (.ok receipt, calendar)) :
    (CalendarExecution.of surroundings intent (enterProvider intent.idempotencyKey)).finish ()
      (w, side) = (.ok (), (entering intent.idempotencyKey w, ⟨calendar, .ok receipt⟩)) := by
  have hcall : CalendarSide.after surroundings intent w (entering intent.idempotencyKey w) side =
      ⟨calendar, .ok receipt⟩ := by
    unfold CalendarSide.after entering
    rw [if_pos (by simp), hdone]
  change (Except.ok (), (entering intent.idempotencyKey w,
    CalendarSide.after surroundings intent w (entering intent.idempotencyKey w) side)) = _
  rw [hcall]

theorem authorize_finish [ActionPayload CalendarPayload] :
    (CalendarExecution.of surroundings intent (ToolExecutor.authorize intent
        (some (approvalOf surroundings intent)))).finish () (w, side) =
      (.ok (ToolExecutor.authorization intent (some (approvalOf surroundings intent))
        ⟨.requireApproval, surroundings.recordId⟩), (w, side)) := by
  have happroved : ToolExecutor.approved intent (some (approvalOf surroundings intent)) = true :=
    authorizes_approvalOf
  unfold ToolExecutor.authorize
  rw [CalendarExecution.of_bind, Prog.finish_bind_ok (input_finish _)]
  have hdeny : ¬ (side.env surroundings intent).verdict.decision = .deny := by
    simp [CalendarSide.env]
  have hrefused : ¬ ((side.env surroundings intent).verdict.decision = .requireApproval ∧
      ToolExecutor.approved intent (some (approvalOf surroundings intent)) = false) := by
    simp [happroved]
  rw [if_neg hdeny, if_neg hrefused]
  rfl

/-- No later operation has succeeded yet. -/
def Unannounced (w : World) : Prop :=
  ∀ n, w.ledger.nextOperationId ≤ n → w.ledger.announced (successKey n) = false

variable (surroundings) in
theorem claim_finish [ActionPayload CalendarPayload] (side : CalendarSide) (tool : String)
    (authorization : ExecutionAuthorization)
    (hnew : w.ledger.executions intent.idempotencyKey = none) :
    ∃ row, (CalendarExecution.of surroundings intent (surroundings.executor.claim intent tool
        authorization)).finish () (w, side) = (.ok (row, true),
          ({ w with
              ledger :=
                { w.ledger.setRow intent.idempotencyKey row with
                  nextOperationId := w.ledger.nextOperationId + 1 } }, side)) ∧
      row.operationId = w.ledger.nextOperationId ∧ row.receipt = none := by
  unfold ToolExecutor.claim
  rw [CalendarExecution.of_bind, Prog.finish_bind_ok (read_finish _), hnew]
  dsimp only
  rw [onLedger_finish]
  unfold Ledger.insertClaim
  rw [hnew]
  exact ⟨_, rfl, rfl, rfl⟩

theorem recordOutcome_unannounced {l : Ledger} {key : String} {row : ToolExecution}
    (redactText : RedactText) (receipt : ActionReceipt) (entry : AuditEntry)
    (payload : List (String × Option String)) (hrow : l.executions key = some row)
    (hunannounced : l.announced (successKey row.operationId) = false) :
    ∃ payload', l.recordOutcome redactText key receipt entry ⟨"action.succeeded", payload⟩ =
      (true, l.outcome redactText key row receipt entry payload') := by
  have hno : ¬ (receipt.ok && l.announced (successKey row.operationId)) = true := by
    rw [hunannounced, Bool.and_false]
    exact Bool.false_ne_true
  refine ⟨payload ++ [("operation_id", some (toString row.operationId))], ?_⟩
  unfold Ledger.recordOutcome
  rw [hrow]
  exact if_neg hno

theorem announced_outcome {l : Ledger} {key : String} {row : ToolExecution} {redactText : RedactText}
    {entry : AuditEntry} {payload : List (String × Option String)} {n : UUID}
    (hn : n ≠ row.operationId) :
    (l.outcome redactText key row receipt entry payload).announced (successKey n) =
      l.announced (successKey n) := by
  have hkey : (successKey row.operationId == successKey n) = false := by
    rw [beq_eq_false_iff_ne]
    exact fun h => hn (successKey_inj h).symm
  unfold Ledger.outcome Ledger.announced
  dsimp only
  rw [List.any_append]
  split
  · rw [List.any_cons, hkey]
    rfl
  · rfl

theorem run_finish [ActionPayload CalendarPayload] (tool : String)
    (authorization : ExecutionAuthorization) {row : ToolExecution}
    (hrow : w.ledger.executions intent.idempotencyKey = some row) (hreceipt : row.receipt = none)
    (hunannounced : w.ledger.announced (successKey row.operationId) = false)
    (hdone : CalendarActionExecutor.execute surroundings.provider intent side.calendar =
      (.ok receipt, calendar)) :
    ∃ entry payload, (CalendarExecution.of surroundings intent (surroundings.executor.run intent tool
        authorization 1)).finish () (w, side) =
      (.ok (receipt.redact surroundings.executor.redactText),
        ({ ledger := w.ledger.outcome surroundings.executor.redactText intent.idempotencyKey row
             (receipt.redact surroundings.executor.redactText) entry payload
           calls := .entered intent.idempotencyKey none :: w.calls }, ⟨calendar, .ok receipt⟩)) := by
  have hentering : entering intent.idempotencyKey w =
      { w with calls := .entered intent.idempotencyKey none :: w.calls } := by
    unfold entering Ledger.storedReceipt
    rw [hrow, Option.bind_some, hreceipt]
  rw [ToolExecutor.run, CalendarExecution.of_bind, Prog.finish_bind_ok (enterProvider_finish hdone),
    hentering, CalendarExecution.of_bind, Prog.finish_bind_ok (input_finish _)]
  dsimp only [CalendarSide.env]
  unfold ToolExecutor.recordReceipt
  dsimp only
  rw [CalendarExecution.of_bind, Prog.finish_bind_ok (onLedger_finish _)]
  obtain ⟨payload, hrecorded⟩ := recordOutcome_unannounced surroundings.executor.redactText
    (receipt.redact surroundings.executor.redactText) (ToolExecutor.auditEntry intent tool)
    [("kind", some intent.kind.value), ("target", some intent.target),
      ("idempotency_key", some intent.idempotencyKey),
      ("external_reference", (receipt.redact surroundings.executor.redactText).externalReference)]
    hrow hunannounced
  rw [hrecorded]
  exact ⟨_, payload, rfl⟩

/-- A write under a key that was never used is made once; the other keys stay as they are. -/
theorem executeIntent_new [ActionPayload CalendarPayload] (hnew : w.ledger.executions intent.idempotencyKey = none)
    (hunannounced : Unannounced w)
    (hdone : CalendarActionExecutor.execute surroundings.provider intent side.calendar =
      (.ok receipt, calendar)) :
    ∃ w', (executeIntent surroundings intent).finish () (w, side) =
        (.ok (receipt.redact surroundings.executor.redactText), (w', ⟨calendar, .ok receipt⟩)) ∧
      w'.calls = .entered intent.idempotencyKey none :: w.calls ∧
      (∀ key, key ≠ intent.idempotencyKey → w'.ledger.executions key = w.ledger.executions key) ∧
      Unannounced w' := by
  have hfinish : (executeIntent surroundings intent).finish () (w, side) =
      (CalendarExecution.of surroundings intent (surroundings.executor.execute intent
        (some (approvalOf surroundings intent)))).finish () (w, side) := rfl
  rw [hfinish]
  unfold ToolExecutor.execute
  dsimp only
  rw [CalendarExecution.of_bind, Prog.finish_bind_ok authorize_finish]
  obtain ⟨row, hclaim, hid, hreceipt⟩ := claim_finish surroundings side
    (surroundings.executor.toolFor intent.kind)
    (ToolExecutor.authorization intent (some (approvalOf surroundings intent))
      ⟨.requireApproval, surroundings.recordId⟩) hnew
  rw [CalendarExecution.of_bind, Prog.finish_bind_ok hclaim]
  dsimp only
  rw [if_pos rfl]
  generalize hclaimed : ({ w with
    ledger :=
      { w.ledger.setRow intent.idempotencyKey row with
        nextOperationId := w.ledger.nextOperationId + 1 } } : World) = claimed
  have hrow : claimed.ledger.executions intent.idempotencyKey = some row := by
    rw [← hclaimed]
    exact Ledger.setRow_executions_self ..
  have hannounced : ∀ n, claimed.ledger.announced n = w.ledger.announced n := by
    rw [← hclaimed]
    exact fun _ => rfl
  have hfresh : claimed.ledger.announced (successKey row.operationId) = false := by
    rw [hannounced, hid]
    exact hunannounced _ (Nat.le_refl _)
  obtain ⟨entry, payload, hrun⟩ := run_finish (surroundings.executor.toolFor intent.kind)
    (ToolExecutor.authorization intent (some (approvalOf surroundings intent))
      ⟨.requireApproval, surroundings.recordId⟩) hrow hreceipt hfresh hdone
  refine ⟨_, hrun, ?_, fun key hkey => ?_, fun n hn => ?_⟩
  · rw [← hclaimed]
  · unfold Ledger.outcome
    dsimp only
    rw [Ledger.setRow_executions_ne _ _ hkey, ← hclaimed]
    exact Ledger.setRow_executions_ne _ _ hkey
  · have hnext : claimed.ledger.nextOperationId = w.ledger.nextOperationId + 1 := by rw [← hclaimed]
    have hle : w.ledger.nextOperationId + 1 ≤ n := by
      rw [← hnext]
      exact hn
    have hne : n ≠ row.operationId := by
      rw [hid]
      exact Nat.ne_of_gt hle
    rw [announced_outcome hne, hannounced]
    exact hunannounced n (Nat.le_of_succ_le hle)

end execution

/-! ### What a write does -/

/-- The calendar takes the write a change asks for: nothing was created under its key, or the event
it moves is there. -/
def ScheduleChange.Writable (calendar : Calendar) (change : ScheduleChange) : Prop :=
  if change.op = .create then
    ∀ event ∈ calendar.events,
      event.properties.lookup propIdempotencyKey ≠ some change.idempotencyKey
  else
    ∃ event ∈ calendar.events, change.eventId = some event.eventId ∧ event.eventId ≠ "" ∧
      event.logicalKey = some change.logicalKey

/-- All that a write touches is the event of its logical key. -/
structure WroteOnly (request : InterviewRequest) (change : ScheduleChange) (calendar after : Calendar) :
    Prop where
  others : ∀ key, key ≠ change.logicalKey →
    ownEvent request after.events key = ownEvent request calendar.events key
  writable : ∀ other : ScheduleChange, other.idempotencyKey ≠ change.idempotencyKey →
    other.Writable calendar → other.Writable after

section writes

variable {surroundings : CalendarSurroundings} {request : InterviewRequest} {calendar : Calendar}
variable {change : ScheduleChange} {applicationId : UUID}

theorem lookup_idempotencyKey (old : List (String × String)) (value : String) :
    (mergeProperties old [(propIdempotencyKey, value)]).lookup propIdempotencyKey = some value := by
  unfold mergeProperties
  rw [List.cons_append, List.lookup_cons, beq_self_eq_true]

theorem idempotencyKey_calendarIntent :
    (calendarIntent surroundings applicationId change).idempotencyKey = change.idempotencyKey := by
  unfold calendarIntent
  split
  · rfl
  · rfl

/-- The properties a create stamps its event with. -/
abbrev createdProperties (applicationId : UUID) (change : ScheduleChange) : List (String × String) :=
  mergeProperties (eventProperties applicationId change) [(propIdempotencyKey, change.idempotencyKey)]

theorem execute_create (surroundings : CalendarSurroundings) (applicationId : UUID)
    (hop : change.op = .create) (h : change.Writable calendar) :
    ∃ receipt title, receipt.ok = true ∧
      CalendarActionExecutor.execute surroundings.provider
          (calendarIntent surroundings applicationId change) calendar =
        (.ok receipt, (calendar.createEvent surroundings.provider title change.startsAt change.endsAt
          (createdProperties applicationId change)).2) := by
  have hnone : CalendarActionExecutor.createdBy (calendarIntent surroundings applicationId change)
      calendar = none := by
    unfold ScheduleChange.Writable at h
    rw [if_pos hop] at h
    unfold CalendarActionExecutor.createdBy
    rw [idempotencyKey_calendarIntent, List.find?_eq_none]
    intro event hevent
    simpa using h event hevent
  have hkind : (calendarIntent surroundings applicationId change).kind = .createCalendarEvent := by
    unfold calendarIntent
    rw [if_pos hop]
  unfold CalendarActionExecutor.execute
  rw [hkind]
  dsimp only
  unfold CalendarActionExecutor.create
  rw [hnone]
  unfold calendarIntent
  rw [if_pos hop]
  exact ⟨_, _, rfl, rfl⟩

theorem createEvent_wroteOnly (title : String) :
    WroteOnly request change calendar (calendar.createEvent surroundings.provider title
      change.startsAt change.endsAt (createdProperties applicationId change)).2 where
  others key hkey := Calendar.ownEvent_createEvent_ne
    (Calendar.lookup_stampedProperties applicationId change change.idempotencyKey).2 hkey
  writable other hother h := by
    unfold ScheduleChange.Writable at h ⊢
    split
    next hcreate =>
      rw [if_pos hcreate] at h
      intro event hevent
      rcases List.mem_append.mp hevent with hold | hnew
      · exact h event hold
      · obtain rfl := List.mem_singleton.mp hnew
        dsimp only
        rw [lookup_idempotencyKey]
        exact fun heq => hother (Option.some.inj heq).symm
    next hcreate =>
      rw [if_neg hcreate] at h
      obtain ⟨event, hevent, hwhich⟩ := h
      exact ⟨event, List.mem_append_left _ hevent, hwhich⟩

theorem execute_update (surroundings : CalendarSurroundings) (applicationId : UUID)
    {event : CalendarEvent} (hop : change.op = .update) (hevent : event ∈ calendar.events)
    (hid : change.eventId = some event.eventId) (hne : event.eventId ≠ "") :
    ∃ receipt title, receipt.ok = true ∧
      CalendarActionExecutor.execute surroundings.provider
          (calendarIntent surroundings applicationId change) calendar =
        (.ok receipt, if (event.startsAt, event.endsAt) = change.slot then calendar
          else calendar.updateEvent surroundings.provider event.eventId title change.startsAt
            change.endsAt [(propIdempotencyKey, change.idempotencyKey)]) := by
  have hcreate : ¬ change.op = .create := by
    rw [hop]
    decide
  obtain ⟨intent, hintent⟩ : ∃ intent, intent = calendarIntent surroundings applicationId change :=
    ⟨_, rfl⟩
  have hpayload : intent.kind = .updateCalendarEvent ∧ intent.payload.eventId = some event.eventId ∧
      intent.payload.startsAt = change.startsAt ∧ intent.payload.endsAt = change.endsAt ∧
      intent.idempotencyKey = change.idempotencyKey := by
    rw [hintent]
    unfold calendarIntent
    rw [if_neg hcreate]
    exact ⟨rfl, hid, rfl, rfl, rfl⟩
  obtain ⟨hkind, hpayloadId, hstart, hend, hkey⟩ := hpayload
  have hfilter : (some event.eventId).filter (fun eventId => decide (eventId ≠ "")) =
      some event.eventId := by
    rw [Option.filter_some, if_pos (decide_eq_true hne)]
  have hget : calendar.getEvent event.eventId = some event :=
    Keyed.lookup_of_mem calendar.ids_nodup hevent
  rw [← hintent]
  unfold CalendarActionExecutor.execute
  rw [hkind]
  dsimp only
  unfold CalendarActionExecutor.update
  rw [hpayloadId, hfilter]
  dsimp only
  rw [hget]
  dsimp only
  unfold CalendarActionExecutor.alreadyAt ScheduleChange.slot
  rw [hstart, hend, hkey]
  by_cases hslot : (event.startsAt, event.endsAt) = (change.startsAt, change.endsAt)
  · rw [if_pos (beq_iff_eq.mpr hslot)]
    refine ⟨CalendarActionExecutor.receipt intent event
      "already at the requested time; not updated again", "", rfl, ?_⟩
    rw [if_pos hslot]
  · rw [if_neg (by simpa using hslot)]
    refine ⟨CalendarActionExecutor.receipt intent event "moved",
      if intent.payload.title = "" then event.title else intent.payload.title, rfl, ?_⟩
    rw [if_neg hslot]

theorem updateEvent_wroteOnly {event : CalendarEvent} (title : String)
    (hevent : event ∈ calendar.events) (hkey : event.logicalKey = some change.logicalKey) :
    WroteOnly request change calendar (calendar.updateEvent surroundings.provider event.eventId title
      change.startsAt change.endsAt [(propIdempotencyKey, change.idempotencyKey)]) where
  others key hother := Calendar.ownEvent_updateEvent_ne hevent hkey hother
  writable other hother h := by
    unfold ScheduleChange.Writable at h ⊢
    rw [Calendar.events_updateEvent]
    split
    next hcreate =>
      rw [if_pos hcreate] at h
      intro written hwritten
      obtain ⟨e, he, rfl⟩ := List.mem_map.mp hwritten
      unfold Calendar.rewrite
      split
      · unfold Calendar.moved
        dsimp only
        rw [lookup_idempotencyKey]
        exact fun heq => hother (Option.some.inj heq).symm
      · exact h e he
    next hcreate =>
      rw [if_neg hcreate] at h
      obtain ⟨e, he, hid, hne, hlogical⟩ := h
      have hsame : (calendar.rewrite surroundings.provider event.eventId title change.startsAt
          change.endsAt change.idempotencyKey e).eventId = e.eventId := by
        unfold Calendar.rewrite
        split
        · rfl
        · rfl
      refine ⟨_, List.mem_map_of_mem he, ?_, ?_, ?_⟩
      · rw [hsame]
        exact hid
      · rw [hsame]
        exact hne
      · rw [Calendar.logicalKey_rewrite]
        exact hlogical

/-- A write that the calendar takes is answered, and touches nothing but what it is about. -/
theorem execute_writable (surroundings : CalendarSurroundings) (applicationId : UUID)
    (request : InterviewRequest) (hkeep : change.op ≠ .keep)
    (h : change.Writable calendar) :
    ∃ receipt after, receipt.ok = true ∧
      CalendarActionExecutor.execute surroundings.provider
        (calendarIntent surroundings applicationId change) calendar = (.ok receipt, after) ∧
      WroteOnly request change calendar after := by
  cases hop : change.op with
  | create =>
      obtain ⟨receipt, title, hok, hexecute⟩ := execute_create surroundings applicationId hop h
      exact ⟨receipt, _, hok, hexecute, createEvent_wroteOnly title⟩
  | update =>
      unfold ScheduleChange.Writable at h
      rw [if_neg (by rw [hop]; decide)] at h
      obtain ⟨event, hevent, hid, hne, hlogical⟩ := h
      obtain ⟨receipt, title, hok, hexecute⟩ := execute_update surroundings applicationId hop
        hevent hid hne
      refine ⟨receipt, _, hok, hexecute, ?_⟩
      split
      · exact ⟨fun _ _ => rfl, fun _ _ hwritable => hwritable⟩
      · exact updateEvent_wroteOnly title hevent hlogical
  | keep => exact absurd hop hkeep

variable (surroundings) in
/-- The change a plan has for a logical key puts its event where the change says. -/
theorem execute_reconciles (hkeep : change.op ≠ .keep) (h : change.Writable calendar)
    (hreconciles : change.Reconciles request calendar.events) :
    ownTimes request (CalendarActionExecutor.execute surroundings.provider
      (calendarIntent surroundings request.applicationId change) calendar).2.events
        change.logicalKey = some change.slot := by
  obtain ⟨hkey, name, hchange⟩ := hreconciles
  unfold ownTimes
  cases hown : ownEvent request calendar.events change.logicalKey with
  | none =>
      rw [hown] at hchange
      have hop : change.op = .create := by rw [hchange]; rfl
      obtain ⟨receipt, title, -, hexecute⟩ := execute_create surroundings request.applicationId hop h
      obtain ⟨happ, hlogical⟩ :=
        Calendar.lookup_stampedProperties request.applicationId change change.idempotencyKey
      obtain ⟨-, -, hthis⟩ := Calendar.createEvent_reads surroundings.provider title
        change.startsAt change.endsAt hown hkey happ hlogical
      rw [hexecute]
      dsimp only
      rw [hthis]
      rfl
  | some event =>
      rw [hown] at hchange
      have hid : change.eventId = some event.eventId := by rw [hchange]; rfl
      have hmoved : (event.startsAt, event.endsAt) ≠ change.slot := by
        intro hslot
        apply hkeep
        rw [hchange]
        exact if_neg (not_not.mpr hslot)
      have hop : change.op = .update := by
        rw [hchange]
        exact if_pos hmoved
      have hne : event.eventId ≠ "" := by
        unfold ScheduleChange.Writable at h
        rw [if_neg (by rw [hop]; decide)] at h
        obtain ⟨named, -, hnamed, hne, -⟩ := h
        rw [Option.some.inj (hid.symm.trans hnamed)]
        exact hne
      obtain ⟨receipt, title, -, hexecute⟩ := execute_update surroundings request.applicationId
        hop (ownEvent_eq_some hown).1 hid hne
      obtain ⟨-, -, hthis⟩ := Calendar.updateEvent_reads surroundings.provider title
        change.startsAt change.endsAt change.idempotencyKey hown
      rw [hexecute, if_neg hmoved]
      dsimp only
      rw [hthis]
      rfl

end writes

end PersonalOS
