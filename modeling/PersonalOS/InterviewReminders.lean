import PersonalOS.CalendarWrites
import PersonalOS.PendingCheckpoints
import PersonalOS.Keyed

/-! # Interview reminders

The prep reminder of an interview follows its time.

* **Reminder.** `interviewReminder` is the wait a plan asks for: from the first prep block that is
  still ahead, or a day before the interview.  Its dedupe key names the interview's time.
* **Superseding.** `supersede_finish` says what `PendingCheckpointStore.supersede` leaves: the row
  under the key, old or new, and every other open wait of its kind on its application cancelled.
* **One live reminder.** After a step the application has exactly one, with the trigger of the
  latest interview time, unless the row under the key is an old one that was closed or that
  triggers at another time.

Times are in microseconds here. -/

namespace PersonalOS

open Concurrent

/-! ### The reminder -/

def defaultReminderLead : Instant := hours 24

namespace InterviewSchedulePlan

def prepBlocks (plan : InterviewSchedulePlan) : List ScheduleChange :=
  plan.changes.filter (·.role = .prep)

/-- When to remind the candidate to prepare, or `none` if it is too late to. -/
def reminderAt (now : Instant) (plan : InterviewSchedulePlan) : Option Instant :=
  let upcoming := (plan.prepBlocks.map (·.startsAt)).filter fun startsAt => decide (now < startsAt)
  let moment := max (upcoming.min?.getD (plan.interviewStartsAt - defaultReminderLead)) now
  if moment < plan.interviewStartsAt then some moment else none

theorem reminderAt_bounds {plan : InterviewSchedulePlan} {now moment : Instant}
    (h : plan.reminderAt now = some moment) : now ≤ moment ∧ moment < plan.interviewStartsAt := by
  unfold reminderAt at h
  dsimp only at h
  split at h
  · rename_i hbefore
    obtain rfl := Option.some.inj h
    exact ⟨Int.le_max_right _ _, hbefore⟩
  · cases h

end InterviewSchedulePlan

/-- Identity of the prep reminder for one interview at one time. -/
def interviewReminderDedupeKey (applicationId : UUID) (startsAt : Instant) : String :=
  s!"interview_reminder:{UUID.text applicationId}:{stamp startsAt}"

/-- `_CONDITION_FOR_KIND`. -/
def conditionKindFor : FollowUpKind → ConditionKind
  | .noResponse => .recruiterResponseReceived
  | .awaitingCandidateReply => .candidateReplySent
  | .interviewPrep => .applicationClosed

/-- What a reminder is made of besides the plan. -/
structure ReminderSurroundings where
  isoformat : Instant → String
  /-- The JSON of the prep blocks' keys and times. -/
  blocksText : List ScheduleChange → String
  threadId : Option String
  workflowId : Option UUID
  /-- A fresh id. -/
  newId : CheckpointTable → UUID
  newId_fresh : ∀ table, ∀ row ∈ table.rows, row.checkpointId ≠ newId table

/-- The durable prep reminder for a planned interview, or `none` if too late. -/
def interviewReminder (surroundings : ReminderSurroundings) (checkpointId : UUID)
    (plan : InterviewSchedulePlan) (now : Instant) : Option PendingCheckpoint :=
  match h : plan.reminderAt now, surroundings.threadId.filter (· ≠ "") with
  | some remindAt, some threadId =>
      some
        { checkpointId
          applicationId := plan.applicationId
          kind := .interviewPrep
          condition :=
            { kind := conditionKindFor .interviewPrep
              subjectId := plan.applicationId
              since := some now
              params := [("interview_starts_at", surroundings.isoformat plan.interviewStartsAt),
                ("prep_blocks", surroundings.blocksText plan.prepBlocks)] }
          reason := s!"prepare for the interview at {surroundings.isoformat plan.interviewStartsAt}"
          threadId
          workflowId := surroundings.workflowId
          createdAt := now
          triggerAt := remindAt
          -- A prep reminder is worthless once the interview has started.
          expiresAt := plan.interviewStartsAt
          status := .pending
          dedupeKey := interviewReminderDedupeKey plan.applicationId plan.interviewStartsAt
          closedAt := none
          closedReason := none
          trigger_after_creation := (InterviewSchedulePlan.reminderAt_bounds h).1
          expiry_after_trigger := (InterviewSchedulePlan.reminderAt_bounds h).2 }
  | _, _ => none

theorem interviewReminder_eq_some {surroundings : ReminderSurroundings} {checkpointId : UUID}
    {plan : InterviewSchedulePlan} {now : Instant} {reminder : PendingCheckpoint}
    (h : interviewReminder surroundings checkpointId plan now = some reminder) :
    reminder.checkpointId = checkpointId ∧ reminder.applicationId = plan.applicationId ∧
      reminder.kind = .interviewPrep ∧ reminder.status = .pending ∧
      plan.reminderAt now = some reminder.triggerAt ∧
      reminder.dedupeKey = interviewReminderDedupeKey plan.applicationId plan.interviewStartsAt := by
  unfold interviewReminder at h
  split at h
  · rename_i remindAt threadId hat _
    obtain rfl := Option.some.inj h
    exact ⟨rfl, rfl, rfl, rfl, hat, rfl⟩
  · cases h

/-! ### Superseding -/

section supersede

variable {τ : Type} {t : τ} (input : CheckpointInput) {s : CheckpointState τ}
variable {reminder stored : PendingCheckpoint} {reason : String} {now : Time}

theorem close_rows (id : UUID) (status : PendingCheckpointStatus) :
    (s.close t id status reason now).2.table.rows =
      s.table.rows.map (CheckpointTable.closeRow id status reason now) := by
  unfold CheckpointState.close
  split
  · rfl
  · rename_i hpending
    have hsame : ∀ row ∈ s.table.rows, CheckpointTable.closeRow id status reason now row = row := by
      intro row hrow
      refine if_neg fun hboth => hpending ?_
      exact CheckpointTable.isPending_iff.mpr ⟨row, hrow, hboth⟩
    rw [List.map_congr_left hsame]
    exact (List.map_id _).symm

/-- A row that is among those to cancel, cancelled. -/
def cancelRow (ids : List UUID) (reason : String) (now : Time) (row : PendingCheckpoint) :
    PendingCheckpoint :=
  if row.checkpointId ∈ ids ∧ row.status = .pending then row.closed .cancelled reason now else row

theorem cancelRow_closeRow {id : UUID} {ids : List UUID} {row : PendingCheckpoint} :
    cancelRow ids reason now (CheckpointTable.closeRow id .cancelled reason now row) =
      cancelRow (id :: ids) reason now row := by
  by_cases hpending : row.status = .pending
  · by_cases hid : row.checkpointId = id
    · have hclosed : CheckpointTable.closeRow id .cancelled reason now row =
          row.closed .cancelled reason now := if_pos ⟨hid, hpending⟩
      have hnot : (row.closed .cancelled reason now).status ≠ .pending := by
        intro h
        cases h
      rw [hclosed]
      unfold cancelRow
      rw [if_neg fun hboth => hnot hboth.2, if_pos ⟨List.mem_cons.mpr (Or.inl hid), hpending⟩]
    · rw [CheckpointTable.closeRow_of_ne hid]
      unfold cancelRow
      refine if_congr (and_congr_left fun _ => ?_) rfl rfl
      rw [List.mem_cons, or_iff_right hid]
  · rw [CheckpointTable.closeRow_of_closed hpending]
    unfold cancelRow
    rw [if_neg fun hboth => hpending hboth.2, if_neg fun hboth => hpending hboth.2]

theorem closeAll_finish (ids : List UUID) (reason : String) (now : Time) (s : CheckpointState τ) :
    ∃ closed s', (PendingCheckpointStore.closeAll t .cancelled reason now ids).finish input s =
        (.ok closed, s') ∧ s'.table.rows = s.table.rows.map (cancelRow ids reason now) := by
  induction ids generalizing s with
  | nil =>
      refine ⟨[], s, rfl, ?_⟩
      have hsame : ∀ row ∈ s.table.rows, cancelRow [] reason now row = row := by
        intro row _
        exact if_neg fun hboth => absurd hboth.1 List.not_mem_nil
      rw [List.map_congr_left hsame]
      exact (List.map_id _).symm
  | cons id ids ih =>
      obtain ⟨closed, s', hfinish, hrows⟩ := ih (s.close t id .cancelled reason now).2
      have hclose : (PendingCheckpointStore.close t id .cancelled reason (some now)).finish input s =
          (.ok (s.close t id .cancelled reason now).1, (s.close t id .cancelled reason now).2) := rfl
      refine ⟨if (s.close t id .cancelled reason now).1 then id :: closed else closed, s', ?_, ?_⟩
      · rw [PendingCheckpointStore.closeAll, Prog.finish_bind_ok hclose, Prog.finish_bind_ok hfinish]
        rfl
      · rw [hrows, close_rows, List.map_map]
        exact List.map_congr_left fun row _ => cancelRow_closeRow

theorem schedule_finish (hfresh : ∀ row ∈ s.table.rows, row.checkpointId ≠ reminder.checkpointId) :
    ∃ s', (PendingCheckpointStore.schedule reminder).finish input s =
        (.ok ((s.table.rowForKey reminder.dedupeKey).getD reminder), s') ∧
      s'.table.rowForKey reminder.dedupeKey =
        some ((s.table.rowForKey reminder.dedupeKey).getD reminder) := by
  unfold PendingCheckpointStore.schedule
  rw [Prog.read_bind, Prog.finish_call]
  cases hrow : s.table.rowForKey reminder.dedupeKey with
  | some existing => exact ⟨s, rfl, hrow⟩
  | none =>
      have hkeys : ∀ row ∈ s.table.rows, row.dedupeKey ≠ reminder.dedupeKey := by
        intro row hmem hkey
        have hnot := List.find?_eq_none.mp hrow row hmem
        exact hnot (beq_iff_eq.mpr hkey)
      obtain ⟨table, hinsert⟩ : ∃ table, s.table.insert reminder = some table := by
        unfold CheckpointTable.insert
        rw [dif_pos ⟨hfresh, hkeys⟩]
        exact ⟨_, rfl⟩
      have hstate : s.insert reminder = (true, { s with table }) := by
        unfold CheckpointState.insert
        rw [hinsert]
      refine ⟨{ s with table }, ?_, ?_⟩
      · dsimp only
        rw [Prog.act_bind, Prog.finish_call, hstate]
        rfl
      · obtain ⟨hrows, -⟩ := CheckpointTable.insert_eq_some hinsert
        unfold CheckpointTable.rowForKey at hrow ⊢
        dsimp only
        rw [hrows, List.find?_append, hrow, List.find?_cons]
        simp

/-- An open prep reminder of the application. -/
def PendingCheckpoint.reminds (applicationId : UUID) (row : PendingCheckpoint) : Bool :=
  row.applicationId == applicationId && row.kind == .interviewPrep && row.status == .pending

/-- The application has exactly one open prep reminder, and it triggers then. -/
def LiveReminder (applicationId : UUID) (moment : Time) (table : CheckpointTable) : Prop :=
  ∃ row, table.rows.filter (·.reminds applicationId) = [row] ∧ row.triggerAt = moment

/-- An open wait of the reminder's kind on its application, under another key. -/
def PendingCheckpoint.stale (reminder : PendingCheckpoint) (dedupeKey : String)
    (row : PendingCheckpoint) : Bool :=
  row.applicationId == reminder.applicationId && row.kind == reminder.kind &&
    row.status == .pending && row.dedupeKey != dedupeKey

theorem mem_ids_filter {table : CheckpointTable} {p : PendingCheckpoint → Bool}
    {row : PendingCheckpoint} (hrow : row ∈ table.rows) :
    row.checkpointId ∈ (table.rows.filter p).map (·.checkpointId) ↔ p row = true := by
  constructor
  · intro hin
    obtain ⟨other, hother, hid⟩ := List.mem_map.mp hin
    obtain ⟨hotherRow, hp⟩ := List.mem_filter.mp hother
    rw [← CheckpointTable.eq_of_id hotherRow hrow hid]
    exact hp
  · intro hp
    exact List.mem_map_of_mem (f := fun row => row.checkpointId) (List.mem_filter.mpr ⟨hrow, hp⟩)

variable (reason now) in
theorem reminds_cancelRow {ids : List UUID} {row : PendingCheckpoint} {key : String}
    (hkind : reminder.kind = .interviewPrep)
    (hids : row.checkpointId ∈ ids ↔ reminder.stale key row = true) :
    ((cancelRow ids reason now row).reminds reminder.applicationId = true ↔
      row.reminds reminder.applicationId = true ∧ row.dedupeKey = key) ∧
    ((cancelRow ids reason now row).reminds reminder.applicationId = true →
      cancelRow ids reason now row = row) := by
  unfold cancelRow
  by_cases hboth : row.checkpointId ∈ ids ∧ row.status = .pending
  · rw [if_pos hboth]
    have hkeys : row.dedupeKey ≠ key := by
      have hstale := hids.mp hboth.1
      simp only [PendingCheckpoint.stale, Bool.and_eq_true, bne_iff_ne] at hstale
      exact hstale.2
    have hclosed : (row.closed .cancelled reason now).reminds reminder.applicationId = false := by
      simp [PendingCheckpoint.reminds, PendingCheckpoint.closed]
    rw [hclosed]
    simp [hkeys]
  · rw [if_neg hboth]
    refine ⟨⟨fun hreminds => ⟨hreminds, ?_⟩, fun hreminds => hreminds.1⟩, fun _ => rfl⟩
    by_contra hne
    simp only [PendingCheckpoint.reminds, Bool.and_eq_true, beq_iff_eq] at hreminds
    refine hboth ⟨hids.mpr ?_, hreminds.2⟩
    simp only [PendingCheckpoint.stale, Bool.and_eq_true, beq_iff_eq, bne_iff_ne]
    exact ⟨⟨⟨hreminds.1.1, hreminds.1.2.trans hkind.symm⟩, hreminds.2⟩, hne⟩

theorem filter_reminds_cancelled {table : CheckpointTable} {ids : List UUID}
    (hkind : reminder.kind = .interviewPrep) (hmem : stored ∈ table.rows)
    (hids : ∀ row ∈ table.rows,
      row.checkpointId ∈ ids ↔ reminder.stale stored.dedupeKey row = true) :
    (table.rows.map (cancelRow ids reason now)).filter (·.reminds reminder.applicationId) =
      [stored].filter (·.reminds reminder.applicationId) := by
  have hopen := fun row hrow => reminds_cancelRow reason now hkind (hids row hrow)
  have hsame : ∀ row ∈ table.rows, ((fun row : PendingCheckpoint =>
      row.reminds reminder.applicationId) ∘ cancelRow ids reason now) row =
        (row.reminds reminder.applicationId && decide (row.dedupeKey = stored.dedupeKey)) := by
    intro row hrow
    rw [Bool.eq_iff_iff, Bool.and_eq_true, decide_eq_true_eq]
    exact (hopen row hrow).1
  have hleft : ∀ row ∈ table.rows.filter fun row =>
      row.reminds reminder.applicationId && decide (row.dedupeKey = stored.dedupeKey),
      cancelRow ids reason now row = row := by
    intro row hrow
    obtain ⟨hrow, hboth⟩ := List.mem_filter.mp hrow
    rw [Bool.and_eq_true, decide_eq_true_eq] at hboth
    exact (hopen row hrow).2 ((hopen row hrow).1.mpr hboth)
  have hid : ∀ rows : List PendingCheckpoint, rows.map (fun row => row) = rows := List.map_id
  rw [List.filter_map, List.filter_congr hsame, List.map_congr_left hleft, hid]
  cases hreminds : stored.reminds reminder.applicationId with
  | true =>
      rw [Keyed.filter_eq_singleton table.keys_nodup hmem fun row hrow => ?_]
      · simp [hreminds]
      · rw [Bool.and_eq_true, decide_eq_true_eq]
        refine ⟨fun hboth => hboth.2, fun hkey => ⟨?_, hkey⟩⟩
        rw [Keyed.eq_of_key table.keys_nodup hrow hmem hkey]
        exact hreminds
  | false =>
      have hnone : (table.rows.filter fun row =>
          row.reminds reminder.applicationId && decide (row.dedupeKey = stored.dedupeKey)) = [] := by
        rw [List.filter_eq_nil_iff]
        intro row hrow hboth
        rw [Bool.and_eq_true, decide_eq_true_eq] at hboth
        rw [Keyed.eq_of_key table.keys_nodup hrow hmem hboth.2, hreminds] at hboth
        cases hboth.1
      rw [hnone]
      simp [hreminds]

variable (t reason) in
/-- What superseding a reminder leaves open is the row under its key, if that is open. -/
theorem supersede_finish (hfresh : ∀ row ∈ s.table.rows, row.checkpointId ≠ reminder.checkpointId)
    (hkind : reminder.kind = .interviewPrep) :
    ∃ s', (PendingCheckpointStore.supersede t reminder reason none).finish input s =
        (.ok ((s.table.rowForKey reminder.dedupeKey).getD reminder), s') ∧
      s'.table.rows.filter (·.reminds reminder.applicationId) =
        [(s.table.rowForKey reminder.dedupeKey).getD reminder].filter
          (·.reminds reminder.applicationId) := by
  generalize hthis : (s.table.rowForKey reminder.dedupeKey).getD reminder = stored
  obtain ⟨s₁, hschedule, hstored⟩ := schedule_finish input hfresh
  rw [hthis] at hschedule hstored
  obtain ⟨closed, s', hclosed, hrows⟩ := closeAll_finish (t := t) input
    ((s₁.table.rows.filter (reminder.stale stored.dedupeKey)).map (·.checkpointId)) reason
    input.clock s₁
  refine ⟨s', ?_, ?_⟩
  · have hnow : (PendingCheckpointStore.nowOr none : CheckpointProgram τ Time).finish input s =
        (.ok input.clock, s) := rfl
    unfold PendingCheckpointStore.supersede
    rw [Prog.finish_bind_ok hnow, Prog.finish_bind_ok hschedule, Prog.read_bind, Prog.finish_call]
    exact Prog.finish_bind_ok hclosed
  · rw [hrows]
    exact filter_reminds_cancelled hkind (List.mem_of_find?_eq_some hstored)
      fun row hrow => mem_ids_filter hrow

end supersede

/-! ### Steps -/

/-- One planning of an interview: its plan and when, and the clock of the store. -/
structure Replanning where
  plan : InterviewSchedulePlan
  now : Instant
  input : CheckpointInput

section steps

variable {τ : Type} (surroundings : ReminderSurroundings) (t : τ)

/-- The reminder of a plan, under a fresh id. -/
def Replanning.reminder (table : CheckpointTable) (step : Replanning) : Option PendingCheckpoint :=
  interviewReminder surroundings (surroundings.newId table) step.plan step.now

/-- Why the reminders it replaces are cancelled. -/
def Replanning.reason (step : Replanning) : String :=
  s!"superseded: the interview is now at {surroundings.isoformat step.plan.interviewStartsAt}"

/-- Supersede the prep reminder by that of the plan, if there is one. -/
def Replanning.run (s : CheckpointState τ) (step : Replanning) : CheckpointState τ :=
  match step.reminder surroundings s.table with
  | none => s
  | some reminder =>
      ((PendingCheckpointStore.supersede t reminder (step.reason surroundings) none).finish
        step.input s).2

def replanAll (steps : List Replanning) (s : CheckpointState τ) : CheckpointState τ :=
  steps.foldl (Replanning.run surroundings t) s

/-- A step leaves exactly one live reminder, unless the row under its key is an old one that was
closed or triggers at another time. -/
theorem Replanning.run_live_iff {s : CheckpointState τ} {step : Replanning}
    {reminder : PendingCheckpoint} (h : step.reminder surroundings s.table = some reminder) :
    LiveReminder step.plan.applicationId reminder.triggerAt (step.run surroundings t s).table ↔
      ∀ row, s.table.rowForKey
          (interviewReminderDedupeKey step.plan.applicationId step.plan.interviewStartsAt) = some row →
        row.reminds step.plan.applicationId = true ∧ row.triggerAt = reminder.triggerAt := by
  obtain ⟨hid, happ, hkind, hpending, -, hkey⟩ := interviewReminder_eq_some h
  have hfresh : ∀ row ∈ s.table.rows, row.checkpointId ≠ reminder.checkpointId := by
    rw [hid]
    exact surroundings.newId_fresh s.table
  have hself : reminder.reminds reminder.applicationId = true := by
    simp [PendingCheckpoint.reminds, hkind, hpending]
  obtain ⟨s', hfinish, hopen⟩ :=
    supersede_finish t step.input (step.reason surroundings) hfresh hkind
  have hrun : step.run surroundings t s = s' := by
    unfold Replanning.run
    rw [h]
    exact congrArg Prod.snd hfinish
  rw [hrun, ← hkey, ← happ]
  unfold LiveReminder
  rw [hopen]
  cases hrow : s.table.rowForKey reminder.dedupeKey with
  | none =>
      refine iff_of_true ⟨reminder, ?_, rfl⟩ fun row hsome => ?_
      · simp [hself]
      · cases hsome
  | some stored =>
      rw [Option.getD_some]
      constructor
      · rintro ⟨row, hfilter, htrigger⟩ other hother
        obtain rfl := Option.some.inj hother
        have hmem : row ∈ [stored].filter (·.reminds reminder.applicationId) := by
          rw [hfilter]
          exact List.mem_cons_self
        obtain ⟨hmem, hreminds⟩ := List.mem_filter.mp hmem
        obtain rfl := List.mem_singleton.mp hmem
        exact ⟨hreminds, htrigger⟩
      · intro hall
        obtain ⟨hreminds, htrigger⟩ := hall stored rfl
        refine ⟨stored, ?_, htrigger⟩
        simp [hreminds]

end steps

/-- **One live reminder.**  After every step of every sequence of interview plans for which there is
a reminder, the application has exactly one open prep reminder and it triggers at the time computed
for the latest plan, if and only if the row that has the reminder's key before the step, if any, is
open and triggers then. -/
theorem interview_reminder_live_iff {τ : Type} (surroundings : ReminderSurroundings) (t : τ)
    (s : CheckpointState τ) (before : List Replanning) (step : Replanning)
    {reminder : PendingCheckpoint}
    (h : step.reminder surroundings (replanAll surroundings t before s).table = some reminder) :
    LiveReminder step.plan.applicationId reminder.triggerAt
        (replanAll surroundings t (before ++ [step]) s).table ↔
      ∀ row, (replanAll surroundings t before s).table.rowForKey
          (interviewReminderDedupeKey step.plan.applicationId step.plan.interviewStartsAt) = some row →
        row.reminds step.plan.applicationId = true ∧ row.triggerAt = reminder.triggerAt := by
  have hlast : replanAll surroundings t (before ++ [step]) s =
      step.run surroundings t (replanAll surroundings t before s) := by
    unfold replanAll
    rw [List.foldl_append]
    rfl
  rw [hlast]
  exact Replanning.run_live_iff surroundings t h

/-- An interview of an hour with no prep blocks, planned at midnight of the first day. -/
def replanAt (startsAt : Instant) : Replanning where
  plan := ⟨7, interviewEventKey 7, startsAt, startsAt + hours 1, [], []⟩
  now := 0
  input := ⟨0, fun _ => .ok false, fun _ => true, fun _ => ⟨none, []⟩, fun _ => .started⟩

def plainReminders : ReminderSurroundings where
  isoformat := fun _ => ""
  blocksText := fun _ => "[]"
  threadId := some "thread"
  workflowId := none
  newId table := Keyed.fresh (table.rows.map (·.checkpointId))
  newId_fresh _ _ hrow := Nat.ne_of_lt (Keyed.lt_fresh (List.mem_map_of_mem hrow))

def noReminders : CheckpointState Unit := ⟨⟨[], List.nodup_nil, List.nodup_nil⟩, []⟩

theorem interview_reminder_live_iff_moved : ∃ moment,
    LiveReminder 7 moment
      (replanAll plainReminders () [replanAt (hours 132), replanAt (hours 156)] noReminders).table := by
  have hunused : (replanAll plainReminders () [replanAt (hours 132)] noReminders).table.rowForKey
      (interviewReminderDedupeKey 7 (hours 156)) = none := by
    rw [← Option.isNone_iff_eq_none]
    decide +kernel
  obtain ⟨reminder, hreminder⟩ : ∃ reminder, (replanAt (hours 156)).reminder plainReminders
      (replanAll plainReminders () [replanAt (hours 132)] noReminders).table = some reminder :=
    ⟨_, rfl⟩
  refine ⟨reminder.triggerAt, (interview_reminder_live_iff plainReminders () noReminders
    [replanAt (hours 132)] (replanAt (hours 156)) hreminder).mpr fun row hrow => ?_⟩
  exact absurd (hrow.symm.trans hunused) (Option.some_ne_none row)

/-- An interview that is moved and moved back has no live reminder: its own was cancelled by the
first move, and the other by the second. -/
theorem moved_back_interview_has_no_reminder :
    ¬ ∀ (surroundings : ReminderSurroundings) (before : List Replanning) (step : Replanning)
        (reminder : PendingCheckpoint),
        step.reminder surroundings (replanAll surroundings () before noReminders).table =
            some reminder →
          LiveReminder step.plan.applicationId reminder.triggerAt
            (replanAll surroundings () (before ++ [step]) noReminders).table := by
  intro h
  obtain ⟨row, hopen, -⟩ := h plainReminders [replanAt (hours 132), replanAt (hours 156)]
    (replanAt (hours 132)) _ rfl
  have hnone : ((replanAll plainReminders () [replanAt (hours 132), replanAt (hours 156),
      replanAt (hours 132)] noReminders).table.rows.filter (·.reminds 7)).length = 0 := by
    decide +kernel
  exact absurd ((congrArg List.length hopen).symm.trans hnone) Nat.one_ne_zero

end PersonalOS
