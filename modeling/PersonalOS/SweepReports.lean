import PersonalOS.FiredOnce

/-! # Sweep reports

Whether what a sweep reports is what it did, whoever else closes checkpoints meanwhile.

* **History.** Besides the events of the table, the attempts of a sweep to cancel a checkpoint with
  nothing to resume are remembered (`CancelTry`).  Nothing else about the monitor is changed
  (`notedPool_erases`).
* **Accounts.** `Account` lists what a sweep can have done with a checkpoint it reports in a bucket;
  `handleNoted_spec` is one checkpoint and `sweepNoted_spec` the sweep.
* **Reports.** Every checkpoint looked at is in exactly one bucket, and the resolved, expired and
  fired ones were closed so by this sweep.  A checkpoint is reported as cancelled even where another
  process has closed it. -/

namespace PersonalOS

open Concurrent Concurrent.Prog

/-- An attempt of a sweep to cancel a checkpoint with nothing to resume. -/
structure CancelTry (τ : Type) where
  process : τ
  checkpointId : UUID
deriving DecidableEq

abbrev NotedState (τ : Type) := CheckpointState τ × List (CancelTry τ)

abbrev NotedProgram (τ : Type) := Prog CheckpointInput (NotedState τ) CheckpointError

section noted

variable {τ α : Type} (t : τ)

/-- A program of which nothing is remembered. -/
def quietly (p : CheckpointProgram τ α) : NotedProgram τ α := p.noting fun _ _ _ => none

/-- The guarded close of a checkpoint with nothing to resume. -/
def cancelNoted (checkpointId : UUID) (reason : String) (now : Time) : NotedProgram τ Bool :=
  act fun _ x => ((x.1.close t checkpointId .cancelled reason now).1,
    (x.1.close t checkpointId .cancelled reason now).2, ⟨t, checkpointId⟩ :: x.2)

open PendingCheckpointMonitor PendingCheckpointStore

/-- `fire`, with its cancellations remembered. -/
def fireNoted (checkpoint : PendingCheckpoint) (now : Time) : NotedProgram τ Bucket := do
  if ← quietly (input (·.registered checkpoint.threadId)) then
    let state ← quietly (input (·.inspect checkpoint.threadId))
    if state.checkpointId = none then
      let _ ← cancelNoted t checkpoint.checkpointId
        s!"thread '{checkpoint.threadId}' has no stored state to follow up on" now
      return .cancelled
    else if state.next ≠ [] then return .deferred
    else if ← quietly (close t checkpoint.checkpointId .fired
        (s!"trigger {checkpoint.triggerAt} reached with " ++
          s!"{checkpoint.condition.describe} still unmet") (some now)) then
      match ← quietly (startGraph t checkpoint) with
      | .started => return .fired
      | .leaseUnavailable => return .failed
      | .raised _ => return .failed
    else return .deferred
  else
    let _ ← cancelNoted t checkpoint.checkpointId
      (s!"thread '{checkpoint.threadId}' is not registered to any workflow; " ++
        "there is nothing to resume") now
    return .cancelled

/-- `handle`, with its cancellations remembered. -/
def handleNoted (checkpoint : PendingCheckpoint) (now : Time) : NotedProgram τ Bucket := do
  let conditionMet ← quietly (isMet t checkpoint)
  match decideCheckpoint checkpoint conditionMet now with
  | .error error => raise error
  | .ok .wait => return .waiting
  | .ok .resolve =>
      if ← quietly (close t checkpoint.checkpointId .resolved
          s!"condition met before the trigger fired: {checkpoint.condition.describe}" (some now)) then
        return .resolved
      else return .deferred
  | .ok .expire =>
      if ← quietly (close t checkpoint.checkpointId .expired
          (s!"expiry {checkpoint.expiresAt} passed without firing; " ++
            "a follow-up this late is not worth sending") (some now)) then
        return .expired
      else return .deferred
  | .ok .fire => fireNoted t checkpoint now

def handleAllNoted (now : Time) :
    List PendingCheckpoint → SweepReport → NotedProgram τ SweepReport
  | [], report => return report
  | checkpoint :: rest, report => do
      let bucket ← handleNoted t checkpoint now
      handleAllNoted now rest (report.add checkpoint.checkpointId bucket)

/-- `sweep`, with its cancellations remembered. -/
def sweepNoted (now : Option Time) (limit : ℕ) : NotedProgram τ SweepReport := do
  let now ← quietly (nowOr now)
  let checkpoints ← quietly (read fun s => s.table.due now limit)
  handleAllNoted t now checkpoints .empty

/-- A task and the report it returns, if it is a sweep. -/
def CheckpointTask.answer : CheckpointTask → CheckpointProgram τ (Option SweepReport)
  | .sweep now limit => do
      let report ← PendingCheckpointMonitor.sweep t now limit
      return some report
  | task => do
      let _ ← task.program t
      return none

def CheckpointTask.noted : CheckpointTask → NotedProgram τ (Option SweepReport)
  | .sweep now limit => do
      let report ← sweepNoted t now limit
      return some report
  | task => do
      let _ ← quietly (task.program t)
      return none

/-- The processes on a table, and the reports of the sweeps among them. -/
def reportingPool (tasks : τ → CheckpointTask) (table : CheckpointTable) :
    Pool τ CheckpointInput (CheckpointState τ) CheckpointError (Option SweepReport) where
  procs t := (tasks t).answer t
  state := ⟨table, []⟩

/-- The same processes, with the cancellations of the sweeps remembered. -/
def notedPool (tasks : τ → CheckpointTask) (table : CheckpointTable) :
    Pool τ CheckpointInput (NotedState τ) CheckpointError (Option SweepReport) where
  procs t := (tasks t).noted t
  state := (⟨table, []⟩, [])

/-! ### Nothing else is changed -/

theorem quietly_erases (p : CheckpointProgram τ α) : Erases (quietly p) p := noting_erases _ p

theorem cancelNoted_erases (checkpointId : UUID) (reason : String) (now : Time) :
    Erases (cancelNoted t checkpointId reason now)
      (close t checkpointId .cancelled reason (some now)) :=
  ⟨_, _, rfl, fun _ _ => ⟨rfl, rfl⟩, fun _ => rfl⟩

theorem fireNoted_erases (checkpoint : PendingCheckpoint) (now : Time) :
    Erases (fireNoted t checkpoint now) (fire t checkpoint now) := by
  unfold fireNoted fire
  refine (quietly_erases _).bind fun registered => ?_
  split
  · refine (quietly_erases _).bind fun state => ?_
    split
    · exact (cancelNoted_erases t _ _ _).bind fun _ => rfl
    split
    · rfl
    refine (quietly_erases _).bind fun won => ?_
    split
    · refine (quietly_erases _).bind fun outcome => ?_
      cases outcome with
      | started => rfl
      | leaseUnavailable => rfl
      | raised message => rfl
    · rfl
  · exact (cancelNoted_erases t _ _ _).bind fun _ => rfl

theorem handleNoted_erases (checkpoint : PendingCheckpoint) (now : Time) :
    Erases (handleNoted t checkpoint now) (handle t checkpoint now) := by
  unfold handleNoted handle
  refine (quietly_erases _).bind fun met => ?_
  cases decideCheckpoint checkpoint met now with
  | error error => rfl
  | ok outcome =>
      cases outcome with
      | wait => rfl
      | resolve =>
          refine (quietly_erases _).bind fun won => ?_
          cases won with
          | true => rfl
          | false => rfl
      | expire =>
          refine (quietly_erases _).bind fun won => ?_
          cases won with
          | true => rfl
          | false => rfl
      | fire => exact fireNoted_erases t checkpoint now

theorem handleAllNoted_erases (now : Time) (checkpoints : List PendingCheckpoint)
    (report : SweepReport) :
    Erases (handleAllNoted t now checkpoints report) (handleAll t now checkpoints report) := by
  induction checkpoints generalizing report with
  | nil => rfl
  | cons checkpoint rest ih => exact (handleNoted_erases t checkpoint now).bind fun _ => ih _

theorem noted_erases (task : CheckpointTask) : Erases (task.noted t) (task.answer t) := by
  cases task with
  | sweep now limit =>
      have hsweep : Erases (sweepNoted t now limit)
          (PendingCheckpointMonitor.sweep t now limit) :=
        (quietly_erases _).bind fun _ => (quietly_erases _).bind fun _ => handleAllNoted_erases t ..
      exact hsweep.bind fun _ => rfl
  | cancel checkpointId reason now => exact (quietly_erases _).bind fun _ => rfl
  | schedule checkpoint => exact (quietly_erases _).bind fun _ => rfl
  | reschedule checkpoint reason => exact (quietly_erases _).bind fun _ => rfl
  | resolveMatching kind subjectId reason occurredAt now =>
      exact (quietly_erases _).bind fun _ => rfl

/-- What is remembered changes nothing about the table and its events. -/
theorem notedPool_erases [DecidableEq τ] (tasks : τ → CheckpointTask) (table : CheckpointTable)
    (sched : List (τ × CheckpointInput)) :
    ((notedPool tasks table).run sched).state.1 = ((reportingPool tasks table).run sched).state :=
  Pool.run_erases (fun t => noted_erases t (tasks t)) rfl sched

end noted

/-! ### What one process has done -/

section own

variable {τ : Type} [DecidableEq τ] {t u : τ} {x x' : NotedState τ}

/-- The events of process `t`, and its attempts to cancel. -/
def own (t : τ) (x : NotedState τ) : List (CheckpointEvent τ) × List (CancelTry τ) :=
  (x.1.events.filter (·.process = t), x.2.filter (·.process = t))

/-- Process `u` adds nothing to what others have done. -/
def Minds (u : τ) (x x' : NotedState τ) : Prop := ∀ t, t ≠ u → own t x' = own t x

theorem own_event {s' : CheckpointState τ} {e : CheckpointEvent τ} {tries : List (CancelTry τ)}
    {s : CheckpointState τ} (h : s'.events = e :: s.events) (t : τ) :
    own t (s', tries) =
      (if e.process = t then e :: (own t (s, tries)).1 else (own t (s, tries)).1, (own t (s, tries)).2) := by
  unfold own
  rw [h, List.filter_cons]
  simp only [decide_eq_true_eq]

theorem own_try {s : CheckpointState τ} {c : CancelTry τ} {tries : List (CancelTry τ)} (t : τ) :
    own t (s, c :: tries) =
      ((own t (s, tries)).1, if c.process = t then c :: (own t (s, tries)).2 else (own t (s, tries)).2) := by
  unfold own
  rw [List.filter_cons]
  simp only [decide_eq_true_eq]

/-- Somebody has closed each checkpoint that was to be cancelled. -/
def AllClosed (x : NotedState τ) : Prop :=
  ∀ c ∈ x.2, ∃ u status now, .closed u c.checkpointId status now ∈ x.1.events

/-- What the table and the history show is not taken back. -/
structure Kept (x x' : NotedState τ) : Prop where
  waits : WaitsKept x.1 x'.1
  traced : ∀ checkpoint, Traced checkpoint x.1 → Traced checkpoint x'.1
  tries : AllClosed x → AllClosed x'

omit [DecidableEq τ] in
theorem Kept.refl (x : NotedState τ) : Kept x x :=
  ⟨fun row hrow => ⟨row, hrow, rfl⟩, fun _ h => h, fun h => h⟩

omit [DecidableEq τ] in
theorem Kept.trans {x₁ x₂ x₃ : NotedState τ} (h₁ : Kept x₁ x₂) (h₂ : Kept x₂ x₃) : Kept x₁ x₃ :=
  ⟨h₁.waits.trans h₂.waits, fun _ h => h₂.traced _ (h₁.traced _ h), fun h => h₂.tries (h₁.tries h)⟩

omit [DecidableEq τ] in
theorem AllClosed.later (h : AllClosed x) {s' : CheckpointState τ}
    (hevents : x.1.events ⊆ s'.events) : AllClosed (s', x.2) := by
  intro c hc
  obtain ⟨u, status, now, hmem⟩ := h c hc
  exact ⟨u, status, now, hevents hmem⟩

omit [DecidableEq τ] in
theorem Kept.record (x : NotedState τ) (e : CheckpointEvent τ) : Kept x (x.1.record e, x.2) :=
  ⟨fun row hrow => ⟨row, hrow, rfl⟩, fun _ h => h.record e, fun h => h.later (List.subset_cons_self ..)⟩

omit [DecidableEq τ] in
theorem Kept.close (x : NotedState τ) (t : τ) (id : UUID) (status : PendingCheckpointStatus)
    (reason : String) (now : Time) :
    Kept x ({ table := x.1.table.close id status reason now
              events := .closed t id status now :: x.1.events }, x.2) where
  waits row hrow :=
    ⟨_, CheckpointTable.mem_close.mpr ⟨row, hrow, rfl⟩, CheckpointTable.closeRow_wait ..⟩
  traced _ h := h.close t id status reason now
  tries h := h.later (List.subset_cons_self ..)

omit [DecidableEq τ] in
/-- An attempt to cancel is kept if somebody has closed the checkpoint by then. -/
theorem Kept.tried (h : Kept x x') {c : CancelTry τ}
    (hc : ∃ u status now, .closed u c.checkpointId status now ∈ x'.1.events) :
    Kept x (x'.1, c :: x'.2) where
  waits := h.waits
  traced := h.traced
  tries hclosed := List.forall_mem_cons.mpr ⟨hc, h.tries hclosed⟩

omit [DecidableEq τ] in
theorem CheckpointStep.kept {s s' : CheckpointState τ} (h : CheckpointStep u s s')
    (tries : List (CancelTry τ)) : Kept (s, tries) (s', tries) := by
  refine ⟨h.waitsKept, fun _ htraced => htraced.step h, fun hclosed => ?_⟩
  cases h with
  | quiet => exact hclosed
  | asked checkpointId met => exact hclosed.later (List.subset_cons_self ..)
  | inserted checkpoint table _ => exact hclosed
  | closed checkpointId status reason now _ _ _ => exact hclosed.later (List.subset_cons_self ..)
  | started checkpointId now _ _ => exact hclosed.later (List.subset_cons_self ..)

/-- The contract of process `t`: nobody else adds to what it has done, or takes back what is
shown. -/
def reportContract (t : τ) : Contract (NotedState τ) where
  rely x x' := own t x' = own t x ∧ Kept x x'
  guar x x' := Minds t x x' ∧ Kept x x'
  assume _ _ := True
  rely_refl x := ⟨rfl, .refl x⟩
  rely_trans h₁ h₂ := ⟨h₂.1.trans h₁.1, h₁.2.trans h₂.2⟩

theorem mem_own {e : CheckpointEvent τ} (h : e.process = t) : e ∈ (own t x).1 ↔ e ∈ x.1.events := by
  unfold own
  rw [List.mem_filter, decide_eq_true_eq]
  exact and_iff_left h

/-- What a step of the monitor or of a store adds is its own. -/
theorem CheckpointStep.minds {s s' : CheckpointState τ} (h : CheckpointStep u s s')
    (tries : List (CancelTry τ)) : Minds u (s, tries) (s', tries) := by
  intro t ht
  have hcons : ∀ e : CheckpointEvent τ, e.process = u → ∀ s' : CheckpointState τ,
      s'.events = e :: s.events → own t (s', tries) = own t (s, tries) := by
    intro e he s' hs'
    rw [own_event hs', if_neg fun hthis => ht (hthis.symm.trans he)]
  cases h with
  | quiet => rfl
  | asked checkpointId met => exact hcons _ rfl _ rfl
  | inserted checkpoint table _ => rfl
  | closed checkpointId status reason now _ _ _ => exact hcons _ rfl _ rfl
  | started checkpointId now _ _ => exact hcons _ rfl _ rfl

end own

/-! ### One checkpoint -/

/-- The status in which the checkpoints of a bucket were closed. -/
def Bucket.status : Bucket → Option PendingCheckpointStatus
  | .resolved => some .resolved
  | .fired => some .fired
  | .expired => some .expired
  | .cancelled => some .cancelled
  | _ => none

/-- What process `t` can have done with a checkpoint it reports in a bucket, newest first. -/
inductive Account {τ : Type} (t : τ) (id : UUID) :
    Bucket → List (CheckpointEvent τ) → List (CancelTry τ) → Prop where
  | left (bucket : Bucket) (met : Option Bool) : bucket.status = none →
      Account t id bucket [.asked t id met] []
  | closed (bucket : Bucket) (status : PendingCheckpointStatus) (met : Option Bool) (now : Time) :
      bucket.status = some status → bucket ≠ .cancelled →
      Account t id bucket [.closed t id status now, .asked t id met] []
  | started (bucket : Bucket) (met : Option Bool) (now : Time) : bucket = .fired ∨ bucket = .failed →
      Account t id bucket [.started t id, .closed t id .fired now, .asked t id met] []
  | cancelled (met : Option Bool) (now : Time) :
      Account t id .cancelled [.closed t id .cancelled now, .asked t id met] [⟨t, id⟩]
  /-- Somebody else had closed it. -/
  | late (met : Option Bool) : Account t id .cancelled [.asked t id met] [⟨t, id⟩]

section handle

variable {τ : Type} [DecidableEq τ] {t : τ} {x x₁ : NotedState τ} {id : UUID} {α β : Type}
variable {Q : α → NotedState τ → Prop} {E : CheckpointError → NotedState τ → Prop}
variable {o : List (CheckpointEvent τ) × List (CancelTry τ)} {met : Option Bool}

/-- The checkpoint was reported in the bucket, by a process that had done `o` before. -/
def Reported (t : τ) (id : UUID) (o : List (CheckpointEvent τ) × List (CancelTry τ)) (bucket : Bucket)
    (x : NotedState τ) : Prop :=
  ∃ es ts, own t x = (es ++ o.1, ts ++ o.2) ∧ Account t id bucket es ts

/-- A step that only looks. -/
theorem wp_glance {f : CheckpointInput → CheckpointState τ → β} {k : β → NotedProgram τ α}
    (h : ∀ i x₁, own t x₁ = own t x → Kept x x₁ → (k (f i x₁.1)).wp (reportContract t) Q E x₁) :
    (quietly (act fun i s => (f i s, s)) >>= k).wp (reportContract t) Q E x :=
  fun x₁ hr i _ => ⟨⟨fun _ _ => rfl, .refl x₁⟩, h i x₁ hr.1 hr.2⟩

theorem wp_reported {bucket : Bucket} {es : List (CheckpointEvent τ)} {ts : List (CancelTry τ)}
    (h : own t x = (es ++ o.1, ts ++ o.2)) (haccount : Account t id bucket es ts) :
    (ret bucket : NotedProgram τ Bucket).wp (reportContract t) (Reported t id o) (fun _ _ => True) x :=
  fun _ hr => ⟨es, ts, hr.1.trans h, haccount⟩

theorem minds_event {s' : CheckpointState τ} {e : CheckpointEvent τ}
    (hs' : s'.events = e :: x.1.events) (he : e.process = t) : Minds t x (s', x.2) := by
  intro u hu
  rw [own_event hs', if_neg fun hthis => hu (hthis.symm.trans he)]

theorem own_event_self {s' : CheckpointState τ} {e : CheckpointEvent τ}
    (hs' : s'.events = e :: x.1.events) (he : e.process = t) :
    own t (s', x.2) = (e :: (own t x).1, (own t x).2) := by
  rw [own_event hs', if_pos he]

/-- The guarded `UPDATE`: it went through and is the process's newest event, or it did nothing. -/
theorem wp_closeNoted {status : PendingCheckpointStatus} {reason : String} {now : Time}
    {k : Bool → NotedProgram τ α} (hstatus : status ≠ .pending)
    (hwon : ∀ x₁, own t x₁ = (.closed t id status now :: (own t x).1, (own t x).2) →
      (k true).wp (reportContract t) Q E x₁)
    (hlost : ∀ x₁, own t x₁ = own t x → (k false).wp (reportContract t) Q E x₁) :
    (quietly (PendingCheckpointStore.close t id status reason (some now)) >>= k).wp
      (reportContract t) Q E x := by
  unfold PendingCheckpointStore.close
  rw [if_neg hstatus]
  intro x₁ hr i _
  dsimp only [CheckpointState.close]
  split
  · refine ⟨⟨minds_event rfl rfl, .close x₁ t id status reason now⟩, hwon _ ?_⟩
    rw [← hr.1]
    exact own_event_self rfl rfl
  · exact ⟨⟨fun _ _ => rfl, .refl x₁⟩, hlost _ hr.1⟩

omit [DecidableEq τ] in
/-- A checkpoint that is not pending any more has been closed. -/
theorem closed_of_traced {checkpoint : PendingCheckpoint} {s : CheckpointState τ}
    (h : Traced checkpoint s) (hpending : s.table.isPending checkpoint.checkpointId = false) :
    ∃ u status now, .closed u checkpoint.checkpointId status now ∈ s.events := by
  obtain ⟨row, hrow, hwait, hstatus | ⟨u, now, hmem⟩⟩ := h
  · have hthere : s.table.isPending checkpoint.checkpointId = true :=
      CheckpointTable.isPending_iff.mpr
        ⟨row, hrow, PendingCheckpoint.checkpointId_of_wait hwait, hstatus⟩
    rw [hpending] at hthere
    cases hthere
  · exact ⟨u, _, now, hmem⟩

/-- A cancellation is reported, whether it went through or not. -/
theorem wp_cancelNoted {checkpoint : PendingCheckpoint} {reason : String} {now : Time}
    (htraced : Traced checkpoint x.1)
    (h : own t x = (.asked t checkpoint.checkpointId met :: o.1, o.2)) :
    (cancelNoted t checkpoint.checkpointId reason now >>= fun _ =>
      (ret .cancelled : NotedProgram τ Bucket)).wp (reportContract t)
        (Reported t checkpoint.checkpointId o) (fun _ _ => True) x := by
  intro x₁ hr i _
  dsimp only [CheckpointState.close]
  cases hpending : x₁.1.table.isPending checkpoint.checkpointId with
  | true =>
      rw [if_pos rfl]
      dsimp only
      refine ⟨⟨fun u hu => ?_, (Kept.close x₁ t _ .cancelled reason now).tried
        ⟨t, .cancelled, now, List.mem_cons_self⟩⟩, wp_reported ?_ (.cancelled met now)⟩
      · rw [own_try, if_neg fun hthis => hu hthis.symm]
        exact minds_event (e := .closed t checkpoint.checkpointId .cancelled now) rfl rfl u hu
      · have hown := @own_event_self _ _ t x₁
          ⟨x₁.1.table.close checkpoint.checkpointId .cancelled reason now, _⟩
          (.closed t checkpoint.checkpointId .cancelled now) rfl rfl
        rw [own_try, if_pos rfl, hown, hr.1, h]
        rfl
  | false =>
      rw [if_neg Bool.false_ne_true]
      dsimp only
      refine ⟨⟨fun u hu => ?_, (Kept.refl x₁).tried
        (closed_of_traced (hr.2.traced _ htraced) hpending)⟩, wp_reported ?_ (.late met)⟩
      · rw [own_try, if_neg fun hthis => hu hthis.symm]
      · have hown : own t (x₁.1, x₁.2) = own t x := hr.1
        rw [own_try, if_pos rfl, hown, h]
        rfl

/-- A start is the process's newest event, whatever became of the graph. -/
theorem wp_startNoted {checkpoint : PendingCheckpoint} {k : GraphStart → NotedProgram τ α}
    (h : ∀ outcome x₁, own t x₁ = (.started t checkpoint.checkpointId :: (own t x).1, (own t x).2) →
      (k outcome).wp (reportContract t) Q E x₁) :
    (quietly (PendingCheckpointMonitor.startGraph t checkpoint) >>= k).wp (reportContract t) Q E x := by
  intro x₁ hr i _
  refine ⟨⟨minds_event rfl rfl, .record x₁ _⟩, h _ _ ?_⟩
  rw [← hr.1]
  exact own_event_self rfl rfl

/-- The evaluator is asked, and its exception is the sweep's. -/
theorem wp_isMetNoted {checkpoint : PendingCheckpoint} {k : Bool → NotedProgram τ α}
    (h : ∀ met x₁, own t x₁ = (.asked t checkpoint.checkpointId (some met) :: (own t x).1, (own t x).2) →
      Kept x x₁ → (k met).wp (reportContract t) Q (fun _ _ => True) x₁) :
    (quietly (PendingCheckpointMonitor.isMet t checkpoint) >>= k).wp (reportContract t) Q
      (fun _ _ => True) x := by
  intro x₁ hr i _
  refine ⟨⟨minds_event rfl rfl, .record x₁ _⟩, ?_⟩
  dsimp only
  have hown : own t (x₁.1.record (.asked t checkpoint.checkpointId
      (i.isMet checkpoint.condition).toOption), x₁.2) =
        (.asked t checkpoint.checkpointId (i.isMet checkpoint.condition).toOption :: (own t x).1,
          (own t x).2) := by
    rw [← hr.1]
    exact own_event_self rfl rfl
  cases hmet : i.isMet checkpoint.condition with
  | error message => exact fun _ _ => trivial
  | ok met =>
      rw [hmet] at hown
      exact h met _ hown (hr.2.trans (.record x₁ _))

theorem fireNoted_spec {checkpoint : PendingCheckpoint} {now : Time}
    (htraced : Traced checkpoint x.1)
    (h : own t x = (.asked t checkpoint.checkpointId met :: o.1, o.2)) :
    (fireNoted t checkpoint now).wp (reportContract t) (Reported t checkpoint.checkpointId o)
      (fun _ _ => True) x := by
  unfold fireNoted
  refine wp_glance fun i x₁ hx₁ hkept₁ => ?_
  have htraced₁ := hkept₁.traced _ htraced
  split
  · refine wp_glance fun i x₂ hx₂ hkept₂ => ?_
    have h₂ := hx₂.trans (hx₁.trans h)
    split
    · exact wp_cancelNoted (hkept₂.traced _ htraced₁) h₂
    split
    · exact wp_reported h₂ (.left _ met rfl)
    refine wp_closeNoted (by decide) (fun x₃ h₃ => ?_) fun x₃ h₃ => ?_
    · refine wp_startNoted fun outcome x₄ h₄ => ?_
      rw [h₃, h₂] at h₄
      cases outcome with
      | started => exact wp_reported h₄ (.started _ met now (Or.inl rfl))
      | leaseUnavailable => exact wp_reported h₄ (.started _ met now (Or.inr rfl))
      | raised message => exact wp_reported h₄ (.started _ met now (Or.inr rfl))
    · exact wp_reported (h₃.trans h₂) (.left _ met rfl)
  · exact wp_cancelNoted htraced₁ (hx₁.trans h)

/-- **One checkpoint.**  Whatever the others do, it ends up in a bucket with one of the accounts. -/
theorem handleNoted_spec {checkpoint : PendingCheckpoint} {now : Time}
    (htraced : Traced checkpoint x.1) (h : own t x = o) :
    (handleNoted t checkpoint now).wp (reportContract t) (Reported t checkpoint.checkpointId o)
      (fun _ _ => True) x := by
  unfold handleNoted
  refine wp_isMetNoted fun met x₁ h₁ hkept₁ => ?_
  rw [h] at h₁
  cases decideCheckpoint checkpoint met now with
  | error error => exact fun _ _ => trivial
  | ok outcome =>
      cases outcome with
      | wait => exact wp_reported h₁ (.left _ met rfl)
      | resolve =>
          refine wp_closeNoted (by decide) (fun x₂ h₂ => ?_) fun x₂ h₂ => ?_
          · rw [h₁] at h₂
            exact wp_reported h₂ (.closed _ _ met now rfl (by decide))
          · exact wp_reported (h₂.trans h₁) (.left _ met rfl)
      | expire =>
          refine wp_closeNoted (by decide) (fun x₂ h₂ => ?_) fun x₂ h₂ => ?_
          · rw [h₁] at h₂
            exact wp_reported h₂ (.closed _ _ met now rfl (by decide))
          · exact wp_reported (h₂.trans h₁) (.left _ met rfl)
      | fire => exact fireNoted_spec (hkept₁.traced _ htraced) h₁

end handle

/-! ### The reports -/

namespace SweepReport

/-- The checkpoints reported in a bucket. -/
def ids (report : SweepReport) : Bucket → List UUID
  | .resolved => report.resolved
  | .fired => report.fired
  | .expired => report.expired
  | .deferred => report.deferred
  | .cancelled => report.cancelled
  | .failed => report.failed
  | .waiting => report.waiting

/-- All checkpoints reported, bucket after bucket. -/
def all (report : SweepReport) : List UUID :=
  report.resolved ++ report.fired ++ report.expired ++ report.deferred ++ report.cancelled ++
    report.failed ++ report.waiting

theorem mem_ids_add {report : SweepReport} {id id' : UUID} {bucket bucket' : Bucket} :
    id ∈ (report.add id' bucket').ids bucket ↔
      (id = id' ∧ bucket = bucket') ∨ id ∈ report.ids bucket := by
  cases bucket' <;> cases bucket <;> simp [add, ids, or_comm]

theorem all_add (report : SweepReport) (id : UUID) (bucket : Bucket) :
    (report.add id bucket).all.Perm (id :: report.all) := by
  rw [List.perm_iff_count]
  intro other
  cases bucket <;> simp only [add, all, List.count_append, List.count_cons, List.count_nil] <;> omega

/-- The report of checkpoints and their buckets, the newest first. -/
def tally : List (UUID × Bucket) → SweepReport
  | [] => .empty
  | (id, bucket) :: entries => (tally entries).add id bucket

theorem mem_ids_tally {entries : List (UUID × Bucket)} {id : UUID} {bucket : Bucket} :
    id ∈ (tally entries).ids bucket ↔ (id, bucket) ∈ entries := by
  induction entries with
  | nil => cases bucket <;> simp [tally, empty, ids]
  | cons entry entries ih =>
      rw [tally, mem_ids_add, ih, List.mem_cons, Prod.ext_iff]

theorem all_tally (entries : List (UUID × Bucket)) : (tally entries).all.Perm (entries.map Prod.fst) := by
  induction entries with
  | nil => rfl
  | cons entry entries ih => exact (all_add _ _ _).trans (ih.cons _)

end SweepReport

/-- The checkpoint an event is about. -/
def CheckpointEvent.checkpointId {τ : Type} : CheckpointEvent τ → UUID
  | asked _ id _ => id
  | closed _ id _ _ => id
  | started _ id => id

section filed

variable {τ : Type} {t : τ} {id : UUID} {bucket : Bucket}
variable {entries : List (UUID × Bucket)} {es : List (CheckpointEvent τ)} {ts : List (CancelTry τ)}

theorem Account.event_about (h : Account t id bucket es ts) {e : CheckpointEvent τ} (he : e ∈ es) :
    e.checkpointId = id := by
  cases h with
  | left bucket met _ =>
      obtain rfl := List.mem_singleton.mp he
      rfl
  | closed bucket status met now _ _ =>
      simp only [List.mem_cons, List.not_mem_nil, or_false] at he
      rcases he with rfl | rfl <;> rfl
  | started bucket met now _ =>
      simp only [List.mem_cons, List.not_mem_nil, or_false] at he
      rcases he with rfl | rfl | rfl <;> rfl
  | cancelled met now =>
      simp only [List.mem_cons, List.not_mem_nil, or_false] at he
      rcases he with rfl | rfl <;> rfl
  | late met =>
      obtain rfl := List.mem_singleton.mp he
      rfl

/-- What was tried is a cancellation of the checkpoint. -/
theorem Account.try_about (h : Account t id bucket es ts) {c : CancelTry τ} (hc : c ∈ ts) :
    c.checkpointId = id ∧ bucket = .cancelled := by
  cases h with
  | left bucket met _ => cases hc
  | closed bucket status met now _ _ => cases hc
  | started bucket met now _ => cases hc
  | cancelled met now =>
      obtain rfl := List.mem_singleton.mp hc
      exact ⟨rfl, rfl⟩
  | late met =>
      obtain rfl := List.mem_singleton.mp hc
      exact ⟨rfl, rfl⟩

theorem Account.asked (h : Account t id bucket es ts) : ∃ met, .asked t id met ∈ es := by
  cases h with
  | left bucket met _ => exact ⟨met, by simp⟩
  | closed bucket status met now _ _ => exact ⟨met, by simp⟩
  | started bucket met now _ => exact ⟨met, by simp⟩
  | cancelled met now => exact ⟨met, by simp⟩
  | late met => exact ⟨met, by simp⟩

/-- What is reported in a closed bucket, cancellations apart, was closed so. -/
theorem Account.closed_of (h : Account t id bucket es ts) {status : PendingCheckpointStatus}
    (hstatus : bucket.status = some status) (hbucket : bucket ≠ .cancelled) :
    ∃ now, .closed t id status now ∈ es := by
  cases h with
  | left bucket met hnone =>
      rw [hnone] at hstatus
      cases hstatus
  | closed bucket status' met now hstatus' _ =>
      obtain rfl := Option.some.inj (hstatus.symm.trans hstatus')
      exact ⟨now, List.mem_cons_self⟩
  | started bucket met now hb =>
      rcases hb with rfl | rfl
      · obtain rfl := Option.some.inj hstatus
        exact ⟨now, by simp⟩
      · cases hstatus
  | cancelled met now => exact absurd rfl hbucket
  | late met => exact absurd rfl hbucket

/-- A reported cancellation is an attempt, and a close of it is the cancellation. -/
theorem Account.of_cancelled (h : Account t id .cancelled es ts) :
    ⟨t, id⟩ ∈ ts ∧ ∀ status now, .closed t id status now ∈ es → .closed t id .cancelled now ∈ es := by
  cases h with
  | left bucket met hnone => cases hnone
  | closed bucket status met now _ hne => exact absurd rfl hne
  | started bucket met now hb => simp at hb
  | cancelled met now =>
      refine ⟨List.mem_cons_self, fun status now' hmem => ?_⟩
      simp only [List.mem_cons, CheckpointEvent.closed.injEq, reduceCtorEq, List.not_mem_nil,
        or_false, true_and] at hmem
      exact hmem.2 ▸ List.mem_cons_self
  | late met =>
      refine ⟨List.mem_cons_self, fun status now' hmem => ?_⟩
      simp at hmem

/-- What process `t` has done with the checkpoints it has reported, the newest first. -/
inductive Filed (t : τ) :
    List (UUID × Bucket) → List (CheckpointEvent τ) → List (CancelTry τ) → Prop where
  | nil : Filed t [] [] []
  | cons {id : UUID} {bucket : Bucket} {es es' : List (CheckpointEvent τ)} {ts ts' : List (CancelTry τ)}
      {entries : List (UUID × Bucket)} : Account t id bucket es ts → Filed t entries es' ts' →
        Filed t ((id, bucket) :: entries) (es ++ es') (ts ++ ts')

/-- Everything filed is about a checkpoint that is reported. -/
theorem Filed.event_about (h : Filed t entries es ts) {e : CheckpointEvent τ} (he : e ∈ es) :
    e.checkpointId ∈ entries.map Prod.fst := by
  induction h with
  | nil => cases he
  | cons haccount _ ih =>
      rw [List.map_cons, List.mem_cons]
      rcases List.mem_append.mp he with he | he
      · exact Or.inl (haccount.event_about he)
      · exact Or.inr (ih he)

theorem Filed.try_about (h : Filed t entries es ts) {c : CancelTry τ} (hc : c ∈ ts) :
    (c.checkpointId, Bucket.cancelled) ∈ entries := by
  induction h with
  | nil => cases hc
  | cons haccount _ ih =>
      rcases List.mem_append.mp hc with hc | hc
      · obtain ⟨rfl, rfl⟩ := haccount.try_about hc
        exact List.mem_cons_self
      · exact List.mem_cons_of_mem _ (ih hc)

/-- A checkpoint that is reported once has one account of what was done with it. -/
theorem Filed.account (h : Filed t entries es ts) (hnodup : (entries.map Prod.fst).Nodup)
    (hmem : (id, bucket) ∈ entries) :
    ∃ es' ts', Account t id bucket es' ts' ∧ (∀ e, e ∈ es' ↔ e ∈ es ∧ e.checkpointId = id) ∧
      ∀ c, c ∈ ts' ↔ c ∈ ts ∧ c.checkpointId = id := by
  induction h with
  | nil => cases hmem
  | @cons id' bucket' es₁ es₂ ts₁ ts₂ entries haccount hrest ih =>
      rw [List.map_cons, List.nodup_cons] at hnodup
      rcases List.mem_cons.mp hmem with heq | hlater
      · obtain ⟨rfl, rfl⟩ := Prod.mk.inj heq
        refine ⟨es₁, ts₁, haccount, fun e => ⟨fun he => ?_, fun he => ?_⟩, fun c => ⟨fun hc => ?_, fun hc => ?_⟩⟩
        · exact ⟨List.mem_append_left _ he, haccount.event_about he⟩
        · rcases List.mem_append.mp he.1 with h₁ | h₂
          · exact h₁
          · exact absurd (he.2 ▸ hrest.event_about h₂) hnodup.1
        · exact ⟨List.mem_append_left _ hc, (haccount.try_about hc).1⟩
        · rcases List.mem_append.mp hc.1 with h₁ | h₂
          · exact h₁
          · exact absurd (List.mem_map.mpr ⟨_, hrest.try_about h₂, hc.2⟩) hnodup.1
      · have hne : id ≠ id' := by
          rintro rfl
          exact hnodup.1 (List.mem_map.mpr ⟨_, hlater, rfl⟩)
        obtain ⟨es', ts', hacc, hes, hts⟩ := ih hnodup.2 hlater
        refine ⟨es', ts', hacc, fun e => (hes e).trans ?_, fun c => (hts c).trans ?_⟩
        · constructor
          · rintro ⟨he, hid⟩
            exact ⟨List.mem_append_right _ he, hid⟩
          · rintro ⟨he, hid⟩
            rcases List.mem_append.mp he with h₁ | h₂
            · exact absurd (hid.symm.trans (haccount.event_about h₁)) hne
            · exact ⟨h₂, hid⟩
        · constructor
          · rintro ⟨hc, hid⟩
            exact ⟨List.mem_append_right _ hc, hid⟩
          · rintro ⟨hc, hid⟩
            rcases List.mem_append.mp hc with h₁ | h₂
            · exact absurd (hid.symm.trans (haccount.try_about h₁).1) hne
            · exact ⟨h₂, hid⟩

end filed

/-! ### One sweep -/

section sweep

variable {τ : Type} [DecidableEq τ] {t : τ} {x : NotedState τ}

/-- The report says of every checkpoint what process `t` has done with it. -/
def AccountsFor (t : τ) (ids : List UUID) (report : SweepReport) (x : NotedState τ) : Prop :=
  ∃ entries, Filed t entries (own t x).1 (own t x).2 ∧ report = .tally entries ∧
    entries.map Prod.fst = ids

theorem handleAllNoted_spec {now : Time} {checkpoints : List PendingCheckpoint}
    {done : List (UUID × Bucket)} (htraced : ∀ checkpoint ∈ checkpoints, Traced checkpoint x.1)
    (h : Filed t done (own t x).1 (own t x).2) :
    (handleAllNoted t now checkpoints (.tally done)).wp (reportContract t)
      (AccountsFor t ((checkpoints.map (·.checkpointId)).reverse ++ done.map Prod.fst)) (fun _ _ => True) x := by
  induction checkpoints generalizing x done with
  | nil =>
      intro x₁ hr
      refine ⟨done, ?_, rfl, rfl⟩
      rw [hr.1]
      exact h
  | cons checkpoint rest ih =>
      obtain ⟨hfirst, hrest⟩ := List.forall_mem_cons.mp htraced
      refine wp_bind (wp_mono (wp_frame (P := fun x => ∀ checkpoint ∈ rest, Traced checkpoint x.1)
        (fun _ _ hr h c hc => hr.2.traced c (h c hc)) (fun _ _ hg h c hc => hg.2.traced c (h c hc))
        (handleNoted_spec hfirst rfl) hrest) ?_ fun _ _ h => h)
      rintro bucket x₁ ⟨⟨es, ts, hown, haccount⟩, hrest₁⟩
      have hfiled : Filed t ((checkpoint.checkpointId, bucket) :: done) (own t x₁).1 (own t x₁).2 := by
        rw [hown]
        exact .cons haccount h
      refine wp_mono (ih hrest₁ hfiled) ?_ fun _ _ h => h
      rintro report x₂ ⟨entries, hentries, hreport, hids⟩
      refine ⟨entries, hentries, hreport, ?_⟩
      rw [hids]
      simp

theorem sweepNoted_spec {now : Option Time} {limit : ℕ} (h : own t x = ([], [])) :
    (sweepNoted t now limit).wp (reportContract t)
      (fun report x => ∃ ids : List UUID, ids.Nodup ∧ AccountsFor t ids report x) (fun _ _ => True) x := by
  have hsweep : ∀ (now : Time) (x₁ : NotedState τ), own t x₁ = own t x →
      (quietly (read fun s => s.table.due now limit) >>= fun checkpoints =>
        handleAllNoted t now checkpoints .empty).wp (reportContract t)
        (fun report x => ∃ ids : List UUID, ids.Nodup ∧ AccountsFor t ids report x) (fun _ _ => True) x₁ := by
    intro now x₁ hx₁
    refine fun x₂ hr i _ => ⟨⟨fun _ _ => rfl, .refl x₂⟩, ?_⟩
    have hx₂ : own t x₂ = ([], []) := hr.1.trans (hx₁.trans h)
    have hfiled : Filed t [] (own t x₂).1 (own t x₂).2 := by
      rw [hx₂]
      exact .nil
    have htraced : ∀ row ∈ x₂.1.table.due now limit, Traced row x₂.1 := fun row hrow =>
      ⟨row, (CheckpointTable.mem_due hrow).1, rfl, Or.inl (CheckpointTable.mem_due hrow).2⟩
    refine wp_mono (handleAllNoted_spec htraced hfiled) (fun report x₃ hreport => ⟨_, ?_, hreport⟩) fun _ _ h => h
    rw [List.map_nil, List.append_nil, List.nodup_reverse]
    exact CheckpointTable.due_nodup now limit x₂.1.table
  cases now with
  | some now => exact hsweep now x rfl
  | none => exact wp_glance fun i x₁ hx₁ _ => hsweep i.clock x₁ hx₁

/-- A program of which nothing is remembered keeps the contract it keeps. -/
theorem quietly_spec {α : Type} {p : CheckpointProgram τ α}
    (h : p.wp (checkpointContract t) (fun _ _ => True) (fun _ _ => True) x.1) :
    (quietly p).wp (reportContract t) (fun _ _ => True) (fun _ _ => True) x := by
  refine wp_mono (wp_noting (L := reportContract t) (R := fun _ _ => True) ?_ (fun _ _ => trivial) ?_ h
    trivial) (fun _ _ _ => trivial) fun _ _ _ => trivial
  · intro x₁ x₂ hr _
    refine ⟨⟨fun e he => ?_, hr.2.waits⟩, trivial⟩
    rw [← mem_own (x := x₂) he, ← mem_own (x := x₁) he, hr.1]
  · intro i s s' tries _ hs _
    exact ⟨⟨hs.minds tries, hs.kept tries⟩, trivial⟩

/-- What is owed by whoever returns a report. -/
def Answers (t : τ) (answer : Option SweepReport) (x : NotedState τ) : Prop :=
  ∀ report, answer = some report → ∃ ids : List UUID, ids.Nodup ∧ AccountsFor t ids report x

theorem noted_spec {task : CheckpointTask} (hown : own t x = ([], []))
    (h : ∀ id, .started t id ∉ x.1.events) :
    (task.noted t).wp (reportContract t) (Answers t) (fun _ _ => True) x := by
  have hquiet : ∀ task : CheckpointTask, (quietly (task.program t) >>= fun _ =>
      (ret none : NotedProgram τ (Option SweepReport))).wp (reportContract t) (Answers t)
        (fun _ _ => True) x := by
    intro task
    refine wp_bind (wp_mono (quietly_spec (task_spec h)) (fun _ x₁ _ => ?_) fun _ _ h => h)
    exact fun x₂ _ report hreport => by cases hreport
  cases task with
  | sweep now limit =>
      refine wp_bind (wp_mono (sweepNoted_spec hown) (fun report x₁ hreport => ?_) fun _ _ h => h)
      obtain ⟨ids, hnodup, entries, hfiled, rfl, hids⟩ := hreport
      intro x₂ hr report hsome
      obtain rfl := Option.some.inj hsome
      refine ⟨ids, hnodup, entries, ?_, rfl, hids⟩
      rw [hr.1]
      exact hfiled
  | cancel checkpointId reason now => exact hquiet _
  | schedule checkpoint => exact hquiet _
  | reschedule checkpoint reason => exact hquiet _
  | resolveMatching kind subjectId reason occurredAt now => exact hquiet _

end sweep

/-! ### Interleavings -/

/-- Every checkpoint process `t` looked at is in one bucket of its report, and where that is the
bucket of a status, it was closed so by the guarded close of `t`. -/
structure Accurate {τ : Type} (t : τ) (events : List (CheckpointEvent τ)) (report : SweepReport) :
    Prop where
  once : report.all.Nodup
  looked : ∀ id, id ∈ report.all ↔ ∃ met, .asked t id met ∈ events
  closed : ∀ bucket status, bucket.status = some status → ∀ id ∈ report.ids bucket,
    ∃ now, .closed t id status now ∈ events

section run

variable {τ : Type} [DecidableEq τ]

theorem notedPool_sound (tasks : τ → CheckpointTask) (table : CheckpointTable) :
    Pool.Sound reportContract Answers (fun _ _ _ => True) (notedPool tasks table) :=
  fun _ => noted_spec rfl fun _ => List.not_mem_nil

omit [DecidableEq τ] in
theorem answer_spec {task : CheckpointTask} {t : τ} {s : CheckpointState τ}
    (h : ∀ id, .started t id ∉ s.events) :
    (task.answer t).wp (checkpointContract t) (fun _ _ => True) (fun _ _ => True) s := by
  have htask : ∀ task : CheckpointTask, (task.program t >>= fun _ =>
      (ret none : CheckpointProgram τ (Option SweepReport))).wp (checkpointContract t)
        (fun _ _ => True) (fun _ _ => True) s :=
    fun task => wp_bind (wp_mono (task_spec h) (fun _ _ _ => wp_done) fun _ _ h => h)
  cases task with
  | sweep now limit =>
      exact wp_bind (wp_mono (monitorSweep_spec h) (fun _ _ _ => wp_done) fun _ _ h => h)
  | cancel checkpointId reason now => exact htask _
  | schedule checkpoint => exact htask _
  | reschedule checkpoint reason => exact htask _
  | resolveMatching kind subjectId reason occurredAt now => exact htask _

theorem reportingPool_lawful (tasks : τ → CheckpointTask) (table : CheckpointTable)
    (sched : List (τ × CheckpointInput)) :
    Lawful ((reportingPool tasks table).run sched).state.events := by
  have hsound : Pool.Sound checkpointContract (fun _ _ _ => True) (fun _ _ _ => True)
      (reportingPool tasks table) := fun _ => answer_spec fun _ => List.not_mem_nil
  have hinv : FiringInv ((reportingPool tasks table).run sched).state := by
    refine Pool.run_inv hsound (fun _ => rfl) checkpointContract_rely
      (fun _ _ _ _ _ hs h => FiringInv.step h hs) (Pool.meets_true _ _) ⟨trivial, ?_, ?_⟩
    · exact fun _ _ _ _ h => absurd h List.not_mem_nil
    · exact fun _ _ _ h => absurd h List.not_mem_nil
  exact hinv.lawful

theorem notedPool_allClosed (tasks : τ → CheckpointTask) (table : CheckpointTable)
    (sched : List (τ × CheckpointInput)) : AllClosed ((notedPool tasks table).run sched).state :=
  Pool.run_inv (notedPool_sound tasks table) (fun _ => rfl)
    (fun t _ htu _ _ hg => ⟨hg.1 t htu, hg.2⟩) (fun _ _ _ _ _ hg h => hg.2.tries h)
    (Pool.meets_true _ _) fun _ hc => by cases hc

/-- What a returned report says, in terms of what is remembered. -/
theorem reports_of_run {tasks : τ → CheckpointTask} {table : CheckpointTable}
    {sched : List (τ × CheckpointInput)} {t : τ} {report : SweepReport}
    (h : ((reportingPool tasks table).run sched).procs t = ret (some report)) :
    ∃ ids : List UUID, ids.Nodup ∧ AccountsFor t ids report ((notedPool tasks table).run sched).state := by
  have hrun : Pool.Sound reportContract Answers (fun _ _ _ => True) ((notedPool tasks table).run sched) :=
    Pool.run_wp (notedPool_sound tasks table) (fun _ => rfl)
      (fun t u htu _ _ hg => ⟨hg.1 t htu, hg.2⟩) (Pool.meets_true _ _)
  have hret : ((notedPool tasks table).run sched).procs t = ret (some report) := by
    have herases : Erases (((notedPool tasks table).run sched).procs t)
        (((reportingPool tasks table).run sched).procs t) :=
      Pool.run_erases_procs (fun t => noted_erases t (tasks t)) rfl sched t
    rw [h] at herases
    exact herases
  exact Pool.run_ret hrun hret report rfl

/-- **Sweep reports**: in every interleaving of sweeps and other closers, a sweep reports each
checkpoint it looked at once, and as resolved, fired or expired only what its own guarded close put
in that status.  Its report is accurate exactly when nobody else has closed a checkpoint that it came
to cancel. -/
theorem sweepReport_accurate_iff (tasks : τ → CheckpointTask) (table : CheckpointTable)
    (sched : List (τ × CheckpointInput)) (t : τ) (report : SweepReport)
    (h : ((reportingPool tasks table).run sched).procs t = ret (some report)) :
    report.all.Nodup ∧
    (∀ id, id ∈ report.all ↔
      ∃ met, .asked t id met ∈ ((reportingPool tasks table).run sched).state.events) ∧
    (∀ bucket status, bucket.status = some status → bucket ≠ .cancelled → ∀ id ∈ report.ids bucket,
      ∃ now, .closed t id status now ∈ ((reportingPool tasks table).run sched).state.events) ∧
    (Accurate t ((reportingPool tasks table).run sched).state.events report ↔
      ∀ c ∈ ((notedPool tasks table).run sched).state.2, c.process = t →
        ∀ e ∈ ((reportingPool tasks table).run sched).state.events,
          e.closes c.checkpointId = true → e.process = t) := by
  obtain ⟨ids, hnodup, entries, hfiled, rfl, rfl⟩ := reports_of_run h
  have hlawful := reportingPool_lawful tasks table sched
  have hallClosed := notedPool_allClosed tasks table sched
  rw [← notedPool_erases] at hlawful ⊢
  generalize ((notedPool tasks table).run sched).state = x at hfiled hlawful hallClosed
  have hall := SweepReport.all_tally entries
  have honce : (SweepReport.tally entries).all.Nodup := hall.nodup_iff.mpr hnodup
  have hlooked : ∀ id, id ∈ (SweepReport.tally entries).all ↔ ∃ met, .asked t id met ∈ x.1.events := by
    intro id
    rw [hall.mem_iff]
    constructor
    · intro hid
      obtain ⟨entry, hentry, rfl⟩ := List.mem_map.mp hid
      obtain ⟨es, ts, haccount, hes, -⟩ := hfiled.account hnodup hentry
      obtain ⟨met, hmet⟩ := haccount.asked
      exact ⟨met, (mem_own rfl).mp ((hes _).mp hmet).1⟩
    · rintro ⟨met, hmet⟩
      exact hfiled.event_about ((mem_own (e := .asked t id met) rfl).mpr hmet)
  have hclosed : ∀ (bucket : Bucket) status, bucket.status = some status → bucket ≠ .cancelled →
      ∀ id ∈ (SweepReport.tally entries).ids bucket, ∃ now, .closed t id status now ∈ x.1.events := by
    intro bucket status hstatus hbucket id hid
    obtain ⟨es, ts, haccount, hes, -⟩ := hfiled.account hnodup (SweepReport.mem_ids_tally.mp hid)
    obtain ⟨now, hmem⟩ := haccount.closed_of hstatus hbucket
    exact ⟨now, (mem_own rfl).mp ((hes _).mp hmem).1⟩
  refine ⟨honce, hlooked, hclosed, fun haccurate c hc hprocess e he hcloses => ?_,
    fun hothers => ⟨honce, hlooked, ?_⟩⟩
  · have hentry : (c.checkpointId, Bucket.cancelled) ∈ entries :=
      hfiled.try_about (List.mem_filter.mpr ⟨hc, decide_eq_true hprocess⟩)
    obtain ⟨now, hmem⟩ :=
      haccurate.closed .cancelled .cancelled rfl _ (SweepReport.mem_ids_tally.mpr hentry)
    cases e with
    | asked u id met => cases hcloses
    | started u id => cases hcloses
    | closed u id status now' =>
        obtain rfl := eq_of_beq hcloses
        exact hlawful.closed_unique he hmem
  · intro bucket status hstatus id hid
    by_cases hbucket : bucket = .cancelled
    · subst hbucket
      obtain rfl := Option.some.inj hstatus
      obtain ⟨es, ts, haccount, hes, hts⟩ := hfiled.account hnodup (SweepReport.mem_ids_tally.mp hid)
      obtain ⟨htry, hown⟩ := haccount.of_cancelled
      have hc : ⟨t, id⟩ ∈ x.2 := (List.mem_filter.mp ((hts _).mp htry).1).1
      -- Whoever closed it is this sweep, and so it was with this attempt.
      obtain ⟨u, status, now, hmem⟩ := hallClosed _ hc
      obtain rfl : u = t := hothers _ hc rfl _ hmem (beq_self_eq_true id)
      have hcancelled := hown status now ((hes _).mpr ⟨(mem_own rfl).mpr hmem, rfl⟩)
      exact ⟨now, (mem_own rfl).mp ((hes _).mp hcancelled).1⟩
    · exact hclosed bucket status hstatus hbucket id hid

end run

/-! ### A lost race to cancel -/

theorem due_after_creation : (0 : Time) ≤ 0 := Int.le_refl 0

theorem expires_after_due : (0 : Time) < 10 := by decide

/-- A wait that is due at time 0. -/
def dueCheckpoint : PendingCheckpoint where
  checkpointId := 1
  applicationId := 7
  kind := .noResponse
  condition := ⟨.recruiterResponseReceived, 7, none, []⟩
  reason := "no response yet"
  threadId := "thread"
  workflowId := none
  createdAt := 0
  triggerAt := 0
  expiresAt := 10
  status := .pending
  dedupeKey := "follow-up"
  closedAt := none
  closedReason := none
  trigger_after_creation := due_after_creation
  expiry_after_trigger := expires_after_due

def dueTable : CheckpointTable := ⟨[dueCheckpoint], by decide, by decide⟩

/-- The condition is unmet and the thread is not registered any more. -/
def unregistered : CheckpointInput :=
  ⟨0, fun _ => .ok false, fun _ => false, fun _ => ⟨none, []⟩, fun _ => .started⟩

/-- Both processes sweep the table. -/
def twoSweeps (_ : Fin 2) : CheckpointTask := .sweep (some 0) 10

/-- Both decide to cancel before either does. -/
def bothCancel : List (Fin 2 × CheckpointInput) := [0, 0, 0, 1, 1, 1, 0, 1].map (·, unregistered)

def cancelledReport : SweepReport := { SweepReport.empty with cancelled := [1] }

theorem sweepReport_accurate_iff_alone :
    Accurate 0 ((reportingPool twoSweeps dueTable).run (bothCancel.take 7)).state.events cancelledReport := by
  have hret : ((reportingPool twoSweeps dueTable).run (bothCancel.take 7)).procs 0 =
      ret (some cancelledReport) := eq_ret_of_outcome (by decide +kernel)
  refine (sweepReport_accurate_iff twoSweeps dueTable (bothCancel.take 7) 0 cancelledReport hret).2.2.2.mpr ?_
  decide +kernel

/-- Both sweeps report the checkpoint as cancelled, and the second one has closed nothing. -/
theorem lost_cancel_is_reported :
    ¬ ∀ (sched : List (Fin 2 × CheckpointInput)) (t : Fin 2) (report : SweepReport),
      ((reportingPool twoSweeps dueTable).run sched).procs t = ret (some report) →
        Accurate t ((reportingPool twoSweeps dueTable).run sched).state.events report := by
  intro h
  have hret : ((reportingPool twoSweeps dueTable).run bothCancel).procs 1 = ret (some cancelledReport) :=
    eq_ret_of_outcome (by decide +kernel)
  obtain ⟨now, hclosed⟩ := (h bothCancel 1 cancelledReport hret).closed .cancelled .cancelled rfl 1
    (by decide)
  have hnone : ((reportingPool twoSweeps dueTable).run bothCancel).state.events.all
      fun e => e.process == 0 || !e.closes 1 := by
    decide +kernel
  exact absurd (List.all_eq_true.mp hnone _ hclosed) Bool.false_ne_true

end PersonalOS
