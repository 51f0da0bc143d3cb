import PersonalOS.ApplicationLifecycle

/-! # The lifecycle log agrees with the stored status

Any number of actors moving applications, step by step.

* **Steps.** `LifecycleStep` says what one step of an actor can do: look at an application, note
  an activity, append what the board records, or make a move that was legal for the row the actor
  had read, with its event.
* **Chain.** `Chained` is a path through the lifecycle; the events of an application are one, from
  the status it was created in to the status it has.
* **Run.** `lifecycle_log_agrees` reads the chain, the projection and the two-sided
  correspondence of moves and events off any interleaving. -/

namespace PersonalOS

open Concurrent Concurrent.Prog ApplicationLifecycleStore

variable {τ : Type} [DecidableEq τ]

/-! ### What a step does -/

/-- What one step of actor `t` does. -/
inductive LifecycleStep (t : τ) (db : LifecycleDb τ) : LifecycleDb τ → Prop where
  | quiet : LifecycleStep t db db
  | saw (applicationId : UUID) : LifecycleStep t db (db.see t applicationId).2
  | noted (applicationId : UUID) (row row' : ApplicationRow) :
      db.applications applicationId = some row → row'.status = row.status →
      row'.resumeStatus = row.resumeStatus →
      LifecycleStep t db
        { db with applications := Function.update db.applications applicationId (some row') }
  | recorded (record : BoardRecord) (log : EventLog) :
      db.eventLog.append (.recorded record) = some log → LifecycleStep t db { db with eventLog := log }
  | moved (event : LifecycleEvent) (log : EventLog) (seen stored row : ApplicationRow) :
      db.seen t = some seen → db.applications event.aggregateId = some stored →
      stored.status = seen.status → event.source = seen.status →
      event.target ∈ allowedApplicationTransitions seen.status seen.resumeStatus →
      db.eventLog.append (.moved event) = some log → row.status = event.target →
      row.resumeStatus = resumeStatusAfter seen.status event.target seen.resumeStatus →
      LifecycleStep t db (db.record event log row)

/-- What the other actors leave alone. -/
def SameSeen (t : τ) (db db' : LifecycleDb τ) : Prop := db'.seen t = db.seen t

theorem LifecycleStep.sameSeen {t u : τ} {db db' : LifecycleDb τ} (h : LifecycleStep u db db')
    (ht : t ≠ u) : SameSeen t db db' := by
  unfold SameSeen
  cases h with
  | quiet => rfl
  | saw applicationId => exact Function.update_of_ne ht ..
  | noted applicationId row row' _ _ _ => rfl
  | recorded record log _ => rfl
  | moved event log seen stored row _ _ _ _ _ _ _ _ => rfl

/-- The contract of actor `t`: the others leave alone what it has read. -/
def lifecycleContract (assume : τ → LifecycleDb τ → LifecycleDb τ → Prop) (t : τ) :
    Contract (LifecycleDb τ) where
  rely := SameSeen t
  guar := LifecycleStep t
  assume := assume t
  rely_refl _ := rfl
  rely_trans h₁ h₂ := h₂.trans h₁

/-! ### The programs keep the contract -/

section programs

variable {redactText : RedactText} {assume : τ → LifecycleDb τ → LifecycleDb τ → Prop} {t : τ}
variable {db : LifecycleDb τ} {α β : Type}

/-- The program keeps the contract, whatever it returns or raises. -/
def KeepsLifecycle (assume : τ → LifecycleDb τ → LifecycleDb τ → Prop) (t : τ) (p : LifecycleProgram τ α)
    (db : LifecycleDb τ) : Prop :=
  p.wp (lifecycleContract assume t) (fun _ _ => True) (fun _ _ => True) db

theorem keeps_ret {a : α} : KeepsLifecycle assume t (ret a : LifecycleProgram τ α) db := fun _ _ => trivial

theorem keeps_raise {e : LifecycleError} : KeepsLifecycle assume t (raise e : LifecycleProgram τ α) db :=
  fun _ _ => trivial

theorem keeps_bind {p : LifecycleProgram τ β} {k : β → LifecycleProgram τ α}
    (hp : KeepsLifecycle assume t p db) (hk : ∀ b db', KeepsLifecycle assume t (k b) db') :
    KeepsLifecycle assume t (p >>= k) db := by
  refine wp_bind (wp_mono hp (fun b db' _ => ?_) fun _ _ h => h)
  exact hk b db'

theorem keeps_attempt {p : LifecycleProgram τ β}
    {k : Except LifecycleError β → LifecycleProgram τ α} (hp : KeepsLifecycle assume t p db)
    (hk : ∀ b db', KeepsLifecycle assume t (k b) db') : KeepsLifecycle assume t (p.attempt >>= k) db := by
  refine wp_bind (wp_mono (wp_attempt (Q := fun _ _ => True) (E := fun _ _ => True) hp)
    (fun b db' _ => ?_) fun _ _ h => h)
  exact hk b db'

theorem keeps_act {f : LifecycleInput → LifecycleDb τ → β × LifecycleDb τ}
    {k : β → LifecycleProgram τ α}
    (h : ∀ i db', SameSeen t db db' →
      LifecycleStep t db' (f i db').2 ∧ KeepsLifecycle assume t (k (f i db').1) (f i db').2) :
    KeepsLifecycle assume t (act f >>= k) db := fun db' hr i _ => h i db' hr

/-- A step that only looks. -/
theorem keeps_look {f : LifecycleInput → LifecycleDb τ → β} {k : β → LifecycleProgram τ α}
    (h : ∀ b db', SameSeen t db db' → KeepsLifecycle assume t (k b) db') :
    KeepsLifecycle assume t ((act fun i db => (f i db, db)) >>= k) db :=
  keeps_act fun i db' hr => ⟨.quiet, h (f i db') db' hr⟩

theorem keeps_nowOr {now : Option Time} {k : Time → LifecycleProgram τ α}
    (h : ∀ now db', SameSeen t db db' → KeepsLifecycle assume t (k now) db') :
    KeepsLifecycle assume t (nowOr now >>= k) db := by
  cases now with
  | some now => exact h now db rfl
  | none => exact keeps_look h

/-- What the transaction of a validated move does: the move, or nothing. -/
theorem writeMove_step {move : StatusMove} {seen : ApplicationRow} (now : Time) (i : LifecycleInput)
    (hseen : db.seen t = some seen)
    (hallowed : move.newStatus ∈ allowedApplicationTransitions seen.status seen.resumeStatus) :
    LifecycleStep t db (db.writeMove redactText move seen now i).2 := by
  unfold LifecycleDb.writeMove
  split
  · exact .quiet
  rename_i stored hstored
  obtain ⟨hstored, hguard⟩ := Option.filter_eq_some_iff.mp hstored
  split
  · exact .quiet
  rename_i log hlog
  split
  · exact .moved _ log seen stored _ hseen hstored (ApplicationRow.status_of_guarded hguard) rfl
      hallowed hlog rfl rfl
  · exact .quiet

theorem updateStatus_keeps {move : StatusMove} :
    KeepsLifecycle assume t (updateStatus redactText t move) db := by
  unfold updateStatus
  refine keeps_act fun i db₁ _ => ⟨.saw move.applicationId, ?_⟩
  have hsaw : (db₁.see t move.applicationId).2.seen t = (db₁.see t move.applicationId).1 :=
    Function.update_self ..
  cases hread : (db₁.see t move.applicationId).1 with
  | none => exact keeps_raise
  | some seen =>
      rw [hread] at hsaw
      dsimp only
      split
      · exact keeps_raise
      rename_i status hvalid
      refine keeps_nowOr fun now db₂ hr₂ => keeps_act fun i db₃ hr₃ => ?_
      have hseen : db₃.seen t = some seen := hr₃.trans (hr₂.trans hsaw)
      refine ⟨writeMove_step now i hseen (validateApplicationStatusTransition_ok hvalid), ?_⟩
      cases (db₃.writeMove redactText move seen now i).1 with
      | error e => exact keeps_raise
      | ok _ => exact keeps_ret

theorem transition_keeps {applicationId : UUID} {newStatus : ApplicationStatus}
    {reason : Option String} {actor : String} {now : Option Time} :
    KeepsLifecycle assume t (transition redactText t applicationId newStatus reason actor now) db := by
  unfold transition
  refine keeps_nowOr fun now db₁ _ => keeps_bind updateStatus_keeps fun _ db₂ => ?_
  refine keeps_look fun state db₃ _ => ?_
  cases state with
  | none => exact keeps_raise
  | some state => exact keeps_ret

theorem bump_step (applicationId : UUID) (status : ApplicationStatus) (now : Time) :
    LifecycleStep t db (db.bump applicationId status now).2 := by
  unfold LifecycleDb.bump
  split
  · exact .quiet
  · rename_i row hrow
    exact .noted applicationId row _ (Option.filter_eq_some_iff.mp hrow).1 rfl rfl

theorem recordActivityIn_keeps {applicationId : UUID} {reason : Option String} {now : Time}
    {passes : ℕ} :
    KeepsLifecycle assume t (recordActivityIn redactText t applicationId reason now passes) db := by
  induction passes generalizing db with
  | zero => exact keeps_raise
  | succ passes ih =>
      unfold recordActivityIn
      refine keeps_look fun state db₁ _ => ?_
      cases state with
      | none => exact keeps_raise
      | some state =>
          dsimp only
          split
          · -- A stalled application is resumed; a lost race starts the next pass.
            refine keeps_attempt transition_keeps fun answer db₂ => ?_
            split
            · exact keeps_ret
            · exact ih
            · exact keeps_raise
          · refine keeps_act fun i db₂ _ => ⟨bump_step applicationId state.status now, ?_⟩
            split
            · exact keeps_ret
            · exact ih

theorem markStalled_keeps {applicationId : UUID} {quietSince : Time} {now : Option Time} :
    KeepsLifecycle assume t (markStalled redactText t applicationId quietSince now) db := by
  unfold markStalled
  refine keeps_nowOr fun now db₁ _ => keeps_attempt updateStatus_keeps fun answer db₂ => ?_
  split
  · exact keeps_ret
  · exact keeps_ret
  · exact keeps_ret
  · exact keeps_raise

theorem recordOnBoard_step {applicationId : UUID} {kind : BoardRecordKind} {payload : String}
    {now : Option Time} (i : LifecycleInput) :
    LifecycleStep t db (db.recordOnBoard redactText applicationId kind payload now i).2 := by
  unfold LifecycleDb.recordOnBoard
  split
  · exact .quiet
  split
  · exact .quiet
  rename_i log hlog
  split
  · exact .recorded _ log hlog
  · exact .quiet

theorem boardAppend_keeps {applicationId : UUID} {kind : BoardRecordKind} {payload : String}
    {now : Option Time} :
    KeepsLifecycle assume t (ApplicationBoardStore.append redactText applicationId kind payload now) db := by
  unfold ApplicationBoardStore.append
  refine keeps_act fun i db₁ _ => ⟨recordOnBoard_step i, ?_⟩
  cases (db₁.recordOnBoard redactText applicationId kind payload now i).1 with
  | error e => exact keeps_raise
  | ok eventId => exact keeps_ret

theorem task_keeps {task : LifecycleTask} : KeepsLifecycle assume t (task.program redactText t) db := by
  cases task with
  | updateStatus move => exact keeps_bind updateStatus_keeps fun _ _ => keeps_ret
  | transition applicationId newStatus reason actor now =>
      exact keeps_bind transition_keeps fun _ _ => keeps_ret
  | recordActivity applicationId reason now =>
      refine keeps_bind ?_ fun _ _ => keeps_ret
      unfold recordActivity
      exact keeps_nowOr fun now db₁ _ => recordActivityIn_keeps
  | markStalled applicationId quietSince now => exact keeps_bind markStalled_keeps fun _ _ => keeps_ret
  | recordMatch applicationId payload now => exact keeps_bind boardAppend_keeps fun _ _ => keeps_ret
  | recordTransitionRequest applicationId payload requestedAt =>
      exact keeps_bind boardAppend_keeps fun _ _ => keeps_ret

end programs

/-! ### The chain of events -/

/-- The events lead from one status to another, each from where the previous one led. -/
def Chained : ApplicationStatus → List LifecycleEvent → ApplicationStatus → Prop
  | first, [], last => first = last
  | first, event :: events, last => event.source = first ∧ Chained event.target events last

theorem Chained.append {first : ApplicationStatus} {events : List LifecycleEvent}
    {event : LifecycleEvent} (h : Chained first events event.source) :
    Chained first (events ++ [event]) event.target := by
  induction events generalizing first with
  | nil => exact ⟨h.symm, rfl⟩
  | cons e events ih => exact ⟨h.1, ih h.2⟩

/-- A chain ends where its last event leads. -/
theorem Chained.last {first last : ApplicationStatus} {events : List LifecycleEvent}
    (h : Chained first events last) : last = (events.getLast?.map (·.target)).getD first := by
  induction events generalizing first with
  | nil => exact h.symm
  | cons e events ih =>
      rw [ih h.2, List.getLast?_cons]
      cases events.getLast? with
      | none => rfl
      | some e' => rfl

/-- The events of an application, its status and its projection agree. -/
structure LogAgrees (applicationId : UUID) (db : LifecycleDb τ) : Prop where
  chained : ∀ row, db.applications applicationId = some row →
    Chained .discovered (db.eventLog.ofApplication applicationId) row.status
  view : db.statusView applicationId = (db.eventLog.ofApplication applicationId).getLast?.map
    fun event => { status := event.target, lastEventId := some event.id }

/-- Either the status and the events of an application are left alone, or one event is appended
that names the status before and the status after. -/
def LogsMove (applicationId : UUID) (db db' : LifecycleDb τ) : Prop :=
  (db'.applications applicationId).map (·.status) = (db.applications applicationId).map (·.status) ∧
    db'.eventLog.ofApplication applicationId = db.eventLog.ofApplication applicationId ∨
  ∃ event : LifecycleEvent, event.source ≠ event.target ∧
    db'.eventLog.ofApplication applicationId =
      db.eventLog.ofApplication applicationId ++ [event] ∧
    (db.applications applicationId).map (·.status) = some event.source ∧
    (db'.applications applicationId).map (·.status) = some event.target

omit [DecidableEq τ] in
theorem LogsMove.refl (applicationId : UUID) (db : LifecycleDb τ) : LogsMove applicationId db db :=
  Or.inl ⟨rfl, rfl⟩

omit [DecidableEq τ] in
/-- What a move leaves of another application: everything. -/
theorem record_of_ne {event : LifecycleEvent} {log : EventLog} (row : ApplicationRow)
    {db : LifecycleDb τ} (hlog : db.eventLog.append (.moved event) = some log) {applicationId : UUID}
    (hne : applicationId ≠ event.aggregateId) :
    (db.record event log row).applications applicationId = db.applications applicationId ∧
      (db.record event log row).eventLog.ofApplication applicationId =
        db.eventLog.ofApplication applicationId ∧
      (db.record event log row).statusView applicationId = db.statusView applicationId :=
  ⟨Function.update_of_ne hne .., EventLog.ofApplication_append_ne hlog hne,
    Function.update_of_ne hne ..⟩

theorem LifecycleStep.logsMove {t : τ} {db db' : LifecycleDb τ} (h : LifecycleStep t db db')
    (applicationId : UUID) : LogsMove applicationId db db' := by
  cases h with
  | quiet => exact LogsMove.refl applicationId db
  | saw id => exact Or.inl ⟨rfl, rfl⟩
  | noted id row row' hrow hstatus _ =>
      refine Or.inl ⟨?_, rfl⟩
      by_cases hid : applicationId = id
      · subst hid
        rw [hrow]
        simp [hstatus]
      · simp [Function.update_of_ne hid]
  | recorded record log hlog =>
      exact Or.inl ⟨rfl, EventLog.ofApplication_append_recorded hlog applicationId⟩
  | moved event log seen stored row _ hstored hguard hsource htarget hlog hrow _ =>
      by_cases hid : applicationId = event.aggregateId
      · subst hid
        refine Or.inr ⟨event, ?_, EventLog.ofApplication_append_self hlog, ?_, ?_⟩
        · rw [hsource]
          exact (ne_of_allowed htarget).symm
        · rw [hstored, Option.map_some, hguard, hsource]
        · show (Function.update db.applications event.aggregateId (some row) _).map _ = _
          rw [Function.update_self, Option.map_some, hrow]
      · obtain ⟨happ, hevents, -⟩ := record_of_ne row hlog hid
        exact Or.inl ⟨by rw [happ], hevents⟩

theorem LogAgrees.step {applicationId : UUID} {t : τ} {db db' : LifecycleDb τ}
    (h : LogAgrees applicationId db) (hs : LifecycleStep t db db') : LogAgrees applicationId db' := by
  cases hs with
  | quiet => exact h
  | saw id => exact ⟨h.chained, h.view⟩
  | noted id row row' hrow hstatus _ =>
      refine ⟨fun new hnew => ?_, h.view⟩
      by_cases hid : applicationId = id
      · subst hid
        have hold := h.chained row hrow
        rw [← hstatus] at hold
        obtain rfl : row' = new := by simpa using hnew
        exact hold
      · exact h.chained new (by simpa [Function.update_of_ne hid] using hnew)
  | recorded record log hlog =>
      have hevents := EventLog.ofApplication_append_recorded hlog applicationId
      refine ⟨fun new hnew => ?_, ?_⟩
      · show Chained .discovered (log.ofApplication applicationId) new.status
        rw [hevents]
        exact h.chained new hnew
      · show db.statusView applicationId = (log.ofApplication applicationId).getLast?.map _
        rw [hevents]
        exact h.view
  | moved event log seen stored row _ hstored hguard hsource htarget hlog hrow _ =>
      by_cases hid : applicationId = event.aggregateId
      · subst hid
        have hevents : (db.record event log row).eventLog.ofApplication event.aggregateId =
            db.eventLog.ofApplication event.aggregateId ++ [event] :=
          EventLog.ofApplication_append_self hlog
        have hold := h.chained stored hstored
        rw [hguard, ← hsource] at hold
        refine ⟨fun new hnew => ?_, ?_⟩
        · obtain rfl : row = new := by simpa [LifecycleDb.record] using hnew
          rw [hevents, hrow]
          exact hold.append
        · rw [hevents]
          simp [LifecycleDb.record]
      · obtain ⟨happ, hevents, hview⟩ := record_of_ne row hlog hid
        refine ⟨fun new hnew => ?_, ?_⟩
        · rw [hevents]
          exact h.chained new (happ ▸ hnew)
        · rw [hview, hevents]
          exact h.view

omit [DecidableEq τ] in
theorem logAgrees_created (applications : UUID → Option Time) (applicationId : UUID) :
    LogAgrees applicationId (LifecycleDb.created (τ := τ) applications) := by
  refine ⟨fun row hrow => ?_, rfl⟩
  obtain ⟨now, -, rfl⟩ := Option.map_eq_some_iff.mp hrow
  exact rfl

/-! ### Interleavings -/

section run

variable {redactText : RedactText} {tasks : τ → LifecycleTask} {applications : UUID → Option Time}
variable {assume : τ → LifecycleDb τ → LifecycleDb τ → Prop} {sched : List (τ × LifecycleInput)}

theorem lifecycleContract_rely (t u : τ) (htu : t ≠ u) (db db' : LifecycleDb τ)
    (h : (lifecycleContract assume u).guar db db') : (lifecycleContract assume t).rely db db' :=
  LifecycleStep.sameSeen h htu

theorem lifecyclePool_sound : Pool.Sound (lifecycleContract assume) (fun _ _ _ => True)
    (fun _ _ _ => True) (lifecyclePool redactText tasks applications) := fun _ => task_keeps

/-- The invariant rule for these runs. -/
theorem lifecyclePool_inv {J : LifecycleDb τ → Prop}
    (hJ : ∀ t db db', assume t db db' → LifecycleStep t db db' → J db → J db')
    (h0 : J (LifecycleDb.created applications))
    (hm : Pool.Meets assume (lifecyclePool redactText tasks applications) sched) :
    J ((lifecyclePool redactText tasks applications).run sched).state :=
  Pool.run_inv lifecyclePool_sound (fun _ => rfl) lifecycleContract_rely
    (fun e _ db db' ha hs h => hJ e.1 db db' ha hs h) hm h0

/-- What every step does from a state of the invariant, every step of these runs does. -/
theorem lifecyclePool_meets {J : LifecycleDb τ → Prop} {P : τ → LifecycleDb τ → LifecycleDb τ → Prop}
    (hP : ∀ t db, P t db db)
    (hJ : ∀ t db db', assume t db db' → LifecycleStep t db db' → J db → J db' ∧ P t db db')
    (h0 : J (LifecycleDb.created applications))
    (hm : Pool.Meets assume (lifecyclePool redactText tasks applications) sched) :
    Pool.Meets P (lifecyclePool redactText tasks applications) sched :=
  Pool.run_meets lifecyclePool_sound (fun _ => rfl) lifecycleContract_rely hP
    (fun t db db' ha hs h => hJ t db db' ha hs h) hm h0

variable (redactText tasks applications sched) in
/-- In every state reached, events, status and projection of an application agree. -/
theorem lifecyclePool_agrees (id : UUID) :
    LogAgrees id ((lifecyclePool redactText tasks applications).run sched).state :=
  lifecyclePool_inv (fun _ _ _ _ hs h => h.step hs) (logAgrees_created applications id)
    (Pool.meets_true _ sched)

variable (redactText tasks applications sched) in
/-- Every step of a run is one of those described. -/
theorem lifecyclePool_steps :
    Pool.Meets LifecycleStep (lifecyclePool redactText tasks applications) sched :=
  lifecyclePool_meets (J := fun _ => True) (fun _ _ => .quiet) (fun _ _ _ _ hs _ => ⟨trivial, hs⟩)
    trivial (Pool.meets_true _ sched)

variable (redactText tasks applications sched) in
/-- Every step appends the event of its move, or leaves status and events alone. -/
theorem lifecyclePool_logsMove (id : UUID) :
    Pool.Meets (fun _ db db' => LogsMove id db db')
      (lifecyclePool redactText tasks applications) sched :=
  (lifecyclePool_steps redactText tasks applications sched).mono fun _ _ _ hs => hs.logsMove id

end run

/-- **Log and projection agree**: in every interleaving of moves, activities and stall checks,
the committed events of an application lead from the status it was created in to the status it
has, which is where the last event led and what its projection says; and every step either leaves
status and events alone or appends the one event of the move it makes. -/
theorem lifecycle_log_agrees (redactText : RedactText) (tasks : τ → LifecycleTask)
    (applications : UUID → Option Time) (sched : List (τ × LifecycleInput)) (id : UUID) :
    (∀ row, ((lifecyclePool redactText tasks applications).run sched).state.applications id = some row →
      Chained .discovered (((lifecyclePool redactText tasks applications).run
        sched).state.eventLog.ofApplication id) row.status ∧
      row.status = ((((lifecyclePool redactText tasks applications).run
        sched).state.eventLog.ofApplication id).getLast?.map (·.target)).getD .discovered) ∧
    ((lifecyclePool redactText tasks applications).run sched).state.statusView id =
      ((((lifecyclePool redactText tasks applications).run
        sched).state.eventLog.ofApplication id).getLast?.map
          fun event => { status := event.target, lastEventId := some event.id }) ∧
    Pool.Meets (fun _ db db' => LogsMove id db db')
      (lifecyclePool redactText tasks applications) sched := by
  have hagrees : LogAgrees id ((lifecyclePool redactText tasks applications).run sched).state :=
    lifecyclePool_agrees redactText tasks applications sched id
  exact ⟨fun row hrow => ⟨hagrees.chained row hrow, (hagrees.chained row hrow).last⟩,
    hagrees.view, lifecyclePool_logsMove redactText tasks applications sched id⟩

end PersonalOS
