import PersonalOS.LifecycleLog

/-! # What the lifecycle calls write

The own steps of the calls on an application, apart from what the others do between them.

* **Writes.** `CommitsMove`: the step is the transaction of a move, committed.  A call writes
  nothing before it, and a call that is refused writes nothing at all.
* **Steps.** `ActivityStep` says what any step does to the applications and the log: nothing, a
  bump of `last_activity_at`, or a move with its event. -/

namespace PersonalOS

open Concurrent Concurrent.Prog ApplicationLifecycleStore

variable {τ : Type}

/-! ### What a call has written -/

/-- The step moves the application: it appends an event of it. -/
def movesApplication (id : UUID) (step : OwnStep LifecycleInput (LifecycleDb τ)) : Bool :=
  step.after.eventLog.ofApplication id != step.before.eventLog.ofApplication id

/-- The time a call works with: the one it was handed, or what its first step read. -/
def ownNow (now : Option Time) (steps : List (OwnStep LifecycleInput (LifecycleDb τ))) :
    Option Time :=
  now.or (steps.head?.map (·.input.clock))

/-- The event log is left as it is. -/
def KeepsLog (step : OwnStep LifecycleInput (LifecycleDb τ)) : Prop :=
  step.after.eventLog = step.before.eventLog

theorem not_moves_of_keepsLog {step : OwnStep LifecycleInput (LifecycleDb τ)} (h : KeepsLog step)
    (id : UUID) : movesApplication id step = false := by
  unfold movesApplication
  rw [h]
  simp

/-- A move that was committed, as it stands in the tables. -/
theorem writeMove_ok {redactText : RedactText} {move : StatusMove} {seen : ApplicationRow}
    {now : Time} {i : LifecycleInput} {db db' : LifecycleDb τ}
    (h : db.writeMove redactText move seen now i = (.ok (), db')) :
    ∃ stored log, db.applications move.applicationId = some stored ∧
      stored.guarded seen.status move.quietSince = true ∧
      db.eventLog.append (.moved (move.event redactText i.eventId seen now)) = some log ∧
      db' = db.record (move.event redactText i.eventId seen now) log
        (stored.moved seen move.newStatus now) := by
  unfold LifecycleDb.writeMove at h
  split at h
  · cases h
  rename_i stored hstored
  obtain ⟨hstored, hguard⟩ := Option.filter_eq_some_iff.mp hstored
  split at h
  · cases h
  rename_i log hlog
  split at h
  · exact ⟨stored, log, hstored, hguard, hlog, (Prod.mk.inj h).2.symm⟩
  · cases h

theorem writeMove_error {redactText : RedactText} {move : StatusMove} {seen : ApplicationRow}
    {now : Time} {i : LifecycleInput} {db db' : LifecycleDb τ} {e : LifecycleError}
    (h : db.writeMove redactText move seen now i = (.error e, db')) : db' = db := by
  unfold LifecycleDb.writeMove at h
  split at h
  · exact (Prod.mk.inj h).2.symm
  split at h
  · exact (Prod.mk.inj h).2.symm
  split at h
  · cases h
  · exact (Prod.mk.inj h).2.symm

/-- The step is the committed transaction of this move, at this time. -/
def CommitsMove (redactText : RedactText) (move : StatusMove) (now : Time)
    (step : OwnStep LifecycleInput (LifecycleDb τ)) : Prop :=
  ∃ seen, step.before.writeMove redactText move seen now step.input = (.ok (), step.after)

theorem CommitsMove.moves {redactText : RedactText} {move : StatusMove} {now : Time}
    {step : OwnStep LifecycleInput (LifecycleDb τ)} (h : CommitsMove redactText move now step) :
    movesApplication move.applicationId step = true := by
  obtain ⟨seen, h⟩ := h
  obtain ⟨stored, log, -, -, hlog, hafter⟩ := writeMove_ok h
  have hevents : step.after.eventLog.ofApplication move.applicationId =
      step.before.eventLog.ofApplication move.applicationId ++
        [move.event redactText step.input.eventId seen now] := by
    rw [hafter]
    exact EventLog.ofApplication_append_self hlog
  unfold movesApplication
  rw [hevents]
  simp

section calls

variable [DecidableEq τ] {redactText : RedactText} {t : τ}
variable {steps : List (OwnStep LifecycleInput (LifecycleDb τ))}

omit [DecidableEq τ] in
theorem nowOr_ends {now : Option Time} {r : Time}
    (h : (nowOr now : LifecycleProgram τ Time).ends steps (.ok r)) :
    (∀ s ∈ steps, KeepsLog s) ∧ ownNow now steps = some r := by
  cases now with
  | some now =>
      obtain ⟨rfl, hr⟩ := h
      exact ⟨fun s hs => absurd hs List.not_mem_nil, congrArg some (Except.ok.inj hr).symm⟩
  | none =>
      obtain ⟨i, db, rest, rfl, rfl, hr⟩ := h
      refine ⟨fun s hs => ?_, congrArg some (Except.ok.inj hr).symm⟩
      obtain rfl := List.mem_singleton.mp hs
      rfl

omit [DecidableEq τ] in
theorem nowOr_not_error {now : Option Time} {e : LifecycleError} :
    ¬ (nowOr now : LifecycleProgram τ Time).ends steps (.error e) := by
  intro h
  cases now with
  | some now => cases h.2
  | none =>
      obtain ⟨i, db, rest, -, hrest⟩ := h
      cases hrest.2

/-- A move handed its time ends with its transaction, or writes nothing. -/
theorem updateStatus_ends {move : StatusMove} {now : Time} (hnow : move.now = some now)
    {o : Except LifecycleError Unit} (h : (updateStatus redactText t move).ends steps o) :
    (o = .ok () ∧ ∃ front step, steps = front ++ [step] ∧ (∀ s ∈ front, KeepsLog s) ∧
        CommitsMove redactText move now step) ∨
      (∃ e, o = .error e) ∧ ∀ s ∈ steps, KeepsLog s := by
  unfold updateStatus at h
  obtain ⟨i, db, rest, rfl, hrest⟩ := ends_act h
  have hlook : KeepsLog (⟨i, db, (db.see t move.applicationId).2⟩ :
      OwnStep LifecycleInput (LifecycleDb τ)) := rfl
  cases hsee : (db.see t move.applicationId).1 with
  | none =>
      rw [hsee] at hrest
      obtain ⟨rfl, rfl⟩ := hrest
      exact Or.inr ⟨⟨_, rfl⟩, by simpa using hlook⟩
  | some seen =>
      rw [hsee] at hrest
      dsimp only at hrest
      split at hrest
      · obtain ⟨rfl, rfl⟩ := hrest
        exact Or.inr ⟨⟨_, rfl⟩, by simpa using hlook⟩
      · rw [hnow] at hrest
        obtain ⟨i', db', rest', rfl, hrest'⟩ := ends_act hrest
        cases hwrite : db'.writeMove redactText move seen now i' with
        | mk answer after =>
            rw [hwrite] at hrest'
            cases answer with
            | error e =>
                obtain ⟨rfl, rfl⟩ := hrest'
                have hsame : KeepsLog (⟨i', db', after⟩ : OwnStep LifecycleInput (LifecycleDb τ)) := by
                  obtain rfl := writeMove_error hwrite
                  rfl
                refine Or.inr ⟨⟨_, rfl⟩, fun s hs => ?_⟩
                simp only [List.mem_cons, List.not_mem_nil, or_false] at hs
                rcases hs with rfl | rfl
                · exact hlook
                · exact hsame
            | ok u =>
                obtain ⟨rfl, rfl⟩ := hrest'
                refine Or.inl ⟨rfl, [⟨i, db, (db.see t move.applicationId).2⟩], ⟨i', db', after⟩,
                  rfl, ?_, seen, hwrite⟩
                simpa using hlook

/-- A transition writes nothing, or commits its move, and then returns unless it finds the
application gone. -/
theorem transition_ends {id : UUID} {newStatus : ApplicationStatus} {reason : Option String}
    {actor : String} {now : Option Time} {o : Except LifecycleError ApplicationLifecycleState}
    (h : (transition redactText t id newStatus reason actor now).ends steps o) :
    (∃ front step rest time, steps = front ++ step :: rest ∧ (∀ s ∈ front, KeepsLog s) ∧
        (∀ given, now = some given → time = given) ∧
        CommitsMove redactText ⟨id, newStatus, reason, actor, some time, none⟩ time step ∧
        (∀ s ∈ rest, KeepsLog s) ∧
        ((∃ state, o = .ok state) ∨ ∃ last ∈ rest, last.before.applications id = none)) ∨
      (∃ e, o = .error e) ∧ ∀ s ∈ steps, KeepsLog s := by
  unfold transition at h
  rcases ends_bind h with ⟨time, early, steps', rfl, hnow, hcall⟩ | ⟨e, rfl, hnow⟩
  · obtain ⟨hearly, hown⟩ := nowOr_ends hnow
    have htime : ∀ given, now = some given → time = given := by
      rintro given rfl
      exact (Option.some.inj hown).symm
    rcases ends_bind hcall with ⟨u, front, rest, rfl, hupdate, hget⟩ | ⟨e, rfl, hupdate⟩
    · rcases updateStatus_ends rfl hupdate with ⟨-, front', step, rfl, hfront, hstep⟩ | ⟨⟨e, he⟩, -⟩
      · obtain ⟨i, db, rest', rfl, hend⟩ := ends_act hget
        have hread : KeepsLog (⟨i, db, db⟩ : OwnStep LifecycleInput (LifecycleDb τ)) := rfl
        refine Or.inl ⟨early ++ front', step, ⟨i, db, db⟩ :: rest', time, by simp, ?_, htime,
          hstep, ?_, ?_⟩
        · intro s hs
          rcases List.mem_append.mp hs with hs | hs
          · exact hearly s hs
          · exact hfront s hs
        · cases hstate : db.stateOf id with
          | none =>
              dsimp only at hend
              rw [hstate] at hend
              obtain ⟨rfl, -⟩ := hend
              simpa using hread
          | some state =>
              dsimp only at hend
              rw [hstate] at hend
              obtain ⟨rfl, -⟩ := hend
              simpa using hread
        · cases hrow : db.applications id with
          | none => exact Or.inr ⟨_, List.mem_cons_self, hrow⟩
          | some row =>
              have hstate : ∃ state, db.stateOf id = some state := by
                simp [LifecycleDb.stateOf, hrow]
              obtain ⟨state, hstate⟩ := hstate
              dsimp only at hend
              rw [hstate] at hend
              exact Or.inl ⟨state, hend.2⟩
      · cases he
    · rcases updateStatus_ends rfl hupdate with ⟨he, -⟩ | ⟨-, hquiet⟩
      · cases he
      · refine Or.inr ⟨⟨e, rfl⟩, fun s hs => ?_⟩
        rcases List.mem_append.mp hs with hs | hs
        · exact hearly s hs
        · exact hquiet s hs
  · exact absurd hnow nowOr_not_error

end calls

/-! ### What a step writes -/

/-- What one step of an actor with this task does to the tables. -/
inductive ActivityStep (task : LifecycleTask) (db : LifecycleDb τ) : LifecycleDb τ → Prop where
  | quiet (db' : LifecycleDb τ) : db'.applications = db.applications →
      (∀ id, db'.eventLog.ofApplication id = db.eventLog.ofApplication id) →
      ActivityStep task db db'
  | noted (id : UUID) (row : ApplicationRow) (now : Time) : db.applications id = some row →
      ActivityStep task db
        { db with
          applications := Function.update db.applications id
            (some { row with lastActivityAt := some now }) }
  | moved (event : LifecycleEvent) (log : EventLog) (stored row : ApplicationRow) :
      db.applications event.aggregateId = some stored → db.eventLog.append (.moved event) = some log →
      (event.target = .stalled → row.lastActivityAt = stored.lastActivityAt) →
      (event.target ≠ .stalled → row.lastActivityAt = some event.occurredAt) →
      (∀ quietSince now, task = .markStalled event.aggregateId quietSince now →
        ∃ last, stored.lastActivityAt = some last ∧ last ≤ quietSince) →
      ActivityStep task db (db.record event log row)

/-- The guard of a stall check. -/
theorem quiet_of_guarded {current : ApplicationStatus} {quietSince : Time} {row : ApplicationRow}
    (h : row.guarded current (some quietSince) = true) :
    ∃ last, row.lastActivityAt = some last ∧ last ≤ quietSince := by
  unfold ApplicationRow.guarded at h
  have hquiet := (Bool.and_eq_true_iff.mp h).2
  cases hlast : row.lastActivityAt with
  | none => simp [hlast] at hquiet
  | some last => exact ⟨last, rfl, by simpa [hlast] using hquiet⟩

section writes

variable [DecidableEq τ] {redactText : RedactText} {t : τ} {task : LifecycleTask}

/-- A move of a stall check carries its cutoff. -/
def StatusMove.Of (move : StatusMove) (task : LifecycleTask) : Prop :=
  ∀ id quietSince now, task = .markStalled id quietSince now → move.quietSince = some quietSince

omit [DecidableEq τ] in
theorem writeMove_activityStep {move : StatusMove} (hmove : move.Of task) (seen : ApplicationRow)
    (now : Time) (i : LifecycleInput) (db : LifecycleDb τ) :
    ActivityStep task db (db.writeMove redactText move seen now i).2 := by
  cases hwrite : db.writeMove redactText move seen now i with
  | mk answer db' =>
      cases answer with
      | error e => exact .quiet _ (by rw [writeMove_error hwrite]) fun _ => by rw [writeMove_error hwrite]
      | ok u =>
          obtain ⟨stored, log, hstored, hguard, hlog, hdb'⟩ := writeMove_ok hwrite
          rw [hdb']
          refine .moved _ log stored _ hstored hlog (fun h => ?_) (fun h => ?_) ?_
          · exact if_neg (not_not.mpr h)
          · exact if_pos h
          · intro quietSince now' htask
            rw [hmove _ quietSince now' htask] at hguard
            exact quiet_of_guarded hguard

theorem updateStatus_steps {move : StatusMove} (hmove : move.Of task) :
    (updateStatus redactText t move : LifecycleProgram τ Unit).stepsOnly (ActivityStep task) := by
  unfold updateStatus
  refine stepsOnly_act (fun i db => .quiet _ rfl fun _ => rfl) fun seen => ?_
  cases seen with
  | none => trivial
  | some seen =>
      dsimp only
      split
      · trivial
      · refine stepsOnly_bind ?_ fun now => ?_
        · cases move.now with
          | some now => trivial
          | none => exact ⟨fun i db => .quiet _ rfl fun _ => rfl, fun _ => trivial⟩
        · refine stepsOnly_act (fun i db => writeMove_activityStep hmove seen now i db) fun answer => ?_
          cases answer with
          | error e => trivial
          | ok u => trivial

theorem transition_steps {id : UUID} {newStatus : ApplicationStatus} {reason : Option String}
    {actor : String} {now : Option Time} (htask : ∀ id quietSince now, task ≠ .markStalled id quietSince now) :
    (transition redactText t id newStatus reason actor now :
      LifecycleProgram τ ApplicationLifecycleState).stepsOnly (ActivityStep task) := by
  unfold transition
  refine stepsOnly_bind ?_ fun now => ?_
  · cases now with
    | some now => trivial
    | none => exact ⟨fun i db => .quiet _ rfl fun _ => rfl, fun _ => trivial⟩
  · refine stepsOnly_bind (updateStatus_steps fun id quietSince now h => absurd h (htask _ _ _)) fun _ => ?_
    refine stepsOnly_act (fun i db => .quiet _ rfl fun _ => rfl) fun state => ?_
    cases state with
    | none => trivial
    | some state => trivial

theorem recordActivityIn_steps {id : UUID} {reason : Option String} {now : Time} {passes : ℕ}
    (htask : ∀ id quietSince now, task ≠ .markStalled id quietSince now) :
    (recordActivityIn redactText t id reason now passes :
      LifecycleProgram τ ApplicationLifecycleState).stepsOnly (ActivityStep task) := by
  induction passes with
  | zero => trivial
  | succ passes ih =>
      unfold recordActivityIn
      refine stepsOnly_act (fun i db => .quiet _ rfl fun _ => rfl) fun state => ?_
      cases state with
      | none => trivial
      | some state =>
          dsimp only
          split
          · refine stepsOnly_bind (stepsOnly_attempt (transition_steps htask)) fun answer => ?_
            split
            · trivial
            · exact ih
            · trivial
          · refine stepsOnly_act (fun i db => ?_) fun bumped => ?_
            · unfold LifecycleDb.bump
              split
              · exact .quiet _ rfl fun _ => rfl
              · rename_i row hrow
                exact .noted id row now (Option.filter_eq_some_iff.mp hrow).1
            · cases bumped with
              | true => trivial
              | false => exact ih

omit [DecidableEq τ] in
theorem boardAppend_steps {id : UUID} {kind : BoardRecordKind} {payload : String} {now : Option Time} :
    (ApplicationBoardStore.append redactText id kind payload now :
      LifecycleProgram τ UUID).stepsOnly (ActivityStep task) := by
  unfold ApplicationBoardStore.append
  refine stepsOnly_act (fun i db => ?_) fun answer => ?_
  · unfold LifecycleDb.recordOnBoard
    split
    · exact .quiet _ rfl fun _ => rfl
    split
    · exact .quiet _ rfl fun _ => rfl
    rename_i log hlog
    split
    · exact .quiet _ rfl (EventLog.ofApplication_append_recorded hlog)
    · exact .quiet _ rfl fun _ => rfl
  · cases answer with
    | error e => trivial
    | ok eventId => trivial

theorem task_steps : (task.program redactText t).stepsOnly (ActivityStep task) := by
  cases task with
  | updateStatus move =>
      exact stepsOnly_bind (updateStatus_steps fun id quietSince now h => by cases h) fun _ => trivial
  | transition id newStatus reason actor now =>
      exact stepsOnly_bind (transition_steps fun id quietSince now h => by cases h) fun _ => trivial
  | recordActivity id reason now =>
      refine stepsOnly_bind ?_ fun _ => trivial
      unfold recordActivity
      refine stepsOnly_bind ?_ fun now =>
        recordActivityIn_steps fun id quietSince now h => by cases h
      cases now with
      | some now => trivial
      | none => exact ⟨fun i db => .quiet _ rfl fun _ => rfl, fun _ => trivial⟩
  | markStalled id quietSince now =>
      refine stepsOnly_bind ?_ fun _ => trivial
      unfold markStalled
      refine stepsOnly_bind ?_ fun now => ?_
      · cases now with
        | some now => trivial
        | none => exact ⟨fun i db => .quiet _ rfl fun _ => rfl, fun _ => trivial⟩
      · refine stepsOnly_bind (stepsOnly_attempt (updateStatus_steps ?_)) fun answer => ?_
        · intro id' quietSince' now' h
          cases h
          rfl
        · split
          · trivial
          · trivial
          · trivial
          · trivial
  | recordMatch id payload now => exact stepsOnly_bind boardAppend_steps fun _ => trivial
  | recordTransitionRequest id payload requestedAt =>
      exact stepsOnly_bind boardAppend_steps fun _ => trivial

end writes

end PersonalOS
