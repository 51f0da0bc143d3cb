import PersonalOS.LifecycleCalls

/-! # Only quiet applications are stalled

The stall check against activities and moves of the same application, statement by statement.

* **Held.** `HeldFrom`: a held application remembers a status to resume to, so that an activity
  on a stalled one resumes it and the bump never writes to one.
* **Own write.** `activityWrite` finds, among the steps of a `record_activity` call, the one that
  wrote: its move out of STALLED, or else the bump it ends with.
* **Condition.** `Forward`: `last_activity_at` is overwritten with the writer's own time, and the
  stall check can rely on it as long as no writer sets it back. -/

namespace PersonalOS

open Concurrent Concurrent.Prog ApplicationLifecycleStore

variable {τ : Type}

/-! ### Held applications -/

/-- A held application remembers a status to resume to, one it can progress through. -/
def ApplicationRow.HeldFrom (row : ApplicationRow) : Prop :=
  row.status.holding = true → ∃ resume, row.resumeStatus = some resume ∧ resume.holding = false

/-- Every stored row, and every row read, is held from a status. -/
structure RowsHeld (db : LifecycleDb τ) : Prop where
  stored : ∀ id row, db.applications id = some row → row.HeldFrom
  seen : ∀ t row, db.seen t = some row → row.HeldFrom

theorem heldFrom_after {seen row : ApplicationRow} {new : ApplicationStatus} (h : seen.HeldFrom)
    (hstatus : row.status = new)
    (hresume : row.resumeStatus = resumeStatusAfter seen.status new seen.resumeStatus) :
    row.HeldFrom := by
  intro hholding
  rw [hstatus] at hholding
  rw [hresume]
  unfold resumeStatusAfter
  cases hseen : seen.status.holding with
  | true =>
      obtain ⟨resume, hr, hnot⟩ := h hseen
      exact ⟨resume, by simp [hholding, hr], hnot⟩
  | false => exact ⟨seen.status, by simp [hholding], hseen⟩

theorem RowsHeld.step [DecidableEq τ] {t : τ} {db db' : LifecycleDb τ} (h : RowsHeld db)
    (hs : LifecycleStep t db db') : RowsHeld db' := by
  cases hs with
  | quiet => exact h
  | saw id =>
      refine ⟨h.stored, fun u row hrow => ?_⟩
      by_cases hu : u = t
      · subst hu
        exact h.stored id row (by simpa [LifecycleDb.see] using hrow)
      · exact h.seen u row (by simpa [LifecycleDb.see, Function.update_of_ne hu] using hrow)
  | noted id old row' hold hstatus hresume =>
      refine ⟨fun id' row hrow => ?_, h.seen⟩
      by_cases hid : id' = id
      · subst hid
        obtain rfl : row' = row := by simpa using hrow
        intro hholding
        rw [hresume]
        exact h.stored id' old hold (hstatus ▸ hholding)
      · exact h.stored id' row (by simpa [Function.update_of_ne hid] using hrow)
  | recorded record log _ => exact ⟨h.stored, h.seen⟩
  | moved event log seen stored row' hseen _ _ _ _ _ hstatus hresume =>
      refine ⟨fun id' row hrow => ?_, h.seen⟩
      by_cases hid : id' = event.aggregateId
      · subst hid
        obtain rfl : row' = row := by simpa [LifecycleDb.record] using hrow
        exact heldFrom_after (h.seen t seen hseen) hstatus hresume
      · exact h.stored id' row (by simpa [LifecycleDb.record, Function.update_of_ne hid] using hrow)

theorem rowsHeld_created (applications : UUID → Option Time) :
    RowsHeld (LifecycleDb.created (τ := τ) applications) := by
  refine ⟨fun id row hrow => ?_, fun _ _ h => by cases h⟩
  obtain ⟨now, -, rfl⟩ := Option.map_eq_some_iff.mp hrow
  intro hholding
  cases hholding

theorem rowsHeld_run [DecidableEq τ] {redactText : RedactText} {tasks : τ → LifecycleTask}
    {applications : UUID → Option Time} (sched : List (τ × LifecycleInput)) :
    RowsHeld ((lifecyclePool redactText tasks applications).run sched).state :=
  lifecyclePool_inv (fun _ _ _ _ hs h => h.step hs) (rowsHeld_created applications)
    (Pool.meets_true _ sched)

/-! ### What a call has written -/

/-- The step of a `record_activity` call that wrote: the one that moved the application, or else
the last one. -/
def activityWrite (id : UUID) (steps : List (OwnStep LifecycleInput (LifecycleDb τ))) :
    Option (OwnStep LifecycleInput (LifecycleDb τ)) :=
  (steps.find? (movesApplication id)).or steps.getLast?

/-- The application is not stalled and was last active at this time. -/
def ActiveAt (id : UUID) (time : Time) (db : LifecycleDb τ) : Prop :=
  ∃ row, db.applications id = some row ∧ row.status ≠ .stalled ∧ row.lastActivityAt = some time

theorem activityWrite_of_moves {id : UUID} {front rest : List (OwnStep LifecycleInput (LifecycleDb τ))}
    {step : OwnStep LifecycleInput (LifecycleDb τ)} (hfront : ∀ s ∈ front, KeepsLog s)
    (h : movesApplication id step = true) : activityWrite id (front ++ step :: rest) = some step := by
  have hnone : front.find? (movesApplication id) = none := by
    rw [List.find?_eq_none]
    intro s hs
    rw [not_moves_of_keepsLog (hfront s hs)]
    simp
  unfold activityWrite
  rw [List.find?_append, hnone, Option.none_or, List.find?_cons_of_pos h, Option.some_or]

theorem activityWrite_of_last {id : UUID} {front : List (OwnStep LifecycleInput (LifecycleDb τ))}
    {step : OwnStep LifecycleInput (LifecycleDb τ)}
    (h : ∀ s ∈ front ++ [step], KeepsLog s) : activityWrite id (front ++ [step]) = some step := by
  have hnone : (front ++ [step]).find? (movesApplication id) = none := by
    rw [List.find?_eq_none]
    intro s hs
    rw [not_moves_of_keepsLog (h s hs)]
    simp
  unfold activityWrite
  rw [hnone, Option.none_or, List.getLast?_concat]

theorem CommitsMove.active {redactText : RedactText} {move : StatusMove} {now : Time}
    {step : OwnStep LifecycleInput (LifecycleDb τ)} (h : CommitsMove redactText move now step)
    (hstalled : move.newStatus ≠ .stalled) : ActiveAt move.applicationId now step.after := by
  obtain ⟨seen, h⟩ := h
  obtain ⟨stored, log, -, -, -, hafter⟩ := writeMove_ok h
  refine ⟨stored.moved seen move.newStatus now, ?_, hstalled, ?_⟩
  · rw [hafter]
    exact Function.update_self ..
  · exact if_pos hstalled

section calls

variable [DecidableEq τ] {redactText : RedactText} {t : τ}
variable {steps : List (OwnStep LifecycleInput (LifecycleDb τ))}

/-- The state that a pass of `record_activity` has read, and what it then wrote: it resumes a
stalled application to where it is held from, or bumps one that is where it was. -/
structure ActivityWritten (redactText : RedactText) (id : UUID) (now : Time)
    (steps : List (OwnStep LifecycleInput (LifecycleDb τ))) : Prop where
  written : ∃ front step rest look row, steps = front ++ step :: rest ∧
    (∀ s ∈ front, KeepsLog s) ∧ look ∈ front ∧ look.before.applications id = some row ∧
    ((∃ move, move.applicationId = id ∧ CommitsMove redactText move now step ∧
        row.status = .stalled ∧ row.resumeStatus = some move.newStatus) ∨
      rest = [] ∧ (row.status = .stalled → row.resumeStatus = none) ∧
        step.before.bump id row.status now = (true, step.after))

omit [DecidableEq τ] in
theorem ActivityWritten.after {id : UUID} {now : Time}
    (front : List (OwnStep LifecycleInput (LifecycleDb τ))) (hfront : ∀ s ∈ front, KeepsLog s)
    (h : ActivityWritten redactText id now steps) :
    ActivityWritten redactText id now (front ++ steps) := by
  obtain ⟨front', step, rest, look, row, rfl, hfront', hlook, hrow, hwrite⟩ := h
  refine ⟨front ++ front', step, rest, look, row, by simp, ?_, ?_, hrow, hwrite⟩
  · intro s hs
    rcases List.mem_append.mp hs with hs | hs
    · exact hfront s hs
    · exact hfront' s hs
  · exact List.mem_append_right front hlook

omit [DecidableEq τ] in
theorem bump_eventLog (id : UUID) (status : ApplicationStatus) (now : Time) (db : LifecycleDb τ) :
    (db.bump id status now).2.eventLog = db.eventLog := by
  unfold LifecycleDb.bump
  split
  · rfl
  · rfl

theorem recordActivityIn_ends {id : UUID} {reason : Option String} {now : Time} {passes : ℕ}
    {a : ApplicationLifecycleState}
    (h : (recordActivityIn redactText t id reason now passes).ends steps (.ok a)) :
    ActivityWritten redactText id now steps := by
  induction passes generalizing steps with
  | zero => cases h.2
  | succ passes ih =>
      unfold recordActivityIn at h
      obtain ⟨i, db, rest, rfl, hrest⟩ := ends_act h
      dsimp only at hrest
      cases hrow : db.applications id with
      | none =>
          have hstate : db.stateOf id = none := by simp [LifecycleDb.stateOf, hrow]
          rw [hstate] at hrest
          cases hrest.2
      | some row =>
          have hlook : ∀ s ∈ [(⟨i, db, db⟩ : OwnStep LifecycleInput (LifecycleDb τ))], KeepsLog s := by
            intro s hs
            obtain rfl := List.mem_singleton.mp hs
            rfl
          have hstate : ∃ state, db.stateOf id = some state ∧ state.status = row.status ∧
              state.resumeStatus = row.resumeStatus := by
            simp [LifecycleDb.stateOf, hrow]
          obtain ⟨state, hstate, hstatus, hresume⟩ := hstate
          rw [hstate] at hrest
          dsimp only at hrest
          rw [hstatus, hresume] at hrest
          split at hrest
          · -- The application was stalled: it is resumed, or a conflict starts the next pass.
            rename_i resume hheld
            have hstalled : row.status = .stalled ∧ row.resumeStatus = some resume := by
              split at hheld
              · exact ⟨‹_›, hheld⟩
              · cases hheld
            obtain ⟨r, front, rest', rfl, hattempt, hrest'⟩ := ends_bind_ok hrest
            obtain ⟨r', hr, htransition⟩ := ends_attempt hattempt
            obtain rfl := Except.ok.inj hr
            rcases transition_ends htransition with
              ⟨front', step, rest'', time, rfl, hfront', htime, hstep, -, -⟩ | ⟨⟨e, rfl⟩, hquiet⟩
            · obtain rfl := htime now rfl
              refine ⟨⟨i, db, db⟩ :: front', step, rest'' ++ rest', ⟨i, db, db⟩, row, by simp, ?_,
                List.mem_cons_self, hrow, Or.inl ⟨_, rfl, hstep, hstalled⟩⟩
              intro s hs
              rcases List.mem_cons.mp hs with rfl | hs
              · rfl
              · exact hfront' s hs
            · split at hrest'
              · cases ‹Except.error _ = Except.ok _›
              · rename_i message heq
                exact (ih hrest').after (⟨i, db, db⟩ :: front) (by simpa using ⟨rfl, hquiet⟩)
              · cases hrest'.2
          · -- Otherwise the bump is made, or a move meanwhile starts the next pass.
            rename_i hnone
            have hheld : row.status = .stalled → row.resumeStatus = none := by
              intro hstalled
              rwa [if_pos hstalled] at hnone
            obtain ⟨i', db', rest', rfl, hrest'⟩ := ends_act hrest
            cases hbump : db'.bump id row.status now with
            | mk bumped after =>
                rw [hbump] at hrest'
                cases bumped with
                | true =>
                    obtain ⟨rfl, -⟩ := hrest'
                    exact ⟨[⟨i, db, db⟩], _, [], ⟨i, db, db⟩, row, rfl, hlook,
                      List.mem_cons_self, hrow, Or.inr ⟨rfl, hheld, hbump⟩⟩
                | false =>
                    have hkeep : KeepsLog (⟨i', db', (db'.bump id row.status now).2⟩ :
                        OwnStep LifecycleInput (LifecycleDb τ)) := bump_eventLog id row.status now db'
                    rw [hbump] at hkeep
                    exact (ih hrest').after [⟨i, db, db⟩, ⟨i', db', after⟩]
                      (by simpa using ⟨rfl, hkeep⟩)

omit [DecidableEq τ] in
theorem bump_active {id : UUID} {status : ApplicationStatus} {now : Time} {db db' : LifecycleDb τ}
    (hstatus : status ≠ .stalled) (h : db.bump id status now = (true, db')) :
    ActiveAt id now db' := by
  unfold LifecycleDb.bump at h
  split at h
  · cases h
  · rename_i row hrow
    obtain ⟨hrow, hguard⟩ := Option.filter_eq_some_iff.mp hrow
    refine ⟨{ row with lastActivityAt := some now }, ?_, ?_, rfl⟩
    · rw [← (Prod.mk.inj h).2]
      exact Function.update_self ..
    · rwa [← beq_iff_eq.mp hguard] at hstatus

omit [DecidableEq τ] in
theorem ActivityWritten.active {id : UUID} {now : Time}
    (h : ActivityWritten redactText id now steps) (hheld : ∀ s ∈ steps, RowsHeld s.before) :
    ∃ step ∈ steps, activityWrite id steps = some step ∧ ActiveAt id now step.after := by
  obtain ⟨front, step, rest, look, row, rfl, hfront, hlook, hrow, hwrite⟩ := h
  have hrows : row.HeldFrom :=
    (hheld look (List.mem_append_left _ hlook)).stored id row hrow
  refine ⟨step, by simp, ?_⟩
  rcases hwrite with ⟨move, rfl, hmove, hstalled, hresume⟩ | ⟨rfl, hnone, hbump⟩
  · refine ⟨activityWrite_of_moves hfront hmove.moves, hmove.active ?_⟩
    obtain ⟨resume, hr, hnot⟩ := hrows (by rw [hstalled]; rfl)
    obtain rfl : move.newStatus = resume := Option.some.inj (hresume.symm.trans hr)
    intro heq
    rw [heq] at hnot
    cases hnot
  · have hkeep : KeepsLog step := by
      have hlog := bump_eventLog id row.status now step.before
      rw [hbump] at hlog
      exact hlog
    refine ⟨activityWrite_of_last ?_, bump_active ?_ hbump⟩
    · intro s hs
      rcases List.mem_append.mp hs with hs | hs
      · exact hfront s hs
      · rw [List.mem_singleton.mp hs]
        exact hkeep
    · intro hstalled
      obtain ⟨resume, hr, -⟩ := hrows (by rw [hstalled]; rfl)
      rw [hnone hstalled] at hr
      cases hr

theorem recordActivity_ends {id : UUID} {reason : Option String} {now : Option Time}
    {a : ApplicationLifecycleState}
    (h : (recordActivity redactText t id reason now).ends steps (.ok a)) :
    ∃ time, ownNow now steps = some time ∧ ActivityWritten redactText id time steps := by
  unfold recordActivity at h
  obtain ⟨time, front, rest, rfl, hnow, hpasses⟩ := ends_bind_ok h
  obtain ⟨hfront, hown⟩ := nowOr_ends hnow
  refine ⟨time, ?_, (recordActivityIn_ends hpasses).after _ hfront⟩
  cases now with
  | some now => exact hown
  | none =>
      cases front with
      | nil => cases hown
      | cons step front => exact hown

end calls

/-! ### Runs -/

/-- No writer of the step sets the application's `last_activity_at` back. -/
def Forward (id : UUID) (db db' : LifecycleDb τ) : Prop :=
  ∀ row ∈ db.applications id, ∀ row' ∈ db'.applications id,
    ∀ last ∈ row.lastActivityAt, ∀ last' ∈ row'.lastActivityAt, last ≤ last'

instance (id : UUID) (db db' : LifecycleDb τ) : Decidable (Forward id db db') :=
  inferInstanceAs (Decidable (∀ row ∈ db.applications id, ∀ row' ∈ db'.applications id,
    ∀ last ∈ row.lastActivityAt, ∀ last' ∈ row'.lastActivityAt, last ≤ last'))

/-- The application was last active at this time or later. -/
def ActiveBy (id : UUID) (time : Time) (db : LifecycleDb τ) : Prop :=
  ∃ row last, db.applications id = some row ∧ row.lastActivityAt = some last ∧ time ≤ last

/-- Every recorded move that is no stall is accounted for in `last_activity_at`. -/
def MovesActive (id : UUID) (db : LifecycleDb τ) : Prop :=
  ∀ event ∈ db.eventLog.ofApplication id, event.target ≠ .stalled → ActiveBy id event.occurredAt db

theorem ActivityStep.activeBy {task : LifecycleTask} {id : UUID} {time : Time} {db db' : LifecycleDb τ}
    (hs : ActivityStep task db db') (hf : Forward id db db') (h : ActiveBy id time db) :
    ActiveBy id time db' := by
  obtain ⟨row, last, hrow, hlast, hle⟩ := h
  have hforward : ∀ row' last', db'.applications id = some row' → row'.lastActivityAt = some last' →
      ActiveBy id time db' := fun row' last' hrow' hlast' =>
    ⟨row', last', hrow', hlast', Int.le_trans hle (hf row hrow row' hrow' last hlast last' hlast')⟩
  cases hs with
  | quiet _ happ _ => exact hforward row last (by rw [happ, hrow]) hlast
  | noted id' stored now hstored =>
      by_cases hid : id = id'
      · subst hid
        exact hforward _ now (Function.update_self ..) rfl
      · exact hforward row last (by rw [← hrow]; exact Function.update_of_ne hid ..) hlast
  | moved event log stored row' hstored _ hstall hmove _ =>
      by_cases hid : id = event.aggregateId
      · subst hid
        have hnew : (db.record event log row').applications event.aggregateId = some row' :=
          Function.update_self ..
        by_cases htarget : event.target = .stalled
        · obtain rfl : stored = row := Option.some.inj (hstored.symm.trans hrow)
          exact hforward row' last hnew ((hstall htarget).trans hlast)
        · exact hforward row' event.occurredAt hnew (hmove htarget)
      · exact hforward row last (by rw [← hrow]; exact Function.update_of_ne hid ..) hlast

theorem ActivityStep.movesActive {task : LifecycleTask} {id : UUID} {db db' : LifecycleDb τ}
    (hs : ActivityStep task db db') (hf : Forward id db db') (h : MovesActive id db) :
    MovesActive id db' := by
  have hold : ∀ event ∈ db.eventLog.ofApplication id, event.target ≠ .stalled →
      ActiveBy id event.occurredAt db' := fun event hevent htarget =>
    hs.activeBy hf (h event hevent htarget)
  cases hs with
  | quiet _ _ hlog =>
      unfold MovesActive
      rw [hlog id]
      exact hold
  | noted id' stored now _ => exact hold
  | moved event log stored row' _ hlog _ hmove _ =>
      by_cases hid : id = event.aggregateId
      · subst hid
        intro e he htarget
        have hevents : (db.record event log row').eventLog.ofApplication event.aggregateId =
            db.eventLog.ofApplication event.aggregateId ++ [event] :=
          EventLog.ofApplication_append_self hlog
        rw [hevents] at he
        rcases List.mem_append.mp he with he | he
        · exact hold e he htarget
        · obtain rfl := List.mem_singleton.mp he
          exact ⟨row', e.occurredAt, Function.update_self .., hmove htarget, Int.le_refl _⟩
      · have hsame : (db.record event log row').eventLog.ofApplication id =
            db.eventLog.ofApplication id := EventLog.ofApplication_append_ne hlog hid
        unfold MovesActive
        rw [hsame]
        exact hold

theorem ActivityStep.quiet_of_moves {id : UUID} {quietSince : Time} {now : Option Time}
    {db db' : LifecycleDb τ} (hs : ActivityStep (.markStalled id quietSince now) db db')
    (hmoves : db'.eventLog.ofApplication id ≠ db.eventLog.ofApplication id) {time : Time}
    (h : ActiveBy id time db) : time ≤ quietSince := by
  obtain ⟨row, last, hrow, hlast, hle⟩ := h
  cases hs with
  | quiet _ _ hlog => exact absurd (hlog id) hmoves
  | noted id' stored now' _ => exact absurd rfl hmoves
  | moved event log stored row' hstored hlog _ _ hquiet =>
      have hid : id = event.aggregateId := by
        by_contra hne
        exact hmoves (EventLog.ofApplication_append_ne hlog hne)
      subst hid
      obtain ⟨last', hlast', hle'⟩ := hquiet quietSince now rfl
      obtain rfl : stored = row := Option.some.inj (hstored.symm.trans hrow)
      obtain rfl : last' = last := Option.some.inj (hlast'.symm.trans hlast)
      exact Int.le_trans hle hle'

section run

variable [DecidableEq τ] {redactText : RedactText} {tasks : τ → LifecycleTask}
variable {applications : UUID → Option Time} {sched : List (τ × LifecycleInput)}

variable (redactText tasks applications sched) in
theorem lifecyclePool_activitySteps :
    Pool.Meets (fun t => ActivityStep (tasks t)) (lifecyclePool redactText tasks applications) sched :=
  Pool.meets_stepsOnly (fun _ db => .quiet db rfl fun _ => rfl) fun _ => task_steps

theorem recordActivity_written {t : τ} {id : UUID} {reason : Option String} {now : Option Time}
    {answer : LifecycleAnswer} (htask : tasks t = .recordActivity id reason now)
    (h : (((lifecyclePool redactText tasks applications).run sched).procs t).outcome =
      some (.ok answer)) :
    ∃ step time, step ∈ (lifecyclePool redactText tasks applications).stepsOf t sched ∧
      activityWrite id ((lifecyclePool redactText tasks applications).stepsOf t sched) = some step ∧
      ownNow now ((lifecyclePool redactText tasks applications).stepsOf t sched) = some time ∧
      ActiveAt id time step.after := by
  have hends := Pool.ends_stepsOf h
  have hprogram : (lifecyclePool redactText tasks applications).procs t =
      (LifecycleTask.recordActivity id reason now).program redactText t := by
    rw [← htask]
    rfl
  rw [hprogram] at hends
  obtain ⟨state, front, rest, hsteps, hcall, hrest, -⟩ := ends_bind_ok hends
  rw [hrest, List.append_nil] at hsteps
  rw [← hsteps] at hcall
  obtain ⟨time, hnow, hwritten⟩ := recordActivity_ends hcall
  obtain ⟨step, hmem, hwrite, hactive⟩ := hwritten.active fun s hs => by
    obtain ⟨front, rest, -, hbefore, -⟩ := Pool.mem_stepsOf hs
    rw [hbefore]
    exact rowsHeld_run front
  exact ⟨step, time, hmem, hwrite, hnow, hactive⟩

theorem recordActivity_activeBy {t : τ} {id : UUID} {reason : Option String} {now : Option Time}
    {answer : LifecycleAnswer} {time : Time}
    (hm : Pool.Meets (fun _ db db' => Forward id db db')
      (lifecyclePool redactText tasks applications) sched)
    (htask : tasks t = .recordActivity id reason now)
    (h : (((lifecyclePool redactText tasks applications).run sched).procs t).outcome =
      some (.ok answer))
    (hnow : ownNow now ((lifecyclePool redactText tasks applications).stepsOf t sched) = some time) :
    ActiveBy id time ((lifecyclePool redactText tasks applications).run sched).state := by
  obtain ⟨step, time', hmem, -, hnow', row, hrow, -, hlast⟩ := recordActivity_written htask h
  obtain rfl : time' = time := Option.some.inj (hnow'.symm.trans hnow)
  obtain ⟨front, rest, hsched, -, hafter⟩ := Pool.mem_stepsOf hmem
  have hsplit : sched = (front ++ [(t, step.input)]) ++ rest := by simp [hsched]
  have hboth := Pool.Meets.and hm (lifecyclePool_activitySteps redactText tasks applications sched)
  rw [hsplit, Pool.meets_append] at hboth
  rw [hsplit, Pool.run_append]
  refine Pool.Meets.inv (fun u db db' hs h => hs.2.activeBy hs.1 h) hboth.2 ?_
  rw [← hafter]
  exact ⟨row, time', hrow, hlast, Int.le_refl _⟩

end run

/-- No later activity or move of the application is on record: neither a move that is no stall,
nor a `record_activity` call that has returned, was made at a time after `quietSince`. -/
structure QuietSince [DecidableEq τ] (redactText : RedactText) (tasks : τ → LifecycleTask)
    (applications : UUID → Option Time) (sched : List (τ × LifecycleInput)) (id : UUID)
    (quietSince : Time) : Prop where
  moves : ∀ event ∈ ((lifecyclePool redactText tasks applications).run
      sched).state.eventLog.ofApplication id,
    event.target ≠ .stalled → event.occurredAt ≤ quietSince
  activities : ∀ t reason now answer time, tasks t = .recordActivity id reason now →
    (((lifecyclePool redactText tasks applications).run sched).procs t).outcome = some (.ok answer) →
    ownNow now ((lifecyclePool redactText tasks applications).stepsOf t sched) = some time →
    time ≤ quietSince

/-- **No active application is stalled**: in every interleaving of moves, activities and stall
checks, a `record_activity` call that returns wrote when the application was not STALLED; and
after a run in which `last_activity_at` was never set back, a stall check moves the application
only if nothing later than its cutoff is on record for it. -/
theorem active_never_stalled [DecidableEq τ] (redactText : RedactText) (tasks : τ → LifecycleTask)
    (applications : UUID → Option Time) (sched : List (τ × LifecycleInput)) (id : UUID) :
    (∀ t reason now answer, tasks t = .recordActivity id reason now →
      (((lifecyclePool redactText tasks applications).run sched).procs t).outcome =
        some (.ok answer) →
      ∃ step time,
        activityWrite id ((lifecyclePool redactText tasks applications).stepsOf t sched) =
          some step ∧
        ownNow now ((lifecyclePool redactText tasks applications).stepsOf t sched) = some time ∧
        ActiveAt id time step.after) ∧
    (Pool.Meets (fun _ db db' => Forward id db db')
        (lifecyclePool redactText tasks applications) sched →
      ∀ t i quietSince now, tasks t = .markStalled id quietSince now →
        ((lifecyclePool redactText tasks applications).run
            (sched ++ [(t, i)])).state.eventLog.ofApplication id ≠
          ((lifecyclePool redactText tasks applications).run sched).state.eventLog.ofApplication id →
        QuietSince redactText tasks applications sched id quietSince) := by
  constructor
  · intro t reason now answer htask houtcome
    obtain ⟨step, time, -, hwrite, hnow, hactive⟩ := recordActivity_written htask houtcome
    exact ⟨step, time, hwrite, hnow, hactive⟩
  · intro hm t i quietSince now htask hmoves
    have hsteps := lifecyclePool_activitySteps redactText tasks applications (sched ++ [(t, i)])
    obtain ⟨hsteps, hlast, -⟩ := Pool.meets_append.mp hsteps
    rw [htask] at hlast
    rw [Pool.run_concat] at hmoves
    have hmoved : MovesActive id ((lifecyclePool redactText tasks applications).run sched).state :=
      Pool.Meets.inv (fun u db db' hs h => hs.2.movesActive hs.1 h) (Pool.Meets.and hm hsteps)
        fun event hevent => by cases hevent
    refine ⟨fun event hevent htarget => ?_, fun u reason now' answer time hu houtcome hnow => ?_⟩
    · exact hlast.quiet_of_moves hmoves (hmoved event hevent htarget)
    · exact hlast.quiet_of_moves hmoves (recordActivity_activeBy hm hu houtcome hnow)

/-- Application 7 is saved at one time and noted to be active at another; the third actor stalls
it if it has been quiet since 60. -/
def lateActivity (saved noted : Time) (actor : ℕ) : LifecycleTask :=
  match actor with
  | 0 => .transition 7 .saved none "system" (some saved)
  | 1 => .recordActivity 7 none (some noted)
  | _ => .markStalled 7 60 (some 200)

/-- Let these actors step in turn, all their transactions committing. -/
def activityTurns (actors : List ℕ) : List (ℕ × LifecycleInput) :=
  actors.zipIdx.map fun e => (e.1, { clock := 200, eventId := 100 + e.2, commits := true })

/-- Noted after it was saved, both before the cutoff: the check stalls it. -/
theorem active_never_stalled_quiet :
    QuietSince id (lateActivity 30 50) (fun _ => some 0) (activityTurns [0, 0, 0, 1, 1, 2]) 7 60 :=
  (active_never_stalled id (lateActivity 30 50) (fun _ => some 0)
    (activityTurns [0, 0, 0, 1, 1, 2]) 7).2 (by decide +kernel) 2
    { clock := 200, eventId := 100, commits := true } 60 (some 200) rfl (by decide +kernel)

/-- The application is saved at 100; an activity that was under way since 50 is noted after that
and sets `last_activity_at` back: the check stalls what has not been quiet since 60. -/
theorem stalls_active_application :
    ¬ ∀ (redactText : RedactText) (tasks : ℕ → LifecycleTask) (applications : UUID → Option Time)
        (sched : List (ℕ × LifecycleInput)) (id : UUID) (t : ℕ) (i : LifecycleInput)
        (quietSince : Time) (now : Option Time), tasks t = .markStalled id quietSince now →
      ((lifecyclePool redactText tasks applications).run
          (sched ++ [(t, i)])).state.eventLog.ofApplication id ≠
        ((lifecyclePool redactText tasks applications).run sched).state.eventLog.ofApplication id →
      QuietSince redactText tasks applications sched id quietSince := by
  intro h
  have hquiet := h id (lateActivity 100 50) (fun _ => some 0) (activityTurns [0, 0, 0, 1, 1, 2]) 7 2
    { clock := 200, eventId := 100, commits := true } 60 (some 200) rfl (by decide +kernel)
  have hmoves := hquiet.moves
  revert hmoves
  decide +kernel

end PersonalOS
