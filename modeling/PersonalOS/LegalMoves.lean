import PersonalOS.LifecycleLog

/-! # Legal moves on the whole application record

A move is validated against the status and the `resume_status` that were read, and its `UPDATE`
is guarded by the status alone.  An actor that reads a held application, and writes after the
others have resumed, moved on and held it again, finds the guard satisfied.

* `stale_resume_is_acted_on` runs that interleaving: SAVED is written over an application that is
  held from PREPARING.
* `moves_legal_of_fresh` is the other side: as long as every move of a held application finds the
  `resume_status` its actor read, every move is legal for the stored record, and a held
  application remembers the last status it was progressing through. -/

namespace PersonalOS

open Concurrent Concurrent.Prog ApplicationLifecycleStore

variable {τ : Type}

/-- The last status of the chain that is not a holding one. -/
def lastProgressing (events : List LifecycleEvent) : ApplicationStatus :=
  ((events.map (·.target)).filter (!·.holding)).getLast?.getD .discovered

theorem lastProgressing_append (events : List LifecycleEvent) (event : LifecycleEvent) :
    lastProgressing (events ++ [event]) =
      if event.target.holding then lastProgressing events else event.target := by
  unfold lastProgressing
  rw [List.map_append, List.filter_append]
  cases h : event.target.holding with
  | true => simp [h]
  | false => simp [h]

/-- Every move the step commits is legal for the record it finds stored. -/
def LegalMove (applicationId : UUID) (db db' : LifecycleDb τ) : Prop :=
  ∀ event, db'.eventLog.ofApplication applicationId =
      db.eventLog.ofApplication applicationId ++ [event] →
    ∃ stored, db.applications applicationId = some stored ∧
      event.target ∈ allowedApplicationTransitions stored.status stored.resumeStatus

/-- A held application resumes to the last status it was progressing through. -/
def HeldFromLast (applicationId : UUID) (db : LifecycleDb τ) : Prop :=
  ∀ row, db.applications applicationId = some row → row.status.holding = true →
    row.resumeStatus = some (lastProgressing (db.eventLog.ofApplication applicationId))

/-- A step of actor `t` that moves a held application finds the `resume_status` that `t` read. -/
def FreshlyRead (applicationId : UUID) (t : τ) (db db' : LifecycleDb τ) : Prop :=
  db'.eventLog.ofApplication applicationId ≠ db.eventLog.ofApplication applicationId →
    ∀ stored ∈ db.applications applicationId, ∀ seen ∈ db.seen t,
      stored.status.holding = true → seen.resumeStatus = stored.resumeStatus

instance (applicationId : UUID) (t : τ) (db db' : LifecycleDb τ) :
    Decidable (FreshlyRead applicationId t db db') :=
  inferInstanceAs (Decidable (_ → _))

theorem allowed_of_progressing {current : ApplicationStatus} (h : current.holding = false)
    (resumeStatus resumeStatus' : Option ApplicationStatus) :
    allowedApplicationTransitions current resumeStatus =
      allowedApplicationTransitions current resumeStatus' := by
  unfold allowedApplicationTransitions
  simp [h]

theorem resumeStatusAfter_of_progressing {current : ApplicationStatus} (h : current.holding = false)
    (new : ApplicationStatus) (resumeStatus resumeStatus' : Option ApplicationStatus) :
    resumeStatusAfter current new resumeStatus = resumeStatusAfter current new resumeStatus' := by
  unfold resumeStatusAfter
  simp [h]

theorem ne_append_singleton {α : Type} (l : List α) (a : α) : l ++ [a] ≠ l := by
  simp

/-! ### The invariant -/

/-- The status is the last one the chain was progressing through, or the application is held
from it. -/
structure Remembers (applicationId : UUID) (db : LifecycleDb τ) : Prop where
  held : HeldFromLast applicationId db
  progressing : ∀ row, db.applications applicationId = some row → row.status.holding = false →
    row.status = lastProgressing (db.eventLog.ofApplication applicationId)

theorem remembers_created (applications : UUID → Option Time) (applicationId : UUID) :
    Remembers applicationId (LifecycleDb.created (τ := τ) applications) := by
  refine ⟨fun row hrow hheld => ?_, fun row hrow _ => ?_⟩
  · obtain ⟨now, -, rfl⟩ := Option.map_eq_some_iff.mp hrow
    cases hheld
  · obtain ⟨now, -, rfl⟩ := Option.map_eq_some_iff.mp hrow
    rfl

theorem FreshlyRead.stored {t : τ} {db : LifecycleDb τ} {event : LifecycleEvent} {log : EventLog}
    {seen stored row : ApplicationRow}
    (h : FreshlyRead event.aggregateId t db (db.record event log row)) (hseen : db.seen t = some seen)
    (hstored : db.applications event.aggregateId = some stored) (hguard : stored.status = seen.status)
    (hlog : db.eventLog.append (.moved event) = some log) :
    allowedApplicationTransitions seen.status seen.resumeStatus =
        allowedApplicationTransitions stored.status stored.resumeStatus ∧
      resumeStatusAfter seen.status event.target seen.resumeStatus =
        resumeStatusAfter stored.status event.target stored.resumeStatus := by
  have happended : (db.record event log row).eventLog.ofApplication event.aggregateId ≠
      db.eventLog.ofApplication event.aggregateId := by
    show log.ofApplication _ ≠ _
    rw [EventLog.ofApplication_append_self hlog]
    exact ne_append_singleton _ event
  cases hheld : stored.status.holding with
  | true =>
      rw [h happended stored hstored seen hseen hheld, hguard]
      exact ⟨rfl, rfl⟩
  | false =>
      rw [← hguard]
      exact ⟨allowed_of_progressing hheld .., resumeStatusAfter_of_progressing hheld ..⟩

variable [DecidableEq τ]

theorem LifecycleStep.legal {applicationId : UUID} {t : τ} {db db' : LifecycleDb τ}
    (h : LifecycleStep t db db') (hfresh : FreshlyRead applicationId t db db') :
    LegalMove applicationId db db' := by
  have hnone : ∀ event, db.eventLog.ofApplication applicationId ≠
      db.eventLog.ofApplication applicationId ++ [event] :=
    fun event he => ne_append_singleton _ event he.symm
  intro new hnew
  cases h with
  | quiet => exact absurd hnew (hnone new)
  | saw id => exact absurd hnew (hnone new)
  | noted id row row' _ _ _ => exact absurd hnew (hnone new)
  | recorded record log hlog =>
      have hsame := EventLog.ofApplication_append_recorded hlog applicationId
      exact absurd (hsame.symm.trans hnew) (hnone new)
  | moved event log seen stored row hseen hstored hguard hsource htarget hlog _ _ =>
      by_cases hid : applicationId = event.aggregateId
      · subst hid
        have hevents : (db.record event log row).eventLog.ofApplication event.aggregateId =
            db.eventLog.ofApplication event.aggregateId ++ [event] :=
          EventLog.ofApplication_append_self hlog
        obtain rfl : event = new := by simpa using hevents.symm.trans hnew
        refine ⟨stored, hstored, ?_⟩
        rw [← (hfresh.stored hseen hstored hguard hlog).1]
        exact htarget
      · rw [(record_of_ne row hlog hid).2.1] at hnew
        exact absurd hnew (hnone new)

theorem Remembers.step {applicationId : UUID} {t : τ} {db db' : LifecycleDb τ}
    (h : Remembers applicationId db) (hfresh : FreshlyRead applicationId t db db')
    (hs : LifecycleStep t db db') : Remembers applicationId db' := by
  cases hs with
  | quiet => exact h
  | saw id => exact ⟨h.held, h.progressing⟩
  | noted id row row' hrow hstatus hresume =>
      by_cases hid : applicationId = id
      · subst hid
        refine ⟨fun new hnew hheld => ?_, fun new hnew hheld => ?_⟩
        · obtain rfl : row' = new := by simpa using hnew
          rw [hresume]
          exact h.held row hrow (hstatus ▸ hheld)
        · obtain rfl : row' = new := by simpa using hnew
          rw [hstatus]
          exact h.progressing row hrow (hstatus ▸ hheld)
      · refine ⟨fun new hnew => h.held new ?_, fun new hnew => h.progressing new ?_⟩
        · simpa [Function.update_of_ne hid] using hnew
        · simpa [Function.update_of_ne hid] using hnew
  | recorded record log hlog =>
      have hsame := EventLog.ofApplication_append_recorded hlog applicationId
      refine ⟨fun new hnew hheld => ?_, fun new hnew hheld => ?_⟩
      · show _ = some (lastProgressing (log.ofApplication applicationId))
        rw [hsame]
        exact h.held new hnew hheld
      · show _ = lastProgressing (log.ofApplication applicationId)
        rw [hsame]
        exact h.progressing new hnew hheld
  | moved event log seen stored row hseen hstored hguard hsource htarget hlog hrow hresume =>
      by_cases hid : applicationId = event.aggregateId
      · subst hid
        have hevents : (db.record event log row).eventLog.ofApplication event.aggregateId =
            db.eventLog.ofApplication event.aggregateId ++ [event] :=
          EventLog.ofApplication_append_self hlog
        have hafter := (hfresh.stored hseen hstored hguard hlog).2
        refine ⟨fun new hnew hheld => ?_, fun new hnew hheld => ?_⟩
        · obtain rfl : row = new := by simpa [LifecycleDb.record] using hnew
          rw [hrow] at hheld
          rw [hevents, lastProgressing_append, if_pos hheld, hresume, hafter]
          unfold resumeStatusAfter
          rw [hheld]
          cases hfrom : stored.status.holding with
          | true => simpa using h.held stored hstored hfrom
          | false => simpa using h.progressing stored hstored hfrom
        · obtain rfl : row = new := by simpa [LifecycleDb.record] using hnew
          rw [hrow] at hheld
          rw [hevents, lastProgressing_append, hrow, hheld]
          rfl
      · obtain ⟨happ, hevents, -⟩ := record_of_ne row hlog hid
        refine ⟨fun new hnew => ?_, fun new hnew => ?_⟩
        · rw [hevents]
          exact h.held new (happ ▸ hnew)
        · rw [hevents]
          exact h.progressing new (happ ▸ hnew)

/-- **Legal moves**: in every run in which each move of a held application finds the
`resume_status` its actor read, every committed move is legal for the whole stored record, and a
held application's `resume_status` is the last status it was progressing through. -/
theorem moves_legal_of_fresh (redactText : RedactText) (tasks : τ → LifecycleTask)
    (applications : UUID → Option Time) (sched : List (τ × LifecycleInput)) (id : UUID)
    (hm : Pool.Meets (FreshlyRead id) (lifecyclePool redactText tasks applications) sched) :
    Pool.Meets (fun _ db db' => LegalMove id db db')
        (lifecyclePool redactText tasks applications) sched ∧
      HeldFromLast id ((lifecyclePool redactText tasks applications).run sched).state := by
  have hlegal : ∀ db : LifecycleDb τ, LegalMove id db db :=
    fun db event he => absurd he.symm (ne_append_singleton _ event)
  refine ⟨?_, ?_⟩
  · refine lifecyclePool_meets (J := Remembers id) (fun _ db => hlegal db) ?_
      (remembers_created applications id) hm
    exact fun t db db' hfresh hs h => ⟨h.step hfresh hs, hs.legal hfresh⟩
  · have hremembers : Remembers id ((lifecyclePool redactText tasks applications).run sched).state :=
      lifecyclePool_inv (fun t db db' hfresh hs h => h.step hfresh hs)
        (remembers_created applications id) hm
    exact hremembers.held

/-! ### A stale resume -/

/-- The moves of five actors on application 7. -/
def staleResumeMoves (actor : ℕ) : LifecycleTask :=
  .updateStatus
    { applicationId := 7
      newStatus := [.saved, .stalled, .saved, .preparing, .stalled].getD actor .discovered
      reason := none
      actor := "system"
      now := some 10
      quietSince := none }

/-- Let these actors step in turn, all their transactions committing. -/
def lifecycleTurns (actors : List ℕ) : List (ℕ × LifecycleInput) :=
  actors.zipIdx.map fun e => (e.1, { clock := 10, eventId := 100 + e.2, commits := true })

/-- Actor 2 resumes what actor 1 has stalled. -/
theorem moves_legal_of_fresh_resumed :
    Pool.Meets (FreshlyRead 7)
        (lifecyclePool id staleResumeMoves fun _ => some 0) (lifecycleTurns [0, 0, 1, 1, 2, 2]) ∧
      Pool.Meets (fun _ db db' => LegalMove 7 db db')
        (lifecyclePool id staleResumeMoves fun _ => some 0) (lifecycleTurns [0, 0, 1, 1, 2, 2]) ∧
      HeldFromLast 7 ((lifecyclePool id staleResumeMoves fun _ => some 0).run
        (lifecycleTurns [0, 0, 1, 1, 2, 2])).state := by
  have hm : Pool.Meets (FreshlyRead 7)
      (lifecyclePool id staleResumeMoves fun _ => some 0) (lifecycleTurns [0, 0, 1, 1, 2, 2]) := by
    decide +kernel
  exact ⟨hm, moves_legal_of_fresh id staleResumeMoves (fun _ => some 0) _ 7 hm⟩

/-- Actor 2 reads when the application is held from SAVED and writes when it is held from
PREPARING, from where there is no way back to SAVED. -/
theorem stale_resume_is_acted_on :
    ¬ ∀ (redactText : RedactText) (tasks : ℕ → LifecycleTask) (applications : UUID → Option Time)
        (sched : List (ℕ × LifecycleInput)) (id : UUID),
      Pool.Meets (fun _ db db' => LegalMove id db db')
          (lifecyclePool redactText tasks applications) sched ∧
        HeldFromLast id ((lifecyclePool redactText tasks applications).run sched).state := by
  intro h
  have hsched : lifecycleTurns [0, 0, 1, 1, 2, 3, 3, 4, 4, 2] =
      lifecycleTurns [0, 0, 1, 1, 2, 3, 3, 4, 4] ++
        [(2, { clock := 10, eventId := 109, commits := true })] := rfl
  have hm := (h id staleResumeMoves (fun _ => some 0)
    (lifecycleTurns [0, 0, 1, 1, 2, 3, 3, 4, 4, 2]) 7).1
  rw [hsched] at hm
  obtain ⟨-, hlast, -⟩ := Pool.meets_append.mp hm
  obtain ⟨stored, hstored, htarget⟩ := hlast
    ⟨109, 7, .stalled, .saved, none, "system", none, 10⟩ (by decide +kernel)
  have hheld : stored = ⟨.stalled, some .preparing, none, some 10, 10⟩ :=
    Option.some.inj (hstored.symm.trans (by decide +kernel))
  subst hheld
  exact absurd htarget (by decide)

end PersonalOS
