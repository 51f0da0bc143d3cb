import PersonalOS.LifecycleLog
import Mathlib.Data.List.Induction
import Mathlib.Data.List.Sort

/-! # The lifecycle history

The history of an application is read back in the order of its stamps, not of its commits, and with
it what the board recorded of the application.

* **Order.** `getByAggregateId` sorts by `occurred_at`, which whoever moves the application
  supplies, and then by the random id.
* **Condition.** `StampedLast`: a row that is committed for the application is a move, stamped after
  the last one.
* **Result.** `history_replays`: the history is the chain of moves that were committed exactly in
  the runs whose rows are such; `history_out_of_order` is two moves in one tick. -/

namespace PersonalOS

open Concurrent Concurrent.Prog ApplicationLifecycleStore

variable {τ : Type}

/-- What `ORDER BY occurred_at, id` compares. -/
def StampedBefore (event event' : LoggedEvent) : Prop :=
  event.occurredAt < event'.occurredAt ∨
    event.occurredAt = event'.occurredAt ∧ event.id ≤ event'.id

instance : DecidableRel StampedBefore := fun event event' =>
  inferInstanceAs (Decidable (event.occurredAt < event'.occurredAt ∨
    event.occurredAt = event'.occurredAt ∧ event.id ≤ event'.id))

theorem StampedBefore.trans {event event' event'' : LoggedEvent}
    (h : StampedBefore event event') (h' : StampedBefore event' event'') :
    StampedBefore event event'' := by
  unfold StampedBefore at *
  unfold Time UUID at *
  omega

theorem StampedBefore.total (event event' : LoggedEvent) :
    StampedBefore event event' ∨ StampedBefore event' event := by
  unfold StampedBefore
  unfold Time UUID at *
  omega

instance : Std.Total StampedBefore := ⟨StampedBefore.total⟩

instance : IsTrans LoggedEvent StampedBefore := ⟨fun _ _ _ => StampedBefore.trans⟩

/-- `EventLogRepository.get_by_aggregate_id`: every row of an application, oldest first. -/
def EventLog.getByAggregateId (aggregateId : UUID) (log : EventLog) : List LoggedEvent :=
  (log.ofAggregate aggregateId).insertionSort StampedBefore

/-- Every event recorded for an application, oldest first. -/
def ApplicationLifecycleStore.history (applicationId : UUID) (db : LifecycleDb τ) :
    List LoggedEvent :=
  db.eventLog.getByAggregateId applicationId

/-- The history is the application's rows in commit order, moves that make a chain which leads to the
stored status. -/
structure Replays (applicationId : UUID) (db : LifecycleDb τ) : Prop where
  order : history applicationId db = db.eventLog.ofAggregate applicationId
  moves : history applicationId db = (db.eventLog.ofApplication applicationId).map .moved
  chained : ∀ row, db.applications applicationId = some row →
    Chained .discovered (db.eventLog.ofApplication applicationId) row.status
  last : ∀ row, db.applications applicationId = some row →
    row.status = ((db.eventLog.ofApplication applicationId).getLast?.map (·.target)).getD .discovered

/-- The rows are the moves and nothing else. -/
def OnlyMoves (rows : List LoggedEvent) : Prop := rows = (rows.filterMap LoggedEvent.move?).map .moved

theorem onlyMoves_iff {rows : List LoggedEvent} :
    OnlyMoves rows ↔ ∀ row ∈ rows, row.move?.isSome = true := by
  unfold OnlyMoves
  induction rows with
  | nil => simp
  | cons row rows ih =>
      cases row with
      | moved event => simpa [LoggedEvent.move?] using ih
      | recorded record =>
          refine iff_of_false (fun h => ?_) fun h => ?_
          · have hlength := congrArg List.length h
            have hle := List.length_filterMap_le LoggedEvent.move? rows
            simp only [List.filterMap_cons, LoggedEvent.move?, List.length_map, List.length_cons] at hlength
            omega
          · exact Bool.false_ne_true (h _ List.mem_cons_self)

theorem history_eq_iff (applicationId : UUID) (db : LifecycleDb τ) :
    history applicationId db = db.eventLog.ofAggregate applicationId ↔
      (db.eventLog.ofAggregate applicationId).Pairwise StampedBefore := by
  unfold history EventLog.getByAggregateId
  constructor
  · intro h
    rw [← h]
    exact List.pairwise_insertionSort StampedBefore _
  · intro h
    exact h.insertionSort_eq

/-- A row of the application that the step commits is a move, and stamped after the last one. -/
def StampedLast (applicationId : UUID) (db db' : LifecycleDb τ) : Prop :=
  ∀ row, db'.eventLog.ofAggregate applicationId = db.eventLog.ofAggregate applicationId ++ [row] →
    row.move?.isSome = true ∧
      ∀ last ∈ (db.eventLog.ofAggregate applicationId).getLast?, StampedBefore last row

theorem pairwise_append_singleton_iff {rows : List LoggedEvent} {row : LoggedEvent}
    (h : rows.Pairwise StampedBefore) :
    (rows ++ [row]).Pairwise StampedBefore ↔ ∀ last ∈ rows.getLast?, StampedBefore last row := by
  have hconcat : (rows ++ [row]).Pairwise StampedBefore ↔ ∀ e ∈ rows, StampedBefore e row := by
    simp [List.pairwise_append, h]
  rw [hconcat]
  constructor
  · intro hall last hlast
    exact hall last (List.mem_of_mem_getLast? hlast)
  · intro hlast e he
    rcases List.eq_nil_or_concat rows with rfl | ⟨front, last, rfl⟩
    · cases he
    · rw [List.concat_eq_append] at *
      have hle : StampedBefore last row := hlast last (by simp)
      rcases List.mem_append.mp he with hfront | hself
      · have hbefore : StampedBefore e last := by
          rw [List.pairwise_append] at h
          exact h.2.2 e hfront last (List.mem_singleton_self last)
        exact hbefore.trans hle
      · obtain rfl := List.mem_singleton.mp hself
        exact hle

theorem LifecycleStep.appends [DecidableEq τ] {t : τ} {db db' : LifecycleDb τ}
    (h : LifecycleStep t db db') (applicationId : UUID) :
    db'.eventLog.ofAggregate applicationId = db.eventLog.ofAggregate applicationId ∨
      ∃ row, db'.eventLog.ofAggregate applicationId =
        db.eventLog.ofAggregate applicationId ++ [row] := by
  have happend : ∀ {row : LoggedEvent} {log : EventLog}, db.eventLog.append row = some log →
      log.ofAggregate applicationId = db.eventLog.ofAggregate applicationId ∨
        ∃ row, log.ofAggregate applicationId = db.eventLog.ofAggregate applicationId ++ [row] := by
    intro row log hlog
    by_cases hid : applicationId = row.aggregateId
    · subst hid
      exact Or.inr ⟨row, EventLog.ofAggregate_append_self hlog⟩
    · exact Or.inl (EventLog.ofAggregate_append_ne hlog hid)
  cases h with
  | quiet => exact Or.inl rfl
  | saw id => exact Or.inl rfl
  | noted id row row' _ _ _ => exact Or.inl rfl
  | recorded record log hlog => exact happend hlog
  | moved event log seen stored row _ _ _ _ _ hlog _ _ => exact happend hlog

/-- The rows are moves whose stamps stand in order. -/
def StampedMoves (rows : List LoggedEvent) : Prop :=
  (∀ row ∈ rows, row.move?.isSome = true) ∧ rows.Pairwise StampedBefore

theorem stampedMoves_step [DecidableEq τ] {applicationId : UUID} {t : τ} {db db' : LifecycleDb τ}
    (hs : LifecycleStep t db db') :
    StampedMoves (db'.eventLog.ofAggregate applicationId) ↔
      StampedMoves (db.eventLog.ofAggregate applicationId) ∧ StampedLast applicationId db db' := by
  unfold StampedLast StampedMoves
  rcases hs.appends applicationId with hsame | ⟨row, hrows⟩
  · rw [hsame]
    refine (and_iff_left fun row hrow => ?_).symm
    exact absurd hrow.symm (by simp)
  · rw [hrows]
    constructor
    · rintro ⟨hmoves, hordered⟩
      have hfront := (List.pairwise_append.mp hordered).1
      refine ⟨⟨fun e he => hmoves e (List.mem_append_left _ he), hfront⟩, fun row' hrow' => ?_⟩
      obtain rfl : row = row' := by simpa using hrow'
      exact ⟨hmoves row (by simp), (pairwise_append_singleton_iff hfront).mp hordered⟩
    · rintro ⟨⟨hmoves, hfront⟩, hlast⟩
      obtain ⟨hmove, hlast⟩ := hlast row rfl
      refine ⟨fun e he => ?_, (pairwise_append_singleton_iff hfront).mpr hlast⟩
      rcases List.mem_append.mp he with he | he
      · exact hmoves e he
      · obtain rfl := List.mem_singleton.mp he
        exact hmove

section run

variable [DecidableEq τ]

theorem stampedMoves_run (redactText : RedactText) (tasks : τ → LifecycleTask)
    (applications : UUID → Option Time) (sched : List (τ × LifecycleInput)) (id : UUID) :
    StampedMoves (((lifecyclePool redactText tasks applications).run
        sched).state.eventLog.ofAggregate id) ↔
      Pool.Meets (fun _ db db' => StampedLast id db db')
        (lifecyclePool redactText tasks applications) sched := by
  induction sched using List.reverseRecOn with
  | nil => exact ⟨fun _ => trivial, fun _ => ⟨List.forall_mem_nil _, List.Pairwise.nil⟩⟩
  | append_singleton sched e ih =>
      have hsteps := lifecyclePool_steps redactText tasks applications (sched ++ [e])
      obtain ⟨-, hstep, -⟩ := Pool.meets_append.mp hsteps
      rw [Pool.meets_append, ← ih, Pool.run_concat, stampedMoves_step hstep]
      simp only [Pool.Meets, and_true]

end run

/-- **History replays to the status**: after any interleaving of moves, activities, stall checks and
records of the board, with any times and any ids, the history of an application is its rows in the
order they were committed, all of them moves, and so a chain that leads to the stored status, exactly
if each row committed for it was a move and was stamped, by its time and then its id, after the one
before. -/
theorem history_replays [DecidableEq τ] (redactText : RedactText) (tasks : τ → LifecycleTask)
    (applications : UUID → Option Time) (sched : List (τ × LifecycleInput)) (id : UUID) :
    Replays id ((lifecyclePool redactText tasks applications).run sched).state ↔
      Pool.Meets (fun _ db db' => StampedLast id db db')
        (lifecyclePool redactText tasks applications) sched := by
  rw [← stampedMoves_run, StampedMoves, ← history_eq_iff, ← onlyMoves_iff]
  constructor
  · intro h
    exact ⟨h.order.symm.trans h.moves, h.order⟩
  · rintro ⟨hmoves, horder⟩
    have hagrees := lifecyclePool_agrees redactText tasks applications sched id
    exact ⟨horder, horder.trans hmoves, hagrees.chained,
      fun row hrow => (hagrees.chained row hrow).last⟩

/-- Two moves of application 7 in the same tick. -/
def sameTickMoves (actor : ℕ) : LifecycleTask :=
  .transition 7 ([.saved, .preparing].getD actor .skipped) none "system" (some 10)

/-- The second move drew the smaller id: the history has it first. -/
theorem history_out_of_order :
    ¬ ∀ (redactText : RedactText) (tasks : ℕ → LifecycleTask) (applications : UUID → Option Time)
        (sched : List (ℕ × LifecycleInput)) (id : UUID),
      Replays id ((lifecyclePool redactText tasks applications).run sched).state := by
  intro h
  have hrun := h (fun text => text) sameTickMoves (fun _ => some 0)
    ([(0, 2), (0, 2), (0, 2), (1, 1), (1, 1), (1, 1)].map fun e =>
      (e.1, { clock := 10, eventId := e.2, commits := true })) 7
  have horder := hrun.order
  revert horder
  decide +kernel

end PersonalOS
