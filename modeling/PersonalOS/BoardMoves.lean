import PersonalOS.BoardPages

/-! # The moves that the board offers are those that are made

A person sees where an application may be moved to, and asks for one of these moves.

* **Offers.** `allowedNextStates` of a card are the legal moves of the stored row but STALLED, and
  `checkManualTransition` accepts just these (`checkManualTransition_offered`).
* **Moves.** A legal move is committed, when nobody else steps in between (`finish_transition`).
* **Requests.** So the request for an offered move is answered with the card in its new column, and every
  other card is as it was; a request for another move changes nothing (`offered_moves_are_made`). -/

namespace PersonalOS

open Concurrent Concurrent.Prog ApplicationLifecycleStore

variable {τ : Type} {tables : BoardTables} {db : LifecycleDb τ}

/-! ### Offers -/

theorem mem_allowedNextStates {card : ApplicationCard} {new : ApplicationStatus} :
    new ∈ BoardTables.allowedNextStates card ↔
      new ∈ manualTransitionTargets card.status card.resumeStatus := by
  rw [BoardTables.allowedNextStates, List.mem_insertionSort]

/-- An offered move is legal, and accepted. -/
theorem checkManualTransition_offered {card : ApplicationCard} {new : ApplicationStatus}
    (h : new ∈ BoardTables.allowedNextStates card) :
    new ∈ allowedApplicationTransitions card.status card.resumeStatus ∧
      checkManualTransition card.status new card.resumeStatus none = .ok new := by
  have htargets := mem_allowedNextStates.mp h
  obtain ⟨hallowed, hstalled⟩ := List.mem_filter.mp htargets
  refine ⟨hallowed, ?_⟩
  have hcontains : (!(manualTransitionTargets card.status card.resumeStatus).contains new) ≠ true := by
    rw [List.contains_iff_mem.mpr htargets]
    exact Bool.false_ne_true
  rw [checkManualTransition, if_neg (of_decide_eq_true hstalled), if_neg hcontains]

theorem checkManualTransition_other {card : ApplicationCard} {new : ApplicationStatus}
    (h : new ∉ BoardTables.allowedNextStates card) : ∃ message offers,
      checkManualTransition card.status new card.resumeStatus none =
        .error (.lifecycle (.invalidApplicationTransition message offers)) ∧
      offers.Perm (BoardTables.allowedNextStates card) := by
  have hperm : (sortedByValue (manualTransitionTargets card.status card.resumeStatus)).Perm
      (BoardTables.allowedNextStates card) :=
    (List.mergeSort_perm _ _).trans (List.perm_insertionSort _ _).symm
  rw [checkManualTransition]
  by_cases hstalled : new = .stalled
  · exact ⟨_, _, if_pos hstalled, hperm⟩
  · have hcontains : (!(manualTransitionTargets card.status card.resumeStatus).contains new) = true := by
      rw [Bool.not_eq_true', Bool.eq_false_iff]
      exact fun hcontains => h (mem_allowedNextStates.mpr (List.contains_iff_mem.mp hcontains))
    exact ⟨_, _, (if_neg hstalled).trans (if_pos hcontains), hperm⟩

/-! ### Cards -/

theorem card_eq (applicationId : UUID) : tables.card db applicationId =
    ((Keyed.lookup (·.id) applicationId tables.applications).bind (tables.rowOf db)).map tables.cardOf := by
  rw [BoardTables.card]
  congr 1
  have hnodup := tables.nodup
  rw [BoardTables.joined, Keyed.lookup]
  generalize tables.applications = applications at hnodup ⊢
  induction applications with
  | nil => rfl
  | cons application applications ih =>
      obtain ⟨hnew, hrest⟩ := List.nodup_cons.mp hnodup
      rw [List.filterMap_cons, List.find?_cons]
      by_cases hid : application.id = applicationId
      · rw [decide_eq_true hid]
        cases hrow : tables.rowOf db application with
        | some row =>
            dsimp only
            rw [List.find?_cons, (rowOf_eq_some hrow).1, decide_eq_true hid, Option.bind_some, hrow]
        | none =>
            dsimp only
            rw [Option.bind_some, hrow, List.find?_eq_none]
            intro row hmem hrowId
            obtain ⟨application', happlication', hof⟩ := List.mem_filterMap.mp hmem
            have hid' := of_decide_eq_true hrowId
            rw [(rowOf_eq_some hof).1] at hid'
            refine hnew (List.mem_map.mpr ⟨application', happlication', ?_⟩)
            exact hid'.trans hid.symm
      · rw [decide_eq_false hid]
        cases hrow : tables.rowOf db application with
        | some row =>
            dsimp only
            rw [List.find?_cons, (rowOf_eq_some hrow).1, decide_eq_false hid]
            exact ih hrest
        | none => exact ih hrest

theorem card_eq_some {applicationId : UUID} {card : ApplicationCard}
    (h : tables.card db applicationId = some card) : ∃ application row,
      Keyed.lookup (·.id) applicationId tables.applications = some application ∧
        application.id = applicationId ∧ tables.rowOf db application = some row ∧
          card = tables.cardOf row := by
  rw [card_eq] at h
  obtain ⟨row, hrow, hcard⟩ := Option.map_eq_some_iff.mp h
  obtain ⟨application, hfound, hof⟩ := Option.bind_eq_some_iff.mp hrow
  exact ⟨application, row, hfound, (Keyed.lookup_eq_some hfound).2, hof, hcard.symm⟩

theorem rowOf_congr {db' : LifecycleDb τ} {application : BoardApplication}
    (hrow : db'.applications application.id = db.applications application.id)
    (hview : db'.statusView application.id = db.statusView application.id) :
    tables.rowOf db' application = tables.rowOf db application := by
  rw [BoardTables.rowOf, BoardTables.rowOf, hrow, hview]

/-! ### Moves -/

section moves

variable [DecidableEq τ] (redactText : RedactText) (t : τ)

theorem validate_of_mem {current new : ApplicationStatus} {resumeStatus : Option ApplicationStatus}
    (h : new ∈ allowedApplicationTransitions current resumeStatus) :
    validateApplicationStatusTransition current new resumeStatus = .ok new := by
  rw [validateApplicationStatusTransition]
  exact if_pos (List.contains_iff_mem.mpr h)

omit [DecidableEq τ] in
theorem writeMove_of_seen {move : StatusMove} {seen : ApplicationRow} {now : Time} {i : LifecycleInput}
    {log : EventLog} (hrow : db.applications move.applicationId = some seen) (hquiet : move.quietSince = none)
    (hlog : db.eventLog.append (.moved (move.event redactText i.eventId seen now)) = some log)
    (hcommits : i.commits = true) :
    db.writeMove redactText move seen now i =
      (.ok (), db.record (move.event redactText i.eventId seen now) log (seen.moved seen move.newStatus now)) := by
  have hguard : seen.guarded seen.status move.quietSince = true := by
    rw [ApplicationRow.guarded, hquiet]
    simp
  rw [LifecycleDb.writeMove, hrow, Option.filter_some_pos hguard]
  dsimp only
  rw [hlog]
  dsimp only
  rw [if_pos hcommits]

theorem finish_updateStatus {move : StatusMove} {seen : ApplicationRow} {now : Time} {i : LifecycleInput}
    {log : EventLog} (hrow : db.applications move.applicationId = some seen)
    (hallowed : move.newStatus ∈ allowedApplicationTransitions seen.status seen.resumeStatus)
    (hnow : move.now = some now) (hquiet : move.quietSince = none)
    (hlog : db.eventLog.append (.moved (move.event redactText i.eventId seen now)) = some log)
    (hcommits : i.commits = true) :
    (updateStatus redactText t move).finish i db =
      (.ok (), (db.see t move.applicationId).2.record (move.event redactText i.eventId seen now) log
        (seen.moved seen move.newStatus now)) := by
  have hsee : (db.see t move.applicationId).1 = some seen := hrow
  have hwrite : (db.see t move.applicationId).2.writeMove redactText move seen now i = _ :=
    writeMove_of_seen redactText hrow hquiet hlog hcommits
  rw [updateStatus, act_bind, finish_call, hsee]
  dsimp only
  rw [validate_of_mem hallowed]
  dsimp only
  rw [hnow, nowOr, pure_eq, ret_bind, act_bind, finish_call, hwrite]
  rfl

/-- What a move leaves: the row, its projection and the log are new, and other applications as they were. -/
structure BoardMoved (applicationId : UUID) (new : ApplicationStatus) (seen : ApplicationRow) (eventId : UUID)
    (now : Time) (db db' : LifecycleDb τ) : Prop where
  row : db'.applications applicationId = some (seen.moved seen new now)
  view : db'.statusView applicationId = some { status := new, lastEventId := some eventId }
  others : ∀ id ≠ applicationId, db'.applications id = db.applications id ∧ db'.statusView id = db.statusView id

/-- The move of a transition that is made at a time. -/
def transitionMove (applicationId : UUID) (new : ApplicationStatus) (reason : Option String) (actor : String)
    (now : Time) : StatusMove where
  applicationId := applicationId
  newStatus := new
  reason := reason
  actor := actor
  now := some now
  quietSince := none

theorem finish_transition {applicationId : UUID} {new : ApplicationStatus} (reason : Option String)
    (actor : String) {seen : ApplicationRow} {i : LifecycleInput}
    (hrow : db.applications applicationId = some seen)
    (hallowed : new ∈ allowedApplicationTransitions seen.status seen.resumeStatus)
    (hfresh : ∀ event ∈ db.eventLog.events, event.id ≠ i.eventId) (hcommits : i.commits = true) :
    ∃ state db', (transition redactText t applicationId new reason actor none).finish i db = (.ok state, db') ∧
      state.lastEventId = some i.eventId ∧ BoardMoved applicationId new seen i.eventId i.clock db db' := by
  obtain ⟨log, hlog⟩ : ∃ log, db.eventLog.append (.moved
      ((transitionMove applicationId new reason actor i.clock).event redactText i.eventId seen i.clock)) =
        some log := by
    rw [EventLog.append]
    exact ⟨_, dif_pos hfresh⟩
  have hupdate : (updateStatus redactText t (transitionMove applicationId new reason actor i.clock)).finish i db
      = _ :=
    finish_updateStatus redactText t hrow hallowed rfl rfl hlog hcommits
  generalize hdb' : (db.see t (transitionMove applicationId new reason actor i.clock).applicationId).2.record
    ((transitionMove applicationId new reason actor i.clock).event redactText i.eventId seen i.clock) log
      (seen.moved seen (transitionMove applicationId new reason actor i.clock).newStatus i.clock) = db' at hupdate
  have hmoved : BoardMoved applicationId new seen i.eventId i.clock db db' := by
    rw [← hdb']
    refine ⟨Function.update_self .., Function.update_self .., fun id hne => ⟨?_, ?_⟩⟩
    · exact Function.update_of_ne hne ..
    · exact Function.update_of_ne hne ..
  obtain ⟨state, hstate, hevent⟩ : ∃ state, db'.stateOf applicationId = some state ∧
      state.lastEventId = some i.eventId := by
    rw [LifecycleDb.stateOf, hmoved.row, hmoved.view]
    exact ⟨_, rfl, rfl⟩
  refine ⟨state, db', ?_, hevent, hmoved⟩
  rw [transition, nowOr, input_bind, finish_call]
  dsimp only
  rw [← transitionMove, finish_bind_ok hupdate, ApplicationLifecycleStore.get, read_bind, finish_call]
  dsimp only
  rw [hstate]
  rfl

end moves

/-! ### Requests -/

section requests

variable {applicationId : UUID} {i : LifecycleInput}

theorem finish_cardOr404 {card : ApplicationCard} (h : tables.card db applicationId = some card) :
    (cardOr404 tables applicationId).finish i db = (.ok card, db) := by
  rw [cardOr404, read_bind, finish_call]
  dsimp only
  rw [h]
  rfl

theorem finish_cardOr404_none (h : tables.card db applicationId = none) :
    (cardOr404 tables applicationId).finish i db =
      (.error (.lifecycle (.notFound s!"application '{UUID.text applicationId}' not found")), db) := by
  rw [cardOr404, read_bind, finish_call]
  dsimp only
  rw [h]
  rfl

theorem BoardMoved.cards {new : ApplicationStatus} {seen : ApplicationRow} {eventId : UUID} {now : Time}
    {db' : LifecycleDb τ} {card : ApplicationCard} (h : BoardMoved applicationId new seen eventId now db db')
    (hcard : tables.card db applicationId = some card) :
    (∃ card', tables.card db' applicationId = some card' ∧ card'.status = new ∧
      card'.lastEventId = some eventId) ∧
      ∀ id ≠ applicationId, tables.card db' id = tables.card db id := by
  refine ⟨?_, fun id hne => ?_⟩
  · obtain ⟨application, row, hfound, rfl, hof, -⟩ := card_eq_some hcard
    obtain ⟨lifecycle, -, hrow⟩ := Option.bind_eq_some_iff.mp hof
    obtain ⟨posting, hposting, -⟩ := Option.map_eq_some_iff.mp hrow
    rw [card_eq, hfound, Option.bind_some, BoardTables.rowOf, h.row, hposting, h.view]
    exact ⟨_, rfl, rfl, rfl⟩
  · rw [card_eq, card_eq]
    cases hfound : Keyed.lookup (·.id) id tables.applications with
    | none => rfl
    | some application =>
        have hid : application.id ≠ applicationId := (Keyed.lookup_eq_some hfound).2.trans_ne hne
        rw [Option.bind_some, Option.bind_some, rowOf_congr (h.others _ hid).1 (h.others _ hid).2]

end requests

/-- **The moves that the board offers are those that are made.**  In every state that moves, activities
and stall checks lead to: the request for a move that is offered, when its transaction commits and nobody
else steps in between, is answered with the card in the new column, where the board then shows it, and
every other card is as it was.  A request for another move is refused with the offers, and one for an
application that does not exist with a 404; both change nothing. -/
theorem offered_moves_are_made [DecidableEq τ] (redactText : RedactText) (tasks : τ → LifecycleTask)
    (created : UUID → Option Time) (sched : List (τ × LifecycleInput)) (tables : BoardTables) (t : τ)
    (applicationId : UUID) (new : ApplicationStatus) (reason : Option String) (actorId : String)
    (i : LifecycleInput) :
    let db := ((lifecyclePool redactText tasks created).run sched).state
    let answer := (transitionApplication redactText t tables applicationId new reason actorId).finish i db
    (tables.card db applicationId = none →
      answer = (.error (.lifecycle (.notFound s!"application '{UUID.text applicationId}' not found")), db)) ∧
    ∀ card, tables.card db applicationId = some card →
      (new ∈ BoardTables.allowedNextStates card → i.commits = true →
        (∀ event ∈ db.eventLog.events, event.id ≠ i.eventId) →
        ∃ card', answer.1 = .ok
            { fromStatus := card.status, toStatus := new, application := card', eventId := some i.eventId } ∧
          card'.status = new ∧ tables.card answer.2 applicationId = some card' ∧
          ∀ id ≠ applicationId, tables.card answer.2 id = tables.card db id) ∧
      (new ∉ BoardTables.allowedNextStates card → ∃ message offers,
        answer = (.error (.lifecycle (.invalidApplicationTransition message offers)), db) ∧
          offers.Perm (BoardTables.allowedNextStates card)) := by
  intro db answer
  have hagrees : ∀ id, LogAgrees id db := lifecyclePool_agrees redactText tasks created sched
  refine ⟨fun hnone => finish_bind_error (finish_cardOr404_none hnone), fun card hcard => ⟨?_, ?_⟩⟩
  · intro hoffered hcommits hfresh
    obtain ⟨hallowed, hcheck⟩ := checkManualTransition_offered hoffered
    obtain ⟨application, row, -, hid, hof, rfl⟩ := card_eq_some hcard
    obtain ⟨-, hrow, -⟩ := rowOf_eq_some hof
    have hstatus : (tables.cardOf row).status = row.lifecycle.status := status_of_rowOf hagrees hof
    rw [hstatus] at hallowed
    obtain ⟨state, db', hfinish, hevent, hmoved⟩ :=
      finish_transition redactText t reason actorId (hid ▸ hrow) hallowed hfresh hcommits
    obtain ⟨⟨card', hcard', hnew, -⟩, hothers⟩ := hmoved.cards hcard
    have hanswer : answer =
        (.ok ⟨(tables.cardOf row).status, new, card', some i.eventId⟩, db') := by
      refine (finish_bind_ok (finish_cardOr404 hcard)).trans ?_
      rw [hcheck]
      dsimp only
      have hattempt : Prog.finish i (Prog.attempt (transition redactText t applicationId new reason actorId none)
          : Prog _ _ ManualTransitionError _) db = _ := finish_attempt _ i db
      rw [hfinish] at hattempt
      rw [finish_bind_ok hattempt]
      dsimp only
      rw [finish_bind_ok (finish_cardOr404 hcard'), hevent]
      rfl
    rw [hanswer]
    exact ⟨card', rfl, hnew, hcard', hothers⟩
  · intro hother
    obtain ⟨message, offers, hcheck, hperm⟩ := checkManualTransition_other hother
    refine ⟨message, offers, ?_, hperm⟩
    refine (finish_bind_ok (finish_cardOr404 hcard)).trans ?_
    rw [hcheck]
    rfl

end PersonalOS
