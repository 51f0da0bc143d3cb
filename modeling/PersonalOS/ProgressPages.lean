import PersonalOS.Keyed
import PersonalOS.WorkflowProgress

/-! # Readers of progress receive every event once

Events of a workflow are stamped in the order they are recorded, so that a reader that pages through
the log is given them in that order, whatever is recorded between its pages.

* **The log.** In a log in `Order` the times of a workflow's events increase, so what a page
  returns after an event is what was recorded after it (`eventsAfter_getElem`).  Recording keeps the
  order (`Order.record`), and keeps what was there (`record_prefix`).
* **The readers.** Each reader has been given the first events of each workflow (`Given`), and a
  page gives it at least one more when there is one (`receive_page`).
* **Runs.** What a run recorded before a reader asked for as many pages has reached the reader
  (`received_every_event`). -/

namespace PersonalOS

namespace WorkflowProgress

variable {δ : Type} {log : List (EventLogRow δ)}

/-! ### The log -/

/-- No two rows have one id, each workflow's rows were stamped in the order of their insertion, and
all of them are progress events. -/
structure Order (log : List (EventLogRow δ)) : Prop where
  ids : (log.map (·.id)).Nodup
  times : ∀ workflowId, (ofWorkflow workflowId log).Pairwise fun row row' =>
    row.occurredAt < row'.occurredAt
  types : ∀ row ∈ log, row.aggregateType = workflowAggregate →
    row.eventType ∈ ProgressEventType.storedProgressTypes

theorem ofWorkflow_eq_true {workflowId : UUID} {row : EventLogRow δ} :
    row.ofWorkflow workflowId = true ↔
      row.aggregateType = workflowAggregate ∧ row.aggregateId = workflowId := by
  simp [EventLogRow.ofWorkflow]

theorem mem_ofWorkflow {workflowId : UUID} {row : EventLogRow δ} :
    row ∈ ofWorkflow workflowId log ↔ row ∈ log ∧ row.ofWorkflow workflowId = true :=
  List.mem_filter

theorem ofWorkflow_append {workflowId : UUID} {row : EventLogRow δ} :
    ofWorkflow workflowId (log ++ [row]) =
      ofWorkflow workflowId log ++ if row.ofWorkflow workflowId then [row] else [] := by
  rw [ofWorkflow, List.filter_append, List.filter_singleton]
  cases row.ofWorkflow workflowId <;> rfl

theorem append_eq_some {row : EventLogRow δ} {log' : List (EventLogRow δ)}
    (h : append row log = some log') : row.id ∉ log.map (·.id) ∧ log' = log ++ [row] := by
  rw [append] at h
  split at h
  case isTrue => cases h
  case isFalse hid => exact ⟨hid, (Option.some.inj h).symm⟩

theorem lt_nextTimestamp {now occurredAt : Instant} {workflowId : UUID} {row : EventLogRow δ}
    (h : nextTimestamp now workflowId log = some occurredAt) (hrow : row ∈ ofWorkflow workflowId log) :
    row.occurredAt < occurredAt := by
  have hmem : row.occurredAt ∈ (ofWorkflow workflowId log).map (·.occurredAt) :=
    List.mem_map_of_mem hrow
  rw [nextTimestamp] at h
  cases hmax : ((ofWorkflow workflowId log).map (·.occurredAt)).max? with
  | none =>
      rw [List.max?_eq_none_iff.mp hmax] at hmem
      cases hmem
  | some newest =>
      rw [hmax] at h
      have hle : row.occurredAt ≤ newest := (List.max?_eq_some_iff.mp hmax).2 _ hmem
      dsimp only at h
      unfold Instant at *
      split at h
      case isTrue hlt =>
        have := Option.some.inj h
        omega
      case isFalse =>
        split at h
        case isTrue =>
          have := Option.some.inj h
          omega
        case isFalse => cases h

/-- What `record` does to the log: nothing, or it appends a progress event of the workflow that is
past those there. -/
theorem record_cases (call : RecordCall δ) (log : List (EventLogRow δ)) :
    (record call log).2 = log ∨
    ∃ row : EventLogRow δ, (record call log).2 = log ++ [row] ∧ row.id ∉ log.map (·.id) ∧
      row.aggregateType = workflowAggregate ∧
      row.eventType ∈ ProgressEventType.storedProgressTypes ∧
      ∀ row' ∈ ofWorkflow row.aggregateId log, row'.occurredAt < row.occurredAt := by
  rw [record]
  cases htime : nextTimestamp call.now call.workflowId log with
  | none => exact .inl rfl
  | some occurredAt =>
      dsimp only
      split
      case h_1 => exact .inl rfl
      case h_2 log' happend =>
        obtain ⟨hid, rfl⟩ := append_eq_some happend
        cases call.accepted with
        | false => exact .inl rfl
        | true =>
            exact .inr ⟨_, rfl, hid, rfl,
              List.mem_map_of_mem (ProgressEventType.mem_all call.kind),
              fun row' hrow' => lt_nextTimestamp htime hrow'⟩

namespace Order

theorem nil : Order ([] : List (EventLogRow δ)) where
  ids := List.nodup_nil
  times := fun _ => List.Pairwise.nil
  types := by simp

theorem concat {row : EventLogRow δ} (h : Order log) (hid : row.id ∉ log.map (·.id))
    (hlast : ∀ workflowId, row.ofWorkflow workflowId = true →
      ∀ row' ∈ ofWorkflow workflowId log, row'.occurredAt < row.occurredAt)
    (htype : row.aggregateType = workflowAggregate →
      row.eventType ∈ ProgressEventType.storedProgressTypes) : Order (log ++ [row]) where
  ids := by
    rw [List.map_append, List.nodup_append]
    refine ⟨h.ids, List.nodup_singleton _, ?_⟩
    intro id hmem id' hid'
    rw [List.map_singleton, List.mem_singleton] at hid'
    rintro rfl
    exact hid (hid' ▸ hmem)
  times := by
    intro workflowId
    rw [ofWorkflow_append, List.pairwise_append]
    refine ⟨h.times workflowId, ?_, ?_⟩
    · split
      · exact List.pairwise_singleton _ _
      · exact List.Pairwise.nil
    · intro row' hrow' new hnew
      split at hnew
      case isTrue hof =>
        rw [List.mem_singleton.mp hnew]
        exact hlast workflowId hof row' hrow'
      case isFalse => cases hnew
  types := by
    intro row' hrow'
    rcases List.mem_append.mp hrow' with hrow' | hrow'
    · exact h.types row' hrow'
    · rw [List.mem_singleton.mp hrow']
      exact htype

theorem record (h : Order log) (call : RecordCall δ) : Order (record call log).2 := by
  obtain heq | ⟨row, heq, hid, haggregate, htype, hlast⟩ := record_cases call log
  · rw [heq]
    exact h
  · rw [heq]
    refine h.concat hid ?_ fun _ => htype
    intro workflowId hof
    rw [← (ofWorkflow_eq_true.mp hof).2]
    exact hlast

theorem other (h : Order log) {row : EventLogRow δ} (hrow : row.aggregateType ≠ workflowAggregate) :
    Order ((append row log).getD log) := by
  cases happend : append row log with
  | none => exact h
  | some log' =>
      obtain ⟨hid, rfl⟩ := append_eq_some happend
      refine h.concat hid ?_ fun htype => absurd htype hrow
      intro workflowId hof
      exact absurd (ofWorkflow_eq_true.mp hof).1 hrow

end Order

/-! ### Pages -/

theorem query_eq (h : Order log) (workflowId : UUID) :
    (log.filter fun row => row.ofWorkflow workflowId &&
      ProgressEventType.storedProgressTypes.contains row.eventType) = ofWorkflow workflowId log := by
  refine List.filter_congr fun row hrow => ?_
  cases hof : row.ofWorkflow workflowId with
  | false => rfl
  | true =>
      have htype := h.types row hrow (ofWorkflow_eq_true.mp hof).1
      rw [Bool.true_and, List.contains_iff_mem.mpr htype]

/-- The event shows the row. -/
def Shows (row : EventLogRow δ) (event : WorkflowProgressEvent δ) : Prop :=
  ∃ redact, toEvent redact row = some event

theorem shows_eventId {row : EventLogRow δ} {event : WorkflowProgressEvent δ}
    (h : Shows row event) : event.eventId = row.id := by
  obtain ⟨redact, h⟩ := h
  rw [toEvent, Option.map_eq_some_iff] at h
  obtain ⟨type, -, rfl⟩ := h
  rfl

theorem exists_event (h : Order log) {workflowId : UUID} {row : EventLogRow δ}
    (hrow : row ∈ ofWorkflow workflowId log) (redact : ProgressPayload δ → ProgressPayload δ) :
    ∃ event, toEvent redact row = some event := by
  obtain ⟨hmem, hof⟩ := mem_ofWorkflow.mp hrow
  obtain ⟨kind, -, hkind⟩ := List.mem_map.mp (h.types row hmem (ofWorkflow_eq_true.mp hof).1)
  rw [toEvent, ← hkind, ProgressEventType.fromStored_stored]
  exact ⟨_, rfl⟩

theorem shows_filterMap {rows : List (EventLogRow δ)}
    {redact : ProgressPayload δ → ProgressPayload δ}
    (h : ∀ row ∈ rows, ∃ event, toEvent redact row = some event) :
    List.Forall₂ Shows rows (rows.filterMap (toEvent redact)) := by
  induction rows with
  | nil => exact .nil
  | cons row rows ih =>
      obtain ⟨event, hevent⟩ := h row List.mem_cons_self
      rw [List.filterMap_cons_some hevent]
      exact .cons ⟨redact, hevent⟩ (ih fun row' hrow' => h row' (List.mem_cons_of_mem row hrow'))

theorem shows_page (h : Order log) (workflowId : UUID) (n limit : ℕ)
    (redact : ProgressPayload δ → ProgressPayload δ) :
    List.Forall₂ Shows (((ofWorkflow workflowId log).drop n).take limit)
      (page redact limit ((ofWorkflow workflowId log).drop n)) := by
  have hsorted : ((ofWorkflow workflowId log).drop n).Pairwise
      fun row row' => readBefore row row' = true := by
    refine ((h.times workflowId).sublist (List.drop_sublist n _)).imp ?_
    intro row row' hlt
    exact decide_eq_true (.inl hlt)
  rw [page, List.mergeSort_of_pairwise hsorted]
  refine shows_filterMap fun row hrow => ?_
  have hmem : row ∈ ofWorkflow workflowId log := List.mem_of_mem_drop (List.mem_of_mem_take hrow)
  exact exists_event h hmem redact

theorem after_getElem (h : Order log) {workflowId : UUID} {n : ℕ}
    (hn : n < (ofWorkflow workflowId log).length) :
    (ofWorkflow workflowId log).filter (comesAfter (ofWorkflow workflowId log)[n]) =
      (ofWorkflow workflowId log).drop (n + 1) := by
  refine Keyed.filter_after_eq_drop ?_ ?_ hn
  · intro row
    simp [comesAfter]
  · refine (h.times workflowId).imp ?_
    intro row row' hlt
    have hne : ¬ row.occurredAt = row'.occurredAt := hlt.ne
    simp [comesAfter, hlt, hlt.le, hne]

theorem find_cursor (h : Order log) {workflowId : UUID} {row : EventLogRow δ}
    (hrow : row ∈ ofWorkflow workflowId log) :
    (log.find? fun row' => row'.id == row.id && row'.ofWorkflow workflowId) = some row := by
  obtain ⟨hmem, hof⟩ := mem_ofWorkflow.mp hrow
  refine Keyed.find?_eq_some h.ids hmem fun row' hrow' => ?_
  constructor
  · intro hfound
    rw [Bool.and_eq_true, beq_iff_eq] at hfound
    exact hfound.1
  · intro hid
    rw [Keyed.eq_of_key h.ids hrow' hmem hid, hof, beq_self_eq_true]
    rfl

theorem eventsAfter_eq_error (workflowId cursor : UUID) (limit : ℕ)
    (redact : ProgressPayload δ → ProgressPayload δ) :
    eventsAfter redact workflowId (some cursor) limit log = .error (.of workflowId cursor) ↔
      cursor ∉ (ofWorkflow workflowId log).map (·.id) := by
  have hfind : (log.find? fun row => row.id == cursor && row.ofWorkflow workflowId) = none ↔
      cursor ∉ (ofWorkflow workflowId log).map (·.id) := by
    rw [List.find?_eq_none, List.mem_map]
    constructor
    · rintro hnone ⟨row, hrow, rfl⟩
      obtain ⟨hmem, hof⟩ := mem_ofWorkflow.mp hrow
      exact hnone row hmem (by rw [hof, beq_self_eq_true]; rfl)
    · intro hnot row hmem hfound
      rw [Bool.and_eq_true, beq_iff_eq] at hfound
      exact hnot ⟨row, mem_ofWorkflow.mpr ⟨hmem, hfound.2⟩, hfound.1⟩
  rw [← hfind, eventsAfter]
  cases log.find? fun row => row.id == cursor && row.ofWorkflow workflowId with
  | none => simp
  | some row => simp

theorem eventsAfter_given (h : Order log) {workflowId : UUID}
    {received : List (WorkflowProgressEvent δ)}
    (hgiven : List.Forall₂ Shows ((ofWorkflow workflowId log).take received.length) received)
    (limit : ℕ) (redact : ProgressPayload δ → ProgressPayload δ) :
    eventsAfter redact workflowId (received.getLast?.map (·.eventId)) limit log =
      .ok (page redact limit ((ofWorkflow workflowId log).drop received.length)) := by
  rcases List.eq_nil_or_concat received with rfl | ⟨init, event, rfl⟩
  · rw [← query_eq h workflowId]
    rfl
  · rw [List.concat_eq_append] at hgiven ⊢
    rw [List.length_append, List.length_singleton] at hgiven ⊢
    have hlength := hgiven.length_eq
    rw [List.length_take, List.length_append, List.length_singleton] at hlength
    have hn : init.length < (ofWorkflow workflowId log).length := by omega
    have hshows : Shows (ofWorkflow workflowId log)[init.length] event := by
      have htake : init.length <
          ((ofWorkflow workflowId log).take (init.length + 1)).length := by
        rw [List.length_take]
        omega
      have hevent : init.length < (init ++ [event]).length := by
        rw [List.length_append, List.length_singleton]
        omega
      have hlast := hgiven.get htake hevent
      rwa [List.get_eq_getElem, List.get_eq_getElem, List.getElem_take,
        List.getElem_concat_length rfl] at hlast
    have hcursor : (init ++ [event]).getLast?.map (·.eventId) =
        some (ofWorkflow workflowId log)[init.length].id := by
      rw [List.getLast?_concat, Option.map_some, shows_eventId hshows]
    rw [hcursor, eventsAfter, query_eq h, find_cursor h (List.getElem_mem hn)]
    show Except.ok _ = _
    rw [after_getElem h hn]

end WorkflowProgress

/-! ### The readers -/

namespace ProgressState

open WorkflowProgress

variable {δ : Type} {s : ProgressState δ}

/-- The log is in order, and each reader was given the first events of each workflow. -/
structure Inv (s : ProgressState δ) : Prop where
  order : Order s.log
  given : ∀ reader workflowId, List.Forall₂ Shows
    ((ofWorkflow workflowId s.log).take (s.received reader workflowId).length)
    (s.received reader workflowId)

theorem Inv.initial : Inv (initial : ProgressState δ) where
  order := .nil
  given := fun _ _ => .nil

theorem Inv.length_le (h : s.Inv) (reader : ℕ) (workflowId : UUID) :
    (s.received reader workflowId).length ≤ (ofWorkflow workflowId s.log).length := by
  have hlength := (h.given reader workflowId).length_eq
  rw [List.length_take] at hlength
  omega

theorem Inv.append (h : s.Inv) {log' : List (EventLogRow δ)} (horder : Order log')
    (hgrows : s.log <+: log') : Inv { s with log := log' } where
  order := horder
  given := by
    intro reader workflowId
    obtain ⟨rest, rfl⟩ := hgrows
    have hle := h.length_le reader workflowId
    have htake : (ofWorkflow workflowId (s.log ++ rest)).take
        (s.received reader workflowId).length =
        (ofWorkflow workflowId s.log).take (s.received reader workflowId).length := by
      rw [ofWorkflow, List.filter_append]
      exact List.take_append_of_le_length hle
    rw [htake]
    exact h.given reader workflowId

theorem eventsAfter_cursor (h : s.Inv) (reader : ℕ) (workflowId : UUID) (limit : ℕ)
    (redact : ProgressPayload δ → ProgressPayload δ) :
    eventsAfter redact workflowId (s.cursor reader workflowId) limit s.log =
      .ok (page redact limit
        ((ofWorkflow workflowId s.log).drop (s.received reader workflowId).length)) :=
  eventsAfter_given h.order (h.given reader workflowId) limit redact

/-- What the reader has after a page. -/
theorem receive_page (h : s.Inv) (reader : ℕ) (workflowId : UUID) (limit : ℕ) (hlimit : 0 < limit)
    (redact : ProgressPayload δ → ProgressPayload δ) :
    ∃ events, (s.step (.page reader workflowId limit hlimit redact)).received reader workflowId =
        s.received reader workflowId ++ events ∧
      List.Forall₂ Shows (((ofWorkflow workflowId s.log).drop
        (s.received reader workflowId).length).take limit) events := by
  refine ⟨_, ?_, shows_page h.order workflowId _ limit redact⟩
  show (s.receive reader workflowId _).received reader workflowId = _
  rw [eventsAfter_cursor h, receive]
  exact if_pos ⟨rfl, rfl⟩

theorem received_of_ne {reader reader' : ℕ} {workflowId workflowId' : UUID}
    (hne : ¬ (reader' = reader ∧ workflowId' = workflowId)) (limit : ℕ) (hlimit : 0 < limit)
    (redact : ProgressPayload δ → ProgressPayload δ) :
    (s.step (.page reader workflowId limit hlimit redact)).received reader' workflowId' =
      s.received reader' workflowId' :=
  if_neg hne

theorem Inv.page (h : s.Inv) (reader : ℕ) (workflowId : UUID) (limit : ℕ) (hlimit : 0 < limit)
    (redact : ProgressPayload δ → ProgressPayload δ) :
    Inv (s.step (.page reader workflowId limit hlimit redact)) where
  order := h.order
  given := by
    intro reader' workflowId'
    by_cases hsame : reader' = reader ∧ workflowId' = workflowId
    · obtain ⟨rfl, rfl⟩ := hsame
      obtain ⟨events, hreceived, hevents⟩ :=
        receive_page h reader' workflowId' limit hlimit redact
      have hlength := hevents.length_eq
      have htake : (ofWorkflow workflowId' s.log).take
          ((s.received reader' workflowId').length + events.length) =
          (ofWorkflow workflowId' s.log).take (s.received reader' workflowId').length ++
          ((ofWorkflow workflowId' s.log).drop
            (s.received reader' workflowId').length).take limit := by
        rw [List.take_add, ← hlength, List.length_take]
        congr 1
        rw [List.take_eq_take_iff]
        omega
      rw [hreceived, List.length_append]
      show List.Forall₂ Shows ((ofWorkflow workflowId' s.log).take _) _
      rw [htake]
      exact List.rel_append (h.given reader' workflowId') hevents
    · rw [received_of_ne hsame]
      exact h.given reader' workflowId'

/-! ### Runs -/

theorem log_prefix_record (call : RecordCall δ) : s.log <+: (record call s.log).2 := by
  obtain heq | ⟨row, heq, -⟩ := record_cases call s.log
  · exact (congrArg (s.log <+: ·) heq).mpr List.prefix_rfl
  · exact (congrArg (s.log <+: ·) heq).mpr (List.prefix_append _ _)

theorem log_prefix_other (row : EventLogRow δ) : s.log <+: (append row s.log).getD s.log := by
  cases happend : append row s.log with
  | none => exact List.prefix_rfl
  | some log' =>
      obtain ⟨-, rfl⟩ := append_eq_some happend
      exact List.prefix_append _ _

theorem Inv.step (h : s.Inv) (step : ProgressStep δ) : Inv (s.step step) := by
  cases step with
  | record call => exact h.append (h.order.record call) (log_prefix_record call)
  | other row hrow => exact h.append (h.order.other hrow) (log_prefix_other row)
  | page reader workflowId limit hlimit redact =>
      exact h.page reader workflowId limit hlimit redact

theorem log_prefix_step (step : ProgressStep δ) : s.log <+: (s.step step).log := by
  cases step with
  | record call => exact log_prefix_record call
  | other row hrow => exact log_prefix_other row
  | page reader workflowId limit hlimit redact => exact List.prefix_rfl

theorem Inv.run (h : s.Inv) (steps : List (ProgressStep δ)) : Inv (s.run steps) := by
  induction steps generalizing s with
  | nil => exact h
  | cons step steps ih => exact ih (h.step step)

theorem log_prefix_run (steps : List (ProgressStep δ)) : s.log <+: (s.run steps).log := by
  induction steps generalizing s with
  | nil => exact List.prefix_rfl
  | cons step steps ih => exact (log_prefix_step step).trans ih

theorem length_received_step (h : s.Inv) (reader : ℕ) (workflowId : UUID)
    (step : ProgressStep δ) :
    min (ofWorkflow workflowId s.log).length ((s.received reader workflowId).length +
      if step.isPage reader workflowId then 1 else 0) ≤
      ((s.step step).received reader workflowId).length := by
  cases step with
  | record call => exact Nat.min_le_right _ _
  | other row hrow => exact Nat.min_le_right _ _
  | page reader' workflowId' limit hlimit redact =>
      by_cases hsame : reader' = reader ∧ workflowId' = workflowId
      · obtain ⟨rfl, rfl⟩ := hsame
        obtain ⟨events, hreceived, hevents⟩ :=
          receive_page h reader' workflowId' limit hlimit redact
        have hlength := hevents.length_eq
        rw [List.length_take, List.length_drop] at hlength
        rw [hreceived, List.length_append, ProgressStep.isPage]
        simp only [and_self, decide_true, if_true]
        omega
      · have hother : ¬ (reader = reader' ∧ workflowId = workflowId') := by
          rintro ⟨rfl, rfl⟩
          exact hsame ⟨rfl, rfl⟩
        rw [received_of_ne hother, ProgressStep.isPage, decide_eq_false hsame]
        exact Nat.min_le_right _ _

theorem length_received_run (h : s.Inv) (reader : ℕ) (workflowId : UUID)
    (steps : List (ProgressStep δ)) :
    min (ofWorkflow workflowId s.log).length ((s.received reader workflowId).length +
      steps.countP (ProgressStep.isPage reader workflowId)) ≤
      ((s.run steps).received reader workflowId).length := by
  induction steps generalizing s with
  | nil => exact Nat.min_le_right _ _
  | cons step steps ih =>
      have hstep := length_received_step h reader workflowId step
      have hrest := ih (h.step step)
      have hgrown : (ofWorkflow workflowId s.log).length ≤
          (ofWorkflow workflowId (s.step step).log).length :=
        ((log_prefix_step step).filter _).length_le
      rw [List.countP_cons]
      show _ ≤ ((s.step step).run steps |>.received reader workflowId).length
      omega

end ProgressState

open WorkflowProgress in
/-- **Every event once and in order.**  After any run, a reader has been given the first events of a
workflow in the order they were recorded, all of those that were there before it asked for as many
pages, and a cursor is rejected exactly when it is not an event of the workflow. -/
theorem received_every_event {δ : Type} (earlier later : List (ProgressStep δ)) (reader : ℕ)
    (workflowId : UUID) :
    let before := ProgressState.initial.run earlier
    let now := before.run later
    let recorded := ofWorkflow workflowId now.log
    let received := now.received reader workflowId
    (recorded.map (·.id)).Nodup ∧
    ofWorkflow workflowId before.log <+: recorded ∧
    List.Forall₂ Shows (recorded.take received.length) received ∧
    min (ofWorkflow workflowId before.log).length
      (later.countP (ProgressStep.isPage reader workflowId)) ≤ received.length ∧
    ∀ redact cursor limit,
      eventsAfter redact workflowId (some cursor) limit now.log = .error (.of workflowId cursor) ↔
        cursor ∉ recorded.map (·.id) := by
  intro before now recorded received
  have hbefore : before.Inv := ProgressState.Inv.initial.run earlier
  have hnow : now.Inv := hbefore.run later
  refine ⟨?_, ?_, hnow.given reader workflowId, ?_, ?_⟩
  · exact (List.filter_sublist.map _).nodup hnow.order.ids
  · exact (ProgressState.log_prefix_run later).filter _
  · have hlength := ProgressState.length_received_run hbefore reader workflowId later
    exact (min_le_min_left _ (Nat.le_add_left _ _)).trans hlength
  · intro redact cursor limit
    exact eventsAfter_eq_error workflowId cursor limit redact

end PersonalOS
