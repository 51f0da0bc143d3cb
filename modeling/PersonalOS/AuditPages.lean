import PersonalOS.AuditTrail

/-! # A reader of the audit trail misses nothing

A client follows `next_offset` from page to page while the program goes on recording.

* **Writes.** Events are only added (`recordEvent`); the rows that they are linked to are added or
  updated.  What matched a filter matches it ever after, and in the same order (`matching_sublist`).
* **Reading.** `Reading.step` is a write or the request for the next page.  What a page gives has the ids
  of a segment of the events that match (`seen_request`).
* **Runs.** `Reads` is kept by every step.  So a reader that is through has been given each event
  that there was when it began; with no writes in between, each of them once and in order
  (`audit_pages_miss_nothing`). -/

namespace PersonalOS

namespace AuditTrail

variable {ρ : Type}

/-! ### Writes -/

theorem nodup_map_concat {α κ : Type} {key : α → κ} {rows : List α} {row : α}
    (hn : (rows.map key).Nodup) (h : key row ∉ rows.map key) : ((rows ++ [row]).map key).Nodup := by
  rw [List.map_append, List.nodup_append]
  refine ⟨hn, List.nodup_singleton _, ?_⟩
  rintro k hk k' hk' rfl
  exact h (List.mem_singleton.mp hk' ▸ hk)

namespace AuditTables

variable (tools : AuditTools ρ) (tables : AuditTables ρ)

/-- `AuditEventRepository.create`: append an event, its free texts redacted. -/
def recordEvent (row : EventRow) : AuditTables ρ :=
  if h : row.id ∈ tables.events.map (·.id) then tables
  else
    { tables with
      events := tables.events ++ [{ row with
        actor := tools.redactText row.actor
        action := tools.redactText row.action
        targetRef := tools.redactText row.targetRef
        approvalRef := row.approvalRef.map fun ref => if ref = "" then ref else tools.redactText ref }]
      events_nodup := nodup_map_concat tables.events_nodup h }

/-- Add a verdict of the policy engine. -/
def recordDecision (row : DecisionRow) : AuditTables ρ :=
  { tables with
    decisions := if row.id ∈ tables.decisions.map (·.id) then tables.decisions else tables.decisions ++ [row]
    decisions_nodup := by
      split
      case isTrue => exact tables.decisions_nodup
      case isFalse h => exact nodup_map_concat tables.decisions_nodup h }

/-- Add an execution, or update it. -/
def saveExecution (row : ExecutionRow ρ) : AuditTables ρ :=
  { tables with
    executions := Keyed.upsert (·.operationId) row tables.executions
    executions_nodup := Keyed.nodup_upsert tables.executions_nodup }

/-- Add an approval, or update it. -/
def saveApproval (row : SignOffRow) : AuditTables ρ :=
  { tables with
    approvals := Keyed.upsert (·.id) row tables.approvals
    approvals_nodup := Keyed.nodup_upsert tables.approvals_nodup }

/-- Bind a thread to a workflow, unless it is bound. -/
def bindThread (run : RunRow) : AuditTables ρ :=
  { tables with
    workflows := tables.workflows ++ [run.workflowId]
    runs := if run.threadId ∈ tables.runs.map (·.threadId) then tables.runs else tables.runs ++ [run] }

def createApplication (row : OwnedApplication) : AuditTables ρ :=
  { tables with
    applications :=
      if row.id ∈ tables.applications.map (·.id) then tables.applications else tables.applications ++ [row]
    applications_nodup := by
      split
      case isTrue => exact tables.applications_nodup
      case isFalse h => exact nodup_map_concat tables.applications_nodup h }

end AuditTables

/-- What the program writes. -/
inductive AuditWrite (ρ : Type) where
  | event (row : EventRow)
  | decision (row : DecisionRow)
  | execution (row : ExecutionRow ρ)
  | approval (row : SignOffRow)
  | run (row : RunRow)
  | application (row : OwnedApplication)

def AuditWrite.apply (tools : AuditTools ρ) : AuditWrite ρ → AuditTables ρ → AuditTables ρ
  | event row, tables => tables.recordEvent tools row
  | decision row, tables => tables.recordDecision row
  | execution row, tables => tables.saveExecution row
  | approval row, tables => tables.saveApproval row
  | run row, tables => tables.bindThread row
  | application row, tables => tables.createApplication row

/-- The events, the threads and the applications that there were are there. -/
structure AuditTables.Grows (tables tables' : AuditTables ρ) : Prop where
  events : tables.events.Sublist tables'.events
  runs : tables.runs.Sublist tables'.runs
  applications : tables.applications <+: tables'.applications

theorem AuditWrite.grows (tools : AuditTools ρ) (write : AuditWrite ρ) (tables : AuditTables ρ) :
    tables.Grows (write.apply tools tables) := by
  cases write with
  | event row =>
      rw [AuditWrite.apply, AuditTables.recordEvent]
      split
      case isTrue => exact ⟨.refl _, .refl _, List.prefix_refl _⟩
      case isFalse => exact ⟨List.sublist_append_left _ _, .refl _, List.prefix_refl _⟩
  | decision row => exact ⟨.refl _, .refl _, List.prefix_refl _⟩
  | execution row => exact ⟨.refl _, .refl _, List.prefix_refl _⟩
  | approval row => exact ⟨.refl _, .refl _, List.prefix_refl _⟩
  | run row =>
      refine ⟨.refl _, ?_, List.prefix_refl _⟩
      rw [AuditWrite.apply, AuditTables.bindThread]
      dsimp only
      split
      case isTrue => exact .refl _
      case isFalse => exact List.sublist_append_left _ _
  | application row =>
      refine ⟨.refl _, .refl _, ?_⟩
      rw [AuditWrite.apply, AuditTables.createApplication]
      dsimp only
      split
      case isTrue => exact List.prefix_refl _
      case isFalse => exact List.prefix_append _ _

/-! ### What matches goes on to match -/

section grows

variable (tools : AuditTools ρ) {tables tables' : AuditTables ρ} (h : tables.Grows tables')
include h

theorem lookup_application_of_grows {applicationId : UUID} {row : OwnedApplication}
    (hrow : Keyed.lookup (·.id) applicationId tables.applications = some row) :
    Keyed.lookup (·.id) applicationId tables'.applications = some row := by
  obtain ⟨rest, hrest⟩ := h.applications
  rw [← hrest, Keyed.lookup, List.find?_append]
  rw [Keyed.lookup] at hrow
  rw [hrow]
  rfl

theorem applicationWorkflowIds_subset (applicationId : UUID) :
    tables.applicationWorkflowIds tools applicationId ⊆
      tables'.applicationWorkflowIds tools applicationId := by
  intro workflowId hid
  rw [AuditTables.applicationWorkflowIds] at hid ⊢
  cases hrow : Keyed.lookup (·.id) applicationId tables.applications with
  | none =>
      rw [hrow] at hid
      cases hid
  | some row =>
      rw [hrow] at hid
      rw [lookup_application_of_grows h hrow]
      exact ((h.runs.filter _).map _).subset hid

theorem matchesFilter_of_grows {filter : AuditFilter} {event : EventRow}
    (hmatches : tables.matchesFilter tools filter event = true) :
    tables'.matchesFilter tools filter event = true := by
  rw [AuditTables.matchesFilter] at hmatches ⊢
  simp only [Bool.and_eq_true] at hmatches ⊢
  obtain ⟨⟨⟨⟨⟨hworkflow, happlication⟩, hactor⟩, haction⟩, hsince⟩, hupTo⟩ := hmatches
  refine ⟨⟨⟨⟨⟨hworkflow, ?_⟩, hactor⟩, haction⟩, hsince⟩, hupTo⟩
  rw [Option.all_eq_true] at happlication ⊢
  intro applicationId hid
  have hany := happlication applicationId hid
  rw [Option.any_eq_true] at hany ⊢
  obtain ⟨workflowId, hworkflowId, hcontains⟩ := hany
  refine ⟨workflowId, hworkflowId, ?_⟩
  rw [List.contains_iff_mem] at hcontains ⊢
  exact applicationWorkflowIds_subset tools h applicationId hcontains

end grows

instance : Std.Total newestFirst where
  total row row' := by
    unfold newestFirst
    unfold Instant UUID at *
    omega

instance : IsTrans EventRow newestFirst where
  trans row row' row'' h h' := by
    unfold newestFirst at *
    unfold Instant UUID at *
    omega

theorem matching_sublist (tools : AuditTools ρ) {tables tables' : AuditTables ρ} (h : tables.Grows tables')
    (filter : AuditFilter) : (tables.matching tools filter).Sublist (tables'.matching tools filter) := by
  refine Paging.insertionSort_sublist ((h.events.filter _).trans ?_)
  exact List.monotone_filter_right _ fun event => matchesFilter_of_grows tools h

/-! ### Reading -/

/-- A client: the entries that it was given, and the offset of the next page. -/
structure AuditReader (ρ : Type) where
  given : List (AuditTrailEntry ρ) := []
  next : Option ℕ := some 0

/-- The audit events that the client has seen. -/
def AuditReader.seen (reader : AuditReader ρ) : List UUID := reader.given.filterMap (·.auditEventId)

/-- The next page is asked for, unless the last one was the last. -/
def AuditReader.request (tools : AuditTools ρ) (filter : AuditFilter) (tables : AuditTables ρ)
    (size : PageSize) (reader : AuditReader ρ) : AuditReader ρ :=
  match reader.next with
  | none => reader
  | some offset =>
      let page := tables.search tools { filter, size with offset }
      { given := reader.given ++ page.entries, next := page.nextOffset }

inductive AuditStep (ρ : Type) where
  | write (write : AuditWrite ρ)
  | request (size : PageSize)

def AuditStep.isRequest : AuditStep ρ → Bool
  | write _ => false
  | request _ => true

/-- The tables, and a client that reads them. -/
structure Reading (ρ : Type) where
  tables : AuditTables ρ
  reader : AuditReader ρ := {}

namespace Reading

variable (tools : AuditTools ρ) (filter : AuditFilter)

def step (reading : Reading ρ) : AuditStep ρ → Reading ρ
  | .write write => { reading with tables := write.apply tools reading.tables }
  | .request size =>
      { reading with reader := reading.reader.request tools filter reading.tables size }

def run (steps : List (AuditStep ρ)) (reading : Reading ρ) : Reading ρ :=
  steps.foldl (step tools filter) reading

/-- The ids of the events that match. -/
def matchingIds (reading : Reading ρ) : List UUID := (reading.tables.matching tools filter).map (·.id)

end Reading

theorem filterMap_entry (tools : AuditTools ρ) (chains : Chains ρ) (events : List EventRow) :
    (events.map (chains.entry tools)).filterMap (·.auditEventId) = events.map (·.id) := by
  rw [List.filterMap_map]
  exact congrFun List.filterMap_eq_map events

section request

variable (tools : AuditTools ρ) (filter : AuditFilter) (size : PageSize)

theorem seen_request {reading : Reading ρ} {offset : ℕ} (h : reading.reader.next = some offset) :
    (reading.reader.request tools filter reading.tables size).seen =
        reading.reader.seen ++ Paging.page (reading.matchingIds tools filter) offset size.limit ∧
      (reading.reader.request tools filter reading.tables size).next =
        Paging.nextOffset (reading.matchingIds tools filter) offset size.limit := by
  rw [AuditReader.request, h]
  refine ⟨?_, ?_⟩
  · rw [AuditReader.seen, List.filterMap_append, Reading.matchingIds, Paging.page_map]
    exact congrArg _ (filterMap_entry tools _ _)
  · rw [Reading.matchingIds, Paging.nextOffset_map, Paging.nextOffset]
    dsimp only
    rw [AuditPage.nextOffset, AuditTables.search, List.length_map]

theorem request_of_none {reading : Reading ρ} (h : reading.reader.next = none) :
    reading.reader.request tools filter reading.tables size = reading.reader := by
  rw [AuditReader.request, h]

end request

/-! ### Runs -/

section runs

variable (tools : AuditTools ρ) (filter : AuditFilter)

/-- Of the events that matched at first, those that the reader has not seen are pending; and all that it
has seen match. -/
structure Reads (first : List UUID) (reading : Reading ρ) : Prop where
  covers : Paging.Covers first reading.reader.seen (reading.matchingIds tools filter) reading.reader.next
  matching : reading.reader.seen ⊆ reading.matchingIds tools filter

theorem Reads.start (tables : AuditTables ρ) :
    Reads tools filter (({ tables } : Reading ρ).matchingIds tools filter) { tables } :=
  ⟨Paging.Covers.start _, List.nil_subset _⟩

variable {tools filter} {first : List UUID} {reading : Reading ρ}

theorem Reads.step (h : Reads tools filter first reading) (step : AuditStep ρ) :
    Reads tools filter first (reading.step tools filter step) := by
  cases step with
  | write write =>
      have hrows : (reading.matchingIds tools filter).Sublist
          ((reading.step tools filter (.write write)).matchingIds tools filter) :=
        (matching_sublist tools (write.grows tools reading.tables) filter).map _
      exact ⟨h.covers.grow hrows, List.Subset.trans h.matching hrows.subset⟩
  | request size =>
      rw [Reading.step]
      cases hnext : reading.reader.next with
      | none =>
          rw [request_of_none tools filter size hnext]
          exact h
      | some offset =>
          obtain ⟨hseen, hfollowing⟩ := seen_request tools filter size hnext
          refine ⟨?_, ?_⟩
          · have hcovers := h.covers
            rw [hnext] at hcovers
            dsimp only
            rw [hseen, hfollowing]
            exact hcovers.read size.limit
          · dsimp only
            rw [hseen]
            exact List.append_subset.mpr ⟨h.matching, (Paging.page_sublist _ _ _).subset⟩

theorem Reads.run (h : Reads tools filter first reading) (steps : List (AuditStep ρ)) :
    Reads tools filter first (reading.run tools filter steps) := by
  induction steps generalizing reading with
  | nil => exact h
  | cons step steps ih => exact ih (h.step step)

/-- Nothing was written, and the reader has been given the events that match in order. -/
structure ReadsQuietly (tools : AuditTools ρ) (filter : AuditFilter) (first : List UUID) (requests : ℕ)
    (reading : Reading ρ) : Prop where
  matching : reading.matchingIds tools filter = first
  enumerates : Paging.Enumerates first reading.reader.seen reading.reader.next requests

theorem ReadsQuietly.request {requests : ℕ} (h : ReadsQuietly tools filter first requests reading)
    (size : PageSize) :
    ReadsQuietly tools filter first (requests + 1) (reading.step tools filter (.request size)) := by
  have henumerates := h.enumerates
  rw [Reading.step]
  cases hnext : reading.reader.next with
  | none =>
      rw [request_of_none tools filter size hnext]
      rw [hnext] at henumerates
      exact ⟨h.matching, hnext ▸ henumerates.idle⟩
  | some offset =>
      obtain ⟨hseen, hfollowing⟩ := seen_request tools filter size hnext
      rw [h.matching] at hseen hfollowing
      rw [hnext] at henumerates
      refine ⟨h.matching, ?_⟩
      dsimp only
      rw [hseen, hfollowing]
      exact henumerates.read size.pos

theorem ReadsQuietly.run {requests : ℕ} {steps : List (AuditStep ρ)}
    (h : ReadsQuietly tools filter first requests reading)
    (hsteps : ∀ step ∈ steps, step.isRequest = true) :
    ReadsQuietly tools filter first (requests + steps.length) (reading.run tools filter steps) := by
  induction steps generalizing reading requests with
  | nil => exact h
  | cons step steps ih =>
      cases step with
      | write write => exact absurd (hsteps _ List.mem_cons_self) Bool.false_ne_true
      | request size =>
          have hrun := ih (h.request size) fun step hstep => hsteps step (List.mem_cons_of_mem _ hstep)
          rw [Nat.add_assoc, Nat.add_comm 1] at hrun
          exact hrun

end runs

/-- **A reader of the audit trail misses nothing.**  Of the events that matched when it began, each is
among those that it has seen or is at its offset or after, in the order of the trail; so it has been
given all of them when there is no next page.  It is given only events that match.  When nothing is
written in between, it has been given each of them once after as many requests as there are events, and
there is no next page. -/
theorem audit_pages_miss_nothing (tools : AuditTools ρ) (filter : AuditFilter) (tables : AuditTables ρ)
    (steps : List (AuditStep ρ)) :
    let start : Reading ρ := { tables }
    let first := start.matchingIds tools filter
    let reading := start.run tools filter steps
    Paging.Covers first reading.reader.seen (reading.matchingIds tools filter) reading.reader.next ∧
      (reading.reader.next = none → first.Sublist reading.reader.seen) ∧
      reading.reader.seen ⊆ reading.matchingIds tools filter ∧
      ((∀ step ∈ steps, step.isRequest = true) →
        reading.reader.seen ++ Paging.pending first reading.reader.next = first ∧
          (first.length ≤ steps.length →
            reading.reader.seen = first ∧ (0 < steps.length → reading.reader.next = none))) := by
  intro start first reading
  have hreads : Reads tools filter first reading := (Reads.start tools filter tables).run steps
  refine ⟨hreads.covers, ?_, hreads.matching, ?_⟩
  · intro hnext
    have hcovers := hreads.covers
    rw [hnext] at hcovers
    exact hcovers.done
  · intro hsteps
    have hstart : ReadsQuietly tools filter first 0 start := ⟨rfl, Paging.Enumerates.start first⟩
    have hquiet := (hstart.run hsteps).enumerates
    rw [Nat.zero_add] at hquiet
    exact ⟨hquiet.exact, hquiet.through⟩

end AuditTrail

end PersonalOS
