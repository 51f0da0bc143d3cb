import PersonalOS.ApplicationLifecycle
import PersonalOS.Identifiers
import PersonalOS.Keyed
import PersonalOS.OffsetPages
import Mathlib.Algebra.Ring.Nat

/-! # The application board

What `ApplicationBoardStore` reads of the applications, and the moves that a person may ask for.

* **Rows.** `BoardTables` are the facts that do not change, next to the lifecycle's own database.  The status
  of a row is that of the projection, or of the column until the projection has a row (`BoardRow.status`).
* **Board.** One page of cards, grouped into a column for each status.
* **Moves.** `manualTransitionTargets` are the moves that are offered; `transitionApplication` is the request
  for one without an effect: the card is read, the move is checked, made and read again.

How a database looks for a part of a company's name and where it sorts a missing time are given with
`BoardTools`.  The rest of the detail view and moves with an effect are left out. -/

namespace PersonalOS

open Concurrent

/-! ### Moves that a person asks for -/

/-- Something outside of this system that a manual transition asks to have done. -/
inductive TransitionEffect where
  | submitApplication
  | notifyRecruiter
deriving DecidableEq, Repr

def TransitionEffect.value : TransitionEffect → String
  | submitApplication => "submit_application"
  | notifyRecruiter => "notify_recruiter"

/-- The statuses that each effect can accompany. -/
def TransitionEffect.targets : TransitionEffect → List ApplicationStatus
  | submitApplication => [.applied]
  | notifyRecruiter => [.withdrawn, .declined, .accepted]

/-- What a request for a move may be refused with. -/
inductive ManualTransitionError where
  | lifecycle (error : LifecycleError)
  | transitionEffectMismatch (message : String)
deriving DecidableEq, Repr

/-- `sorted(..., key=lambda status: status.value)`. -/
def sortedByValue (statuses : List ApplicationStatus) : List ApplicationStatus :=
  statuses.mergeSort fun a b => decide (a.value ≤ b.value)

/-- Every status that a person may move an application to. -/
def manualTransitionTargets (current : ApplicationStatus) (resumeStatus : Option ApplicationStatus) :
    List ApplicationStatus :=
  (allowedApplicationTransitions current resumeStatus).filter (· ≠ .stalled)

/-- Validate a move that a person asked for, before anything is written or queued. -/
def checkManualTransition (current new : ApplicationStatus) (resumeStatus : Option ApplicationStatus)
    (effect : Option TransitionEffect) : Except ManualTransitionError ApplicationStatus :=
  let allowed := manualTransitionTargets current resumeStatus
  if new = .stalled then
    .error (.lifecycle (.invalidApplicationTransition
      "'stalled' is set by the scheduled stall check and cannot be requested" (sortedByValue allowed)))
  else if !allowed.contains new then
    .error (.lifecycle (.invalidApplicationTransition
      s!"cannot transition application from '{current.value}' to '{new.value}'" (sortedByValue allowed)))
  else
    match effect with
    | none => .ok new
    | some effect =>
        if effect.targets.contains new then .ok new
        else
          .error (.transitionEffectMismatch (s!"effect '{effect.value}' only accompanies a move to: " ++
            ", ".intercalate ((sortedByValue effect.targets).map (·.value))))

/-! ### Rows -/

/-- Board columns, in lifecycle order. -/
def boardColumnOrder : List ApplicationStatus :=
  [.discovered, .saved, .preparing, .readyToApply, .applied, .response, .interviewing, .offer, .accepted,
    .declined, .rejected, .withdrawn, .skipped, .followUpPending, .stalled]

/-- The position of a column. -/
def columnRank (status : ApplicationStatus) : ℕ := boardColumnOrder.idxOf status

/-- What does not change of an application. -/
structure BoardApplication where
  id : UUID
  userId : UUID
  jobPostingId : UUID
  createdAt : Time
deriving DecidableEq, Repr

structure BoardPosting where
  id : UUID
  company : String
  title : String
  location : Option String
  url : Option String
deriving DecidableEq, Repr

/-- The tables next to the lifecycle's: each application once, and when its projection last moved. -/
structure BoardTables where
  applications : List BoardApplication
  postings : List BoardPosting
  viewUpdatedAt : UUID → Time
  nodup : (applications.map (·.id)).Nodup

/-- An application, joined to its posting and its projection. -/
structure BoardRow where
  application : BoardApplication
  lifecycle : ApplicationRow
  posting : BoardPosting
  view : Option StatusView
deriving DecidableEq, Repr

/-- The status as the board reads it. -/
def BoardRow.status (row : BoardRow) : ApplicationStatus :=
  (row.view.map (·.status)).getD row.lifecycle.status

/-- One application as the board shows it. -/
structure ApplicationCard where
  applicationId : UUID
  userId : UUID
  jobPostingId : UUID
  company : String
  title : String
  location : Option String
  url : Option String
  status : ApplicationStatus
  resumeStatus : Option ApplicationStatus
  appliedAt : Option Time
  lastActivityAt : Option Time
  createdAt : Time
  statusUpdatedAt : Time
  lastEventId : Option UUID
deriving DecidableEq, Repr

def BoardTables.cardOf (tables : BoardTables) (row : BoardRow) : ApplicationCard where
  applicationId := row.application.id
  userId := row.application.userId
  jobPostingId := row.application.jobPostingId
  company := row.posting.company
  title := row.posting.title
  location := row.posting.location
  url := row.posting.url
  status := row.status
  resumeStatus := row.lifecycle.resumeStatus
  appliedAt := row.lifecycle.appliedAt
  lastActivityAt := row.lifecycle.lastActivityAt
  createdAt := row.application.createdAt
  statusUpdatedAt := if row.view.isSome then tables.viewUpdatedAt row.application.id else row.application.createdAt
  lastEventId := row.view.bind (·.lastEventId)

/-! ### Queries -/

def defaultBoardPageSize : ℕ := 50

def maxBoardPageSize : ℕ := 200

/-- Which applications the board shows. -/
structure BoardFilter where
  states : List ApplicationStatus := []
  company : Option String := none
  createdFrom : Option Time := none
  createdTo : Option Time := none
  userId : Option UUID := none
  ordered : ∀ start ∈ createdFrom, ∀ stop ∈ createdTo, start ≤ stop

/-- As many cards as one page may hold. -/
structure BoardPageSize where
  limit : ℕ := defaultBoardPageSize
  pos : 1 ≤ limit
  le_max : limit ≤ maxBoardPageSize

structure BoardQuery extends BoardFilter, BoardPageSize where
  offset : ℕ := 0

/-- What differs between databases. -/
structure BoardTools where
  /-- `func.lower(company).contains(...)`, of a company and what is looked for. -/
  companyContains : String → String → Bool
  /-- A missing time comes before all others in a descending order. -/
  nullsFirst : Bool

/-- Cards of one status, and how many match in all. -/
structure BoardColumn where
  status : ApplicationStatus
  total : ℕ
  applications : List ApplicationCard
deriving DecidableEq, Repr

/-- One column for each status, and a page of cards across them. -/
structure ApplicationBoard where
  columns : List BoardColumn
  total : ℕ
  limit : ℕ
  offset : ℕ
  nextOffset : Option ℕ
deriving DecidableEq, Repr

/-- How recent an activity is, where a missing one is before or after all others. -/
def BoardTools.recency (tools : BoardTools) : Option Time → ℤ × Time
  | some time => (0, time)
  | none => (if tools.nullsFirst then 1 else -1, 0)

/-- The order of the board: by the column, then the most recently active first, then by the id. -/
def BoardTools.Before (tools : BoardTools) (row row' : BoardRow) : Prop :=
  columnRank row.status < columnRank row'.status ∨
    columnRank row.status = columnRank row'.status ∧
      ((tools.recency row'.lifecycle.lastActivityAt).1 < (tools.recency row.lifecycle.lastActivityAt).1 ∨
        (tools.recency row'.lifecycle.lastActivityAt).1 = (tools.recency row.lifecycle.lastActivityAt).1 ∧
          ((tools.recency row'.lifecycle.lastActivityAt).2 < (tools.recency row.lifecycle.lastActivityAt).2 ∨
            (tools.recency row'.lifecycle.lastActivityAt).2 = (tools.recency row.lifecycle.lastActivityAt).2 ∧
              row.application.id ≤ row'.application.id))

instance (tools : BoardTools) : DecidableRel tools.Before := fun _ _ => inferInstanceAs (Decidable (_ ∨ _))

/-! ### The store -/

namespace BoardTables

variable {τ : Type} (tools : BoardTools) (tables : BoardTables) (db : LifecycleDb τ)

/-- An application, joined to its posting and its projection. -/
def rowOf (application : BoardApplication) : Option BoardRow :=
  (db.applications application.id).bind fun lifecycle =>
    (Keyed.lookup (·.id) application.jobPostingId tables.postings).map fun posting =>
      { application, lifecycle, posting, view := db.statusView application.id }

def joined : List BoardRow := tables.applications.filterMap (tables.rowOf db)

def matchesFilter (filter : BoardFilter) (row : BoardRow) : Bool :=
  (filter.states.isEmpty || filter.states.contains row.status) &&
    (filter.company.all fun company =>
      company = "" || tools.companyContains row.posting.company company) &&
    filter.createdFrom.all (· ≤ row.application.createdAt) &&
    filter.createdTo.all (row.application.createdAt ≤ ·) &&
    filter.userId.all (row.application.userId = ·)

/-- The applications that match, in the order of the board. -/
def matching (filter : BoardFilter) : List BoardRow :=
  ((tables.joined db).filter (matchesFilter tools filter)).insertionSort tools.Before

/-- One page of cards, grouped into lifecycle columns. -/
def board (query : BoardQuery) : ApplicationBoard :=
  let rows := tables.matching tools db query.toBoardFilter
  let counts := fun status => rows.countP (·.status = status)
  let page := Paging.page rows query.offset query.limit
  let cards := page.map tables.cardOf
  let total := (boardColumnOrder.map counts).sum
  let statuses := if query.states.isEmpty then boardColumnOrder else query.states
  { columns := (boardColumnOrder.filter statuses.contains).map fun status =>
      { status, total := counts status, applications := cards.filter (·.status = status) }
    total
    limit := query.limit
    offset := query.offset
    nextOffset := if query.offset + page.length < total then some (query.offset + page.length) else none }

/-- One application as the board shows it. -/
def card (applicationId : UUID) : Option ApplicationCard :=
  ((tables.joined db).find? (·.application.id = applicationId)).map tables.cardOf

/-- `ApplicationDetail.allowed_next_states`: where a person may move the application of a card. -/
def allowedNextStates (card : ApplicationCard) : List ApplicationStatus :=
  (manualTransitionTargets card.status card.resumeStatus).insertionSort fun a b => columnRank a ≤ columnRank b

end BoardTables

/-! ### A request for a move -/

/-- The answer to a move that was made. -/
structure TransitionResponse where
  fromStatus : ApplicationStatus
  toStatus : ApplicationStatus
  application : ApplicationCard
  eventId : Option UUID
deriving DecidableEq, Repr

section route

open Concurrent.Prog (read raise)

variable {τ : Type} [DecidableEq τ]

/-- The card of an application, or a 404. -/
def cardOr404 (tables : BoardTables) (applicationId : UUID) :
    Prog LifecycleInput (LifecycleDb τ) ManualTransitionError ApplicationCard := do
  match ← read fun db => tables.card db applicationId with
  | some card => return card
  | none => raise (.lifecycle (.notFound s!"application '{UUID.text applicationId}' not found"))

/-- Move an application to another lifecycle state, without an effect. -/
def transitionApplication (redactText : RedactText) (t : τ) (tables : BoardTables) (applicationId : UUID)
    (new : ApplicationStatus) (reason : Option String) (actorId : String) :
    Prog LifecycleInput (LifecycleDb τ) ManualTransitionError TransitionResponse := do
  let card ← cardOr404 tables applicationId
  match checkManualTransition card.status new card.resumeStatus none with
  | .error e => raise e
  | .ok _ =>
      match ← (ApplicationLifecycleStore.transition redactText t applicationId new reason actorId none).attempt with
      | .error e => raise (.lifecycle e)
      | .ok state =>
          return {
            fromStatus := card.status
            toStatus := new
            application := ← cardOr404 tables applicationId
            eventId := state.lastEventId }

end route

end PersonalOS
