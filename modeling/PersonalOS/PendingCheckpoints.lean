import PersonalOS.JobSearch
import PersonalOS.Pool
import Mathlib.Data.List.Sort
import Mathlib.Data.List.Nodup

/-! # Pending checkpoints

Durable, conditional waits: the rows of `pending_checkpoints`, the rule that decides about
one, and the transactions `PendingCheckpointStore` makes.

* **Waits.** A `PendingCheckpoint` carries the proofs its validators check: it triggers no
  earlier than it was created and expires later than it triggers.
* **Rows.** A `CheckpointTable` has the unique ids and dedupe keys the database enforces.
* **State.** Next to the table stands what no column keeps: which process of type `τ` asked
  about, closed or started which checkpoint, newest first.
* **Programs.** `close` is one guarded statement; `schedule`, `supersede` and
  `resolveMatching` read first and write in later transactions.

The thread id and the texts are not checked for being blank, and `updated_at` is left out. -/

namespace PersonalOS

open Concurrent

/-- Why a follow-up checkpoint was created. -/
inductive FollowUpKind where
  | noResponse
  | awaitingCandidateReply
  | interviewPrep
deriving DecidableEq, Repr

/-- What would make a pending checkpoint unnecessary. -/
inductive ConditionKind where
  | recruiterResponseReceived
  | candidateReplySent
  | applicationClosed
deriving DecidableEq, Repr

def ConditionKind.value : ConditionKind → String
  | recruiterResponseReceived => "recruiter_response_received"
  | candidateReplySent => "candidate_reply_sent"
  | applicationClosed => "application_closed"

/-- The condition a checkpoint is re-evaluated against; `params` are JSON texts. -/
structure CheckpointCondition where
  kind : ConditionKind
  subjectId : UUID
  since : Option Time
  params : List (String × String)
deriving DecidableEq, Repr

def CheckpointCondition.describe (condition : CheckpointCondition) : String :=
  s!"{condition.kind.value} for {condition.subjectId}" ++
    condition.since.elim "" fun since => s!" since {since}"

inductive PendingCheckpointStatus where
  | pending
  | resolved
  | fired
  | expired
  | cancelled
deriving DecidableEq, Repr

def PendingCheckpointStatus.value : PendingCheckpointStatus → String
  | pending => "pending"
  | resolved => "resolved"
  | fired => "fired"
  | expired => "expired"
  | cancelled => "cancelled"

/-- What to do with a checkpoint right now. -/
inductive CheckpointOutcome where
  | wait
  | resolve
  | fire
  | expire
deriving DecidableEq, Repr

/-- One durable, conditional wait. -/
structure PendingCheckpoint where
  checkpointId : UUID
  applicationId : UUID
  kind : FollowUpKind
  condition : CheckpointCondition
  reason : String
  threadId : String
  workflowId : Option UUID
  createdAt : Time
  triggerAt : Time
  expiresAt : Time
  status : PendingCheckpointStatus
  dedupeKey : String
  closedAt : Option Time
  closedReason : Option String
  trigger_after_creation : createdAt ≤ triggerAt
  expiry_after_trigger : triggerAt < expiresAt
deriving Repr

namespace PendingCheckpoint

def isOpen (checkpoint : PendingCheckpoint) : Bool := checkpoint.status == .pending

def isDue (checkpoint : PendingCheckpoint) (now : Time) : Bool := decide (checkpoint.triggerAt ≤ now)

def hasExpired (checkpoint : PendingCheckpoint) (now : Time) : Bool :=
  decide (checkpoint.expiresAt ≤ now)

/-- Its row after the guarded `UPDATE` has closed it. -/
def closed (status : PendingCheckpointStatus) (reason : String) (now : Time)
    (checkpoint : PendingCheckpoint) : PendingCheckpoint :=
  { checkpoint with status, closedAt := some now, closedReason := some reason }

/-- The wait itself, without whether and how it was closed. -/
def wait (checkpoint : PendingCheckpoint) : PendingCheckpoint :=
  { checkpoint with status := .pending, closedAt := none, closedReason := none }

theorem checkpointId_of_wait {c d : PendingCheckpoint} (h : c.wait = d.wait) :
    c.checkpointId = d.checkpointId := by
  show c.wait.checkpointId = d.wait.checkpointId
  rw [h]

theorem dedupeKey_of_wait {c d : PendingCheckpoint} (h : c.wait = d.wait) :
    c.dedupeKey = d.dedupeKey := by
  show c.wait.dedupeKey = d.wait.dedupeKey
  rw [h]

theorem triggerAt_of_wait {c d : PendingCheckpoint} (h : c.wait = d.wait) :
    c.triggerAt = d.triggerAt := by
  show c.wait.triggerAt = d.wait.triggerAt
  rw [h]

theorem expiresAt_of_wait {c d : PendingCheckpoint} (h : c.wait = d.wait) :
    c.expiresAt = d.expiresAt := by
  show c.wait.expiresAt = d.wait.expiresAt
  rw [h]

end PendingCheckpoint

/-- What the store and the monitor raise. -/
inductive CheckpointError where
  /-- A closed checkpoint has no outcome to decide. -/
  | contract (message : String)
  /-- `close` requires a terminal status. -/
  | notTerminal
  /-- A unique violation that left no row to return. -/
  | integrity
  /-- The condition evaluator's own exception. -/
  | evaluator (message : String)
deriving DecidableEq, Repr

/-- Decide what to do with one pending checkpoint, given a freshly asked condition. -/
def decideCheckpoint (checkpoint : PendingCheckpoint) (conditionMet : Bool) (now : Time) :
    Except CheckpointError CheckpointOutcome :=
  if !checkpoint.isOpen then
    .error (.contract (s!"checkpoint {checkpoint.checkpointId} is already " ++
      s!"{checkpoint.status.value}; only a pending checkpoint has an outcome to decide"))
  else if conditionMet then .ok .resolve
  else if checkpoint.hasExpired now then .ok .expire
  else if checkpoint.isDue now then .ok .fire
  else .ok .wait

/-- A checkpoint is to be fired exactly between its trigger and its expiry, unmet. -/
theorem decideCheckpoint_fire {checkpoint : PendingCheckpoint} {conditionMet : Bool} {now : Time} :
    decideCheckpoint checkpoint conditionMet now = .ok .fire ↔
      checkpoint.status = .pending ∧ conditionMet = false ∧ checkpoint.triggerAt ≤ now ∧
        now < checkpoint.expiresAt := by
  unfold decideCheckpoint
  repeat' split
  all_goals simp_all [PendingCheckpoint.isOpen, PendingCheckpoint.hasExpired, PendingCheckpoint.isDue]

/-! ### The table -/

/-- The rows of `pending_checkpoints`, in the order they were inserted. -/
structure CheckpointTable where
  rows : List PendingCheckpoint
  ids_nodup : (rows.map (·.checkpointId)).Nodup
  keys_nodup : (rows.map (·.dedupeKey)).Nodup

namespace CheckpointTable

/-- The guarded `UPDATE`, row by row. -/
def closeRow (checkpointId : UUID) (status : PendingCheckpointStatus) (reason : String) (now : Time)
    (row : PendingCheckpoint) : PendingCheckpoint :=
  if row.checkpointId = checkpointId ∧ row.status = .pending then row.closed status reason now
  else row

theorem closeRow_wait (checkpointId : UUID) (status : PendingCheckpointStatus) (reason : String)
    (now : Time) (row : PendingCheckpoint) :
    (closeRow checkpointId status reason now row).wait = row.wait := by
  unfold closeRow
  split <;> rfl

theorem closeRow_of_ne {checkpointId : UUID} {row : PendingCheckpoint}
    (h : row.checkpointId ≠ checkpointId) (status : PendingCheckpointStatus) (reason : String)
    (now : Time) : closeRow checkpointId status reason now row = row := if_neg fun hc => h hc.1

theorem closeRow_of_closed {row : PendingCheckpoint} (h : row.status ≠ .pending)
    (checkpointId : UUID) (status : PendingCheckpointStatus) (reason : String) (now : Time) :
    closeRow checkpointId status reason now row = row := if_neg fun hc => h hc.2

/-- What the `UPDATE` does not touch stays as it was, in the whole table. -/
theorem map_closeRow {β : Type} {f : PendingCheckpoint → β} {checkpointId : UUID}
    {status : PendingCheckpointStatus} {reason : String} {now : Time} {rows : List PendingCheckpoint}
    (hf : ∀ c d : PendingCheckpoint, c.wait = d.wait → f c = f d) :
    (rows.map (closeRow checkpointId status reason now)).map f = rows.map f := by
  rw [List.map_map]
  exact List.map_congr_left fun row _ => hf _ _ (closeRow_wait ..)

/-- Some row of this id is still pending. -/
def isPending (checkpointId : UUID) (table : CheckpointTable) : Bool :=
  table.rows.any fun row => row.checkpointId == checkpointId && row.status == .pending

def close (checkpointId : UUID) (status : PendingCheckpointStatus) (reason : String) (now : Time)
    (table : CheckpointTable) : CheckpointTable where
  rows := table.rows.map (closeRow checkpointId status reason now)
  ids_nodup := by
    rw [map_closeRow fun _ _ => PendingCheckpoint.checkpointId_of_wait]
    exact table.ids_nodup
  keys_nodup := by
    rw [map_closeRow fun _ _ => PendingCheckpoint.dedupeKey_of_wait]
    exact table.keys_nodup

def rowForKey (dedupeKey : String) (table : CheckpointTable) : Option PendingCheckpoint :=
  table.rows.find? (·.dedupeKey == dedupeKey)

/-- Insert a row, unless its id or its dedupe key is taken. -/
def insert (checkpoint : PendingCheckpoint) (table : CheckpointTable) : Option CheckpointTable :=
  if h : (∀ row ∈ table.rows, row.checkpointId ≠ checkpoint.checkpointId) ∧
      ∀ row ∈ table.rows, row.dedupeKey ≠ checkpoint.dedupeKey then
    some
      { rows := table.rows ++ [checkpoint]
        ids_nodup := by
          rw [List.map_append]
          refine table.ids_nodup.append (List.nodup_singleton _) ?_
          simpa using h.1
        keys_nodup := by
          rw [List.map_append]
          refine table.keys_nodup.append (List.nodup_singleton _) ?_
          simpa using h.2 }
  else none

/-- The order of a sweep: by trigger, and by id where two triggers are the same. -/
def soonerFirst (a b : PendingCheckpoint) : Bool :=
  decide (a.triggerAt < b.triggerAt) ||
    (a.triggerAt == b.triggerAt && decide (a.checkpointId ≤ b.checkpointId))

/-- Every open checkpoint that has something to decide, soonest first. -/
def due (now : Time) (limit : ℕ) (table : CheckpointTable) : List PendingCheckpoint :=
  ((table.rows.filter fun row => row.isOpen && (row.isDue now || row.hasExpired now)).mergeSort
    soonerFirst).take limit

/-- At most one row has an id. -/
theorem eq_of_id {table : CheckpointTable} {row row' : PendingCheckpoint} (h : row ∈ table.rows)
    (h' : row' ∈ table.rows) (hid : row.checkpointId = row'.checkpointId) : row = row' :=
  List.inj_on_of_nodup_map table.ids_nodup h h' hid

/-- What is due is a pending row. -/
theorem mem_due {now : Time} {limit : ℕ} {table : CheckpointTable} {row : PendingCheckpoint}
    (h : row ∈ table.due now limit) : row ∈ table.rows ∧ row.status = .pending := by
  have hmem := List.mem_of_mem_take h
  rw [List.mem_mergeSort, List.mem_filter] at hmem
  simp only [PendingCheckpoint.isOpen, Bool.and_eq_true, beq_iff_eq] at hmem
  exact ⟨hmem.1, hmem.2.1⟩

theorem soonerFirst_trans (a b c : PendingCheckpoint) (hab : soonerFirst a b = true)
    (hbc : soonerFirst b c = true) : soonerFirst a c = true := by
  simp only [soonerFirst, Bool.or_eq_true, Bool.and_eq_true, decide_eq_true_eq, beq_iff_eq] at *
  unfold Time UUID at *
  omega

theorem soonerFirst_total (a b : PendingCheckpoint) :
    (soonerFirst a b || soonerFirst b a) = true := by
  simp only [soonerFirst, Bool.or_eq_true, Bool.and_eq_true, decide_eq_true_eq, beq_iff_eq]
  unfold Time UUID
  omega

theorem soonerFirst_antisymm {a b : PendingCheckpoint} (hab : soonerFirst a b = true)
    (hba : soonerFirst b a = true) : a.checkpointId = b.checkpointId := by
  simp only [soonerFirst, Bool.or_eq_true, Bool.and_eq_true, decide_eq_true_eq, beq_iff_eq] at *
  unfold Time UUID at *
  omega

theorem due_nodup (now : Time) (limit : ℕ) (table : CheckpointTable) :
    ((table.due now limit).map (·.checkpointId)).Nodup := by
  unfold due
  rw [List.map_take]
  refine List.Nodup.sublist (List.take_sublist _ _) ?_
  refine (List.Perm.nodup_iff ((List.mergeSort_perm _ _).map _)).mpr ?_
  exact List.Nodup.sublist (List.filter_sublist.map _) table.ids_nodup

theorem isPending_iff {checkpointId : UUID} {table : CheckpointTable} :
    table.isPending checkpointId = true ↔
      ∃ row ∈ table.rows, row.checkpointId = checkpointId ∧ row.status = .pending := by
  simp [isPending]

theorem mem_close {checkpointId : UUID} {status : PendingCheckpointStatus} {reason : String}
    {now : Time} {table : CheckpointTable} {row : PendingCheckpoint} :
    row ∈ (table.close checkpointId status reason now).rows ↔
      ∃ old ∈ table.rows, closeRow checkpointId status reason now old = row := List.mem_map

theorem insert_eq_some {checkpoint : PendingCheckpoint} {table table' : CheckpointTable}
    (h : table.insert checkpoint = some table') :
    table'.rows = table.rows ++ [checkpoint] ∧
      ∀ row ∈ table.rows, row.checkpointId ≠ checkpoint.checkpointId := by
  unfold insert at h
  split at h
  · rename_i hfree
    obtain rfl := Option.some.inj h
    exact ⟨rfl, hfree.1⟩
  · cases h

end CheckpointTable

/-! ### The state and its programs -/

/-- What a process did with a checkpoint. -/
inductive CheckpointEvent (τ : Type) where
  /-- It asked whether the condition is met; `none` when the evaluator raised. -/
  | asked (process : τ) (checkpointId : UUID) (met : Option Bool)
  /-- Its guarded `UPDATE` closed the row, at its own `now`. -/
  | closed (process : τ) (checkpointId : UUID) (status : PendingCheckpointStatus) (now : Time)
  /-- It started the graph path of the checkpoint. -/
  | started (process : τ) (checkpointId : UUID)
deriving DecidableEq

structure CheckpointState (τ : Type) where
  table : CheckpointTable
  events : List (CheckpointEvent τ)

namespace CheckpointState

variable {τ : Type}

def record (event : CheckpointEvent τ) (s : CheckpointState τ) : CheckpointState τ :=
  { s with events := event :: s.events }

/-- The guarded `UPDATE` of process `t`: whether it updated a row. -/
def close (t : τ) (checkpointId : UUID) (status : PendingCheckpointStatus) (reason : String)
    (now : Time) (s : CheckpointState τ) : Bool × CheckpointState τ :=
  if s.table.isPending checkpointId then
    (true, { table := s.table.close checkpointId status reason now
             events := .closed t checkpointId status now :: s.events })
  else (false, s)

def insert (checkpoint : PendingCheckpoint) (s : CheckpointState τ) : Bool × CheckpointState τ :=
  match s.table.insert checkpoint with
  | some table => (true, { s with table })
  | none => (false, s)

end CheckpointState

/-- How the start of a graph run ends. -/
inductive GraphStart where
  | started
  | leaseUnavailable
  | raised (message : String)
deriving DecidableEq, Repr

/-- Where a thread was found to stand. -/
structure WorkflowResumeState where
  checkpointId : Option UUID
  next : List String
deriving DecidableEq, Repr

/-- What the surroundings answer at one step. -/
structure CheckpointInput where
  clock : Time
  isMet : CheckpointCondition → Except String Bool
  /-- Whether the registry has the thread. -/
  registered : String → Bool
  inspect : String → WorkflowResumeState
  start : PendingCheckpoint → GraphStart

abbrev CheckpointProgram (τ : Type) := Prog CheckpointInput (CheckpointState τ) CheckpointError

namespace PendingCheckpointStore

open Concurrent.Prog (act read raise input)

variable {τ : Type} (t : τ)

/-- `now or self.clock()`. -/
def nowOr (now : Option Time) : CheckpointProgram τ Time :=
  match now with
  | some now => return now
  | none => input (·.clock)

/-- Close a checkpoint: whether this caller was the one that did. -/
def close (checkpointId : UUID) (status : PendingCheckpointStatus) (reason : String)
    (now : Option Time) : CheckpointProgram τ Bool := do
  if status = .pending then raise .notTerminal
  else
    let now ← nowOr now
    act fun _ s => s.close t checkpointId status reason now

/-- Store a wait, or return the one already stored under its dedupe key. -/
def schedule (checkpoint : PendingCheckpoint) : CheckpointProgram τ PendingCheckpoint := do
  match ← read fun s => s.table.rowForKey checkpoint.dedupeKey with
  | some existing => return existing
  | none =>
      if ← act fun _ s => s.insert checkpoint then return checkpoint
      else
        match ← read fun s => s.table.rowForKey checkpoint.dedupeKey with
        | some winner => return winner
        | none => raise .integrity

/-- Close these checkpoints one at a time: the ones this caller closed. -/
def closeAll (status : PendingCheckpointStatus) (reason : String) (now : Time) :
    List UUID → CheckpointProgram τ (List UUID)
  | [] => return []
  | checkpointId :: rest => do
      let closed ← close t checkpointId status reason (some now)
      let others ← closeAll status reason now rest
      return if closed then checkpointId :: others else others

/-- Store a wait and cancel every other open wait of its kind on its application. -/
def supersede (checkpoint : PendingCheckpoint) (reason : String) (now : Option Time) :
    CheckpointProgram τ PendingCheckpoint := do
  let now ← nowOr now
  let stored ← schedule checkpoint
  let stale ← read fun s => s.table.rows.filter fun row =>
    row.applicationId == checkpoint.applicationId && row.kind == checkpoint.kind &&
      row.status == .pending && row.dedupeKey != stored.dedupeKey
  let _ ← closeAll t .cancelled reason now (stale.map (·.checkpointId))
  return stored

/-- Close every open checkpoint this event has just made unnecessary. -/
def resolveMatching (conditionKind : ConditionKind) (subjectId : UUID) (reason : String)
    (occurredAt now : Option Time) : CheckpointProgram τ (List UUID) := do
  let now ← nowOr now
  let rows ← read fun s => s.table.rows.filter fun row =>
    row.status == .pending && row.condition.kind == conditionKind &&
      row.condition.subjectId == subjectId
  let candidates := rows.filter fun row =>
    match occurredAt, row.condition.since with
    | some occurredAt, some since => decide (since ≤ occurredAt)
    | _, _ => true
  closeAll t .resolved reason now (candidates.map (·.checkpointId))

end PendingCheckpointStore

end PersonalOS
