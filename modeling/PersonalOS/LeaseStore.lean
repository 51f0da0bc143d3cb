import PersonalOS.JobSearch
import PersonalOS.Pool

/-! # Workflow leases

`WorkflowLeaseStore` over the one row of `workflow_leases` that a workflow has, on a database
that gives no row lock: reading the row and writing it are two steps.

* **State.** The row, the clock, and the tokens minted so far: a new token differs from every
  earlier one.  `held` keeps for each worker of type `τ` the lease it was returned and has not
  released since, which no table stores.
* **Steps.** `acquire` reads the clock, then the row, then inserts or updates it; `renew` and
  `release` read the clock, then update.  Time passes before every step, and a statement may
  find the database locked, which `acquire` reports and the others let through.
* **Workers.** A `worker` makes any operations one after another, on the lease it was last
  returned, and goes on after one that raised. -/

namespace PersonalOS

open Concurrent

/-- An exclusive, expiring claim on the workflow. -/
structure WorkflowLease where
  owner : String
  token : UUID
  acquiredAt : Time
  expiresAt : Time
  threadId : Option String
deriving DecidableEq, Repr

/-- The row of the workflow in `workflow_leases`. -/
structure WorkflowLeaseRow where
  threadId : Option String
  owner : String
  leaseToken : UUID
  acquiredAt : Time
  expiresAt : Time
  releasedAt : Option Time
deriving DecidableEq, Repr

def WorkflowLeaseRow.isHeld (row : WorkflowLeaseRow) (now : Time) : Bool :=
  row.releasedAt.isNone && decide (now < row.expiresAt)

/-- The row a granted lease is stored as. -/
def WorkflowLease.row (lease : WorkflowLease) : WorkflowLeaseRow where
  threadId := lease.threadId
  owner := lease.owner
  leaseToken := lease.token
  acquiredAt := lease.acquiredAt
  expiresAt := lease.expiresAt
  releasedAt := none

/-- Why an acquisition was refused. -/
inductive LeaseReason where
  | held
  | lostInsertRace
  | lostTakeoverRace
  | databaseLocked
deriving DecidableEq, Repr

def LeaseReason.value : LeaseReason → String
  | held => "held"
  | lostInsertRace => "lost_insert_race"
  | lostTakeoverRace => "lost_takeover_race"
  | databaseLocked => "database_locked"

inductive LeaseError where
  | unavailable (reason : LeaseReason) (holder : Option String)
  | lost (token : UUID) (owner : String)
  /-- An `OperationalError` of the database. -/
  | operational
deriving DecidableEq, Repr

/-- How long a lease is held before another worker may take it over, in seconds. -/
def defaultLeaseTtlSeconds : Time := 300

structure LeaseStore (τ : Type) where
  clock : Time
  /-- The next token. -/
  minted : UUID
  row : Option WorkflowLeaseRow
  held : τ → Option WorkflowLease

/-- What the surroundings decide about one step. -/
structure LeaseInput where
  elapsed : ℕ
  locked : Bool

namespace LeaseStore

variable {τ : Type}

def tick (elapsed : ℕ) (s : LeaseStore τ) : LeaseStore τ := { s with clock := s.clock + elapsed }

section transactions

variable [DecidableEq τ] (w : τ)

/-- The worker is returned this lease, or has none any more. -/
def hand (lease : Option WorkflowLease) (s : LeaseStore τ) : LeaseStore τ :=
  { s with held := Function.update s.held w lease }

/-- A lease under a new token, in the row and in the worker's hands. -/
def grant (owner : String) (threadId : Option String) (now expiresAt : Time) (s : LeaseStore τ) :
    WorkflowLease × LeaseStore τ :=
  let lease : WorkflowLease :=
    { owner, token := s.minted, acquiredAt := now, expiresAt, threadId }
  (lease, { s with minted := s.minted + 1, row := some lease.row }.hand w (some lease))

/-- The insert, which the unique `workflow_id` refuses when there is a row. -/
def insertRow (owner : String) (threadId : Option String) (now expiresAt : Time) (s : LeaseStore τ) :
    Option WorkflowLease × LeaseStore τ :=
  match s.row with
  | some _ => (none, s)
  | none =>
      let granted := s.grant w owner threadId now expiresAt
      (some granted.1, granted.2)

/-- The takeover of a row that was read before, guarded by the token it had. -/
def takeOver (seen : WorkflowLeaseRow) (owner : String) (threadId : Option String)
    (now expiresAt : Time) (s : LeaseStore τ) : Option WorkflowLease × LeaseStore τ :=
  match s.row with
  | none => (none, s)
  | some row =>
      if row.leaseToken = seen.leaseToken then
        let granted := s.grant w owner threadId now expiresAt
        (some granted.1, granted.2)
      else (none, s)

/-- The row, when it is unreleased and has this token. -/
def ownRow (token : UUID) (s : LeaseStore τ) : Option WorkflowLeaseRow :=
  s.row.filter fun row => row.leaseToken == token && row.releasedAt.isNone

/-- The update of `renew`, and the lease it returns. -/
def renewRow (lease : WorkflowLease) (expiresAt : Time) (s : LeaseStore τ) :
    Option WorkflowLease × LeaseStore τ :=
  match s.ownRow lease.token with
  | none => (none, s)
  | some row =>
      let renewed := { lease with expiresAt }
      (some renewed, { s with row := some { row with expiresAt } }.hand w (some renewed))

/-- The update of `release`: whether the lease was still held. -/
def releaseRow (lease : WorkflowLease) (now : Time) (s : LeaseStore τ) : Bool × LeaseStore τ :=
  match s.ownRow lease.token with
  | none => (false, s.hand w none)
  | some row => (true, { s with row := some { row with releasedAt := some now } }.hand w none)

/-! What a hand-over and a wait change. -/

@[simp] theorem hand_held_self (lease : Option WorkflowLease) (s : LeaseStore τ) :
    (s.hand w lease).held w = lease := Function.update_self ..

theorem hand_held_ne {u : τ} (h : u ≠ w) (lease : Option WorkflowLease) (s : LeaseStore τ) :
    (s.hand w lease).held u = s.held u := Function.update_of_ne h ..

end transactions

theorem ownRow_eq_some {s : LeaseStore τ} {token : UUID} {row : WorkflowLeaseRow} :
    s.ownRow token = some row ↔ s.row = some row ∧ row.leaseToken = token ∧ row.releasedAt = none := by
  simp [ownRow, Option.filter_eq_some_iff]

/-- A lease the row has another token than. -/
theorem ownRow_eq_none {s : LeaseStore τ} {token : UUID}
    (h : ∀ row, s.row = some row → row.leaseToken ≠ token) : s.ownRow token = none := by
  cases hrow : s.ownRow token with
  | none => rfl
  | some row =>
      obtain ⟨hrow, htoken, -⟩ := ownRow_eq_some.mp hrow
      exact absurd htoken (h row hrow)

end LeaseStore

/-! ### The operations -/

abbrev LeaseProgram (τ : Type) := Prog LeaseInput (LeaseStore τ) LeaseError

namespace WorkflowLeaseStore

open Concurrent.Prog (act raise)

variable {τ : Type} [DecidableEq τ] (w : τ) (ttl : Time)

/-- Read the clock. -/
def now : LeaseProgram τ Time := act fun i s => (s.clock + i.elapsed, s.tick i.elapsed)

/-- Execute and commit one statement; nothing is written when the database is locked. -/
def execute {β : Type} (f : LeaseStore τ → β × LeaseStore τ) (i : LeaseInput) (s : LeaseStore τ) :
    Option β × LeaseStore τ :=
  if i.locked then (none, s.tick i.elapsed)
  else (some (f (s.tick i.elapsed)).1, (f (s.tick i.elapsed)).2)

def statement {β : Type} (f : LeaseStore τ → β × LeaseStore τ) : LeaseProgram τ β := do
  match ← act (execute f) with
  | none => raise .operational
  | some b => return b

/-- The body of `acquire`, before the database's refusals are translated. -/
def takeLease (owner : String) (threadId : Option String) : LeaseProgram τ WorkflowLease := do
  let now ← now
  let row ← statement fun s => (s.row, s)
  match row with
  | none =>
      match ← statement (LeaseStore.insertRow w owner threadId now (now + ttl)) with
      | none => raise (.unavailable .lostInsertRace none)
      | some lease => return lease
  | some row =>
      if row.isHeld now then raise (.unavailable .held (some row.owner))
      else
        match ← statement (LeaseStore.takeOver w row owner threadId now (now + ttl)) with
        | none => raise (.unavailable .lostTakeoverRace none)
        | some lease => return lease

/-- Take the lease on the workflow, or raise. -/
def acquire (owner : String) (threadId : Option String) : LeaseProgram τ WorkflowLease := do
  match ← (takeLease w ttl owner threadId).attempt with
  | .ok lease => return lease
  | .error .operational => raise (.unavailable .databaseLocked none)
  | .error error => raise error

/-- Extend a lease the worker still holds, or raise. -/
def renew (lease : WorkflowLease) : LeaseProgram τ WorkflowLease := do
  let now ← now
  match ← statement (LeaseStore.renewRow w lease (now + ttl)) with
  | none => raise (.lost lease.token lease.owner)
  | some renewed => return renewed

/-- Release a lease: whether the worker still held it. -/
def release (lease : WorkflowLease) : LeaseProgram τ Bool := do
  let now ← now
  statement (LeaseStore.releaseRow w lease now)

/-- One call of the store. -/
inductive Operation where
  | acquire (threadId : Option String)
  | renew
  | release

/-- A worker making these operations, with the lease it was last returned. -/
def worker (owner : String) : List Operation → Option WorkflowLease → LeaseProgram τ Unit
  | [], _ => return ()
  | .acquire threadId :: operations, lease => do
      match ← (acquire w ttl owner threadId).attempt with
      | .ok lease => worker owner operations (some lease)
      | .error _ => worker owner operations lease
  | .renew :: operations, some lease => do
      match ← (renew w ttl lease).attempt with
      | .ok lease => worker owner operations (some lease)
      | .error _ => worker owner operations (some lease)
  | .release :: operations, some lease => do
      match ← (release w lease).attempt with
      | .ok _ => worker owner operations none
      | .error _ => worker owner operations (some lease)
  -- Nothing to renew or release.
  | .renew :: operations, none => worker owner operations none
  | .release :: operations, none => worker owner operations none

end WorkflowLeaseStore

end PersonalOS
