import PersonalOS.Prog
import PersonalOS.Texts

/-! # The idempotency guard

Calls of `IdempotencyGuard.run` on one key over the operations table.

* **The row.** `GuardState.row` is the row under the key.  A transaction is one atomic step; one that
  fails raises, and may have committed all the same.  The rest of the state remembers who claimed
  the key last, whose handlers run, have run, and whose completions were recorded.
* **Reading.** A row is read as a record whose result is a mapping or nothing; a row with another
  result cannot be read (`toDomain`).
* **Calls.** `run` claims the key, compares fingerprints, replays a completed record or refuses, and
  otherwise runs the handler and records how it ended. -/

namespace PersonalOS

open Concurrent Concurrent.Prog

inductive OperationStatus where
  | inProgress
  | completed
  | failed
deriving DecidableEq, Repr

/-- What a handler returns; mappings have entries `μ`. -/
inductive JsonResult (μ : Type) where
  | null
  | mapping (entries : μ)
  /-- A list, a string, a number. -/
  | other (text : String)
deriving DecidableEq, Repr

/-- A record's result is a mapping or nothing. -/
def JsonResult.fitsRecord {μ : Type} : JsonResult μ → Bool
  | .other _ => false
  | _ => true

/-- The row under the key. -/
structure OperationRow (μ : Type) where
  operation : String
  requestFingerprint : String
  status : OperationStatus
  result : JsonResult μ
  error : Option String
  attempts : ℕ
deriving DecidableEq, Repr

structure GuardState (τ μ : Type) where
  row : Option (OperationRow μ)
  /-- The call that claimed the key last. -/
  claimedBy : Option τ
  /-- The calls whose handler is running. -/
  running : List τ
  /-- The calls whose handler was started. -/
  started : List τ
  /-- The calls whose completion was recorded. -/
  completions : List τ

inductive GuardError (ε : Type) where
  | invalidIdempotencyKey (message : String)
  | idempotencyKeyReused (message : String)
  | operationInProgress (message : String)
  /-- A row that is no record. -/
  | validationError
  /-- A row that is not there. -/
  | notFound (message : String)
  /-- What the database raised. -/
  | database (error : ε)
  /-- What the handler raised. -/
  | handler (error : String)
  /-- The handler was cancelled. -/
  | cancelled
deriving DecidableEq, Repr

inductive HandlerOutcome (μ : Type) where
  | returned (result : JsonResult μ)
  | raised (error : String)
  | cancelled

/-- What the surroundings decide of a step. -/
structure GuardInput (μ ε : Type) where
  /-- The error a transaction fails with, and whether it had committed. -/
  failure : Option (ε × Bool)
  outcome : HandlerOutcome μ

abbrev GuardProgram (τ μ ε α : Type) : Type 1 :=
  Prog (GuardInput μ ε) (GuardState τ μ) (GuardError ε) α

def idempotencyKeyMinLength : ℕ := 8

def idempotencyKeyMaxLength : ℕ := 255

/-- The key without the blanks around it, when it has a usable length. -/
@[irreducible] def validateIdempotencyKey (key : String) : Except String String :=
  let normalized := strip key
  if normalized.length < idempotencyKeyMinLength then
    .error ("idempotency_key must be at least " ++ toString idempotencyKeyMinLength ++
      " characters")
  else if idempotencyKeyMaxLength < normalized.length then
    .error ("idempotency_key must be at most " ++ toString idempotencyKeyMaxLength ++
      " characters")
  else .ok normalized

/-- A call on the key, with its request's fingerprint. -/
structure GuardCall (key : String) where
  idempotencyKey : String
  names_key : validateIdempotencyKey idempotencyKey = .ok key
  operation : String
  fingerprint : String

/-- The redactor's effect on a result and on a text. -/
structure Redaction (μ : Type) where
  result : JsonResult μ → JsonResult μ
  text : String → String

/-! ### The operations table -/

namespace OperationRepository

variable {τ μ ε : Type}

/-- One transaction, which answers or fails. -/
def transaction {β : Type} (f : GuardState τ μ → β × GuardState τ μ) : GuardProgram τ μ ε β := do
  let answer ← act fun i s => match i.failure with
    | none => (Except.ok (f s).1, (f s).2)
    | some (error, committed) => (.error error, if committed then (f s).2 else s)
  match answer with
  | .ok b => return b
  | .error error => raise (.database error)

def rowForKey : GuardProgram τ μ ε (Option (OperationRow μ)) := transaction fun s => (s.row, s)

/-- Read a row as a record. -/
def toDomain (row : OperationRow μ) : GuardProgram τ μ ε (OperationRow μ) :=
  if row.result.fitsRecord then ret row else raise .validationError

/-- Insert the claimed row; `false` when another one is there. -/
def insert (t : τ) (operation fingerprint : String) (s : GuardState τ μ) :
    Bool × GuardState τ μ :=
  match s.row with
  | some _ => (false, s)
  | none =>
      (true, { s with
        row := some { operation, requestFingerprint := fingerprint, status := .inProgress,
                      result := .null, error := none, attempts := 1 }
        claimedBy := some t })

/-- Take a failed operation of the same request up again; `false` when there is none. -/
def takeUp (t : τ) (fingerprint : String) (s : GuardState τ μ) : Bool × GuardState τ μ :=
  match s.row with
  | none => (false, s)
  | some row =>
      if row.status = .failed ∧ row.requestFingerprint = fingerprint then
        (true, { s with
          row := some { row with status := .inProgress, attempts := row.attempts + 1, error := none }
          claimedBy := some t })
      else (false, s)

/-- Claim the key: its record, and whether the caller owns the execution. -/
def claim (t : τ) (operation fingerprint : String) :
    GuardProgram τ μ ε (OperationRow μ × Bool) := do
  match ← rowForKey with
  | none =>
      let claimed ← transaction (insert t operation fingerprint)
      -- The inserted row is read back; after a lost race, the winner's is.
      match ← rowForKey with
      | none => raise (.notFound "operation row")
      | some row =>
          let record ← toDomain row
          return (record, claimed)
  | some existing =>
      if existing.status = .failed ∧ existing.requestFingerprint = fingerprint then
        let claimed ← transaction (takeUp t fingerprint)
        match ← rowForKey with
        | none => raise (.notFound "operation row")
        | some row =>
            let record ← toDomain row
            return (record, claimed)
      else
        let record ← toDomain existing
        return (record, false)

/-- Change the row, and remember whose completion it is. -/
def settle (f : OperationRow μ → OperationRow μ) (completions : List τ → List τ)
    (s : GuardState τ μ) : Option (OperationRow μ) × GuardState τ μ :=
  match s.row with
  | none => (none, s)
  | some row => (some (f row), { s with row := some (f row), completions := completions s.completions })

def settled (key : String) : Option (OperationRow μ) → GuardProgram τ μ ε (OperationRow μ)
  | none => raise (.notFound ("Operation '" ++ key ++ "' not found"))
  | some row => toDomain row

def complete (redact : Redaction μ) (t : τ) (key : String) (result : JsonResult μ) :
    GuardProgram τ μ ε (OperationRow μ) := do
  let row ← transaction (settle
    (fun row => { row with status := .completed, result := redact.result result, error := none })
    (t :: ·))
  settled key row

def fail (redact : Redaction μ) (key error : String) : GuardProgram τ μ ε (OperationRow μ) := do
  let row ← transaction (settle
    (fun row => { row with status := .failed,
                           error := some (if error = "" then error else redact.text error) })
    id)
  settled key row

end OperationRepository

/-! ### The guard -/

namespace IdempotencyGuard

open OperationRepository

variable {τ μ ε : Type}

def keyReusedMessage (key operation : String) : String :=
  "idempotency_key '" ++ key ++ "' was already used for a different request (operation '" ++
    operation ++ "'); use a new key"

def inProgressMessage (key operation : String) : String :=
  "operation '" ++ operation ++ "' with idempotency_key '" ++ key ++
    "' is already in progress; retry once it settles"

/-- The handler starts. -/
def start (t : τ) (s : GuardState τ μ) : GuardState τ μ :=
  { s with running := t :: s.running, started := t :: s.started }

/-- The handler has ended. -/
def stop [DecidableEq τ] (t : τ) (s : GuardState τ μ) : GuardState τ μ :=
  { s with running := s.running.erase t }

/-- Run the handler, and record how it ended. -/
def execute [DecidableEq τ] (redact : Redaction μ) (t : τ) (key : String) :
    GuardProgram τ μ ε (JsonResult μ × Bool) := do
  write (start t)
  match ← act fun i s => (i.outcome, stop t s) with
  | .cancelled => raise .cancelled
  | .raised error =>
      let _ ← fail redact key error
      raise (.handler error)
  | .returned result =>
      let _ ← complete redact t key result
      return (result, false)

/-- Run the handler at most once for the key: its result, and whether it is a replay. -/
def run [DecidableEq τ] (redact : Redaction μ) (t : τ) (operation idempotencyKey fingerprint : String) :
    GuardProgram τ μ ε (JsonResult μ × Bool) :=
  match validateIdempotencyKey idempotencyKey with
  | .error message => raise (.invalidIdempotencyKey message)
  | .ok key => do
      let (record, claimed) ← claim t operation fingerprint
      if record.requestFingerprint ≠ fingerprint then
        raise (.idempotencyKeyReused (keyReusedMessage key record.operation))
      else if claimed then
        execute redact t key
      else if record.status = .completed then
        return (record.result, true)
      else
        raise (.operationInProgress (inProgressMessage key operation))

end IdempotencyGuard

end PersonalOS
