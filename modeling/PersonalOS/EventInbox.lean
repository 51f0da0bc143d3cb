import PersonalOS.EventTransport
import PersonalOS.Prog

/-! # Idempotent consumers

A consumer applies an event by committing its effect and a row of the inbox in one transaction.

* **The database.** `ConsumerState` is what the effects change, `δ`, and the inbox.  A transaction
  is one atomic step; a statement that fails raises and changes nothing.  `applied` remembers which
  call committed what; no step reads it.
* **Effects.** What an effect reads, returns and stages is among the inputs of the steps: it raises
  or hands over a result `ρ` and a change, which is made at the commit and may violate a constraint
  there.
* **Calls.** `IdempotentConsumer.consume` looks in the inbox, runs the effect, commits, and looks
  again when the commit violated a constraint. -/

namespace PersonalOS

open Concurrent Concurrent.Prog

/-- A row of the inbox. -/
structure InboxRow where
  consumer : String
  dedupeKey : String
  eventId : UUID
  eventType : String
deriving DecidableEq, Repr

/-- What the unique constraint is on. -/
def InboxRow.key (row : InboxRow) : String × String := (row.consumer, row.dedupeKey)

/-- What a call committed. -/
structure AppliedEffect (τ δ ρ : Type) where
  call : τ
  row : InboxRow
  result : ρ
  change : δ → Option δ

structure ConsumerState (τ δ ρ : Type) where
  data : δ
  inbox : List InboxRow
  /-- What was committed, in order. -/
  applied : List (AppliedEffect τ δ ρ)

/-- What a statement can raise. -/
inductive ConsumeError (ε : Type) where
  /-- A commit that violates a constraint. -/
  | integrityError
  | raised (error : ε)
deriving DecidableEq, Repr

/-- What the surroundings decide of a step. -/
structure ConsumeInput (δ ρ ε : Type) where
  /-- The error a statement fails with. -/
  failure : Option ε
  /-- What the effect does: its exception, or its result and what it stages. -/
  effect : Except (ConsumeError ε) (ρ × (δ → Option δ))

abbrev ConsumerProgram (τ δ ρ ε α : Type) : Type 1 :=
  Prog (ConsumeInput δ ρ ε) (ConsumerState τ δ ρ) (ConsumeError ε) α

/-- What one delivery to a consumer did. -/
structure Consumption (ρ : Type) where
  /-- This delivery applied the effect. -/
  applied : Bool
  result : Option ρ
deriving DecidableEq, Repr

def Consumption.duplicate {ρ : Type} : Consumption ρ := { applied := false, result := none }

/-- A consumer, an envelope delivered to it. -/
structure ConsumeCall where
  consumer : String
  envelope : TransportEnvelope
deriving DecidableEq, Repr

/-- The row the call would add to the inbox. -/
def ConsumeCall.row (c : ConsumeCall) : InboxRow where
  consumer := c.consumer
  dedupeKey := c.envelope.dedupeKey
  eventId := c.envelope.eventId
  eventType := c.envelope.type

namespace IdempotentConsumer

variable {τ δ ρ ε : Type}

def hasKey (key : String × String) (s : ConsumerState τ δ ρ) : Bool :=
  s.inbox.any fun row => row.key == key

/-- Look for the inbox row. -/
def seen (c : ConsumeCall) : ConsumerProgram τ δ ρ ε Bool := do
  let found ← act fun i s => match i.failure with
    | some error => (Except.error error, s)
    | none => (.ok (hasKey c.row.key s), s)
  match found with
  | .ok found => return found
  | .error error => raise (.raised error)

inductive CommitOutcome (ε : Type) where
  | committed
  /-- A constraint is violated. -/
  | conflict
  | failed (error : ε)

/-- Commit what the effect staged and the inbox row, or nothing. -/
def commit (t : τ) (c : ConsumeCall) (result : ρ) (change : δ → Option δ)
    (i : ConsumeInput δ ρ ε) (s : ConsumerState τ δ ρ) : CommitOutcome ε × ConsumerState τ δ ρ :=
  match i.failure with
  | some error => (.failed error, s)
  | none =>
      if hasKey c.row.key s then (.conflict, s)
      else match change s.data with
        | none => (.conflict, s)
        | some data =>
            (.committed, { s with
              data, inbox := s.inbox ++ [c.row],
              applied := s.applied ++ [{ call := t, row := c.row, result, change }] })

/-- Apply the effect for the envelope unless the consumer already has. -/
def consume (t : τ) (c : ConsumeCall) : ConsumerProgram τ δ ρ ε (Consumption ρ) := do
  if ← seen c then
    return .duplicate
  match ← input fun i => i.effect with
  | .error error => raise error
  | .ok (result, change) =>
      match ← act (commit t c result change) with
      | .failed error => raise (.raised error)
      | .committed => return { applied := true, result := some result }
      | .conflict =>
          -- What was staged is rolled back, the effect included.
          if ← seen c then
            return .duplicate
          else
            raise .integrityError

end IdempotentConsumer

end PersonalOS
