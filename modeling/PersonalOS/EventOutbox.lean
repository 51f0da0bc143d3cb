import PersonalOS.EventTransport
import PersonalOS.Keyed
import Mathlib.Data.Prod.Lex

/-! # The outbox as an event transport

Events are rows of a table, and the token of a claim is the time it was made.

* **Rows.** An envelope is stored redacted and is checked against the schema when it is claimed:
  `readBack` is what is then read of an envelope that was staged, or why it cannot be read.
* **Updates.** Every write is an update of the rows that satisfy a condition, and its answer is
  how many there were (`OutboxTable.updateWhere`).
* **Claims.** `claimNext` reads the oldest claimable row and updates it only if its status and its
  stamp are still those it read.  `EventOutbox.claim` parks what it claims and cannot hand out, up
  to `parkLimit` rows; every pass reads the clock for its claim and again for what it parks.
* **Settlements.** A delivery settles its row only while the row carries the stamp of its claim. -/

namespace PersonalOS

inductive OutboxEventStatus where
  | pending
  | inProgress
  | dispatched
  | failed
  | deadLetter
  | quarantined
deriving DecidableEq, Repr

/-- `PARKED_STATUSES`. -/
def OutboxEventStatus.isParked (status : OutboxEventStatus) : Bool :=
  status == .deadLetter || status == .quarantined || status == .failed

/-- One row of `outbox_events`. -/
structure OutboxRow where
  id : UUID
  type : String
  dedupeKey : String
  /-- The envelope as it was staged. -/
  payload : TransportEnvelope
  status : OutboxEventStatus := .pending
  createdAt : Instant
  dispatchedAt : Option Instant := none
  claimedAt : Option Instant := none
  attempts : ℕ := 0
  availableAt : Option Instant := none
  lastError : Option String := none
  failedAt : Option Instant := none
deriving DecidableEq

/-- An outbox row a dispatcher now holds the lease on. -/
structure ClaimedEvent where
  outboxId : UUID
  envelope : TransportEnvelope
  attempt : ℕ
  /-- The claim's token. -/
  claimedAt : Option Instant

structure OutboxTable where
  rows : List OutboxRow

/-- When a row was created, and its id. -/
def OutboxAge := ℤ ×ₗ ℕ

-- spelled out, for there is an order on the integers that cannot be computed with
instance : LinearOrder OutboxAge := @Prod.Lex.instLinearOrder ℤ ℕ Int.instLinearOrder inferInstance

section repository

variable (config : TransportConfig)

namespace OutboxRow

/-- What a claim takes: pending rows whose backoff is over, and lapsed claims. -/
def isClaimable (now : Instant) (row : OutboxRow) : Bool :=
  !config.excludeTypes.contains row.type &&
    ((row.status == .pending && row.availableAt.all fun available => decide (available ≤ now)) ||
      (row.status == .inProgress &&
        row.claimedAt.all fun claimed => decide (claimed ≤ now - config.visibilityTimeout)))

/-- The order of claims: by creation, then by id. -/
def age (row : OutboxRow) : OutboxAge := toLex (row.createdAt, row.id)

/-- The row under a new claim. -/
def claimed (now : Instant) (row : OutboxRow) : OutboxRow :=
  { row with status := .inProgress, claimedAt := some now, attempts := row.attempts + 1 }

end OutboxRow

namespace OutboxTable

/-- No rows. -/
def empty : OutboxTable := ⟨[]⟩

def get (id : UUID) (t : OutboxTable) : Option OutboxRow := t.rows.find? fun row => row.id == id

def getByDedupeKey (key : String) (t : OutboxTable) : Option OutboxRow :=
  t.rows.find? fun row => row.dedupeKey == key

/-- Update the rows that satisfy `p`; the answer is how many there are. -/
def updateWhere (p : OutboxRow → Bool) (f : OutboxRow → OutboxRow) (t : OutboxTable) :
    ℕ × OutboxTable :=
  (t.rows.countP p, ⟨t.rows.map fun row => if p row then f row else row⟩)

/-- The row a claim reads. -/
def candidate (now : Instant) (t : OutboxTable) : Option OutboxRow :=
  (t.rows.filter (OutboxRow.isClaimable config now)).argmin OutboxRow.age

/-- The compare-and-set of a claim: nothing is written if the row has changed since it was
read. -/
def claimCandidate (candidate : OutboxRow) (now : Instant) (t : OutboxTable) : ℕ × OutboxTable :=
  t.updateWhere
    (fun row => row.id == candidate.id && row.status == candidate.status &&
      row.claimedAt == candidate.claimedAt)
    (OutboxRow.claimed now)

/-- Look for a row to claim until one is, `tries` times. -/
def claimNext (now : Instant) : ℕ → OutboxTable → Option OutboxRow × OutboxTable
  | 0, t => (none, t)
  | tries + 1, t =>
      match t.candidate config now with
      | none => (none, t)
      | some candidate =>
          let updated := t.claimCandidate candidate now
          if updated.1 = 1 then (updated.2.get candidate.id, updated.2)
          else claimNext now tries updated.2

end OutboxTable

end repository

/-! ### The transport -/

namespace EventOutbox

/-- `_CLAIM_RACE_RETRIES`. -/
def claimRaceRetries : ℕ := 9

/-- `_PARK_LIMIT`. -/
def parkLimit : ℕ := 16

section outbox

variable (config : TransportConfig) (redactText : RedactText)
  (readBack : TransportEnvelope → Except String TransportEnvelope)

/-- `publish`: the row is staged under the event's own id, which no other row may have. -/
def publish (envelope : TransportEnvelope) (now : Instant) (t : OutboxTable) :
    Except TransportError Published × OutboxTable :=
  match t.getByDedupeKey envelope.dedupeKey with
  | some existing => (.ok ⟨existing.id, true⟩, t)
  | none =>
      if (t.get envelope.eventId).isSome then (.error .integrity, t)
      else
        (.ok ⟨envelope.eventId, false⟩,
          ⟨t.rows ++ [{ id := envelope.eventId, type := envelope.type,
                        dedupeKey := envelope.dedupeKey, payload := envelope,
                        createdAt := now }]⟩)

/-- What `_park` writes to a row. -/
def parked (now : Instant) (status : OutboxEventStatus) (error : String) (row : OutboxRow) :
    OutboxRow :=
  { row with
    status, lastError := some (redactText error), failedAt := some now, availableAt := none }

/-- `_update_claim`: update a row whose claim is still this one. -/
def updateClaim (outboxId : UUID) (claimedAt : Option Instant) (values : OutboxRow → OutboxRow)
    (t : OutboxTable) : Bool × OutboxTable :=
  let updated := t.updateWhere
    (fun row => row.id == outboxId && row.status == .inProgress && row.claimedAt == claimedAt)
    values
  (updated.1 == 1, updated.2)

/-- `_park`. -/
def park (outboxId : UUID) (claimedAt : Option Instant) (status : OutboxEventStatus)
    (error : String) (now : Instant) (t : OutboxTable) : Bool × OutboxTable :=
  updateClaim outboxId claimedAt (parked redactText now status error) t

/-- What the clock says from the next pass of a claim on. -/
def nextPass (clock : ℕ → Instant) (reading : ℕ) : Instant := clock (reading + 2)

/-- The body of `claim`, for at most `limit` rows that have to be parked. -/
def claimUpTo : ℕ → (ℕ → Instant) → OutboxTable → Option ClaimedEvent × OutboxTable
  | 0, _, t => (none, t)
  | limit + 1, clock, t =>
      match t.claimNext config (clock 0) (claimRaceRetries + 1) with
      | (none, t) => (none, t)
      | (some row, t) =>
          match readBack row.payload with
          | .error error =>
              claimUpTo limit (nextPass clock)
                (park redactText row.id row.claimedAt .quarantined error (clock 1) t).2
          | .ok envelope =>
              if config.retryPolicy.maxAttempts < row.attempts then
                claimUpTo limit (nextPass clock)
                  (park redactText row.id row.claimedAt .deadLetter
                    (lapsedLeaseError row.attempts config.visibilityTimeout) (clock 1) t).2
              else (some ⟨row.id, envelope, row.attempts, row.claimedAt⟩, t)

/-- Claim the oldest claimable event. -/
def claim (clock : ℕ → Instant) (t : OutboxTable) : Option ClaimedEvent × OutboxTable :=
  claimUpTo config redactText readBack parkLimit clock t

def ack (claimed : ClaimedEvent) (now : Instant) (t : OutboxTable) : Bool × OutboxTable :=
  updateClaim claimed.outboxId claimed.claimedAt
    (fun row => { row with status := .dispatched, dispatchedAt := some now }) t

/-- Back off and retry, dead-letter, or quarantine. -/
def nack (claimed : ClaimedEvent) (error : DeliveryError) (now : Instant) (rand : ℚ)
    (t : OutboxTable) : Except TransportError DeliveryFailure × OutboxTable :=
  let plan := classifyFailure error claimed.attempt config.retryPolicy rand
  let answer (settled : Bool) : Except TransportError DeliveryFailure :=
    .ok (if settled then plan else ⟨.claimLost, plan.error, none⟩)
  match plan.outcome with
  | .quarantined =>
      let parked := park redactText claimed.outboxId claimed.claimedAt .quarantined plan.error now t
      (answer parked.1, parked.2)
  | .deadLettered =>
      let parked := park redactText claimed.outboxId claimed.claimedAt .deadLetter plan.error now t
      (answer parked.1, parked.2)
  | _ =>
      -- the time of the retry is worked out before anything is written
      match now.plus (plan.delay.getD 0) with
      | none => (.error .overflow, t)
      | some available =>
          let settled := updateClaim claimed.outboxId claimed.claimedAt
            (fun row => { row with
              status := .pending, claimedAt := none, availableAt := some available,
              lastError := some plan.error })
            t
          (answer settled.1, settled.2)

/-- Park a claimed event for an operator now. -/
def deadLetter (claimed : ClaimedEvent) (reason : DeadLetterReason) (now : Instant)
    (t : OutboxTable) : Bool × OutboxTable :=
  park redactText claimed.outboxId claimed.claimedAt .deadLetter reason.toText now t

/-- Put a parked event back in line with a fresh budget. -/
def requeue (outboxId : UUID) (t : OutboxTable) : Bool × OutboxTable :=
  let updated := t.updateWhere (fun row => row.id == outboxId && row.status.isParked)
    (fun row => { row with
      status := .pending, attempts := 0, claimedAt := none, availableAt := none,
      failedAt := none })
  (updated.1 != 0, updated.2)

/-- The ports of the outbox.  A delivery is of the event whose row it claimed. -/
def transport : EventTransport OutboxTable ClaimedEvent where
  publish := publish
  claim := claim config redactText readBack
  ack := ack
  nack := nack config redactText
  deadLetter := deadLetter redactText
  requeue := requeue
  eventId claimed := claimed.outboxId
  attempt claimed := claimed.attempt

end outbox

end EventOutbox

end PersonalOS
