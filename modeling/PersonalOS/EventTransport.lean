import PersonalOS.ExecutionLedger
import PersonalOS.Instants
import PersonalOS.Lockstep
import PersonalOS.ToolExecutor

/-! # Event transports

The ports every event transport implements, the rules the transports share, and a client of one.

* **Failures.** `classifyFailure` is what a transport does about a failed delivery.  Of the error
  it reads which kind it is of, its `Retry-After` and its description.
* **Clients.** An `EventTransport` is what a transport does with its state `σ` and its deliveries
  `δ`.  A `TransportStep` is one call on it, with what the clock says each time the call reads it; a
  call that settles a delivery names any of those handed out so far.  `EventTransport.client` answers
  calls one after another. -/

namespace PersonalOS

/-- A number with leading zeros. -/
def zeroPadded (width : ℕ) (n : ℤ) : String :=
  "".pushn '0' (width - (toString n).length) ++ toString n

/-- A span of microseconds as `timedelta` prints it. -/
def timedeltaText (span : ℤ) : String :=
  let days := span / 86400000000
  let seconds := span % 86400000000 / 1000000
  let fraction := span % 1000000
  (if days = 0 then ""
    else toString days ++ (if days = 1 ∨ days = -1 then " day, " else " days, ")) ++
  toString (seconds / 3600) ++ ":" ++ zeroPadded 2 (seconds / 60 % 60) ++ ":" ++
  zeroPadded 2 (seconds % 60) ++
  (if fraction = 0 then "" else "." ++ zeroPadded 6 fraction)

/-! ### Backoff -/

/-- A retry budget with the backoff between its attempts, in seconds. -/
structure BackoffPolicy extends RetryPolicy where
  baseDelay : ℚ
  maxDelay : ℚ
  base_nonneg : 0 ≤ baseDelay
  base_le_max : baseDelay ≤ maxDelay

namespace BackoffPolicy

/-- Attempts in all, the first one included. -/
def maxAttempts (policy : BackoffPolicy) : ℕ := 1 + policy.maxRetries

/-- Seconds to wait before retry number `retry`, counting from 1. -/
def delay (policy : BackoffPolicy) (retry : ℕ) (retryAfter : Option ℚ) (rand : ℚ) : ℚ :=
  let window := min policy.maxDelay (policy.baseDelay * 2 ^ (retry - 1))
  let delay := window / 2 + rand * window / 2
  match retryAfter with
  | some seconds => if delay < seconds then seconds else delay
  | none => delay

end BackoffPolicy

/-! ### Failures -/

inductive ErrorKind where
  | validationFailed
  /-- Another `PersonalOSError`. -/
  | personalOS (retryable : Bool)
  | unclassified
deriving DecidableEq, Repr

/-- What a handler raised. -/
structure DeliveryError where
  kind : ErrorKind
  /-- Its `retry_after`, if that is a number. -/
  retryAfter : Option ℚ
  /-- `describe_exception` of it. -/
  description : String
deriving DecidableEq

namespace DeliveryError

/-- No redelivery could make this failure go away. -/
def isPoison (error : DeliveryError) : Bool := error.kind == .validationFailed

/-- The error itself says not to retry. -/
def isTerminal (error : DeliveryError) : Bool := error.kind == .personalOS false

def retryAfterSeconds (error : DeliveryError) : Option ℚ :=
  error.retryAfter.filter fun seconds => decide (0 ≤ seconds)

end DeliveryError

/-- What a nack did with a failed delivery. -/
inductive FailureOutcome where
  | retryScheduled
  | deadLettered
  | quarantined
  /-- The lease had lapsed and another consumer had claimed the event. -/
  | claimLost
deriving DecidableEq, Repr

structure DeliveryFailure where
  outcome : FailureOutcome
  error : String
  /-- Seconds until the event is claimable again, for a scheduled retry. -/
  delay : Option ℚ
deriving DecidableEq

/-- What a nack of delivery `attempt` should do, before the transport does it. -/
def classifyFailure (error : DeliveryError) (attempt : ℕ) (policy : BackoffPolicy) (rand : ℚ) :
    DeliveryFailure :=
  if error.isPoison then ⟨.quarantined, error.description, none⟩
  else if error.isTerminal || !policy.allowsRetry attempt then
    ⟨.deadLettered, error.description, none⟩
  else
    ⟨.retryScheduled, error.description, some (policy.delay attempt error.retryAfterSeconds rand)⟩

/-- Why an event whose every lease lapsed is dead-lettered. -/
def lapsedLeaseError (attempts : ℕ) (visibilityTimeout : ℤ) : String :=
  "the event's lease lapsed " ++ toString (attempts - 1) ++ " times without the delivery being " ++
  "settled (the worker crashed or the handler outran the " ++ timedeltaText visibilityTimeout ++
  " visibility timeout)"

/-- Why a delivery is parked by hand. -/
inductive DeadLetterReason where
  | error (error : DeliveryError)
  | text (text : String)
deriving DecidableEq

def DeadLetterReason.toText : DeadLetterReason → String
  | .error raised => raised.description
  | .text written => written

/-! ### The port -/

/-- One event, as far as a transport reads it. -/
structure TransportEnvelope where
  eventId : UUID
  type : String
  dedupeKey : String
  /-- All else it carries. -/
  body : String
deriving DecidableEq, Repr

/-- What one publish did. -/
structure Published where
  eventId : UUID
  duplicate : Bool
deriving DecidableEq, Repr

inductive TransportError where
  /-- The datetime would be past the last one. -/
  | overflow
  /-- A unique column of the table refused the row. -/
  | integrity
deriving DecidableEq, Repr

/-- The subscription and the budget of a transport. -/
structure TransportConfig where
  excludeTypes : List String
  /-- How long a lease is trusted, in microseconds. -/
  visibilityTimeout : ℤ
  retryPolicy : BackoffPolicy

structure EventTransport (σ δ : Type) where
  publish : TransportEnvelope → Instant → σ → Except TransportError Published × σ
  /-- A claim may read the clock more than once. -/
  claim : (ℕ → Instant) → σ → Option δ × σ
  ack : δ → Instant → σ → Bool × σ
  nack : δ → DeliveryError → Instant → ℚ → σ → Except TransportError DeliveryFailure × σ
  deadLetter : δ → DeadLetterReason → Instant → σ → Bool × σ
  requeue : UUID → σ → Bool × σ
  /-- The event a delivery is of, and which delivery of it this is. -/
  eventId : δ → UUID
  attempt : δ → ℕ

/-! ### A client -/

/-- A call; a delivery is named by its number among those handed out. -/
inductive TransportCall where
  | publish (envelope : TransportEnvelope)
  | claim
  | ack (delivery : ℕ)
  | nack (delivery : ℕ) (error : DeliveryError)
  | deadLetter (delivery : ℕ) (reason : DeadLetterReason)
  | requeue (eventId : UUID)
deriving DecidableEq

/-- A call, what the clock says at each of its readings, and the next value of the jitter. -/
structure TransportStep where
  clock : ℕ → Instant
  rand : ℚ
  call : TransportCall

def TransportStep.now (step : TransportStep) : Instant := step.clock 0

inductive CallResult where
  | published (result : Except TransportError Published)
  /-- The event claimed, with the attempt number. -/
  | claimed (event : Option (UUID × ℕ))
  | settled (done : Bool)
  | failed (result : Except TransportError DeliveryFailure)
  /-- No such delivery was handed out. -/
  | unknown
deriving DecidableEq

/-- The answer to a call, the transport after it, and the deliveries handed out. -/
def EventTransport.answer {σ δ : Type} (T : EventTransport σ δ) (x : σ × List δ)
    (step : TransportStep) : CallResult × σ × List δ :=
  match step.call with
  | .publish envelope =>
      let published := T.publish envelope step.now x.1
      (.published published.1, published.2, x.2)
  | .claim =>
      let claimed := T.claim step.clock x.1
      (.claimed (claimed.1.map fun d => (T.eventId d, T.attempt d)), claimed.2, x.2 ++ claimed.1.toList)
  | .ack delivery =>
      match x.2[delivery]? with
      | none => (.unknown, x)
      | some d =>
          let acked := T.ack d step.now x.1
          (.settled acked.1, acked.2, x.2)
  | .nack delivery error =>
      match x.2[delivery]? with
      | none => (.unknown, x)
      | some d =>
          let nacked := T.nack d error step.now step.rand x.1
          (.failed nacked.1, nacked.2, x.2)
  | .deadLetter delivery reason =>
      match x.2[delivery]? with
      | none => (.unknown, x)
      | some d =>
          let parked := T.deadLetter d reason step.now x.1
          (.settled parked.1, parked.2, x.2)
  | .requeue eventId =>
      let requeued := T.requeue eventId x.1
      (.settled requeued.1, requeued.2, x.2)

def EventTransport.client {σ δ : Type} (T : EventTransport σ δ) :
    Lockstep.Machine TransportStep CallResult (σ × List δ) where
  step := T.answer

example : timedeltaText 300000000 = "0:05:00" := by decide +kernel

end PersonalOS
