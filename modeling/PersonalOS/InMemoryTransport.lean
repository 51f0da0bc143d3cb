import PersonalOS.EventTransport
import PersonalOS.Keyed

/-! # The in-memory event transport

An event transport that lives in one process's memory.

* **State.** The events held, a dictionary by dedupe key in the order of their publication, and
  two counters: the last sequence number and the last lease.
* **Claims.** A claim leases the oldest ready event.  One whose leases kept lapsing is
  dead-lettered on the way, and the claim looks again; the search ends since a parked event is not
  ready (`ready_putHeld_lt`).
* **Settlements.** A delivery settles its event only while its lease is the current one.

Every call holds the lock from its start to its end, so a call is one step. -/

namespace PersonalOS

/-- Where one held event is in its life. -/
inductive InMemoryEventStatus where
  | pending
  | inProgress
  | dispatched
  | deadLetter
  | quarantined
deriving DecidableEq, Repr

/-- `_PARKED`. -/
def InMemoryEventStatus.isParked (status : InMemoryEventStatus) : Bool :=
  status == .deadLetter || status == .quarantined

structure InMemoryDelivery where
  envelope : TransportEnvelope
  attempt : ℕ
  /-- The lease's token. -/
  lease : ℕ

/-- One event the transport holds, and the state of its delivery. -/
structure HeldEvent where
  envelope : TransportEnvelope
  /-- Publish order. -/
  sequence : ℕ
  status : InMemoryEventStatus := .pending
  attempts : ℕ := 0
  lease : Option ℕ := none
  claimedAt : Option Instant := none
  availableAt : Option Instant := none
  lastError : Option String := none
deriving DecidableEq

structure InMemoryEventTransport where
  byKey : List HeldEvent
  sequence : ℕ
  leases : ℕ

section memory

variable (config : TransportConfig) (redactText : RedactText)

namespace HeldEvent

def key (held : HeldEvent) : String := held.envelope.dedupeKey

/-- What a claim leases: pending events whose backoff is over, and lapsed leases. -/
def isReady (now : Instant) (held : HeldEvent) : Bool :=
  !config.excludeTypes.contains held.envelope.type &&
    ((held.status == .pending && held.availableAt.all fun available => decide (available ≤ now)) ||
      (held.status == .inProgress &&
        held.claimedAt.any fun claimed => decide (claimed ≤ now - config.visibilityTimeout)))

/-- The event under a new lease. -/
def leased (now : Instant) (lease : ℕ) (held : HeldEvent) : HeldEvent :=
  { held with
    attempts := held.attempts + 1, status := .inProgress, lease := some lease,
    claimedAt := some now, availableAt := none }

/-- `_park`. -/
def park (status : InMemoryEventStatus) (error : String) (held : HeldEvent) : HeldEvent :=
  { held with
    status, lease := none, availableAt := none, lastError := some (redactText error) }

theorem isReady_of_isParked {now : Instant} {held : HeldEvent}
    (h : held.status.isParked = true) : held.isReady config now = false := by
  have hpending : (held.status == .pending) = false := by
    cases hs : held.status <;> rw [hs] at h <;> first | rfl | cases h
  have hprogress : (held.status == .inProgress) = false := by
    cases hs : held.status <;> rw [hs] at h <;> first | rfl | cases h
  rw [isReady, hpending, hprogress]
  simp

end HeldEvent

namespace InMemoryEventTransport

/-- Nothing held. -/
def empty : InMemoryEventTransport := ⟨[], 0, 0⟩

/-- The event held under a dedupe key. -/
def held (key : String) (t : InMemoryEventTransport) : Option HeldEvent :=
  t.byKey.find? fun held => held.key == key

/-- A held event is changed in place. -/
def putHeld (held : HeldEvent) (t : InMemoryEventTransport) : InMemoryEventTransport :=
  { t with byKey := Keyed.put HeldEvent.key held t.byKey }

/-- How many events are parked. -/
def parked (t : InMemoryEventTransport) : ℕ := t.byKey.countP fun held => held.status.isParked

def publish (envelope : TransportEnvelope) (t : InMemoryEventTransport) :
    Published × InMemoryEventTransport :=
  match t.held envelope.dedupeKey with
  | some existing => (⟨existing.envelope.eventId, true⟩, t)
  | none =>
      (⟨envelope.eventId, false⟩,
        { t with
          sequence := t.sequence + 1
          byKey := t.byKey ++ [{ envelope, sequence := t.sequence + 1 }] })

/-- `_next_ready`: of the ready events, the one with the lowest sequence number. -/
def nextReady (now : Instant) (t : InMemoryEventTransport) : Option HeldEvent :=
  (t.byKey.filter (HeldEvent.isReady config now)).argmin HeldEvent.sequence

theorem mem_of_nextReady {now : Instant} {t : InMemoryEventTransport} {held : HeldEvent}
    (h : t.nextReady config now = some held) : held ∈ t.byKey ∧ held.isReady config now = true :=
  List.mem_filter.mp (List.argmin_mem h)

/-- Fewer events are ready once a ready one is parked. -/
theorem ready_putHeld_lt {now : Instant} {t : InMemoryEventTransport} {held held' : HeldEvent}
    (h : t.nextReady config now = some held) (hkey : held.key = held'.key)
    (hparked : held'.status.isParked = true) :
    (t.putHeld held').byKey.countP (HeldEvent.isReady config now) <
      t.byKey.countP (HeldEvent.isReady config now) := by
  obtain ⟨hmem, hready⟩ := mem_of_nextReady config h
  have hnot : ¬ held'.isReady config now = true := by
    rw [HeldEvent.isReady_of_isParked config hparked]
    exact Bool.false_ne_true
  exact Keyed.countP_put_lt hmem hkey hready hnot

/-- Lease the oldest ready event, dead-lettering any whose leases kept lapsing. -/
def claim (now : Instant) (t : InMemoryEventTransport) :
    Option InMemoryDelivery × InMemoryEventTransport :=
  match h : t.nextReady config now with
  | none => (none, t)
  | some held =>
      let leased := held.leased now (t.leases + 1)
      let t := { t with leases := t.leases + 1 }
      if config.retryPolicy.maxAttempts < leased.attempts then
        claim now (t.putHeld (leased.park redactText .deadLetter
          (lapsedLeaseError leased.attempts config.visibilityTimeout)))
      else
        (some ⟨leased.envelope, leased.attempts, t.leases⟩, t.putHeld leased)
termination_by t.byKey.countP (HeldEvent.isReady config now)
decreasing_by exact ready_putHeld_lt config h rfl rfl

theorem claim_of_none {now : Instant} {t : InMemoryEventTransport}
    (h : t.nextReady config now = none) : t.claim config redactText now = (none, t) := by
  rw [claim]
  split
  · rfl
  · rename_i held hsome
    rw [h] at hsome
    cases hsome

theorem claim_of_some {now : Instant} {t : InMemoryEventTransport} {held : HeldEvent}
    (h : t.nextReady config now = some held) :
    t.claim config redactText now =
      if config.retryPolicy.maxAttempts < held.attempts + 1 then
        claim config redactText now (putHeld
          ((held.leased now (t.leases + 1)).park redactText .deadLetter
            (lapsedLeaseError (held.attempts + 1) config.visibilityTimeout))
          { t with leases := t.leases + 1 })
      else
        (some ⟨held.envelope, held.attempts + 1, t.leases + 1⟩,
          putHeld (held.leased now (t.leases + 1)) { t with leases := t.leases + 1 }) := by
  rw [claim]
  split
  · rename_i hnone
    rw [h] at hnone
    cases hnone
  · rename_i first hsome
    obtain rfl : held = first := Option.some.inj (h.symm.trans hsome)
    rfl

theorem keys_putHeld {t : InMemoryEventTransport} {held : HeldEvent} :
    (t.putHeld held).byKey.map HeldEvent.key = t.byKey.map HeldEvent.key :=
  Keyed.map_put fun _ _ hkey => hkey.symm

/-- `_current`: the event a delivery may settle. -/
def current (delivery : InMemoryDelivery) (t : InMemoryEventTransport) : Option HeldEvent :=
  (t.held delivery.envelope.dedupeKey).filter fun held =>
    held.status == .inProgress && held.lease == some delivery.lease

def ack (delivery : InMemoryDelivery) (t : InMemoryEventTransport) :
    Bool × InMemoryEventTransport :=
  match t.current delivery with
  | none => (false, t)
  | some held => (true, t.putHeld { held with status := .dispatched, lease := none })

/-- Back off and retry, dead-letter, or quarantine. -/
def nack (delivery : InMemoryDelivery) (error : DeliveryError) (now : Instant) (rand : ℚ)
    (t : InMemoryEventTransport) : Except TransportError DeliveryFailure × InMemoryEventTransport :=
  let plan := classifyFailure error delivery.attempt config.retryPolicy rand
  match t.current delivery with
  | none => (.ok ⟨.claimLost, plan.error, none⟩, t)
  | some held =>
      match plan.outcome with
      | .quarantined => (.ok plan, t.putHeld (held.park redactText .quarantined plan.error))
      | .deadLettered => (.ok plan, t.putHeld (held.park redactText .deadLetter plan.error))
      | _ =>
          let pending := { held with status := .pending, lease := none, claimedAt := none }
          -- the event is pending already when the sum overflows
          match now.plus (plan.delay.getD 0) with
          | none => (.error .overflow, t.putHeld pending)
          | some available =>
              (.ok plan, t.putHeld
                { pending with availableAt := some available, lastError := some plan.error })

/-- Park a claimed event for an operator now. -/
def deadLetter (delivery : InMemoryDelivery) (reason : DeadLetterReason)
    (t : InMemoryEventTransport) : Bool × InMemoryEventTransport :=
  match t.current delivery with
  | none => (false, t)
  | some held => (true, t.putHeld (held.park redactText .deadLetter reason.toText))

/-- Put a parked event back in line with a fresh budget. -/
def requeue (eventId : UUID) (t : InMemoryEventTransport) : Bool × InMemoryEventTransport :=
  match t.byKey.find? fun held => held.envelope.eventId == eventId && held.status.isParked with
  | none => (false, t)
  | some held =>
      (true, t.putHeld
        { held with
          status := .pending, attempts := 0, lease := none, claimedAt := none,
          availableAt := none })

/-- The ports of the in-memory transport. -/
def transport : EventTransport InMemoryEventTransport InMemoryDelivery where
  publish envelope _ t := ((.ok (t.publish envelope).1), (t.publish envelope).2)
  claim clock t := t.claim config redactText (clock 0)
  ack delivery _ t := t.ack delivery
  nack delivery error now rand t := t.nack config redactText delivery error now rand
  deadLetter delivery reason _ t := t.deadLetter redactText delivery reason
  requeue eventId t := t.requeue eventId
  eventId delivery := delivery.envelope.eventId
  attempt delivery := delivery.attempt

end InMemoryEventTransport

end memory

end PersonalOS
