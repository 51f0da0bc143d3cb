import PersonalOS.EventOutbox
import PersonalOS.InMemoryTransport
import Mathlib.Data.List.Find

/-! # One event in two transports

The relation between the outbox's table and the in-memory transport's dictionary.

* **Entries.** A row and the held event that mirrors it form an `Entry`; `Mirrored` says that the
  table is the list of the entries' rows and the dictionary that of their held events, in order of
  creation.
* **Tokens.** The outbox knows a lease by the time of its claim, the other by a counter.
  `SameDelivery` says that two deliveries are of one entry and that, while it is leased, both of
  them are current or neither is.
* **Stamps.** A claim that parks events reads the clock again for the outbox, so the outbox's lease
  may be the younger one, by no more than a `span`.
* **Changes.** What changes one entry on both sides keeps both relations (`SameState.put`). -/

namespace PersonalOS

/-- The outbox's word for a status. -/
def InMemoryEventStatus.inOutbox : InMemoryEventStatus → OutboxEventStatus
  | .pending => .pending
  | .inProgress => .inProgress
  | .dispatched => .dispatched
  | .deadLetter => .deadLetter
  | .quarantined => .quarantined

namespace InMemoryEventStatus

end InMemoryEventStatus

/-! ### Entries -/

/-- A row and a held event tell the same of an event: the backoff time is that of the next claim,
and so is compared while the event is pending. -/
structure SameEvent (row : OutboxRow) (held : HeldEvent) : Prop where
  id : row.id = held.envelope.eventId
  dedupeKey : row.dedupeKey = held.key
  status : row.status = held.status.inOutbox
  attempts : row.attempts = held.attempts
  lastError : row.lastError = held.lastError
  availableAt : held.status = .pending → row.availableAt = held.availableAt

abbrev Entry := OutboxRow × HeldEvent

def Entry.id (x : Entry) : UUID := x.1.id

section mirrors

variable (span : ℤ) (readBack : TransportEnvelope → Except String TransportEnvelope)

/-- The row mirrors the held event in all that a transport reads of it. -/
structure Mirrors (row : OutboxRow) (held : HeldEvent) : Prop extends SameEvent row held where
  type : row.type = held.envelope.type
  claimedAt : Option.Rel (fun stamp claimed => claimed ≤ stamp ∧ stamp ≤ claimed + span)
    row.claimedAt held.claimedAt
  /-- A lease says when it was taken. -/
  claimed : held.status = .inProgress → held.claimedAt.isSome = true
  readable : ∃ copy, readBack row.payload = .ok copy

/-- The table and the dictionary are the two halves of the entries, and everything in them was
there before `bound`. -/
structure Mirrored (entries : List Entry) (bound : Instant) (t : OutboxTable)
    (m : InMemoryEventTransport) : Prop where
  rows : t.rows = entries.map Prod.fst
  byKey : m.byKey = entries.map Prod.snd
  mirrors : ∀ x ∈ entries, Mirrors span readBack x.1 x.2
  ids : (entries.map Entry.id).Nodup
  keys : (entries.map fun x => x.2.key).Nodup
  created : (entries.map fun x => x.1.createdAt).Pairwise (· < ·)
  ordered : (entries.map fun x => x.2.sequence).Pairwise (· < ·)
  past : ∀ created ∈ entries.map fun x => x.1.createdAt, created < bound
  counted : ∀ n ∈ entries.map fun x => x.2.sequence, n ≤ m.sequence

/-- Two deliveries of one event, of which both are current or neither is. -/
structure SameDelivery (entries : List Entry) (bound : Instant) (leases : ℕ) (d : ClaimedEvent)
    (d' : InMemoryDelivery) : Prop where
  attempt : d.attempt = d'.attempt
  past : ∃ stamp, d.claimedAt = some stamp ∧ stamp < bound
  counted : d'.lease ≤ leases
  entry : ∃ x ∈ entries, x.id = d.outboxId ∧ x.2.key = d'.envelope.dedupeKey ∧
    (x.2.status = .inProgress → (x.1.claimedAt = d.claimedAt ↔ x.2.lease = some d'.lease))

/-- The two transports and the deliveries each has handed out. -/
structure SameState (entries : List Entry) (bound : Instant) (t : OutboxTable)
    (m : InMemoryEventTransport) (ds : List ClaimedEvent) (ds' : List InMemoryDelivery) :
    Prop where
  mirrored : Mirrored span readBack entries bound t m
  deliveries : List.Forall₂ (SameDelivery entries bound m.leases) ds ds'

end mirrors

variable {span : ℤ} {readBack : TransportEnvelope → Except String TransportEnvelope}
  {entries : List Entry} {bound bound' : Instant} {t t' : OutboxTable}
  {m m' : InMemoryEventTransport} {ds : List ClaimedEvent} {ds' : List InMemoryDelivery} {x y : Entry}

namespace Mirrored

theorem mono (h : Mirrored span readBack entries bound t m) (hle : bound ≤ bound') :
    Mirrored span readBack entries bound' t m :=
  { h with past := fun created hmem => (h.past created hmem).trans_le hle }

theorem eq_of_id (h : Mirrored span readBack entries bound t m) (hx : x ∈ entries) (hy : y ∈ entries)
    (hid : x.id = y.id) : x = y :=
  Keyed.eq_of_key h.ids hx hy hid

theorem eq_of_key (h : Mirrored span readBack entries bound t m) (hx : x ∈ entries) (hy : y ∈ entries)
    (hkey : x.2.key = y.2.key) : x = y :=
  List.inj_on_of_nodup_map h.keys hx hy hkey

/-- **Search**: two searches that ask the same of the two halves of every entry find the same
entry. -/
theorem find? (h : Mirrored span readBack entries bound t m) {p : OutboxRow → Bool}
    {q : HeldEvent → Bool} (hpq : ∀ x ∈ entries, p x.1 = q x.2) :
    (t.rows.find? p = none ∧ m.byKey.find? q = none) ∨
      ∃ x ∈ entries, p x.1 = true ∧ t.rows.find? p = some x.1 ∧ m.byKey.find? q = some x.2 := by
  have hsame : entries.find? (p ∘ Prod.fst) = entries.find? (q ∘ Prod.snd) :=
    List.find?_congr hpq
  rw [h.rows, h.byKey, List.find?_map, List.find?_map, ← hsame]
  cases hfind : entries.find? (p ∘ Prod.fst) with
  | none => exact .inl ⟨rfl, rfl⟩
  | some x =>
      have hp : (p ∘ Prod.fst) x = true := List.find?_some hfind
      exact .inr ⟨x, List.mem_of_find?_eq_some hfind, hp, rfl, rfl⟩

/-- Both transports change one entry. -/
theorem put (h : Mirrored span readBack entries bound t m) (hx : x ∈ entries) {row : OutboxRow}
    {held : HeldEvent} (hmirrors : Mirrors span readBack row held) (hid : row.id = x.1.id)
    (hcreated : row.createdAt = x.1.createdAt) (henvelope : held.envelope = x.2.envelope)
    (hsequence : held.sequence = x.2.sequence)
    (hrows : t'.rows = Keyed.put OutboxRow.id row t.rows)
    (hbyKey : m'.byKey = Keyed.put HeldEvent.key held m.byKey) (hm : m'.sequence = m.sequence) :
    Mirrored span readBack (Keyed.put Entry.id (row, held) entries) bound t' m' := by
  have hkey : held.key = x.2.key := congrArg TransportEnvelope.dedupeKey henvelope
  have hself : ∀ y ∈ entries, Entry.id y = Entry.id (row, held) → y = x := by
    intro y hy hyid
    exact h.eq_of_id hy hx (hyid.trans hid)
  -- what the entry is told by is as it was
  have hids : (Keyed.put Entry.id (row, held) entries).map Entry.id = entries.map Entry.id :=
    Keyed.map_put fun y _ hyid => hyid.symm
  have hkeys : (Keyed.put Entry.id (row, held) entries).map (fun x => x.2.key) =
      entries.map fun x => x.2.key :=
    Keyed.map_put fun y hy hyid => hself y hy hyid ▸ hkey
  have hcreateds : (Keyed.put Entry.id (row, held) entries).map (fun x => x.1.createdAt) =
      entries.map fun x => x.1.createdAt :=
    Keyed.map_put fun y hy hyid => hself y hy hyid ▸ hcreated
  have hsequences : (Keyed.put Entry.id (row, held) entries).map (fun x => x.2.sequence) =
      entries.map fun x => x.2.sequence :=
    Keyed.map_put fun y hy hyid => hself y hy hyid ▸ hsequence
  constructor
  case rows =>
    have hfst : (Keyed.put Entry.id (row, held) entries).map Prod.fst =
        Keyed.put OutboxRow.id row (entries.map Prod.fst) :=
      Keyed.map_put_comm fun y _ => Iff.rfl
    rw [hrows, h.rows, hfst]
  case byKey =>
    have hsnd : (Keyed.put Entry.id (row, held) entries).map Prod.snd =
        Keyed.put HeldEvent.key held (entries.map Prod.snd) := by
      refine Keyed.map_put_comm fun y hy => ⟨fun hyid => ?_, fun hykey => ?_⟩
      · exact hself y hy hyid ▸ hkey.symm
      · have hyx : y = x := h.eq_of_key hy hx (hykey.trans hkey)
        exact hyx ▸ hid.symm
    rw [hbyKey, h.byKey, hsnd]
  case mirrors =>
    intro y hy
    rcases Keyed.mem_put hy with rfl | ⟨hy, -⟩
    · exact hmirrors
    · exact h.mirrors y hy
  case ids => rw [hids]; exact h.ids
  case keys => rw [hkeys]; exact h.keys
  case created => rw [hcreateds]; exact h.created
  case ordered => rw [hsequences]; exact h.ordered
  case past => rw [hcreateds]; exact h.past
  case counted => rw [hsequences, hm]; exact h.counted

end Mirrored

/-! ### Deliveries -/

namespace SameDelivery

variable {leases leases' : ℕ} {d : ClaimedEvent} {d' : InMemoryDelivery}

theorem mono (h : SameDelivery entries bound leases d d') (hle : bound ≤ bound') :
    SameDelivery entries bound' leases d d' := by
  obtain ⟨stamp, hstamp, hlt⟩ := h.past
  exact { h with past := ⟨stamp, hstamp, hlt.trans_le hle⟩ }

/-- A delivery of an entry that is changed stays what it was, unless the change makes one half of
it current. -/
theorem put (h : SameDelivery entries bound leases d d') (hn : (entries.map Entry.id).Nodup)
    (hx : x ∈ entries) {row : OutboxRow} {held : HeldEvent} (hid : row.id = x.1.id)
    (hkey : held.key = x.2.key) (hle : leases ≤ leases')
    (hfresh : held.status = .inProgress →
      row.claimedAt ≠ d.claimedAt ∧ held.lease ≠ some d'.lease) :
    SameDelivery (Keyed.put Entry.id (row, held) entries) bound leases' d d' := by
  obtain ⟨y, hy, hyid, hykey, hcurrent⟩ := h.entry
  refine { h with counted := h.counted.trans hle, entry := ?_ }
  by_cases hyx : Entry.id y = Entry.id (row, held)
  · have heq : y = x := Keyed.eq_of_key hn hy hx (hyx.trans hid)
    subst heq
    refine ⟨(row, held), Keyed.mem_put_self hy hyx, hyx.symm.trans hyid, hkey.trans hykey, ?_⟩
    intro hstatus
    obtain ⟨hstamp, hlease⟩ := hfresh hstatus
    exact ⟨fun heq => absurd heq hstamp, fun heq => absurd heq hlease⟩
  · exact ⟨y, Keyed.mem_put_of_ne hy hyx, hyid, hykey, hcurrent⟩

end SameDelivery

namespace SameState

theorem mono (h : SameState span readBack entries bound t m ds ds') (hle : bound ≤ bound') :
    SameState span readBack entries bound' t m ds ds' where
  mirrored := h.mirrored.mono hle
  deliveries := h.deliveries.imp fun _ _ hd => hd.mono hle

/-- **Change**: both transports change one entry, and no delivery becomes current by it. -/
theorem put (h : SameState span readBack entries bound t m ds ds') (hx : x ∈ entries)
    {row : OutboxRow} {held : HeldEvent} (hmirrors : Mirrors span readBack row held)
    (hid : row.id = x.1.id) (hcreated : row.createdAt = x.1.createdAt)
    (henvelope : held.envelope = x.2.envelope) (hsequence : held.sequence = x.2.sequence)
    (hrows : t'.rows = Keyed.put OutboxRow.id row t.rows)
    (hbyKey : m'.byKey = Keyed.put HeldEvent.key held m.byKey) (hm : m'.sequence = m.sequence)
    (hleases : m.leases ≤ m'.leases)
    (hfresh : held.status = .inProgress → ∀ d d', SameDelivery entries bound m.leases d d' →
      row.claimedAt ≠ d.claimedAt ∧ held.lease ≠ some d'.lease) :
    SameState span readBack (Keyed.put Entry.id (row, held) entries) bound t' m' ds ds' where
  mirrored := h.mirrored.put hx hmirrors hid hcreated henvelope hsequence hrows hbyKey hm
  deliveries := h.deliveries.imp fun d d' hd =>
    hd.put h.mirrored.ids hx hid (congrArg TransportEnvelope.dedupeKey henvelope) hleases
      fun hstatus => hfresh hstatus d d' hd

end SameState

end PersonalOS
