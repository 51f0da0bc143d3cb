import PersonalOS.DeliveryBudget

/-! # The two transports keep the budget

Every call of the in-memory transport and every call of the outbox is a move of every event.

* **Memory.** A call puts at most one held event in place of itself; a claim puts one for each
  event it parks on the way.
* **Outbox.** An update changes the rows that satisfy its condition, so it moves every event when
  it moves those rows (`item_updateWhere`). -/

namespace PersonalOS

open Lockstep Leases

theorem handedOut_ne_requeued {σ δ κ : Type} [DecidableEq κ] {T : EventTransport σ δ}
    {view : EventView σ δ κ} {k : κ} {claimed : Option δ} :
    handedOut T view k claimed ≠ some .requeued := by
  intro h
  obtain ⟨d, -, hd⟩ := Option.map_eq_some_iff.mp h
  cases hd

theorem handedOut_some {σ δ κ : Type} [DecidableEq κ] {T : EventTransport σ δ}
    {view : EventView σ δ κ} {k : κ} {d : δ} :
    handedOut T view k (some d) = if k = view.key d then some (.handedOut (T.attempt d)) else none := by
  rw [handedOut, Option.filter_some]
  by_cases hk : k = view.key d
  · have hsame : decide (view.key d = k) = true := decide_eq_true hk.symm
    rw [if_pos hk, if_pos hsame, Option.map_some]
  · have hne : ¬ decide (view.key d = k) = true := fun h => hk (of_decide_eq_true h).symm
    rw [if_neg hk, if_neg hne, Option.map_none]

/-- Settling by classification: a failure that no retry could help is parked. -/
theorem classifyFailure_of_kind (error : DeliveryError) (attempt : ℕ) (policy : BackoffPolicy)
    (rand : ℚ) :
    (error.kind = .validationFailed →
      classifyFailure error attempt policy rand = ⟨.quarantined, error.description, none⟩)
    ∧ (error.kind = .personalOS false →
      classifyFailure error attempt policy rand = ⟨.deadLettered, error.description, none⟩) := by
  constructor
  · intro hkind
    rw [classifyFailure, DeliveryError.isPoison, hkind]
    rfl
  · intro hkind
    rw [classifyFailure, DeliveryError.isPoison, DeliveryError.isTerminal, hkind]
    rfl

/-! ### The in-memory transport -/

def InMemoryEventStatus.phase : InMemoryEventStatus → Phase ParkedAs
  | .pending => .pending
  | .inProgress => .leased
  | .dispatched => .delivered
  | .deadLetter => .parked .deadLetter
  | .quarantined => .parked .quarantined

def HeldEvent.item (held : HeldEvent) : Item ParkedAs where
  phase := held.status.phase
  attempts := held.attempts

namespace InMemoryEventTransport

def view : EventView InMemoryEventTransport InMemoryDelivery String where
  key d := d.envelope.dedupeKey
  publishedKey envelope _ := envelope.dedupeKey
  item k t := (t.held k).map HeldEvent.item
  requeues eventId t :=
    (t.byKey.find? fun held => held.envelope.eventId == eventId && held.status.isParked).map
      HeldEvent.key
  isCurrent d t := (t.current d).isSome

/-- Each dedupe key is held once. -/
def KeysOnce (t : InMemoryEventTransport) : Prop := (t.byKey.map HeldEvent.key).Nodup

variable {config : TransportConfig} {redactText : RedactText} {t : InMemoryEventTransport}
  {held : HeldEvent} {limit : ℕ} {now : Instant}

theorem held_eq (k : String) : t.held k = Keyed.lookup HeldEvent.key k t.byKey := rfl

theorem held_of_mem (hn : t.KeysOnce) (hmem : held ∈ t.byKey) : t.held held.key = some held :=
  Keyed.lookup_of_mem hn hmem

theorem item_putHeld (held' : HeldEvent) (hheld : t.held held.key = some held) (hkey : held'.key = held.key)
    (k : String) :
    view.item k (t.putHeld held') = if k = held.key then some held'.item else view.item k t := by
  have hsome : Keyed.lookup HeldEvent.key held'.key t.byKey ≠ none := by
    rw [hkey, ← held_eq, hheld]
    exact Option.some_ne_none _
  have hput : (t.putHeld held').held k = if k = held'.key then some held' else t.held k :=
    Keyed.lookup_put hsome
  show ((t.putHeld held').held k).map HeldEvent.item = _
  rw [hput, hkey]
  split <;> rfl

/-- A replacement moves every event when it moves the one it replaces. -/
theorem move_putHeld (held' : HeldEvent) {event : Option Event}
    (hheld : t.held held.key = some held) (hkey : held'.key = held.key)
    (hmove : Move limit (some held.item) event (some held'.item)) (k : String) :
    Move limit (view.item k t) (if k = held.key then event else none)
      (view.item k (t.putHeld held')) := by
  rw [item_putHeld held' hheld hkey]
  by_cases hk : k = held.key
  · have hitem : view.item k t = some held.item := by
      show (t.held k).map HeldEvent.item = _
      rw [hk, hheld]
      rfl
    rw [if_pos hk, if_pos hk, hitem]
    exact hmove
  · rw [if_neg hk, if_neg hk]
    exact .stay _

theorem move_putHeld_quiet (held' : HeldEvent) (hheld : t.held held.key = some held)
    (hkey : held'.key = held.key) (hmove : Move limit (some held.item) none (some held'.item)) (k : String) :
    Move limit (view.item k t) none (view.item k (t.putHeld held')) := by
  have := move_putHeld held' hheld hkey hmove k
  rwa [ite_self] at this

theorem keysOnce_putHeld (held' : HeldEvent) (hn : t.KeysOnce) : (t.putHeld held').KeysOnce := by
  rw [KeysOnce, keys_putHeld]
  exact hn

theorem isOpen_of_isReady (h : held.isReady config now = true) :
    held.item.phase.isOpen = true := by
  unfold HeldEvent.isReady at h
  show held.status.phase.isOpen = true
  cases hstatus : held.status with
  | pending => rfl
  | inProgress => rfl
  | dispatched => rw [hstatus] at h; simp at h
  | deadLetter => rw [hstatus] at h; simp at h
  | quarantined => rw [hstatus] at h; simp at h

/-- **Claims**: whatever is parked on the way, every event makes one move. -/
theorem claim_moves (hn : t.KeysOnce) :
    (t.claim config redactText now).2.KeysOnce
      ∧ ∀ k, Move config.retryPolicy.maxAttempts (view.item k t)
          (handedOut (transport config redactText) view k (t.claim config redactText now).1)
          (view.item k (t.claim config redactText now).2) := by
  induction t using claim.induct config redactText now with
  | case1 t hnone =>
      rw [claim_of_none config redactText hnone]
      exact ⟨hn, fun k => .stay _⟩
  | case2 t first hsome leased t' hover ih =>
      obtain ⟨hmem, hready⟩ := mem_of_nextReady config hsome
      have hheld : t'.held first.key = some first := held_of_mem hn hmem
      have hattempts : config.retryPolicy.maxAttempts < first.attempts + 1 := hover
      rw [claim_of_some config redactText hsome, if_pos hattempts]
      obtain ⟨hn', hmoves⟩ := ih (keysOnce_putHeld _ hn)
      refine ⟨hn', fun k => Move.after_park ?_ (hmoves k) handedOut_ne_requeued⟩
      let parked := leased.park redactText .deadLetter
        (lapsedLeaseError leased.attempts config.visibilityTimeout)
      have hpark : Move config.retryPolicy.maxAttempts (some first.item) none (some parked.item) :=
        .park first.item (isOpen_of_isReady hready) .deadLetter (first.attempts + 1)
      have hitem := item_putHeld parked hheld rfl k
      by_cases hk : k = first.key
      · rw [if_pos hk] at hitem
        exact .inr ⟨⟨.deadLetter, first.attempts + 1, hitem⟩,
          move_putHeld_quiet parked hheld rfl hpark k⟩
      · rw [if_neg hk] at hitem
        exact .inl hitem
  | case3 t first hsome leased hwithin =>
      obtain ⟨hmem, hready⟩ := mem_of_nextReady config hsome
      have hheld : t.held first.key = some first := held_of_mem hn hmem
      have hattempts : ¬ config.retryPolicy.maxAttempts < first.attempts + 1 := hwithin
      rw [claim_of_some config redactText hsome, if_neg hattempts]
      refine ⟨keysOnce_putHeld _ hn, fun k => ?_⟩
      have hmove : Move config.retryPolicy.maxAttempts (some first.item)
          (some (.handedOut (first.attempts + 1)))
          (some (first.leased now (t.leases + 1)).item) :=
        .handOut first.item (isOpen_of_isReady hready) (by
          show first.attempts < _
          omega)
      rw [handedOut_some]
      exact move_putHeld (first.leased now (t.leases + 1)) hheld rfl hmove k

/-! #### Settlements, publishes and requeues -/

theorem current_some {d : InMemoryDelivery} (h : t.current d = some held) :
    t.held held.key = some held ∧ d.envelope.dedupeKey = held.key
      ∧ held.item.phase = .leased := by
  obtain ⟨hheld, hcurrent⟩ := Option.filter_eq_some_iff.mp h
  have hkey : held.key = d.envelope.dedupeKey := (Keyed.lookup_eq_some hheld).2
  have hstatus : held.status = .inProgress := beq_iff_eq.mp (Bool.and_eq_true_iff.mp hcurrent).1
  refine ⟨hkey ▸ hheld, hkey.symm, ?_⟩
  show held.status.phase = .leased
  rw [hstatus]
  rfl

theorem item_settled (held' : HeldEvent) {d : InMemoryDelivery} (h : t.current d = some held)
    (hkey : held'.key = held.key) :
    view.item (view.key d) (t.putHeld held') = some held'.item := by
  obtain ⟨hheld, hd, -⟩ := current_some h
  rw [item_putHeld held' hheld hkey]
  exact if_pos hd

/-- A settlement puts an event in place of the one under the lease. -/
theorem settle_moves (held' : HeldEvent) {d : InMemoryDelivery} (hn : t.KeysOnce)
    (h : t.current d = some held) (hkey : held'.key = held.key)
    (hmove : Move limit (some held.item) none (some held'.item)) :
    (t.putHeld held').KeysOnce
      ∧ ∀ k, Move limit (view.item k t) none (view.item k (t.putHeld held')) :=
  ⟨keysOnce_putHeld held' hn, move_putHeld_quiet held' (current_some h).1 hkey hmove⟩

theorem nack_moves (d : InMemoryDelivery) (error : DeliveryError) (rand : ℚ) (hn : t.KeysOnce) :
    (t.nack config redactText d error now rand).2.KeysOnce
      ∧ ∀ k, Move limit (view.item k t) none
          (view.item k (t.nack config redactText d error now rand).2) := by
  unfold nack
  cases hcurrent : t.current d with
  | none => exact ⟨hn, fun k => .stay _⟩
  | some held =>
      obtain ⟨-, -, hleased⟩ := current_some hcurrent
      have hopen : held.item.phase.isOpen = true := by rw [hleased]; rfl
      have hretry : ∀ held' : HeldEvent, held'.status = .pending → held'.attempts = held.attempts →
          Move limit (some held.item) none (some held'.item) := by
        intro held' hstatus hattempts
        have hitem : held'.item = ⟨.pending, held.item.attempts⟩ := by
          rw [HeldEvent.item, hstatus, hattempts]
          rfl
        rw [hitem]
        exact .retry held.item hleased
      dsimp only
      split
      · exact settle_moves (held.park redactText .quarantined _) hn hcurrent rfl
          (.park held.item hopen .quarantined _)
      · exact settle_moves (held.park redactText .deadLetter _) hn hcurrent rfl
          (.park held.item hopen .deadLetter _)
      · let pending : HeldEvent := { held with status := .pending, lease := none, claimedAt := none }
        split
        · exact settle_moves pending hn hcurrent rfl (hretry pending rfl rfl)
        case h_2 available _ =>
          let waiting : HeldEvent :=
            { pending with
              availableAt := some available
              lastError := some (classifyFailure error d.attempt config.retryPolicy rand).error }
          exact settle_moves waiting hn hcurrent rfl (hretry waiting rfl rfl)

theorem publish_moves (envelope : TransportEnvelope) (hn : t.KeysOnce) :
    (t.publish envelope).2.KeysOnce
      ∧ (∀ k, Move limit (view.item k t) none (view.item k (t.publish envelope).2))
      ∧ (view.item envelope.dedupeKey (t.publish envelope).2).isSome = true := by
  unfold publish
  cases hheld : t.held envelope.dedupeKey with
  | some existing =>
      refine ⟨hn, fun k => .stay _, ?_⟩
      show ((t.held envelope.dedupeKey).map HeldEvent.item).isSome = true
      rw [hheld]
      rfl
  | none =>
      let new : HeldEvent := { envelope, sequence := t.sequence + 1 }
      have hlookup : ∀ k, Keyed.lookup HeldEvent.key k (t.byKey ++ [new])
          = if k = envelope.dedupeKey then some new else t.held k :=
        fun k => Keyed.lookup_concat hheld
      refine ⟨?_, fun k => ?_, ?_⟩
      · show ((t.byKey ++ [new]).map HeldEvent.key).Nodup
        have hupsert : Keyed.upsert HeldEvent.key new t.byKey = t.byKey ++ [new] := if_pos hheld
        rw [← hupsert]
        exact Keyed.nodup_upsert hn
      · show Move limit ((t.held k).map HeldEvent.item) none
          ((Keyed.lookup HeldEvent.key k (t.byKey ++ [new])).map HeldEvent.item)
        rw [hlookup]
        by_cases hk : k = envelope.dedupeKey
        · rw [if_pos hk, hk, hheld]
          exact .publish
        · rw [if_neg hk]
          exact .stay _
      · show ((Keyed.lookup HeldEvent.key envelope.dedupeKey (t.byKey ++ [new])).map
          HeldEvent.item).isSome = true
        rw [hlookup, if_pos rfl]
        rfl

theorem requeue_moves (eventId : UUID) (hn : t.KeysOnce) :
    (t.requeue eventId).2.KeysOnce
      ∧ (∀ k, Move limit (view.item k t)
          (if view.requeues eventId t = some k then some .requeued else none)
          (view.item k (t.requeue eventId).2))
      ∧ (t.requeue eventId).1 = (view.requeues eventId t).isSome := by
  cases hfind : t.byKey.find? fun held =>
      held.envelope.eventId == eventId && held.status.isParked with
  | none =>
      have hrequeues : view.requeues eventId t = none := congrArg (Option.map HeldEvent.key) hfind
      rw [requeue, hfind, hrequeues]
      exact ⟨hn, fun k => .stay _, rfl⟩
  | some held =>
      have hrequeues : view.requeues eventId t = some held.key :=
        congrArg (Option.map HeldEvent.key) hfind
      rw [requeue, hfind, hrequeues]
      have hmem := List.mem_of_find?_eq_some hfind
      have hparked : held.status.isParked = true :=
        (Bool.and_eq_true_iff.mp (List.find?_some hfind :)).2
      have hheld := held_of_mem hn hmem
      have hphase : ∃ how, held.item.phase = .parked how := by
        show ∃ how, held.status.phase = .parked how
        cases hstatus : held.status with
        | deadLetter => exact ⟨.deadLetter, rfl⟩
        | quarantined => exact ⟨.quarantined, rfl⟩
        | pending => rw [hstatus] at hparked; cases hparked
        | inProgress => rw [hstatus] at hparked; cases hparked
        | dispatched => rw [hstatus] at hparked; cases hparked
      obtain ⟨how, hhow⟩ := hphase
      let pending : HeldEvent :=
        { held with
          status := .pending, attempts := 0, lease := none, claimedAt := none,
          availableAt := none }
      have hmove : Move limit (some held.item) (some .requeued) (some pending.item) := by
        have hitem : held.item = ⟨.parked how, held.attempts⟩ := by
          rw [← hhow]
          rfl
        rw [hitem]
        exact .requeue how held.attempts
      refine ⟨keysOnce_putHeld pending hn, fun k => ?_, rfl⟩
      have hevent : (if some held.key = some k then some Event.requeued else none)
          = if k = held.key then some .requeued else none := by
        by_cases hk : k = held.key
        · rw [if_pos hk, if_pos (congrArg some hk.symm)]
        · rw [if_neg hk, if_neg fun heq => hk (Option.some.inj heq).symm]
      rw [hevent]
      exact move_putHeld pending hheld rfl hmove k

/-- **The in-memory transport** moves every event by every call. -/
theorem callsMove (config : TransportConfig) (redactText : RedactText) :
    CallsMove (transport config redactText) view config.retryPolicy.maxAttempts KeysOnce where
  publish t envelope _ hn := by
    obtain ⟨hn', hmoves, hsome⟩ := publish_moves envelope hn
    exact ⟨hn', hmoves, fun _ _ => hsome⟩
  claim t clock hn := claim_moves hn
  ack t d now hn := by
    show (t.ack d).2.KeysOnce ∧ (∀ k, Move _ (view.item k t) none (view.item k (t.ack d).2))
      ∧ ((t.ack d).1 = true → ∃ n, view.item (view.key d) (t.ack d).2 = some ⟨.delivered, n⟩)
    unfold ack
    cases hcurrent : t.current d with
    | none => exact ⟨hn, fun k => .stay _, fun h => by cases h⟩
    | some held =>
        let delivered : HeldEvent := { held with status := .dispatched, lease := none }
        obtain ⟨hn', hmoves⟩ := settle_moves delivered hn hcurrent rfl
          (.deliver held.item (current_some hcurrent).2.2)
        exact ⟨hn', hmoves, fun _ => ⟨held.attempts, item_settled delivered hcurrent rfl⟩⟩
  nack t d error now rand hn := by
    obtain ⟨hn', hmoves⟩ := nack_moves d error rand hn
    refine ⟨hn', hmoves, fun hcurrent => ?_⟩
    obtain ⟨held, hheld⟩ := Option.isSome_iff_exists.mp hcurrent
    obtain ⟨hpoison, hterminal⟩ :=
      classifyFailure_of_kind error d.attempt config.retryPolicy rand
    constructor
    · intro hkind
      have hnack : t.nack config redactText d error now rand
          = (.ok ⟨.quarantined, error.description, none⟩,
            t.putHeld (held.park redactText .quarantined error.description)) := by
        rw [nack, hpoison hkind, hheld]
      show (t.nack config redactText d error now rand).1 = _ ∧ ∃ n,
        view.item (view.key d) (t.nack config redactText d error now rand).2 = _
      rw [hnack]
      exact ⟨rfl, held.attempts,
        item_settled (held.park redactText .quarantined error.description) hheld rfl⟩
    · intro hkind
      have hnack : t.nack config redactText d error now rand
          = (.ok ⟨.deadLettered, error.description, none⟩,
            t.putHeld (held.park redactText .deadLetter error.description)) := by
        rw [nack, hterminal hkind, hheld]
      show (t.nack config redactText d error now rand).1 = _ ∧ ∃ n,
        view.item (view.key d) (t.nack config redactText d error now rand).2 = _
      rw [hnack]
      exact ⟨rfl, held.attempts,
        item_settled (held.park redactText .deadLetter error.description) hheld rfl⟩
  deadLetter t d reason now hn := by
    show (t.deadLetter redactText d reason).2.KeysOnce
      ∧ ∀ k, Move _ (view.item k t) none (view.item k (t.deadLetter redactText d reason).2)
    unfold deadLetter
    cases hcurrent : t.current d with
    | none => exact ⟨hn, fun k => .stay _⟩
    | some held =>
        have hopen : held.item.phase.isOpen = true := by rw [(current_some hcurrent).2.2]; rfl
        exact settle_moves (held.park redactText .deadLetter reason.toText) hn hcurrent rfl
          (.park held.item hopen .deadLetter held.attempts)
  requeue t eventId hn := requeue_moves eventId hn

end InMemoryEventTransport

/-! ### The outbox -/

def OutboxEventStatus.phase : OutboxEventStatus → Phase ParkedAs
  | .pending => .pending
  | .inProgress => .leased
  | .dispatched => .delivered
  | .failed => .parked .failed
  | .deadLetter => .parked .deadLetter
  | .quarantined => .parked .quarantined

def OutboxRow.item (row : OutboxRow) : Item ParkedAs where
  phase := row.status.phase
  attempts := row.attempts

namespace EventOutbox

def view : EventView OutboxTable ClaimedEvent UUID where
  key d := d.outboxId
  publishedKey _ published := published.eventId
  item k t := (t.get k).map OutboxRow.item
  requeues outboxId t :=
    if t.rows.any fun row => row.id == outboxId && row.status.isParked then some outboxId else none
  isCurrent d t := t.rows.any d.holds

/-- Each id is that of one row. -/
def IdsOnce (t : OutboxTable) : Prop := (t.rows.map OutboxRow.id).Nodup

variable {config : TransportConfig} {redactText : RedactText}
  {readBack : TransportEnvelope → Except String TransportEnvelope} {t : OutboxTable}
  {row : OutboxRow} {limit : ℕ} {now : Instant} {p : OutboxRow → Bool} {f : OutboxRow → OutboxRow}

theorem get_eq (k : UUID) : t.get k = Keyed.lookup OutboxRow.id k t.rows := rfl

theorem get_of_mem (hn : IdsOnce t) (hmem : row ∈ t.rows) : t.get row.id = some row :=
  Keyed.lookup_of_mem hn hmem

/-! #### Updates -/

theorem get_updateWhere (hf : ∀ row, (f row).id = row.id) (k : UUID) :
    (t.updateWhere p f).2.get k = (t.get k).map fun row => if p row then f row else row := by
  have hid : ∀ row, (if p row then f row else row).id = row.id := by
    intro row
    split
    · exact hf row
    · rfl
  show (t.rows.map fun row => if p row then f row else row).find? (fun row => row.id == k) = _
  rw [List.find?_map]
  refine congrArg (Option.map _) (List.find?_congr fun row _ => ?_)
  show ((if p row then f row else row).id == k) = (row.id == k)
  rw [hid]

theorem idsOnce_updateWhere (hf : ∀ row, (f row).id = row.id) (hn : IdsOnce t) :
    IdsOnce (t.updateWhere p f).2 := by
  have hids : (t.updateWhere p f).2.rows.map OutboxRow.id = t.rows.map OutboxRow.id := by
    show (t.rows.map fun row => if p row then f row else row).map OutboxRow.id = _
    rw [List.map_map]
    refine List.map_congr_left fun row _ => ?_
    show (if p row then f row else row).id = row.id
    split
    · exact hf row
    · rfl
  rw [IdsOnce, hids]
  exact hn

/-- An update moves every event when it moves the rows it changes. -/
theorem item_updateWhere (hf : ∀ row, (f row).id = row.id)
    (hmove : ∀ row, p row = true → Move limit (some row.item) none (some (f row).item)) (k : UUID) :
    Move limit (view.item k t) none (view.item k (t.updateWhere p f).2) := by
  show Move limit ((t.get k).map OutboxRow.item) none
    (((t.updateWhere p f).2.get k).map OutboxRow.item)
  rw [get_updateWhere hf]
  cases t.get k with
  | none => exact .stay _
  | some row =>
      rw [Option.map_some, Option.map_some, Option.map_some]
      by_cases hp : p row = true
      · rw [if_pos hp]
        exact hmove row hp
      · rw [if_neg hp]
        exact .stay _

/-! #### Settlements -/

theorem leased_of_holds {d : ClaimedEvent} (h : d.holds row = true) :
    row.id = d.outboxId ∧ row.item.phase = .leased := by
  rw [ClaimedEvent.holds, Bool.and_eq_true, Bool.and_eq_true, beq_iff_eq, beq_iff_eq] at h
  refine ⟨h.1.1, ?_⟩
  show row.status.phase = .leased
  rw [h.1.2]
  rfl

theorem updateClaim_moves (d : ClaimedEvent) (hn : IdsOnce t) (hf : ∀ row, (f row).id = row.id)
    (hmove : ∀ row : OutboxRow, row.item.phase = .leased →
      Move limit (some row.item) none (some (f row).item)) :
    IdsOnce (updateClaim d.outboxId d.claimedAt f t).2
      ∧ ∀ k, Move limit (view.item k t) none
          (view.item k (updateClaim d.outboxId d.claimedAt f t).2) := by
  have hupdate : (updateClaim d.outboxId d.claimedAt f t).2 = (t.updateWhere d.holds f).2 := rfl
  rw [hupdate]
  exact ⟨idsOnce_updateWhere hf hn,
    item_updateWhere hf fun row hp => hmove row (leased_of_holds hp).2⟩

/-- A settlement is answered when the lease is current, and then writes the row under it. -/
theorem updateClaim_settles (d : ClaimedEvent) (hn : IdsOnce t)
    (hf : ∀ row, (f row).id = row.id) :
    (updateClaim d.outboxId d.claimedAt f t).1 = view.isCurrent d t
      ∧ (view.isCurrent d t = true → ∃ row : OutboxRow,
          view.item d.outboxId (updateClaim d.outboxId d.claimedAt f t).2
            = some (f row).item) := by
  have hupdate : updateClaim d.outboxId d.claimedAt f t
      = ((t.updateWhere d.holds f).1 == 1, (t.updateWhere d.holds f).2) := rfl
  have hcurrent : view.isCurrent d t = t.rows.any d.holds := rfl
  rw [hupdate, hcurrent]
  cases hany : t.rows.any d.holds with
  | false =>
      have hnone : t.rows.countP d.holds = 0 := by
        refine List.countP_eq_zero.mpr fun row hrow hholds => ?_
        have := List.any_eq_true.mpr ⟨row, hrow, hholds⟩
        rw [hany] at this
        cases this
      refine ⟨?_, fun h => by cases h⟩
      show (t.rows.countP d.holds == 1) = false
      rw [hnone]
      rfl
  | true =>
      obtain ⟨row, hrow, hholds⟩ := List.any_eq_true.mp hany
      have hid := (leased_of_holds hholds).1
      have hone : t.rows.countP d.holds = 1 := by
        refine Keyed.countP_eq_one hn hrow fun other hother => ⟨fun hother' => ?_, fun hsame => ?_⟩
        · rw [(leased_of_holds hother').1, hid]
        · rw [Keyed.eq_of_key hn hother hrow hsame]
          exact hholds
      refine ⟨?_, fun _ => ⟨row, ?_⟩⟩
      · show (t.rows.countP d.holds == 1) = true
        rw [hone]
        rfl
      · show ((t.updateWhere d.holds f).2.get d.outboxId).map OutboxRow.item = _
        rw [get_updateWhere hf, ← hid, get_of_mem hn hrow, Option.map_some, if_pos hholds]
        rfl

theorem park_item (status : OutboxEventStatus) (error : String) (how : ParkedAs)
    (hstatus : status.phase = .parked how) (row : OutboxRow) :
    (parked redactText now status error row).item = ⟨.parked how, row.attempts⟩ := by
  show (⟨status.phase, row.attempts⟩ : Item ParkedAs) = _
  rw [hstatus]

theorem park_moves (d : ClaimedEvent) (status : OutboxEventStatus) (error : String)
    {how : ParkedAs} (hstatus : status.phase = .parked how) (hn : IdsOnce t) :
    IdsOnce (park redactText d.outboxId d.claimedAt status error now t).2
      ∧ ∀ k, Move limit (view.item k t) none
          (view.item k (park redactText d.outboxId d.claimedAt status error now t).2) := by
  refine updateClaim_moves (f := parked redactText now status error) d hn (fun _ => rfl) ?_
  intro row hleased
  have hopen : row.item.phase.isOpen = true := by rw [hleased]; rfl
  rw [park_item status error how hstatus]
  exact .park row.item hopen how row.attempts

theorem park_settles (d : ClaimedEvent) (status : OutboxEventStatus) (error : String)
    {how : ParkedAs} (hstatus : status.phase = .parked how) (hn : IdsOnce t) :
    (park redactText d.outboxId d.claimedAt status error now t).1 = view.isCurrent d t
      ∧ (view.isCurrent d t = true → ∃ n,
          view.item d.outboxId (park redactText d.outboxId d.claimedAt status error now t).2
            = some ⟨.parked how, n⟩) := by
  obtain ⟨hanswer, hitem⟩ :=
    updateClaim_settles (f := parked redactText now status error) d hn fun _ => rfl
  refine ⟨hanswer, fun hcurrent => ?_⟩
  obtain ⟨row, hrow⟩ := hitem hcurrent
  rw [park_item status error how hstatus] at hrow
  exact ⟨row.attempts, hrow⟩

/-! #### Claims -/

theorem isOpen_of_isClaimable (h : row.isClaimable config now = true) :
    row.item.phase.isOpen = true := by
  unfold OutboxRow.isClaimable at h
  show row.status.phase.isOpen = true
  cases hstatus : row.status with
  | pending => rfl
  | inProgress => rfl
  | dispatched => rw [hstatus] at h; simp at h
  | failed => rw [hstatus] at h; simp at h
  | deadLetter => rw [hstatus] at h; simp at h
  | quarantined => rw [hstatus] at h; simp at h

variable (config now) in
/-- With each id once, a claim gets the row it reads. -/
theorem claimNext_cases (hn : IdsOnce t) (tries : ℕ) :
    t.claimNext config now (tries + 1) = (none, t)
      ∨ ∃ row ∈ t.rows, row.isClaimable config now = true
        ∧ t.claimNext config now (tries + 1)
          = (some (row.claimed now), ⟨Keyed.put OutboxRow.id (row.claimed now) t.rows⟩) := by
  rw [OutboxTable.claimNext]
  cases hcandidate : t.candidate config now with
  | none => exact .inl rfl
  | some row =>
      obtain ⟨hmem, hclaimable⟩ := List.mem_filter.mp (List.argmin_mem hcandidate)
      refine .inr ⟨row, hmem, hclaimable, ?_⟩
      have honly : ∀ other ∈ t.rows, (other.id == row.id && other.status == row.status &&
          other.claimedAt == row.claimedAt) = true ↔ other.id = row.id := by
        intro other hother
        constructor
        · intro hsame
          exact beq_iff_eq.mp (Bool.and_eq_true_iff.mp (Bool.and_eq_true_iff.mp hsame).1).1
        · intro hid
          rw [Keyed.eq_of_key hn hother hmem hid]
          simp
      have hclaim : t.claimCandidate row now
          = (1, ⟨Keyed.put OutboxRow.id (row.claimed now) t.rows⟩) := by
        rw [OutboxTable.claimCandidate, OutboxTable.updateWhere,
          Keyed.countP_eq_one hn hmem honly, Keyed.map_ite_eq_put hn hmem honly rfl]
      have hsome : Keyed.lookup OutboxRow.id (row.claimed now).id t.rows ≠ none := by
        have hget : Keyed.lookup OutboxRow.id row.id t.rows = some row := get_of_mem hn hmem
        show Keyed.lookup OutboxRow.id row.id t.rows ≠ none
        rw [hget]
        exact Option.some_ne_none _
      have hget : OutboxTable.get row.id ⟨Keyed.put OutboxRow.id (row.claimed now) t.rows⟩
          = some (row.claimed now) := by
        have hput : Keyed.lookup OutboxRow.id row.id (Keyed.put OutboxRow.id (row.claimed now) t.rows)
            = if row.id = (row.claimed now).id then some (row.claimed now)
              else Keyed.lookup OutboxRow.id row.id t.rows := Keyed.lookup_put hsome
        exact hput.trans (if_pos rfl)
      show (if (t.claimCandidate row now).1 = 1 then
        ((t.claimCandidate row now).2.get row.id, (t.claimCandidate row now).2) else _) = _
      rw [hclaim, if_pos rfl, hget]

/-- A row put in place of one of its id. -/
theorem item_put (row' : OutboxRow) (hget : t.get row.id = some row) (hid : row'.id = row.id)
    (k : UUID) :
    view.item k ⟨Keyed.put OutboxRow.id row' t.rows⟩
      = if k = row.id then some row'.item else view.item k t := by
  have hsome : Keyed.lookup OutboxRow.id row'.id t.rows ≠ none := by
    rw [hid, ← get_eq, hget]
    exact Option.some_ne_none _
  have hput : Keyed.lookup OutboxRow.id k (Keyed.put OutboxRow.id row' t.rows)
      = if k = row'.id then some row' else t.get k := Keyed.lookup_put hsome
  show (Keyed.lookup OutboxRow.id k (Keyed.put OutboxRow.id row' t.rows)).map OutboxRow.item = _
  rw [hput, hid]
  split <;> rfl

theorem idsOnce_put (row' : OutboxRow) (hn : IdsOnce t) :
    IdsOnce ⟨Keyed.put OutboxRow.id row' t.rows⟩ := by
  rw [IdsOnce, Keyed.map_put_key]
  exact hn

variable (redactText limit) in
/-- A row that was just claimed is parked by the claim itself. -/
theorem park_claimed (parkedAt : Instant) (status : OutboxEventStatus) (error : String) {how : ParkedAs}
    (hstatus : status.phase = .parked how) (hn : IdsOnce t) (hmem : row ∈ t.rows)
    (hclaimable : row.isClaimable config now = true) :
    let claimed : OutboxTable := ⟨Keyed.put OutboxRow.id (row.claimed now) t.rows⟩
    let t' := (park redactText row.id (some now) status error parkedAt claimed).2
    IdsOnce t' ∧ ∀ k, view.item k t' = view.item k t
      ∨ (∃ how attempts, view.item k t' = some ⟨.parked how, attempts⟩)
        ∧ Move limit (view.item k t) none (view.item k t') := by
  intro claimed t'
  have hget := get_of_mem hn hmem
  have hitem := item_put (row.claimed now) hget rfl
  have hn' : IdsOnce claimed := idsOnce_put _ hn
  have hgetClaimed : claimed.get row.id = some (row.claimed now) := by
    have hmem' : row.claimed now ∈ claimed.rows := Keyed.mem_put_self hmem rfl
    exact get_of_mem hn' hmem'
  refine ⟨idsOnce_updateWhere (fun _ => rfl) hn', fun k => ?_⟩
  have hgetParked : t'.get k = (claimed.get k).map fun other =>
      if other.id == row.id && other.status == .inProgress && other.claimedAt == some now then
        parked redactText parkedAt status error other else other :=
    get_updateWhere (f := parked redactText parkedAt status error) (fun _ => rfl) k
  by_cases hk : k = row.id
  · subst hk
    have hparked : view.item row.id t' = some ⟨.parked how, row.attempts + 1⟩ := by
      have hholds : ((row.claimed now).id == row.id && (row.claimed now).status == .inProgress &&
          (row.claimed now).claimedAt == some now) = true := by
        simp [OutboxRow.claimed]
      show (t'.get row.id).map OutboxRow.item = _
      rw [hgetParked, hgetClaimed, Option.map_some, if_pos hholds, Option.map_some,
        park_item status error how hstatus]
      rfl
    have hbefore : view.item row.id t = some row.item := by
      show (t.get row.id).map OutboxRow.item = _
      rw [hget]
      rfl
    refine .inr ⟨⟨how, row.attempts + 1, hparked⟩, ?_⟩
    rw [hparked, hbefore]
    exact .park row.item (isOpen_of_isClaimable hclaimable) how (row.attempts + 1)
  · refine .inl ?_
    rw [← (hitem k).trans (if_neg hk)]
    show (t'.get k).map OutboxRow.item = (claimed.get k).map OutboxRow.item
    rw [hgetParked]
    cases hother : claimed.get k with
    | none => rfl
    | some other =>
        have hid : other.id = k := (Keyed.lookup_eq_some hother).2
        have hnot : ¬ (other.id == row.id && other.status == .inProgress &&
            other.claimedAt == some now) = true := by
          intro hsame
          have hsameId := beq_iff_eq.mp (Bool.and_eq_true_iff.mp (Bool.and_eq_true_iff.mp hsame).1).1
          exact hk (hid.symm.trans hsameId)
        rw [Option.map_some, if_neg hnot]

/-- **Claims**: whatever is parked on the way, every event makes one move. -/
theorem claimUpTo_moves (attempts : ℕ) {clock : ℕ → Instant} (hn : IdsOnce t) :
    IdsOnce (claimUpTo config redactText readBack attempts clock t).2
      ∧ ∀ k, Move config.retryPolicy.maxAttempts (view.item k t)
          (handedOut (transport config redactText readBack) view k
            (claimUpTo config redactText readBack attempts clock t).1)
          (view.item k (claimUpTo config redactText readBack attempts clock t).2) := by
  induction attempts generalizing clock t with
  | zero => exact ⟨hn, fun k => .stay _⟩
  | succ attempts ih =>
      rw [claimUpTo]
      rcases claimNext_cases config (clock 0) hn claimRaceRetries with
        hnone | ⟨row, hmem, hclaimable, hsome⟩
      · rw [hnone]
        exact ⟨hn, fun k => .stay _⟩
      · rw [hsome]
        dsimp only
        split
        case h_1 error _ =>
          obtain ⟨hn', hitems⟩ := park_claimed redactText config.retryPolicy.maxAttempts
            (clock 1) .quarantined error rfl hn hmem hclaimable
          obtain ⟨hn'', hmoves⟩ := ih hn'
          exact ⟨hn'', fun k => Move.after_park (hitems k) (hmoves k) handedOut_ne_requeued⟩
        case h_2 envelope _ =>
          split
          case isTrue =>
            obtain ⟨hn', hitems⟩ := park_claimed redactText config.retryPolicy.maxAttempts
              (clock 1) .deadLetter
              (lapsedLeaseError (row.claimed (clock 0)).attempts config.visibilityTimeout) rfl hn hmem hclaimable
            obtain ⟨hn'', hmoves⟩ := ih hn'
            exact ⟨hn'', fun k => Move.after_park (hitems k) (hmoves k) handedOut_ne_requeued⟩
          case isFalse hwithin =>
            refine ⟨idsOnce_put _ hn, fun k => ?_⟩
            have hlimit : row.attempts < config.retryPolicy.maxAttempts := by
              have : (row.claimed (clock 0)).attempts = row.attempts + 1 := rfl
              omega
            rw [handedOut_some, item_put (row.claimed (clock 0)) (get_of_mem hn hmem) rfl]
            show Move _ _ (if k = row.id then some (.handedOut (row.attempts + 1)) else none) _
            by_cases hk : k = row.id
            · have hbefore : view.item k t = some row.item := by
                show (t.get k).map OutboxRow.item = _
                rw [hk, get_of_mem hn hmem]
                rfl
              rw [if_pos hk, if_pos hk, hbefore]
              exact .handOut row.item (isOpen_of_isClaimable hclaimable) hlimit
            · rw [if_neg hk, if_neg hk]
              exact .stay _

/-! #### Publishes, requeues and nacks -/

theorem publish_moves (envelope : TransportEnvelope) (hn : IdsOnce t) :
    IdsOnce (publish envelope now t).2
      ∧ (∀ k, Move limit (view.item k t) none (view.item k (publish envelope now t).2))
      ∧ ∀ result, (publish envelope now t).1 = .ok result →
          (view.item result.eventId (publish envelope now t).2).isSome = true := by
  unfold publish
  cases hkey : t.getByDedupeKey envelope.dedupeKey with
  | some existing =>
      refine ⟨hn, fun k => .stay _, fun result hresult => ?_⟩
      cases hresult
      show ((t.get existing.id).map OutboxRow.item).isSome = true
      rw [get_of_mem hn (List.mem_of_find?_eq_some hkey)]
      rfl
  | none =>
      dsimp only
      split
      case isTrue => exact ⟨hn, fun k => .stay _, fun result hresult => by cases hresult⟩
      case isFalse hnew =>
        let row : OutboxRow :=
          { id := envelope.eventId, type := envelope.type, dedupeKey := envelope.dedupeKey,
            payload := envelope, createdAt := now }
        have hnone : t.get envelope.eventId = none := Option.not_isSome_iff_eq_none.mp hnew
        have hlookup : ∀ k, Keyed.lookup OutboxRow.id k (t.rows ++ [row])
            = if k = envelope.eventId then some row else t.get k :=
          fun k => Keyed.lookup_concat hnone
        refine ⟨?_, fun k => ?_, fun result hresult => ?_⟩
        · show ((t.rows ++ [row]).map OutboxRow.id).Nodup
          have hupsert : Keyed.upsert OutboxRow.id row t.rows = t.rows ++ [row] := if_pos hnone
          rw [← hupsert]
          exact Keyed.nodup_upsert hn
        · show Move limit ((t.get k).map OutboxRow.item) none
            ((Keyed.lookup OutboxRow.id k (t.rows ++ [row])).map OutboxRow.item)
          rw [hlookup]
          by_cases hk : k = envelope.eventId
          · rw [if_pos hk, hk, hnone]
            exact .publish
          · rw [if_neg hk]
            exact .stay _
        · cases hresult
          show ((Keyed.lookup OutboxRow.id envelope.eventId (t.rows ++ [row])).map
            OutboxRow.item).isSome = true
          rw [hlookup, if_pos rfl]
          rfl

theorem parked_of_isParked (h : row.status.isParked = true) :
    ∃ how, row.item = ⟨.parked how, row.attempts⟩ := by
  have hphase : ∃ how, row.status.phase = .parked how := by
    cases hstatus : row.status with
    | failed => exact ⟨.failed, rfl⟩
    | deadLetter => exact ⟨.deadLetter, rfl⟩
    | quarantined => exact ⟨.quarantined, rfl⟩
    | pending => rw [hstatus] at h; cases h
    | inProgress => rw [hstatus] at h; cases h
    | dispatched => rw [hstatus] at h; cases h
  obtain ⟨how, hhow⟩ := hphase
  refine ⟨how, ?_⟩
  rw [← hhow]
  rfl

theorem requeue_moves (outboxId : UUID) (hn : IdsOnce t) :
    IdsOnce (requeue outboxId t).2
      ∧ (∀ k, Move limit (view.item k t)
          (if view.requeues outboxId t = some k then some .requeued else none)
          (view.item k (requeue outboxId t).2))
      ∧ (requeue outboxId t).1 = (view.requeues outboxId t).isSome := by
  let isParked : OutboxRow → Bool := fun row => row.id == outboxId && row.status.isParked
  let again : OutboxRow → OutboxRow := fun row => { row with
    status := .pending, attempts := 0, claimedAt := none, availableAt := none, failedAt := none }
  have hrequeue : requeue outboxId t
      = (t.rows.countP isParked != 0, (t.updateWhere isParked again).2) := rfl
  have hget := get_updateWhere (t := t) (p := isParked) (f := again) fun _ => rfl
  rw [hrequeue]
  refine ⟨idsOnce_updateWhere (fun _ => rfl) hn, ?_⟩
  cases hany : t.rows.any isParked with
  | false =>
      have hrequeues : view.requeues outboxId t = none :=
        if_neg (Bool.not_eq_true _ ▸ hany)
      have hnone : ∀ row ∈ t.rows, ¬ isParked row = true := by
        intro row hrow hparked
        have := List.any_eq_true.mpr ⟨row, hrow, hparked⟩
        rw [hany] at this
        cases this
      have hsame : (t.updateWhere isParked again).2 = t :=
        congrArg OutboxTable.mk (Keyed.map_ite_eq_self hnone)
      rw [hrequeues, hsame, List.countP_eq_zero.mpr hnone]
      exact ⟨fun k => .stay _, rfl⟩
  | true =>
      obtain ⟨row, hrow, hparked⟩ := List.any_eq_true.mp hany
      have hrequeues : view.requeues outboxId t = some outboxId := if_pos hany
      obtain ⟨hid, hstatus⟩ := Bool.and_eq_true_iff.mp hparked
      have hid : row.id = outboxId := beq_iff_eq.mp hid
      have hcount : 0 < t.rows.countP isParked := List.countP_pos_iff.mpr ⟨row, hrow, hparked⟩
      rw [hrequeues]
      refine ⟨fun k => ?_, ?_⟩
      · show Move limit ((t.get k).map OutboxRow.item) _
          (((t.updateWhere isParked again).2.get k).map OutboxRow.item)
        rw [hget]
        by_cases hk : k = outboxId
        · obtain ⟨how, hitem⟩ := parked_of_isParked hstatus
          rw [hk, if_pos rfl, ← hid, get_of_mem hn hrow, Option.map_some, Option.map_some,
            Option.map_some, if_pos hparked, hitem]
          exact .requeue how row.attempts
        · rw [if_neg fun heq => hk (Option.some.inj heq).symm]
          cases hother : t.get k with
          | none => exact .stay _
          | some other =>
              have hotherId : other.id = k := (Keyed.lookup_eq_some hother).2
              have hnot : ¬ isParked other = true := by
                intro hsame
                exact hk (hotherId.symm.trans (beq_iff_eq.mp (Bool.and_eq_true_iff.mp hsame).1))
              rw [Option.map_some, Option.map_some, if_neg hnot]
              exact .stay _
      · show (t.rows.countP isParked != 0) = true
        rw [bne_iff_ne]
        omega

theorem nack_moves (d : ClaimedEvent) (error : DeliveryError) (rand : ℚ) (hn : IdsOnce t) :
    IdsOnce (nack config redactText d error now rand t).2
      ∧ ∀ k, Move limit (view.item k t) none
          (view.item k (nack config redactText d error now rand t).2) := by
  unfold nack
  dsimp only
  split
  · exact park_moves d .quarantined _ rfl hn
  · exact park_moves d .deadLetter _ rfl hn
  · split
    · exact ⟨hn, fun k => .stay _⟩
    case h_2 available _ =>
      let retry : OutboxRow → OutboxRow := fun row => { row with
        status := .pending, claimedAt := none, availableAt := some available,
        lastError := some (classifyFailure error d.attempt config.retryPolicy rand).error }
      exact updateClaim_moves (f := retry) d hn (fun _ => rfl)
        fun row hleased => .retry row.item hleased

/-- **The outbox** moves every event by every call. -/
theorem callsMove (config : TransportConfig) (redactText : RedactText)
    (readBack : TransportEnvelope → Except String TransportEnvelope) :
    CallsMove (transport config redactText readBack) view config.retryPolicy.maxAttempts
      IdsOnce where
  publish t envelope now hn := publish_moves envelope hn
  claim t clock hn := claimUpTo_moves parkLimit hn
  ack t d now hn := by
    let delivered : OutboxRow → OutboxRow :=
      fun row => { row with status := .dispatched, dispatchedAt := some now }
    obtain ⟨hn', hmoves⟩ := updateClaim_moves (f := delivered) d hn
      (fun _ => rfl) fun row hleased => .deliver row.item hleased
    obtain ⟨hanswer, hitem⟩ := updateClaim_settles (f := delivered) d hn fun _ => rfl
    refine ⟨hn', hmoves, fun hacked => ?_⟩
    have hacked : (updateClaim d.outboxId d.claimedAt delivered t).1 = true := hacked
    rw [hanswer] at hacked
    obtain ⟨row, hrow⟩ := hitem hacked
    exact ⟨row.attempts, hrow⟩
  nack t d error now rand hn := by
    obtain ⟨hn', hmoves⟩ := nack_moves d error rand hn
    refine ⟨hn', hmoves, fun hcurrent => ?_⟩
    obtain ⟨hpoison, hterminal⟩ :=
      classifyFailure_of_kind error d.attempt config.retryPolicy rand
    constructor
    · intro hkind
      obtain ⟨hanswer, hitem⟩ := park_settles d .quarantined error.description rfl hn
      have hnack : nack config redactText d error now rand t
          = (.ok ⟨.quarantined, error.description, none⟩,
            (park redactText d.outboxId d.claimedAt .quarantined error.description now t).2) := by
        rw [nack, hpoison hkind]
        dsimp only
        rw [hanswer, hcurrent]
        rfl
      show (nack config redactText d error now rand t).1 = _ ∧ ∃ n,
        view.item d.outboxId (nack config redactText d error now rand t).2 = _
      rw [hnack]
      exact ⟨rfl, hitem hcurrent⟩
    · intro hkind
      obtain ⟨hanswer, hitem⟩ := park_settles d .deadLetter error.description rfl hn
      have hnack : nack config redactText d error now rand t
          = (.ok ⟨.deadLettered, error.description, none⟩,
            (park redactText d.outboxId d.claimedAt .deadLetter error.description now t).2) := by
        rw [nack, hterminal hkind]
        dsimp only
        rw [hanswer, hcurrent]
        rfl
      show (nack config redactText d error now rand t).1 = _ ∧ ∃ n,
        view.item d.outboxId (nack config redactText d error now rand t).2 = _
      rw [hnack]
      exact ⟨rfl, hitem hcurrent⟩
  deadLetter t d reason now hn := by
    exact park_moves d .deadLetter reason.toText rfl hn
  requeue t outboxId hn := requeue_moves outboxId hn

end EventOutbox

/-- **The budget of both transports**: whatever the subscription, the timeout and the policy, and
whatever the clocks say. -/
theorem transports_keep_budget (config : TransportConfig) (redactText : RedactText)
    (readBack : TransportEnvelope → Except String TransportEnvelope) :
    DeliveryBudget (InMemoryEventTransport.transport config redactText)
        InMemoryEventTransport.view .empty config.retryPolicy.maxAttempts
      ∧ DeliveryBudget (EventOutbox.transport config redactText readBack) EventOutbox.view
          .empty config.retryPolicy.maxAttempts :=
  ⟨(InMemoryEventTransport.callsMove config redactText).deliveryBudget List.nodup_nil
      fun _ => rfl,
    (EventOutbox.callsMove config redactText readBack).deliveryBudget List.nodup_nil fun _ => rfl⟩

end PersonalOS
