import PersonalOS.Leases
import PersonalOS.TransportCalls

/-! # The delivery budget

What every event transport promises about every event, in every run of its calls.

* **Views.** An `EventView` tells the events of a transport apart and says where each of them is:
  the in-memory transport knows an event by its dedupe key, the outbox by the id of its row.
* **The promise.** `DeliveryBudget` is what holds of all runs.  It follows once every call is a
  move of every event (`CallsMove.deliveryBudget`).
* **The transports.** A claim may park events before it hands one out, so its moves are found by
  the recursion that the claim makes. -/

namespace PersonalOS

open Lockstep Leases

/-- How an event is parked. -/
inductive ParkedAs where
  | deadLetter
  | quarantined
  | failed
deriving DecidableEq, Repr

structure EventView (σ δ κ : Type) where
  /-- The event a delivery is of. -/
  key : δ → κ
  /-- The event that an answered publish is of. -/
  publishedKey : TransportEnvelope → Published → κ
  /-- Where the event is, and how often it was handed out. -/
  item : κ → σ → Option (Item ParkedAs)
  /-- The event that a requeue puts back in line. -/
  requeues : UUID → σ → Option κ
  /-- The lease of the delivery is current. -/
  isCurrent : δ → σ → Bool

section promise
variable {σ δ κ : Type} [DecidableEq κ] (T : EventTransport σ δ) (view : EventView σ δ κ)

/-- What is remembered of event `k` when a claim hands out a delivery. -/
def handedOut (k : κ) (claimed : Option δ) : Option Event :=
  (claimed.filter fun d => decide (view.key d = k)).map fun d => .handedOut (T.attempt d)

/-- What is remembered of event `k` when a call is made. -/
def eventOf (k : κ) (x : σ × List δ) (step : TransportStep) : Option Event :=
  match step.call with
  | .claim => handedOut T view k (T.claim step.clock x.1).1
  | .requeue eventId => if view.requeues eventId x.1 = some k then some .requeued else none
  | .publish _ | .ack _ | .nack _ _ | .deadLetter _ _ => none

/-- The hand-outs and the requeues of event `k` in a run. -/
def eventHistory (k : κ) (x : σ × List δ) (steps : List TransportStep) : List Event :=
  history T.client (eventOf T view k) x steps

/-- What holds of every run of calls from `start`, at any times and with any errors. -/
structure DeliveryBudget (start : σ) (maxAttempts : ℕ) : Prop where
  /-- Between two requeues an event is handed out as attempt 1, 2, 3 and so on, and at most
  `maxAttempts` times. -/
  budget : ∀ steps k, ∃ n ≤ maxAttempts,
    sinceRequeue (eventHistory T view k (start, []) steps) = List.range' 1 n
  /-- An acked event is never handed out again. -/
  acked : ∀ steps d now, let x := T.client.after (start, []) steps
    (T.ack d now x.1).1 = true →
      ∀ more, eventHistory T view (view.key d) ((T.ack d now x.1).2, x.2) more = []
  /-- A parked event is handed out again only after a requeue of it. -/
  parked : ∀ steps k how attempts, let x := T.client.after (start, []) steps
    view.item k x.1 = some ⟨.parked how, attempts⟩ →
      ∀ more, Event.requeued ∉ eventHistory T view k x more → eventHistory T view k x more = []
  /-- A requeue that is answered is of an event. -/
  requeued : ∀ steps eventId, let x := T.client.after (start, []) steps
    (T.requeue eventId x.1).1 = (view.requeues eventId x.1).isSome
  quarantines : ∀ steps d error now rand, let x := T.client.after (start, []) steps
    view.isCurrent d x.1 = true → error.kind = .validationFailed →
      (T.nack d error now rand x.1).1 = .ok ⟨.quarantined, error.description, none⟩
        ∧ ∃ n, view.item (view.key d) (T.nack d error now rand x.1).2
          = some ⟨.parked .quarantined, n⟩
  deadLetters : ∀ steps d error now rand, let x := T.client.after (start, []) steps
    view.isCurrent d x.1 = true → error.kind = .personalOS false →
      (T.nack d error now rand x.1).1 = .ok ⟨.deadLettered, error.description, none⟩
        ∧ ∃ n, view.item (view.key d) (T.nack d error now rand x.1).2
          = some ⟨.parked .deadLetter, n⟩
  /-- No published event is lost: it is pending, leased, delivered or parked. -/
  kept : ∀ steps envelope now result, let x := T.client.after (start, []) steps
    (T.publish envelope now x.1).1 = .ok result →
      ∀ more, (view.item (view.publishedKey envelope result)
        (T.client.after ((T.publish envelope now x.1).2, x.2) more).1).isSome = true

/-- Every call is a move of every event, and settles what it should. -/
structure CallsMove (limit : ℕ) (Inv : σ → Prop) : Prop where
  publish : ∀ s envelope now, Inv s → Inv (T.publish envelope now s).2
    ∧ (∀ k, Move limit (view.item k s) none (view.item k (T.publish envelope now s).2))
    ∧ ∀ result, (T.publish envelope now s).1 = .ok result →
        (view.item (view.publishedKey envelope result) (T.publish envelope now s).2).isSome = true
  claim : ∀ s clock, Inv s → Inv (T.claim clock s).2
    ∧ ∀ k, Move limit (view.item k s) (handedOut T view k (T.claim clock s).1)
        (view.item k (T.claim clock s).2)
  ack : ∀ s d now, Inv s → Inv (T.ack d now s).2
    ∧ (∀ k, Move limit (view.item k s) none (view.item k (T.ack d now s).2))
    ∧ ((T.ack d now s).1 = true →
        ∃ n, view.item (view.key d) (T.ack d now s).2 = some ⟨.delivered, n⟩)
  nack : ∀ s d error now rand, Inv s → Inv (T.nack d error now rand s).2
    ∧ (∀ k, Move limit (view.item k s) none (view.item k (T.nack d error now rand s).2))
    ∧ (view.isCurrent d s = true →
        (error.kind = .validationFailed →
          (T.nack d error now rand s).1 = .ok ⟨.quarantined, error.description, none⟩
            ∧ ∃ n, view.item (view.key d) (T.nack d error now rand s).2
              = some ⟨.parked .quarantined, n⟩)
        ∧ (error.kind = .personalOS false →
          (T.nack d error now rand s).1 = .ok ⟨.deadLettered, error.description, none⟩
            ∧ ∃ n, view.item (view.key d) (T.nack d error now rand s).2
              = some ⟨.parked .deadLetter, n⟩))
  deadLetter : ∀ s d reason now, Inv s → Inv (T.deadLetter d reason now s).2
    ∧ ∀ k, Move limit (view.item k s) none (view.item k (T.deadLetter d reason now s).2)
  requeue : ∀ s eventId, Inv s → Inv (T.requeue eventId s).2
    ∧ (∀ k, Move limit (view.item k s)
        (if view.requeues eventId s = some k then some .requeued else none)
        (view.item k (T.requeue eventId s).2))
    ∧ (T.requeue eventId s).1 = (view.requeues eventId s).isSome

variable {T view} {limit : ℕ} {Inv : σ → Prop} {start : σ}

theorem CallsMove.keeps (h : CallsMove T view limit Inv) (x : σ × List δ) (step : TransportStep)
    (hinv : Inv x.1) : Inv (T.client.step x step).2.1 := by
  obtain ⟨s, ds⟩ := x
  obtain ⟨clock, rand, call⟩ := step
  cases call with
  | publish envelope => exact (h.publish s envelope (clock 0) hinv).1
  | claim => exact (h.claim s clock hinv).1
  | requeue eventId => exact (h.requeue s eventId hinv).1
  | ack n =>
      show Inv (T.answer (s, ds) ⟨clock, rand, .ack n⟩).2.1
      dsimp only [EventTransport.answer]
      cases ds[n]? with
      | none => exact hinv
      | some d => exact (h.ack s d (clock 0) hinv).1
  | nack n error =>
      show Inv (T.answer (s, ds) ⟨clock, rand, .nack n error⟩).2.1
      dsimp only [EventTransport.answer]
      cases ds[n]? with
      | none => exact hinv
      | some d => exact (h.nack s d error (clock 0) rand hinv).1
  | deadLetter n reason =>
      show Inv (T.answer (s, ds) ⟨clock, rand, .deadLetter n reason⟩).2.1
      dsimp only [EventTransport.answer]
      cases ds[n]? with
      | none => exact hinv
      | some d => exact (h.deadLetter s d reason (clock 0) hinv).1

/-- **One call** is a move of every event. -/
theorem CallsMove.moves (h : CallsMove T view limit Inv) (k : κ) (x : σ × List δ)
    (step : TransportStep) (hinv : Inv x.1) :
    Move limit (view.item k x.1) (eventOf T view k x step)
      (view.item k (T.client.step x step).2.1) := by
  obtain ⟨s, ds⟩ := x
  obtain ⟨clock, rand, call⟩ := step
  cases call with
  | publish envelope => exact (h.publish s envelope (clock 0) hinv).2.1 k
  | claim => exact (h.claim s clock hinv).2 k
  | requeue eventId => exact (h.requeue s eventId hinv).2.1 k
  | ack n =>
      show Move limit _ none (view.item k (T.answer (s, ds) ⟨clock, rand, .ack n⟩).2.1)
      dsimp only [EventTransport.answer]
      cases ds[n]? with
      | none => exact .stay _
      | some d => exact (h.ack s d (clock 0) hinv).2.1 k
  | nack n error =>
      show Move limit _ none (view.item k (T.answer (s, ds) ⟨clock, rand, .nack n error⟩).2.1)
      dsimp only [EventTransport.answer]
      cases ds[n]? with
      | none => exact .stay _
      | some d => exact (h.nack s d error (clock 0) rand hinv).2.1 k
  | deadLetter n reason =>
      show Move limit _ none (view.item k (T.answer (s, ds) ⟨clock, rand, .deadLetter n reason⟩).2.1)
      dsimp only [EventTransport.answer]
      cases ds[n]? with
      | none => exact .stay _
      | some d => exact (h.deadLetter s d reason (clock 0) hinv).2 k

theorem CallsMove.deliveryBudget (h : CallsMove T view limit Inv) (hinv : Inv start)
    (hnew : ∀ k, view.item k start = none) : DeliveryBudget T view start limit := by
  have hfollows : ∀ k, Follows T.client (eventOf T view k) limit (fun x => Inv x.1)
      fun x => view.item k x.1 :=
    fun k => ⟨h.keeps, h.moves k⟩
  have hreached : ∀ steps, Inv (T.client.after (start, []) steps).1 :=
    fun steps => Machine.invariant (P := fun _ _ => True) (fun x step hx _ => h.keeps x step hx) hinv
      (T.client.along_of_forall (fun _ _ => trivial) _)
  refine {
    budget := fun steps k => (hfollows k).budget hinv (hnew k) steps
    acked := ?_
    parked := ?_
    requeued := fun steps eventId => (h.requeue _ eventId (hreached steps)).2.2
    quarantines := fun steps d error now rand hcurrent =>
      ((h.nack _ d error now rand (hreached steps)).2.2 hcurrent).1
    deadLetters := fun steps d error now rand hcurrent =>
      ((h.nack _ d error now rand (hreached steps)).2.2 hcurrent).2
    kept := ?_ }
  · intro steps d now x hacked more
    obtain ⟨hinv', -, hdelivered⟩ := h.ack x.1 d now (hreached steps)
    obtain ⟨n, hn⟩ := hdelivered hacked
    exact ((hfollows (view.key d)).delivered hinv' more hn).1
  · intro steps k how attempts x hparked more hnot
    exact ((hfollows k).parked (hreached steps) more hparked hnot).1
  · intro steps envelope now result x hresult more
    obtain ⟨hinv', -, hsome⟩ := h.publish x.1 envelope now (hreached steps)
    exact (hfollows (view.publishedKey envelope result)).kept hinv' more (hsome result hresult)

end promise

end PersonalOS
