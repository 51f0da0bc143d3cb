import PersonalOS.Lockstep
import Mathlib.Data.Nat.Notation
import Mathlib.Tactic.Common

/-! # Items under leases

An item is handed out under a lease until it is delivered or parked, a limited number of times
between two requeues.

* **Moves.** A `Move` is what one step may do to an item.  It says what of that is remembered: that
  the item was handed out, with the number of the attempt, or requeued.
* **Runs.** Where every step of a machine is a move of an item (`Follows`), the attempts since the
  last requeue are counted from 1 and within the limit (`Follows.budget`), nothing happens any more
  to what is delivered (`Follows.delivered`), and to what is parked nothing before a requeue
  (`Follows.parked`). -/

namespace Leases

open Lockstep

/-- Where an item is in its life; `ρ` says how it was parked. -/
inductive Phase (ρ : Type) where
  | pending
  | leased
  | delivered
  | parked (how : ρ)
deriving DecidableEq, Repr

/-- It may be handed out. -/
def Phase.isOpen {ρ : Type} : Phase ρ → Bool
  | .pending | .leased => true
  | .delivered | .parked _ => false

/-- An item, with the attempts that were begun since it was published or requeued. -/
structure Item (ρ : Type) where
  phase : Phase ρ
  attempts : ℕ
deriving DecidableEq, Repr

/-- What is remembered of an item. -/
inductive Event where
  | handedOut (attempt : ℕ)
  | requeued
deriving DecidableEq, Repr

/-! ### Moves -/

/-- What a step may do to an item, none before it is published. -/
inductive Move {ρ : Type} (limit : ℕ) :
    Option (Item ρ) → Option Event → Option (Item ρ) → Prop where
  | stay (item : Option (Item ρ)) : Move limit item none item
  | publish : Move limit none none (some ⟨.pending, 0⟩)
  | handOut (item : Item ρ) (hopen : item.phase.isOpen = true) (hlimit : item.attempts < limit) :
      Move limit (some item) (some (.handedOut (item.attempts + 1)))
        (some ⟨.leased, item.attempts + 1⟩)
  | park (item : Item ρ) (hopen : item.phase.isOpen = true) (how : ρ) (attempts : ℕ) :
      Move limit (some item) none (some ⟨.parked how, attempts⟩)
  | retry (item : Item ρ) (hleased : item.phase = .leased) :
      Move limit (some item) none (some ⟨.pending, item.attempts⟩)
  | deliver (item : Item ρ) (hleased : item.phase = .leased) :
      Move limit (some item) none (some ⟨.delivered, item.attempts⟩)
  | requeue (how : ρ) (attempts : ℕ) :
      Move limit (some ⟨.parked how, attempts⟩) (some .requeued) (some ⟨.pending, 0⟩)

section moves
variable {ρ : Type} {limit : ℕ} {item item' : Option (Item ρ)} {event : Option Event}
  {how : ρ} {attempts : ℕ}

theorem Move.of_delivered (h : Move limit (some ⟨.delivered, attempts⟩) event item') :
    event = none ∧ item' = some ⟨.delivered, attempts⟩ := by
  cases h with
  | stay => exact ⟨rfl, rfl⟩
  | handOut _ hopen => cases hopen
  | park _ hopen => cases hopen
  | retry _ hleased => cases hleased
  | deliver _ hleased => cases hleased

theorem Move.of_parked (h : Move limit (some ⟨.parked how, attempts⟩) event item') :
    event = some .requeued ∨ event = none ∧ item' = some ⟨.parked how, attempts⟩ := by
  cases h with
  | stay => exact .inr ⟨rfl, rfl⟩
  | handOut _ hopen => cases hopen
  | park _ hopen => cases hopen
  | retry _ hleased => cases hleased
  | deliver _ hleased => cases hleased
  | requeue => exact .inl rfl

/-- Where a step may first park the item, the rest of it is a move of the item as it was: what is
parked is not handed out. -/
theorem Move.after_park {item₁ : Option (Item ρ)}
    (hpark : item₁ = item ∨ (∃ how attempts, item₁ = some ⟨.parked how, attempts⟩)
      ∧ Move limit item none item₁)
    (hrest : Move limit item₁ event item') (hevent : event ≠ some .requeued) :
    Move limit item event item' := by
  rcases hpark with rfl | ⟨⟨how, attempts, rfl⟩, hmove⟩
  · exact hrest
  · rcases hrest.of_parked with hrequeued | ⟨rfl, rfl⟩
    · exact absurd hrequeued hevent
    · exact hmove

theorem Move.isSome (h : Move limit item event item') (hsome : item.isSome = true) :
    item'.isSome = true := by
  cases h with
  | stay => exact hsome
  | publish => rfl
  | handOut => rfl
  | park => rfl
  | retry => rfl
  | deliver => rfl
  | requeue => rfl

end moves

/-! ### What is remembered -/

/-- The attempts since the last requeue. -/
def record (attempts : List ℕ) : Event → List ℕ
  | .handedOut attempt => attempts ++ [attempt]
  | .requeued => []

def sinceRequeue (events : List Event) : List ℕ := events.foldl record []

/-- The attempts since the last requeue are counted from 1, and an open item knows how many. -/
structure Counted {ρ : Type} (limit : ℕ) (item : Option (Item ρ)) (attempts : List ℕ) : Prop where
  le : attempts.length ≤ limit
  range : attempts = List.range' 1 attempts.length
  new : item = none → attempts = []
  known : ∀ i, item = some i → i.phase.isOpen = true → i.attempts = attempts.length

theorem Counted.nil {ρ : Type} {limit : ℕ} : Counted limit (none : Option (Item ρ)) [] where
  le := Nat.zero_le _
  range := rfl
  new _ := rfl
  known _ h := by cases h

/-- **One move** keeps the count. -/
theorem Counted.move {ρ : Type} {limit : ℕ} {item item' : Option (Item ρ)} {event : Option Event}
    {attempts : List ℕ} (h : Counted limit item attempts) (hmove : Move limit item event item') :
    Counted limit item' (event.toList.foldl record attempts) := by
  cases hmove with
  | stay => exact h
  | publish =>
      have hnil := h.new rfl
      subst hnil
      refine ⟨Nat.zero_le _, rfl, fun _ => rfl, ?_⟩
      intro i hi _
      cases hi
      rfl
  | handOut i hopen hlimit =>
      have hlength := h.known i rfl hopen
      have hsucc : (attempts ++ [i.attempts + 1]).length = attempts.length + 1 := by
        rw [List.length_append, List.length_singleton]
      have hrange : attempts ++ [i.attempts + 1] = List.range' 1 (attempts.length + 1) := by
        rw [List.range'_1_concat, ← h.range, hlength, Nat.add_comm 1]
      show Counted limit _ (attempts ++ [i.attempts + 1])
      constructor
      · omega
      · rw [hsucc]
        exact hrange
      · intro hnone
        cases hnone
      · intro i' hi' _
        cases hi'
        show i.attempts + 1 = _
        omega
  | park i hopen how n =>
      refine ⟨h.le, h.range, ?_, ?_⟩
      · intro hnone
        cases hnone
      · intro i' hi' hopen'
        cases hi'
        cases hopen'
  | retry i hleased =>
      have hopen : i.phase.isOpen = true := by rw [hleased]; rfl
      refine ⟨h.le, h.range, ?_, ?_⟩
      · intro hnone
        cases hnone
      · intro i' hi' _
        cases hi'
        exact h.known i rfl hopen
  | deliver i hleased =>
      refine ⟨h.le, h.range, ?_, ?_⟩
      · intro hnone
        cases hnone
      · intro i' hi' hopen'
        cases hi'
        cases hopen'
  | requeue how n =>
      refine ⟨Nat.zero_le _, rfl, fun _ => rfl, ?_⟩
      intro i hi _
      cases hi
      rfl

/-! ### Runs -/

section runs
variable {ι ω σ ρ : Type} (m : Machine ι ω σ) (event : σ → ι → Option Event)

/-- What is remembered of a run. -/
def history (s : σ) : List ι → List Event
  | [] => []
  | i :: inputs => (event s i).toList ++ history (m.step s i).2 inputs

/-- Every step is a move of the item. -/
structure Follows (limit : ℕ) (Inv : σ → Prop) (item : σ → Option (Item ρ)) : Prop where
  keeps : ∀ s i, Inv s → Inv (m.step s i).2
  moves : ∀ s i, Inv s → Move limit (item s) (event s i) (item (m.step s i).2)

variable {m event} {limit : ℕ} {Inv : σ → Prop} {item : σ → Option (Item ρ)} {s : σ}

namespace Follows

theorem counted (h : Follows m event limit Inv item) (hinv : Inv s) (inputs : List ι)
    {attempts : List ℕ} (hcounted : Counted limit (item s) attempts) :
    Counted limit (item (m.after s inputs))
      ((history m event s inputs).foldl record attempts) := by
  induction inputs generalizing s attempts with
  | nil => exact hcounted
  | cons i inputs ih =>
      rw [history, List.foldl_append]
      exact ih (h.keeps s i hinv) (hcounted.move (h.moves s i hinv))

/-- **The budget**: between two requeues the attempts are 1, 2, 3 and so on, up to the limit at
most. -/
theorem budget (h : Follows m event limit Inv item) (hinv : Inv s) (hnew : item s = none)
    (inputs : List ι) :
    ∃ n ≤ limit, sinceRequeue (history m event s inputs) = List.range' 1 n := by
  have hcounted : Counted limit (item (m.after s inputs))
      (sinceRequeue (history m event s inputs)) :=
    h.counted hinv inputs (hnew ▸ Counted.nil)
  exact ⟨_, hcounted.le, hcounted.range⟩

theorem delivered (h : Follows m event limit Inv item) (hinv : Inv s) (inputs : List ι)
    {attempts : ℕ} (hitem : item s = some ⟨.delivered, attempts⟩) :
    history m event s inputs = [] ∧ item (m.after s inputs) = some ⟨.delivered, attempts⟩ := by
  induction inputs generalizing s with
  | nil => exact ⟨rfl, hitem⟩
  | cons i inputs ih =>
      have hmove := h.moves s i hinv
      rw [hitem] at hmove
      obtain ⟨hevent, hnext⟩ := hmove.of_delivered
      rw [history, hevent]
      exact ih (h.keeps s i hinv) hnext

theorem parked (h : Follows m event limit Inv item) (hinv : Inv s) (inputs : List ι)
    {how : ρ} {attempts : ℕ} (hitem : item s = some ⟨.parked how, attempts⟩)
    (hnot : Event.requeued ∉ history m event s inputs) :
    history m event s inputs = [] ∧ item (m.after s inputs) = some ⟨.parked how, attempts⟩ := by
  induction inputs generalizing s with
  | nil => exact ⟨rfl, hitem⟩
  | cons i inputs ih =>
      have hmove := h.moves s i hinv
      rw [hitem] at hmove
      rcases hmove.of_parked with hrequeued | ⟨hevent, hnext⟩
      · rw [history, hrequeued] at hnot
        exact absurd List.mem_cons_self hnot
      · rw [history, hevent] at hnot ⊢
        exact ih (h.keeps s i hinv) hnext hnot

theorem kept (h : Follows m event limit Inv item) (hinv : Inv s) (inputs : List ι)
    (hsome : (item s).isSome = true) : (item (m.after s inputs)).isSome = true := by
  induction inputs generalizing s with
  | nil => exact hsome
  | cons i inputs ih => exact ih (h.keeps s i hinv) ((h.moves s i hinv).isSome hsome)

end Follows

end runs

end Leases
