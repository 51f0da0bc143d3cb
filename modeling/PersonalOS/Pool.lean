import PersonalOS.Prog
import Mathlib.Logic.Function.Basic

/-! # Interleaved processes

A `Pool` is a shared state and what each process `t : τ` still has to do.  A schedule is a
list of entries `(t, i)`: process `t` takes its next atomic step with input `i`.  Processes
start when they are first scheduled and crash by not being scheduled any more, so a family
`τ` of processes with arbitrary programs covers any number of calls begun at any time.

`Pool.stepsOf` are the steps that one process took in a run; they alone decide how it ended
(`Pool.ends_stepsOf`).  `Pool.run_wp` is the rely/guarantee rule: when every process keeps its own contract and
every process's `guar` is within every other one's `rely`, then after any schedule whose
steps are all considered (`Pool.Meets`) every process still satisfies the precondition of
what it has left.  `Pool.run_inv` derives invariants of the shared state from the `guar`s,
`Pool.run_meets` what every step of a run does, `Pool.run_step` what one step does, and
`Pool.run_ret` what a returned process leaves behind. -/

namespace Concurrent

/-- A shared state and the programs of the processes running on it. -/
structure Pool (τ ι σ ε α : Type) : Type 1 where
  procs : τ → Prog ι σ ε α
  state : σ

namespace Pool

variable {τ ι σ ε α : Type} [DecidableEq τ]

/-- Process `e.1` takes one step with input `e.2`. -/
def step (c : Pool τ ι σ ε α) (e : τ × ι) : Pool τ ι σ ε α where
  procs := Function.update c.procs e.1 ((c.procs e.1).step e.2 c.state).1
  state := ((c.procs e.1).step e.2 c.state).2

/-- Run a schedule. -/
def run (c : Pool τ ι σ ε α) (sched : List (τ × ι)) : Pool τ ι σ ε α := sched.foldl step c

@[simp] theorem run_nil (c : Pool τ ι σ ε α) : c.run [] = c := rfl

@[simp] theorem run_cons (c : Pool τ ι σ ε α) (e : τ × ι) (sched : List (τ × ι)) :
    c.run (e :: sched) = (c.step e).run sched := rfl

theorem run_append (c : Pool τ ι σ ε α) (sched sched' : List (τ × ι)) :
    c.run (sched ++ sched') = (c.run sched).run sched' := List.foldl_append

theorem run_concat (c : Pool τ ι σ ε α) (sched : List (τ × ι)) (e : τ × ι) :
    c.run (sched ++ [e]) = (c.run sched).step e := run_append c sched [e]

theorem step_procs_self (c : Pool τ ι σ ε α) (e : τ × ι) :
    (c.step e).procs e.1 = ((c.procs e.1).step e.2 c.state).1 := Function.update_self ..

theorem step_procs_ne (c : Pool τ ι σ ε α) {e : τ × ι} {t : τ} (h : t ≠ e.1) :
    (c.step e).procs t = c.procs t := Function.update_of_ne h ..

theorem run_procs_of_ne {c : Pool τ ι σ ε α} {sched : List (τ × ι)} {t : τ}
    (h : ∀ e ∈ sched, e.1 ≠ t) : (c.run sched).procs t = c.procs t := by
  induction sched generalizing c with
  | nil => rfl
  | cons e sched ih =>
      have hne : t ≠ e.1 := (h e List.mem_cons_self).symm
      exact (ih fun e' he' => h e' (List.mem_cons_of_mem e he')).trans (step_procs_ne c hne)

section erases

variable {η : Type} {c' : Pool τ ι (σ × η) ε α} {c : Pool τ ι σ ε α}

theorem step_erases (hprocs : ∀ t, Prog.Erases (c'.procs t) (c.procs t)) (hstate : c'.state.1 = c.state)
    (e : τ × ι) : (∀ t, Prog.Erases ((c'.step e).procs t) ((c.step e).procs t)) ∧
      (c'.step e).state.1 = (c.step e).state := by
  have hstep := Prog.Erases.step (hprocs e.1) e.2 hstate
  refine ⟨fun t => ?_, hstep.2⟩
  by_cases ht : t = e.1
  · subst ht
    rw [step_procs_self, step_procs_self]
    exact hstep.1
  · rw [step_procs_ne c' ht, step_procs_ne c ht]
    exact hprocs t

theorem run_erases (hprocs : ∀ t, Prog.Erases (c'.procs t) (c.procs t)) (hstate : c'.state.1 = c.state)
    (sched : List (τ × ι)) : (c'.run sched).state.1 = (c.run sched).state := by
  induction sched generalizing c c' with
  | nil => exact hstate
  | cons e sched ih =>
      obtain ⟨hprocs', hstate'⟩ := step_erases hprocs hstate e
      exact ih hprocs' hstate'

theorem run_erases_procs (hprocs : ∀ t, Prog.Erases (c'.procs t) (c.procs t))
    (hstate : c'.state.1 = c.state) (sched : List (τ × ι)) (t : τ) :
    Prog.Erases ((c'.run sched).procs t) ((c.run sched).procs t) := by
  induction sched generalizing c c' with
  | nil => exact hprocs t
  | cons e sched ih =>
      obtain ⟨hprocs', hstate'⟩ := step_erases hprocs hstate e
      exact ih hprocs' hstate'

end erases

theorem step_of_finished (c : Pool τ ι σ ε α) {e : τ × ι} (h : (c.procs e.1).finished = true) :
    c.step e = c := by
  cases c with
  | mk procs state =>
      simp only [step, Prog.step_of_finished h, Function.update_eq_self]

/-- Every step of the schedule from `c` is one that `assume` of its process considers. -/
def Meets (assume : τ → σ → σ → Prop) (c : Pool τ ι σ ε α) : List (τ × ι) → Prop
  | [] => True
  | e :: sched => assume e.1 c.state (c.step e).state ∧ Meets assume (c.step e) sched

instance decidableMeets {assume : τ → σ → σ → Prop} [∀ t s s', Decidable (assume t s s')]
    (c : Pool τ ι σ ε α) : (sched : List (τ × ι)) → Decidable (Meets assume c sched)
  | [] => inferInstanceAs (Decidable True)
  | e :: sched =>
      have : Decidable (Meets assume (c.step e) sched) := decidableMeets (c.step e) sched
      inferInstanceAs (Decidable (_ ∧ _))

theorem meets_append {assume : τ → σ → σ → Prop} {c : Pool τ ι σ ε α} {sched sched' : List (τ × ι)} :
    Meets assume c (sched ++ sched') ↔ Meets assume c sched ∧ Meets assume (c.run sched) sched' := by
  induction sched generalizing c with
  | nil => simp [Meets]
  | cons e sched ih => simp [Meets, ih, and_assoc]

theorem meets_true (c : Pool τ ι σ ε α) (sched : List (τ × ι)) : Meets (fun _ _ _ => True) c sched := by
  induction sched generalizing c with
  | nil => trivial
  | cons e sched ih => exact ⟨trivial, ih _⟩

theorem Meets.mono {P P' : τ → σ → σ → Prop} {c : Pool τ ι σ ε α} {sched : List (τ × ι)}
    (h : Meets P c sched) (hP : ∀ t s s', P t s s' → P' t s s') : Meets P' c sched := by
  induction sched generalizing c with
  | nil => trivial
  | cons e sched ih => exact ⟨hP _ _ _ h.1, ih h.2⟩

theorem Meets.and {P P' : τ → σ → σ → Prop} {c : Pool τ ι σ ε α} {sched : List (τ × ι)}
    (h : Meets P c sched) (h' : Meets P' c sched) :
    Meets (fun t s s' => P t s s' ∧ P' t s s') c sched := by
  induction sched generalizing c with
  | nil => trivial
  | cons e sched ih => exact ⟨⟨h.1, h'.1⟩, ih h.2 h'.2⟩

theorem Meets.inv {P : τ → σ → σ → Prop} {J : σ → Prop} {c : Pool τ ι σ ε α} {sched : List (τ × ι)}
    (hJ : ∀ t s s', P t s s' → J s → J s') (h : Meets P c sched) (h0 : J c.state) :
    J (c.run sched).state := by
  induction sched generalizing c with
  | nil => exact h0
  | cons e sched ih => exact ih h.2 (hJ _ _ _ h.1 h0)

theorem meets_stepsOnly {P : τ → σ → σ → Prop} {c : Pool τ ι σ ε α} {sched : List (τ × ι)}
    (hP : ∀ t s, P t s s) (h : ∀ t, (c.procs t).stepsOnly (P t)) : Meets P c sched := by
  induction sched generalizing c with
  | nil => trivial
  | cons e sched ih =>
      have hstep : P e.1 c.state ((c.procs e.1).step e.2 c.state).2 ∧
          ((c.procs e.1).step e.2 c.state).1.stepsOnly (P e.1) := by
        have he := h e.1
        cases hp : c.procs e.1 with
        | ret a => exact ⟨hP _ _, trivial⟩
        | raise x => exact ⟨hP _ _, trivial⟩
        | call f k =>
            rw [hp] at he
            exact ⟨he.1 _ _, he.2 _⟩
      refine ⟨hstep.1, ih fun t => ?_⟩
      by_cases ht : t = e.1
      · subst ht
        rw [step_procs_self]
        exact hstep.2
      · rw [step_procs_ne c ht]
        exact h t

/-! ### What one process has done -/

/-- The steps of process `t` in a run, oldest first. -/
def stepsOf (c : Pool τ ι σ ε α) (t : τ) : List (τ × ι) → List (Prog.OwnStep ι σ)
  | [] => []
  | e :: sched =>
      if e.1 = t ∧ (c.procs t).finished = false then
        ⟨e.2, c.state, (c.step e).state⟩ :: stepsOf (c.step e) t sched
      else stepsOf (c.step e) t sched

/-- What a process has come to is decided by its own steps. -/
theorem ends_stepsOf {c : Pool τ ι σ ε α} {t : τ} {sched : List (τ × ι)} {o : Except ε α}
    (h : ((c.run sched).procs t).outcome = some o) : (c.procs t).ends (c.stepsOf t sched) o := by
  induction sched generalizing c with
  | nil =>
      rw [run_nil] at h
      cases hp : c.procs t with
      | ret a =>
          rw [hp] at h
          exact ⟨rfl, (Option.some.inj h).symm⟩
      | raise e =>
          rw [hp] at h
          exact ⟨rfl, (Option.some.inj h).symm⟩
      | call f k =>
          rw [hp] at h
          cases h
  | cons e sched ih =>
      rw [run_cons] at h
      have hrest := ih h
      unfold stepsOf
      split
      · rename_i hown
        obtain ⟨rfl, hf⟩ := hown
        rw [step_procs_self] at hrest
        cases hp : c.procs e.1 with
        | ret a => rw [hp] at hf; cases hf
        | raise x => rw [hp] at hf; cases hf
        | call f k =>
            have hafter : (c.step e).state = (f e.2 c.state).2 := by
              simp only [step, hp, Prog.step]
            rw [hp] at hrest
            rw [hafter]
            exact ⟨e.2, c.state, _, rfl, hrest⟩
      · rename_i hown
        have hprocs : (c.step e).procs t = c.procs t := by
          by_cases ht : t = e.1
          · have hf : (c.procs e.1).finished = true := by
              cases hf : (c.procs e.1).finished with
              | true => rfl
              | false => exact absurd ⟨ht.symm, ht ▸ hf⟩ hown
            rw [step_of_finished c hf]
          · exact step_procs_ne c ht
        rwa [hprocs] at hrest

theorem mem_stepsOf {c : Pool τ ι σ ε α} {t : τ} {sched : List (τ × ι)} {x : Prog.OwnStep ι σ}
    (h : x ∈ c.stepsOf t sched) :
    ∃ front rest, sched = front ++ (t, x.input) :: rest ∧ x.before = (c.run front).state ∧
      x.after = (c.run (front ++ [(t, x.input)])).state := by
  induction sched generalizing c with
  | nil => cases h
  | cons e sched ih =>
      have hlater : x ∈ (c.step e).stepsOf t sched →
          ∃ front rest, e :: sched = front ++ (t, x.input) :: rest ∧
            x.before = (c.run front).state ∧
            x.after = (c.run (front ++ [(t, x.input)])).state := by
        intro hx
        obtain ⟨front, rest, hsched, hbefore, hafter⟩ := ih hx
        exact ⟨e :: front, rest, congrArg (e :: ·) hsched, hbefore, hafter⟩
      unfold stepsOf at h
      split at h
      · rename_i hown
        rcases List.mem_cons.mp h with rfl | hx
        · obtain ⟨rfl, -⟩ := hown
          exact ⟨[], sched, rfl, rfl, rfl⟩
        · exact hlater hx
      · exact hlater h

/-! ### The rely/guarantee rule -/

section soundness

variable {K : τ → Contract σ} {Q : τ → α → σ → Prop} {E : τ → ε → σ → Prop}
variable {assume : τ → σ → σ → Prop}

/-- Every process satisfies the precondition of what it has left to do. -/
def Sound (K : τ → Contract σ) (Q : τ → α → σ → Prop) (E : τ → ε → σ → Prop)
    (c : Pool τ ι σ ε α) : Prop :=
  ∀ t, (c.procs t).wp (K t) (Q t) (E t) c.state

/-- A considered step of a sound pool keeps the guarantee of the stepping process, or
changes nothing. -/
theorem Sound.guar {c : Pool τ ι σ ε α} (h : Sound K Q E c) (hK : ∀ t, (K t).assume = assume t)
    {e : τ × ι} (ha : assume e.1 c.state (c.step e).state) :
    (K e.1).guar c.state (c.step e).state ∨ c.step e = c := by
  cases hf : (c.procs e.1).finished with
  | true => exact Or.inr (step_of_finished c hf)
  | false => exact Or.inl (Prog.wp_step (h e.1) e.2 (hK e.1 ▸ ha) hf).1

theorem Sound.step {c : Pool τ ι σ ε α} (h : Sound K Q E c) (hK : ∀ t, (K t).assume = assume t)
    (hG : ∀ t u, t ≠ u → ∀ s s', (K u).guar s s' → (K t).rely s s') {e : τ × ι}
    (ha : assume e.1 c.state (c.step e).state) : Sound K Q E (c.step e) := by
  rcases h.guar hK ha with hg | hc
  · intro t
    by_cases ht : t = e.1
    · subst ht
      rw [step_procs_self]
      cases hf : (c.procs e.1).finished with
      | true =>
          have := h e.1
          simpa [Pool.step, Prog.step_of_finished hf] using this
      | false => exact (Prog.wp_step (h e.1) e.2 (hK e.1 ▸ ha) hf).2
    · rw [step_procs_ne c ht]
      exact Prog.wp_rely (h t) (hG t e.1 ht _ _ hg)
  · rw [hc]
    exact h

/-- **Rely/guarantee rule**: contracts kept by the processes one by one are kept by every
schedule whose steps are all considered. -/
theorem run_wp {c : Pool τ ι σ ε α} (h : Sound K Q E c) (hK : ∀ t, (K t).assume = assume t)
    (hG : ∀ t u, t ≠ u → ∀ s s', (K u).guar s s' → (K t).rely s s') {sched : List (τ × ι)}
    (hm : Meets assume c sched) : Sound K Q E (c.run sched) := by
  induction sched generalizing c with
  | nil => exact h
  | cons e sched ih => exact ih (h.step hK hG hm.1) hm.2

/-- What one step of a run does: the guarantee of the stepping process, or nothing. -/
theorem run_step {c : Pool τ ι σ ε α} (h : Sound K Q E c) (hK : ∀ t, (K t).assume = assume t)
    (hG : ∀ t u, t ≠ u → ∀ s s', (K u).guar s s' → (K t).rely s s') {sched : List (τ × ι)} {e : τ × ι}
    (hm : Meets assume c (sched ++ [e])) :
    (K e.1).guar (c.run sched).state (c.run (sched ++ [e])).state ∨
      c.run (sched ++ [e]) = c.run sched := by
  obtain ⟨hm₁, hm₂, -⟩ := meets_append.mp hm
  rw [run_concat]
  exact (run_wp h hK hG hm₁).guar hK hm₂

/-- **Invariant rule**: what the guarantees of the scheduled processes preserve, in considered
steps, holds after the schedule. -/
theorem run_inv {c : Pool τ ι σ ε α} (h : Sound K Q E c) (hK : ∀ t, (K t).assume = assume t)
    (hG : ∀ t u, t ≠ u → ∀ s s', (K u).guar s s' → (K t).rely s s') {J : σ → Prop}
    {sched : List (τ × ι)}
    (hJ : ∀ e ∈ sched, ∀ s s', assume e.1 s s' → (K e.1).guar s s' → J s → J s')
    (hm : Meets assume c sched) (h0 : J c.state) : J (c.run sched).state := by
  induction sched generalizing c with
  | nil => exact h0
  | cons e sched ih =>
      refine ih (h.step hK hG hm.1) (fun e' he' => hJ e' (List.mem_cons_of_mem _ he')) hm.2 ?_
      rcases h.guar hK hm.1 with hg | hc
      · exact hJ e List.mem_cons_self _ _ hm.1 hg h0
      · rwa [hc]

/-- What every considered step does from a state of the invariant, every step of the run does. -/
theorem run_meets {c : Pool τ ι σ ε α} (h : Sound K Q E c) (hK : ∀ t, (K t).assume = assume t)
    (hG : ∀ t u, t ≠ u → ∀ s s', (K u).guar s s' → (K t).rely s s') {J : σ → Prop}
    {P : τ → σ → σ → Prop} {sched : List (τ × ι)} (hP : ∀ t s, P t s s)
    (hJ : ∀ t s s', assume t s s' → (K t).guar s s' → J s → J s' ∧ P t s s')
    (hm : Meets assume c sched) (h0 : J c.state) : Meets P c sched := by
  induction sched generalizing c with
  | nil => trivial
  | cons e sched ih =>
      have hstep : J (c.step e).state ∧ P e.1 c.state (c.step e).state := by
        rcases h.guar hK hm.1 with hg | hc
        · exact hJ e.1 _ _ hm.1 hg h0
        · rw [hc]
          exact ⟨h0, hP _ _⟩
      exact ⟨hstep.2, ih (h.step hK hG hm.1) hm.2 hstep.1⟩

theorem run_inv_append {c : Pool τ ι σ ε α} (h : Sound K Q E c) (hK : ∀ t, (K t).assume = assume t)
    (hG : ∀ t u, t ≠ u → ∀ s s', (K u).guar s s' → (K t).rely s s') {J : σ → Prop}
    {sched sched' : List (τ × ι)}
    (hJ : ∀ e ∈ sched', ∀ s s', assume e.1 s s' → (K e.1).guar s s' → J s → J s')
    (hm : Meets assume c (sched ++ sched')) (h0 : J (c.run sched).state) :
    J (c.run (sched ++ sched')).state := by
  obtain ⟨hm₁, hm₂⟩ := meets_append.mp hm
  rw [run_append]
  exact run_inv (run_wp h hK hG hm₁) hK hG hJ hm₂ h0

omit [DecidableEq τ] in
/-- A process that has returned has established its postcondition, and it still holds. -/
theorem run_ret {c : Pool τ ι σ ε α} (h : Sound K Q E c) {t : τ} {a : α}
    (ht : c.procs t = .ret a) : Q t a c.state := by
  have := h t
  rw [ht] at this
  exact this _ ((K t).rely_refl _)

omit [DecidableEq τ] in
theorem run_raise {c : Pool τ ι σ ε α} (h : Sound K Q E c) {t : τ} {x : ε}
    (ht : c.procs t = .raise x) : E t x c.state := by
  have := h t
  rw [ht] at this
  exact this _ ((K t).rely_refl _)

end soundness

end Pool

end Concurrent
