import Mathlib.Tactic.Common
import Mathlib.Data.Nat.Notation

/-! # Programs of atomic steps

A `Prog ι σ ε α` is what one process still has to do: it has returned a value, has raised
an exception, or takes one atomic step on a shared state `σ` and goes on with the answer.
Every atomic step is handed one input of type `ι`, which is where everything the program
does not decide comes from (a clock reading, a remote answer, a fresh name); a statement
about all inputs is a statement about every behaviour of the surroundings.

* **Steps.** `Prog.step` is a function, so a concrete run is computed.  Nothing happens
  between two atomic steps, and a process that is never stepped again has crashed: a crash
  needs no transition of its own.
* **Contracts.** A `Contract` says what the other processes may do between two steps
  (`rely`), what each own step must do (`guar`), and which own steps are considered at all
  (`assume`).  `Prog.wp` is the weakest precondition under a contract; it is closed under
  `rely` (`Prog.wp_rely`), monotone (`Prog.wp_mono`) and composes along `>>=`
  (`Prog.wp_bind`).
* **Own steps.** `ends` says how a program ends after steps of its own, whatever others did
  between them; it composes along `>>=` and `attempt`.  `stepsOnly` bounds what any step does.
* **Undisturbed runs.** `finish` runs one program to its end on one input.
* **History.** `noting` adds to the state what is worth remembering of each step; `Erases` says
  that a program does what another does when that is taken away again.
* **Sessions.** `attempts` runs programs one after another, each stopped after an arbitrary
  number of steps; `attempts_inv` is the invariant rule for such sequences, and `traced` makes
  the steps themselves part of the state. -/

namespace Concurrent

/-- What a process still has to do. -/
inductive Prog (ι σ ε α : Type) : Type 1 where
  /-- It has returned `a`. -/
  | ret (a : α)
  /-- It has raised `e`. -/
  | raise (e : ε)
  /-- It takes the atomic step `f` and goes on with the answer. -/
  | call {β : Type} (f : ι → σ → β × σ) (k : β → Prog ι σ ε α)

namespace Prog

variable {ι σ ε α β : Type}

/-- Sequencing: an exception of the first program is the exception of the whole. -/
def bind : Prog ι σ ε α → (α → Prog ι σ ε β) → Prog ι σ ε β
  | ret a, g => g a
  | raise e, _ => raise e
  | call f k, g => call f fun b => (k b).bind g

instance : Monad (Prog ι σ ε) where
  pure := ret
  bind := bind

@[simp] theorem pure_eq (a : α) : (pure a : Prog ι σ ε α) = ret a := rfl

@[simp] theorem ret_bind (a : α) (g : α → Prog ι σ ε β) : (ret a >>= g) = g a := rfl

@[simp] theorem raise_bind (e : ε) (g : α → Prog ι σ ε β) : (raise e >>= g) = raise e := rfl

@[simp] theorem call_bind {γ : Type} (f : ι → σ → γ × σ) (k : γ → Prog ι σ ε α)
    (g : α → Prog ι σ ε β) : (call f k >>= g) = call f fun c => k c >>= g := rfl

theorem bind_assoc {γ : Type} (p : Prog ι σ ε α) (g : α → Prog ι σ ε β) (k : β → Prog ι σ ε γ) :
    (p >>= g) >>= k = p >>= fun a => g a >>= k := by
  induction p with
  | ret a => rfl
  | raise e => rfl
  | call f l ih => exact congrArg (call f) (funext ih)

/-- One atomic step, returning its answer. -/
def act (f : ι → σ → β × σ) : Prog ι σ ε β := call f ret

/-- Read the state. -/
def read (f : σ → β) : Prog ι σ ε β := act fun _ s => (f s, s)

/-- Change the state. -/
def write (f : σ → σ) : Prog ι σ ε Unit := act fun _ s => ((), f s)

/-- Take what the surroundings answer. -/
def input (f : ι → β) : Prog ι σ ε β := act fun i s => (f i, s)

@[simp] theorem act_bind {γ : Type} (f : ι → σ → γ × σ) (g : γ → Prog ι σ ε β) :
    (act f >>= g) = call f g := rfl

@[simp] theorem read_bind {γ : Type} (f : σ → γ) (g : γ → Prog ι σ ε β) :
    (read f >>= g) = call (fun _ s => (f s, s)) g := rfl

@[simp] theorem write_bind (f : σ → σ) (g : Unit → Prog ι σ ε β) :
    (write f >>= g) = call (fun _ s => ((), f s)) g := rfl

@[simp] theorem input_bind {γ : Type} (f : ι → γ) (g : γ → Prog ι σ ε β) :
    (input f >>= g) = call (fun i s => (f i, s)) g := rfl

/-- Run a program to its end, whichever that is. -/
def attempt {ε' : Type} : Prog ι σ ε α → Prog ι σ ε' (Except ε α)
  | ret a => ret (.ok a)
  | raise e => ret (.error e)
  | call f k => call f fun b => (k b).attempt

/-- Run a program and then the cleanup, however the program ended. -/
def tryFinally (p : Prog ι σ ε α) (cleanup : Prog ι σ ε β) : Prog ι σ ε α := do
  match ← p.attempt with
  | .ok a => do let _ ← cleanup; ret a
  | .error e => do let _ ← cleanup; raise e

/-- Run a program on the first component of a larger state, on inputs that carry its own and
with its exceptions among others. -/
def onFst {ι' ε' ρ : Type} (g : ι' → ι) (h : ε → ε') : Prog ι σ ε α → Prog ι' (σ × ρ) ε' α
  | ret a => ret a
  | raise e => raise (h e)
  | call f k => call (fun i s => ((f (g i) s.1).1, (f (g i) s.1).2, s.2)) fun b => (k b).onFst g h

theorem onFst_bind {ι' ε' ρ : Type} (g : ι' → ι) (h : ε → ε') (p : Prog ι σ ε α) (k : α → Prog ι σ ε β) :
    ((p >>= k).onFst g h : Prog ι' (σ × ρ) ε' β) = p.onFst g h >>= fun a => (k a).onFst g h := by
  induction p with
  | ret a => rfl
  | raise e => rfl
  | call f l ih =>
      rw [call_bind, onFst, onFst, call_bind]
      exact congrArg _ (funext ih)

/-- Run a program against surroundings with a state of their own: `answers` is what they give to a
step, and `after` is what they make of it. -/
def against {ω : Type} (answers : ω → ι) (after : σ → σ → ω → ω) :
    Prog ι σ ε α → Prog Unit (σ × ω) ε α
  | ret a => ret a
  | raise e => raise e
  | call f k =>
      call (fun _ x => ((f (answers x.2) x.1).1, (f (answers x.2) x.1).2,
        after x.1 (f (answers x.2) x.1).2 x.2)) fun b => (k b).against answers after

theorem against_bind {ω : Type} (answers : ω → ι) (after : σ → σ → ω → ω) (p : Prog ι σ ε α)
    (g : α → Prog ι σ ε β) : (p >>= g).against answers after =
      p.against answers after >>= fun a => (g a).against answers after := by
  induction p with
  | ret a => rfl
  | raise e => rfl
  | call f k ih => exact congrArg (call _) (funext ih)

/-- A program whose process may die at any step: `die` is what its death leaves. -/
def mortal (dies : ι → Bool) (die : ι → σ → σ) : Prog ι σ ε α → Prog ι σ ε (Option α)
  | ret a => ret (some a)
  | raise e => raise e
  | call f k =>
      call (fun i s => if dies i then (none, die i s) else (some (f i s).1, (f i s).2)) fun b =>
        b.elim (ret none) fun b => (k b).mortal dies die

/-- Remember every step taken, newest first, as the states before and after it. -/
def traced : Prog ι σ ε α → Prog ι (σ × List (σ × σ)) ε α
  | ret a => ret a
  | raise e => raise e
  | call f k =>
      call (fun i x => ((f i x.1).1, (f i x.1).2, (x.1, (f i x.1).2) :: x.2)) fun b => (k b).traced

/-- Remember, newest first, what `note` finds worth it of every step. -/
def noting {η : Type} (note : ι → σ → σ → Option η) :
    Prog ι σ ε α → Prog ι (σ × List η) ε α
  | ret a => ret a
  | raise e => raise e
  | call f k =>
      call (fun i x => ((f i x.1).1, (f i x.1).2, (note i x.1 (f i x.1).2).toList ++ x.2))
        fun b => (k b).noting note

/-- Every exception the program can raise is one of these. -/
def raisesOnly (P : ε → Prop) : Prog ι σ ε α → Prop
  | ret _ => True
  | raise e => P e
  | call _ k => ∀ b, (k b).raisesOnly P

/-- `q` is `p` with a second component of the state that no answer depends on. -/
def Erases {η : Type} (q : Prog ι (σ × η) ε α) : Prog ι σ ε α → Prop
  | ret a => q = ret a
  | raise e => q = raise e
  | @call _ _ _ _ β f k => ∃ (g : ι → σ × η → β × σ × η) (l : β → Prog ι (σ × η) ε α),
      q = call g l ∧ (∀ i x, (g i x).1 = (f i x.1).1 ∧ (g i x).2.1 = (f i x.1).2) ∧
        ∀ b, Erases (l b) (k b)

section erases

variable {η : Type}

theorem noting_erases (note : ι → σ → σ → Option η) (p : Prog ι σ ε α) :
    Erases (p.noting note) p := by
  induction p with
  | ret a => rfl
  | raise e => rfl
  | call f k ih => exact ⟨_, _, rfl, fun _ _ => ⟨rfl, rfl⟩, ih⟩

theorem erases_ret (a : α) : Erases (ret a : Prog ι (σ × η) ε α) (ret a) := rfl

theorem erases_raise (e : ε) : Erases (raise e : Prog ι (σ × η) ε α) (raise e) := rfl

theorem Erases.bind {q : Prog ι (σ × η) ε α} {p : Prog ι σ ε α} {l : α → Prog ι (σ × η) ε β}
    {k : α → Prog ι σ ε β} (h : Erases q p) (hk : ∀ a, Erases (l a) (k a)) :
    Erases (q >>= l) (p >>= k) := by
  induction p generalizing q with
  | ret a =>
      obtain rfl : q = ret a := h
      exact hk a
  | raise e =>
      obtain rfl : q = raise e := h
      rfl
  | call f k' ih =>
      obtain ⟨g, l', rfl, hg, hl⟩ := h
      exact ⟨g, _, rfl, hg, fun b => ih b (hl b)⟩

theorem Erases.attempt {ε' : Type} {q : Prog ι (σ × η) ε α} {p : Prog ι σ ε α} (h : Erases q p) :
    Erases (q.attempt : Prog ι (σ × η) ε' (Except ε α)) p.attempt := by
  induction p generalizing q with
  | ret a =>
      obtain rfl : q = ret a := h
      rfl
  | raise e =>
      obtain rfl : q = raise e := h
      rfl
  | call f k ih =>
      obtain ⟨g, l, rfl, hg, hl⟩ := h
      exact ⟨g, _, rfl, hg, fun b => ih b (hl b)⟩

theorem Erases.mortal {q : Prog ι (σ × η) ε α} {p : Prog ι σ ε α} {dies : ι → Bool}
    {die : ι → σ → σ} {die' : ι → σ × η → σ × η} (hdie : ∀ i x, (die' i x).1 = die i x.1)
    (h : Erases q p) : Erases (q.mortal dies die') (p.mortal dies die) := by
  induction p generalizing q with
  | ret a =>
      obtain rfl : q = ret a := h
      rfl
  | raise e =>
      obtain rfl : q = raise e := h
      rfl
  | call f k ih =>
      obtain ⟨g, l, rfl, hg, hl⟩ := h
      refine ⟨_, _, rfl, fun i x => ?_, fun b => ?_⟩
      · dsimp only
        by_cases hd : dies i = true
        · rw [if_pos hd, if_pos hd]
          exact ⟨rfl, hdie i x⟩
        · rw [if_neg hd, if_neg hd]
          exact ⟨congrArg some (hg i x).1, (hg i x).2⟩
      · cases b with
        | none => rfl
        | some b => exact ih b (hl b)

end erases

/-! ### Steps -/

/-- One atomic step; a finished program stays as it is. -/
def step : Prog ι σ ε α → ι → σ → Prog ι σ ε α × σ
  | ret a, _, s => (ret a, s)
  | raise e, _, s => (raise e, s)
  | call f k, i, s => (k (f i s).1, (f i s).2)

theorem Erases.step {η : Type} {q : Prog ι (σ × η) ε α} {p : Prog ι σ ε α} (h : Erases q p) (i : ι)
    {x : σ × η} {s : σ} (hx : x.1 = s) :
    Erases (q.step i x).1 (p.step i s).1 ∧ (q.step i x).2.1 = (p.step i s).2 := by
  subst hx
  cases p with
  | ret a =>
      obtain rfl : q = ret a := h
      exact ⟨rfl, rfl⟩
  | raise e =>
      obtain rfl : q = raise e := h
      exact ⟨rfl, rfl⟩
  | call f k =>
      obtain ⟨g, l, rfl, hg, hl⟩ := h
      refine ⟨?_, (hg i x).2⟩
      show Erases (l (g i x).1) (k (f i x.1).1)
      rw [(hg i x).1]
      exact hl _

/-- The program has returned or raised. -/
def finished : Prog ι σ ε α → Bool
  | call _ _ => false
  | _ => true

/-- How the program has ended, if it has. -/
def outcome : Prog ι σ ε α → Option (Except ε α)
  | ret a => some (.ok a)
  | raise e => some (.error e)
  | call _ _ => none

theorem eq_ret_of_outcome {p : Prog ι σ ε α} {a : α} (h : p.outcome = some (.ok a)) : p = ret a := by
  cases p with
  | ret b => rw [Except.ok.inj (Option.some.inj h)]
  | raise e => cases Option.some.inj h
  | call f k => cases h

theorem eq_raise_of_outcome {p : Prog ι σ ε α} {e : ε} (h : p.outcome = some (.error e)) :
    p = raise e := by
  cases p with
  | ret a => cases Option.some.inj h
  | raise e' => rw [Except.error.inj (Option.some.inj h)]
  | call f k => cases h

/-- The program after one step for each input. -/
def exec (p : Prog ι σ ε α) (inputs : List ι) (s : σ) : Prog ι σ ε α × σ :=
  inputs.foldl (fun c i => c.1.step i c.2) (p, s)

/-- Run a program to its end, nobody else stepping and every step on the same input: how it
ended, and the state it left. -/
def finish (i : ι) : Prog ι σ ε α → σ → Except ε α × σ
  | ret a, s => (.ok a, s)
  | raise e, s => (.error e, s)
  | call f k, s => (k (f i s).1).finish i (f i s).2

@[simp] theorem finish_ret (i : ι) (a : α) (s : σ) :
    (ret a : Prog ι σ ε α).finish i s = (.ok a, s) := rfl

@[simp] theorem finish_raise (i : ι) (e : ε) (s : σ) :
    (raise e : Prog ι σ ε α).finish i s = (.error e, s) := rfl

@[simp] theorem finish_call (i : ι) (f : ι → σ → β × σ) (k : β → Prog ι σ ε α) (s : σ) :
    (call f k).finish i s = (k (f i s).1).finish i (f i s).2 := rfl

/-- A program whose errors are caught ends with how it ended. -/
theorem finish_attempt {ε' : Type} (p : Prog ι σ ε α) (i : ι) (s : σ) :
    (p.attempt : Prog ι σ ε' (Except ε α)).finish i s = (.ok (p.finish i s).1, (p.finish i s).2) := by
  induction p generalizing s with
  | ret a => rfl
  | raise e => rfl
  | call f k ih => exact ih _ _

/-- Run a program to its end, nobody else stepping and every step on the input that the state gives. -/
def finishIn (answers : σ → ι) : Prog ι σ ε α → σ → Except ε α × σ
  | ret a, s => (.ok a, s)
  | raise e, s => (.error e, s)
  | call f k, s => (k (f (answers s) s).1).finishIn answers (f (answers s) s).2

/-- Past a first program that has returned. -/
theorem finishIn_bind_ok {answers : σ → ι} {p : Prog ι σ ε α} {g : α → Prog ι σ ε β} {a : α} {s s' : σ}
    (h : p.finishIn answers s = (.ok a, s')) :
    (p >>= g).finishIn answers s = (g a).finishIn answers s' := by
  induction p generalizing s with
  | ret b =>
      obtain ⟨hb, rfl⟩ := Prod.mk.inj h
      obtain rfl := Except.ok.inj hb
      rfl
  | raise e => cases (Prod.mk.inj h).1
  | call f k ih => exact ih _ h

/-- A first program that has raised is all there is. -/
theorem finishIn_bind_error {answers : σ → ι} {p : Prog ι σ ε α} {g : α → Prog ι σ ε β} {e : ε} {s s' : σ}
    (h : p.finishIn answers s = (.error e, s')) : (p >>= g).finishIn answers s = (.error e, s') := by
  induction p generalizing s with
  | ret b => cases (Prod.mk.inj h).1
  | raise e' =>
      obtain ⟨he, rfl⟩ := Prod.mk.inj h
      obtain rfl := Except.error.inj he
      rfl
  | call f k ih => exact ih _ h

theorem finish_eq_finishIn (p : Prog ι σ ε α) (i : ι) (s : σ) : p.finish i s = p.finishIn (fun _ => i) s := by
  induction p generalizing s with
  | ret a => rfl
  | raise e => rfl
  | call f k ih => exact ih _ _

theorem finish_bind_ok {i : ι} {p : Prog ι σ ε α} {g : α → Prog ι σ ε β} {a : α} {s s' : σ}
    (h : p.finish i s = (.ok a, s')) : (p >>= g).finish i s = (g a).finish i s' := by
  rw [finish_eq_finishIn] at h
  rw [finish_eq_finishIn, finish_eq_finishIn (g a)]
  exact finishIn_bind_ok h

theorem finish_bind_error {i : ι} {p : Prog ι σ ε α} {g : α → Prog ι σ ε β} {e : ε} {s s' : σ}
    (h : p.finish i s = (.error e, s')) : (p >>= g).finish i s = (.error e, s') := by
  rw [finish_eq_finishIn] at h ⊢
  exact finishIn_bind_error h

/-- A sequence that has returned is a first program that has, and then the second. -/
theorem finish_bind_eq_ok {i : ι} {p : Prog ι σ ε α} {g : α → Prog ι σ ε β} {b : β} {s s' : σ}
    (h : (p >>= g).finish i s = (.ok b, s')) :
    ∃ a s₁, p.finish i s = (.ok a, s₁) ∧ (g a).finish i s₁ = (.ok b, s') := by
  induction p generalizing s with
  | ret a => exact ⟨a, s, rfl, h⟩
  | raise e => cases (Prod.mk.inj h).1
  | call f k ih => exact ih _ h

@[simp] theorem exec_nil (p : Prog ι σ ε α) (s : σ) : p.exec [] s = (p, s) := rfl

@[simp] theorem exec_cons (p : Prog ι σ ε α) (i : ι) (inputs : List ι) (s : σ) :
    p.exec (i :: inputs) s = (p.step i s).1.exec inputs (p.step i s).2 := rfl

@[simp] theorem exec_ret (a : α) (inputs : List ι) (s : σ) :
    (ret a : Prog ι σ ε α).exec inputs s = (ret a, s) := by
  induction inputs with
  | nil => rfl
  | cons i inputs ih => exact ih

@[simp] theorem exec_raise (e : ε) (inputs : List ι) (s : σ) :
    (raise e : Prog ι σ ε α).exec inputs s = (raise e, s) := by
  induction inputs with
  | nil => rfl
  | cons i inputs ih => exact ih

/-- What is made of the answer changes nothing of what was done. -/
theorem exec_map (p : Prog ι σ ε α) (g : α → β) (inputs : List ι) (s : σ) :
    ((p >>= fun a => ret (g a)).exec inputs s).2 = (p.exec inputs s).2 := by
  induction inputs generalizing p s with
  | nil => rfl
  | cons i inputs ih =>
      cases p with
      | ret a =>
          rw [ret_bind, exec_ret, exec_ret]
      | raise e =>
          rw [raise_bind, exec_raise, exec_raise]
      | call f k => exact ih _ _

/-- One own step of a process: its input, and the states before and after it. -/
structure OwnStep (ι σ : Type) where
  input : ι
  before : σ
  after : σ

/-- After these steps of its own the program has ended so. -/
def ends : Prog ι σ ε α → List (OwnStep ι σ) → Except ε α → Prop
  | ret a, steps, o => steps = [] ∧ o = .ok a
  | raise e, steps, o => steps = [] ∧ o = .error e
  | call f k, steps, o => ∃ i s rest, steps = ⟨i, s, (f i s).2⟩ :: rest ∧ (k (f i s).1).ends rest o

section ends

variable {steps : List (OwnStep ι σ)}

theorem ends_act {f : ι → σ → β × σ} {k : β → Prog ι σ ε α} {o : Except ε α}
    (h : (act f >>= k).ends steps o) :
    ∃ i s rest, steps = ⟨i, s, (f i s).2⟩ :: rest ∧ (k (f i s).1).ends rest o := h

theorem ends_bind {p : Prog ι σ ε α} {g : α → Prog ι σ ε β} {o : Except ε β}
    (h : (p >>= g).ends steps o) :
    (∃ a front rest, steps = front ++ rest ∧ p.ends front (.ok a) ∧ (g a).ends rest o) ∨
      ∃ e, o = .error e ∧ p.ends steps (.error e) := by
  induction p generalizing steps with
  | ret a => exact Or.inl ⟨a, [], steps, rfl, ⟨rfl, rfl⟩, h⟩
  | raise e => exact Or.inr ⟨e, h.2, h.1, rfl⟩
  | call f k ih =>
      obtain ⟨i, s, rest, rfl, hrest⟩ := h
      rcases ih _ hrest with ⟨a, front, rest', rfl, hfront, hrest'⟩ | ⟨e, ho, he⟩
      · exact Or.inl ⟨a, _ :: front, rest', rfl, ⟨i, s, front, rfl, hfront⟩, hrest'⟩
      · exact Or.inr ⟨e, ho, i, s, rest, rfl, he⟩

/-- A program that has returned has had its first part return. -/
theorem ends_bind_ok {p : Prog ι σ ε α} {g : α → Prog ι σ ε β} {b : β}
    (h : (p >>= g).ends steps (.ok b)) :
    ∃ a front rest, steps = front ++ rest ∧ p.ends front (.ok a) ∧ (g a).ends rest (.ok b) := by
  rcases ends_bind h with hok | ⟨e, ho, -⟩
  · exact hok
  · cases ho

theorem ends_attempt {ε' : Type} {p : Prog ι σ ε α} {o : Except ε' (Except ε α)}
    (h : p.attempt.ends steps o) : ∃ r, o = .ok r ∧ p.ends steps r := by
  induction p generalizing steps with
  | ret a => exact ⟨.ok a, h.2, h.1, rfl⟩
  | raise e => exact ⟨.error e, h.2, h.1, rfl⟩
  | call f k ih =>
      obtain ⟨i, s, rest, rfl, hrest⟩ := h
      obtain ⟨r, ho, hr⟩ := ih _ hrest
      exact ⟨r, ho, i, s, rest, rfl, hr⟩

end ends

/-- Every step the program can take does one of these. -/
def stepsOnly (P : σ → σ → Prop) : Prog ι σ ε α → Prop
  | ret _ => True
  | raise _ => True
  | call f k => (∀ i s, P s (f i s).2) ∧ ∀ b, (k b).stepsOnly P

section stepsOnly

variable {P : σ → σ → Prop}

theorem stepsOnly_act {f : ι → σ → β × σ} {k : β → Prog ι σ ε α} (hf : ∀ i s, P s (f i s).2)
    (hk : ∀ b, (k b).stepsOnly P) : (act f >>= k).stepsOnly P := ⟨hf, hk⟩

theorem stepsOnly_bind {p : Prog ι σ ε α} {k : α → Prog ι σ ε β} (hp : p.stepsOnly P)
    (hk : ∀ a, (k a).stepsOnly P) : (p >>= k).stepsOnly P := by
  induction p with
  | ret a => exact hk a
  | raise e => trivial
  | call f l ih => exact ⟨hp.1, fun b => ih b (hp.2 b)⟩

/-- What every step does to the state, any number of steps do, if that can be chained. -/
theorem exec_stepsOnly {p : Prog ι σ ε α} (hrefl : ∀ s, P s s)
    (htrans : ∀ s₁ s₂ s₃, P s₁ s₂ → P s₂ s₃ → P s₁ s₃) (hp : p.stepsOnly P) (inputs : List ι)
    (s : σ) : P s (p.exec inputs s).2 := by
  induction inputs generalizing p s with
  | nil => exact hrefl s
  | cons i inputs ih =>
      cases p with
      | ret a =>
          rw [exec_ret]
          exact hrefl s
      | raise e =>
          rw [exec_raise]
          exact hrefl s
      | call f k => exact htrans _ _ _ (hp.1 i s) (ih (hp.2 _) _)

theorem stepsOnly_mono {P' : σ → σ → Prop} {p : Prog ι σ ε α} (hp : p.stepsOnly P)
    (h : ∀ s s', P s s' → P' s s') : p.stepsOnly P' := by
  induction p with
  | ret a => trivial
  | raise e => trivial
  | call f k ih => exact ⟨fun i s => h _ _ (hp.1 i s), fun b => ih b (hp.2 b)⟩

theorem stepsOnly_attempt {ε' : Type} {p : Prog ι σ ε α} (hp : p.stepsOnly P) :
    (p.attempt : Prog ι σ ε' (Except ε α)).stepsOnly P := by
  induction p with
  | ret a => trivial
  | raise e => trivial
  | call f l ih => exact ⟨hp.1, fun b => ih b (hp.2 b)⟩

end stepsOnly

section raisesOnly

variable {P : ε → Prop}

theorem raisesOnly_bind {p : Prog ι σ ε α} {k : α → Prog ι σ ε β} (hp : p.raisesOnly P)
    (hk : ∀ a, (k a).raisesOnly P) : (p >>= k).raisesOnly P := by
  induction p with
  | ret a => exact hk a
  | raise e => exact hp
  | call f l ih => exact fun b => ih b (hp b)

/-- After an attempt, the exception is one the program can raise. -/
theorem raisesOnly_attempt {ε' : Type} {P' : ε' → Prop} {p : Prog ι σ ε' α}
    {k : Except ε' α → Prog ι σ ε β} (hp : p.raisesOnly P') (hok : ∀ a, (k (.ok a)).raisesOnly P)
    (herror : ∀ e, P' e → (k (.error e)).raisesOnly P) : (p.attempt >>= k).raisesOnly P := by
  induction p with
  | ret a => exact hok a
  | raise e => exact herror e hp
  | call f l ih => exact fun b => ih b (hp b)

theorem raisesOnly_tryFinally {p : Prog ι σ ε α} {cleanup : Prog ι σ ε β} (hp : p.raisesOnly P)
    (hcleanup : cleanup.raisesOnly P) : (p.tryFinally cleanup).raisesOnly P :=
  raisesOnly_attempt hp (fun _ => raisesOnly_bind hcleanup fun _ => trivial)
    fun _ he => raisesOnly_bind hcleanup fun _ => he

theorem raisesOnly_mono {P' : ε → Prop} {p : Prog ι σ ε α} (hp : p.raisesOnly P)
    (h : ∀ e, P e → P' e) : p.raisesOnly P' := by
  induction p with
  | ret a => trivial
  | raise e => exact h e hp
  | call f k ih => exact fun b => ih b (hp b)

theorem raisesOnly_true {p : Prog ι σ ε α} : p.raisesOnly fun _ => True := by
  induction p with
  | ret a => trivial
  | raise e => trivial
  | call f k ih => exact fun b => ih b

theorem raisesOnly_onFst {ι' ε' ρ : Type} {g : ι' → ι} {h : ε → ε'} {P : ε' → Prop}
    {p : Prog ι σ ε α} (hp : p.raisesOnly fun e => P (h e)) :
    (p.onFst g h : Prog ι' (σ × ρ) ε' α).raisesOnly P := by
  induction p with
  | ret a => trivial
  | raise e => exact hp
  | call f k ih => exact fun b => ih b (hp b)

end raisesOnly

end Prog

/-! ### Contracts -/

/-- What a process may count on and what it owes, step by step. -/
structure Contract (σ : Type) where
  /-- What the other processes may do between two own steps. -/
  rely : σ → σ → Prop
  /-- What every own step does. -/
  guar : σ → σ → Prop
  /-- The own steps that are considered. -/
  assume : σ → σ → Prop
  rely_refl : ∀ s, rely s s
  rely_trans : ∀ {s₁ s₂ s₃}, rely s₁ s₂ → rely s₂ s₃ → rely s₁ s₃

/-- The contract of a process that runs alone: nothing changes between its steps. -/
def Contract.alone {σ : Type} (guar : σ → σ → Prop) : Contract σ where
  rely s s' := s' = s
  guar := guar
  assume _ _ := True
  rely_refl _ := rfl
  rely_trans h₁ h₂ := h₂.trans h₁

namespace Prog

variable {ι σ ε α β : Type} (K : Contract σ)

/-- Weakest precondition: under interference within `rely`, every considered step keeps
`guar`, and the program ends with `Q` of its value or `E` of its exception. -/
def wp (Q : α → σ → Prop) (E : ε → σ → Prop) : Prog ι σ ε α → σ → Prop
  | ret a, s => ∀ s', K.rely s s' → Q a s'
  | raise e, s => ∀ s', K.rely s s' → E e s'
  | call f k, s => ∀ s', K.rely s s' → ∀ i, K.assume s' (f i s').2 →
      K.guar s' (f i s').2 ∧ wp Q E (k (f i s').1) (f i s').2

variable {K} {Q Q' : α → σ → Prop} {E E' : ε → σ → Prop} {p : Prog ι σ ε α} {s s' : σ}

theorem wp_ret {a : α} : wp K Q E (ret a : Prog ι σ ε α) s ↔ ∀ s', K.rely s s' → Q a s' := Iff.rfl

theorem wp_raise {e : ε} : wp K Q E (raise e : Prog ι σ ε α) s ↔ ∀ s', K.rely s s' → E e s' :=
  Iff.rfl

theorem wp_call {f : ι → σ → β × σ} {k : β → Prog ι σ ε α} :
    wp K Q E (call f k) s ↔ ∀ s', K.rely s s' → ∀ i, K.assume s' (f i s').2 →
      K.guar s' (f i s').2 ∧ wp K Q E (k (f i s').1) (f i s').2 := Iff.rfl

/-- The precondition survives whatever the other processes do. -/
theorem wp_rely (h : wp K Q E p s) (hr : K.rely s s') : wp K Q E p s' := by
  cases p with
  | ret a => exact fun s'' hr' => h s'' (K.rely_trans hr hr')
  | raise e => exact fun s'' hr' => h s'' (K.rely_trans hr hr')
  | call f k => exact fun s'' hr' => h s'' (K.rely_trans hr hr')

theorem wp_mono (h : wp K Q E p s) (hQ : ∀ a s, Q a s → Q' a s) (hE : ∀ e s, E e s → E' e s) :
    wp K Q' E' p s := by
  induction p generalizing s with
  | ret a => exact fun s' hr => hQ a s' (h s' hr)
  | raise e => exact fun s' hr => hE e s' (h s' hr)
  | call f k ih =>
      intro s' hr i ha
      obtain ⟨hg, hk⟩ := h s' hr i ha
      exact ⟨hg, ih _ hk⟩

/-- Two postconditions of the same program, the second one under a contract that counts on less. -/
theorem wp_and {L : Contract σ} (hrely : ∀ s s', K.rely s s' → L.rely s s')
    (hassume : ∀ s s', K.assume s s' → L.assume s s') (h : wp K Q E p s) (h' : wp L Q' E' p s) :
    wp K (fun a s => Q a s ∧ Q' a s) (fun e s => E e s ∧ E' e s) p s := by
  induction p generalizing s with
  | ret a => exact fun s' hr => ⟨h s' hr, h' s' (hrely _ _ hr)⟩
  | raise e => exact fun s' hr => ⟨h s' hr, h' s' (hrely _ _ hr)⟩
  | call f k ih =>
      intro s' hr i ha
      obtain ⟨hg, hk⟩ := h s' hr i ha
      exact ⟨hg, ih _ hk (h' s' (hrely _ _ hr) i (hassume _ _ ha)).2⟩

/-- What neither the others nor an own step undoes is there at the end as well. -/
theorem wp_frame {P : σ → Prop} (hrely : ∀ s s', K.rely s s' → P s → P s')
    (hguar : ∀ s s', K.guar s s' → P s → P s') (h : wp K Q E p s) (hP : P s) :
    wp K (fun a s => Q a s ∧ P s) E p s := by
  induction p generalizing s with
  | ret a => exact fun s' hr => ⟨h s' hr, hrely _ _ hr hP⟩
  | raise e => exact fun s' hr => h s' hr
  | call f k ih =>
      intro s' hr i ha
      obtain ⟨hg, hk⟩ := h s' hr i ha
      exact ⟨hg, ih _ hk (hguar _ _ hg (hrely _ _ hr hP))⟩

/-- A contract may count on more, and owe less. -/
theorem wp_contract {L : Contract σ} (hrely : ∀ s s', L.rely s s' → K.rely s s')
    (hassume : ∀ s s', L.assume s s' → K.assume s s') (hguar : ∀ s s', K.guar s s' → L.guar s s')
    (h : wp K Q E p s) : wp L Q E p s := by
  induction p generalizing s with
  | ret a => exact fun s' hr => h s' (hrely _ _ hr)
  | raise e => exact fun s' hr => h s' (hrely _ _ hr)
  | call f k ih =>
      intro s' hr i ha
      obtain ⟨hg, hk⟩ := h s' (hrely _ _ hr) i (hassume _ _ ha)
      exact ⟨hguar _ _ hg, ih _ hk⟩

/-- Sequencing: the first program has to end where the second may start. -/
theorem wp_bind {Q : β → σ → Prop} {g : α → Prog ι σ ε β}
    (h : wp K (fun a => wp K Q E (g a)) E p s) : wp K Q E (p >>= g) s := by
  induction p generalizing s with
  | ret a => exact h s (K.rely_refl s)
  | raise e => exact h
  | call f k ih =>
      intro s' hr i ha
      obtain ⟨hg, hk⟩ := h s' hr i ha
      exact ⟨hg, ih _ hk⟩

/-- Returning what a function makes of the value. -/
theorem wp_map (f : α → β) (h : wp K Q E p s) :
    wp K (fun b s => ∃ a, b = f a ∧ Q a s) E (p >>= fun a => ret (f a)) s := by
  induction p generalizing s with
  | ret a => exact fun s' hr => ⟨a, rfl, h s' hr⟩
  | raise e => exact h
  | call g k ih =>
      intro s' hr i ha
      obtain ⟨hg, hk⟩ := h s' hr i ha
      exact ⟨hg, ih _ hk⟩

/-- An attempt ends with what the program would have ended with. -/
theorem wp_attempt {ε' : Type} {Q : Except ε α → σ → Prop} {E : ε' → σ → Prop}
    (h : wp K (fun a => Q (.ok a)) (fun e => Q (.error e)) p s) : wp K Q E p.attempt s := by
  induction p generalizing s with
  | ret a => exact h
  | raise e => exact h
  | call f k ih =>
      intro s' hr i ha
      obtain ⟨hg, hk⟩ := h s' hr i ha
      exact ⟨hg, ih _ hk⟩

/-- The cleanup has to end where the value, or the exception, of the program may be passed on. -/
theorem wp_tryFinally {cleanup : Prog ι σ ε β}
    (h : wp K (fun a => wp K (fun _ s => ∀ s', K.rely s s' → Q a s') E cleanup)
      (fun e => wp K (fun _ s => ∀ s', K.rely s s' → E e s') E cleanup) p s) :
    wp K Q E (p.tryFinally cleanup) s := by
  refine wp_bind (wp_attempt (wp_mono h (fun a s hs => ?_) fun e s hs => ?_))
  · exact wp_bind hs
  · exact wp_bind hs

/-- A death has to keep `guar` and leave `Q none`. -/
theorem wp_mortal {dies : ι → Bool} {die : ι → σ → σ} {Q : Option α → σ → Prop}
    (hdie : ∀ i s, K.guar s (die i s) ∧ ∀ s', K.rely (die i s) s' → Q none s')
    (h : wp K (fun a => Q (some a)) E p s) : wp K Q E (p.mortal dies die) s := by
  induction p generalizing s with
  | ret a => exact h
  | raise e => exact h
  | call f k ih =>
      rw [mortal, wp_call]
      intro s' hr i ha
      cases hd : dies i with
      | true =>
          simp only [if_true]
          exact hdie i s'
      | false =>
          simp only [hd, Bool.false_eq_true, if_false] at ha ⊢
          obtain ⟨hg, hk⟩ := h s' hr i ha
          exact ⟨hg, ih _ hk⟩

/-- A program on the first component: `R` says what holds of the second one meanwhile. -/
theorem wp_onFst {ι' ε' ρ : Type} {g : ι' → ι} {h : ε → ε'} {L : Contract (σ × ρ)} {R : ρ → Prop}
    {E : ε' → σ → Prop}
    (hrely : ∀ s s', L.rely s s' → R s.2 → K.rely s.1 s'.1 ∧ R s'.2)
    (hassume : ∀ s s' r, L.assume (s, r) (s', r) → K.assume s s')
    (hguar : ∀ s s' r, R r → K.guar s s' → L.guar (s, r) (s', r)) {x : σ × ρ}
    (hp : wp K Q (fun e => E (h e)) p x.1) (hR : R x.2) :
    wp L (fun a x => Q a x.1 ∧ R x.2) (fun e x => E e x.1 ∧ R x.2) (p.onFst g h) x := by
  induction p generalizing x with
  | ret a => exact fun x' hr => ⟨hp _ (hrely _ _ hr hR).1, (hrely _ _ hr hR).2⟩
  | raise e => exact fun x' hr => ⟨hp _ (hrely _ _ hr hR).1, (hrely _ _ hr hR).2⟩
  | call f k ih =>
      intro x' hr i ha
      obtain ⟨hr', hR'⟩ := hrely _ _ hr hR
      obtain ⟨hg, hk⟩ := hp _ hr' (g i) (hassume _ _ _ ha)
      exact ⟨hguar _ _ _ hR' hg, ih _ hk hR'⟩

/-- A program that remembers: `R` relates the state to what is remembered. -/
theorem wp_noting {η : Type} {note : ι → σ → σ → Option η} {L : Contract (σ × List η)}
    {R : σ → List η → Prop}
    (hrely : ∀ x x', L.rely x x' → R x.1 x.2 → K.rely x.1 x'.1 ∧ R x'.1 x'.2)
    (hassume : ∀ s s', K.assume s s')
    (hstep : ∀ i s s' h, R s h → K.guar s s' → L.assume (s, h) (s', (note i s s').toList ++ h) →
      L.guar (s, h) (s', (note i s s').toList ++ h) ∧ R s' ((note i s s').toList ++ h))
    {x : σ × List η} (hp : wp K Q E p x.1) (hR : R x.1 x.2) :
    wp L (fun a x => Q a x.1 ∧ R x.1 x.2) (fun e x => E e x.1 ∧ R x.1 x.2) (p.noting note) x := by
  induction p generalizing x with
  | ret a => exact fun x' hr => ⟨hp _ (hrely _ _ hr hR).1, (hrely _ _ hr hR).2⟩
  | raise e => exact fun x' hr => ⟨hp _ (hrely _ _ hr hR).1, (hrely _ _ hr hR).2⟩
  | call f k ih =>
      intro x' hr i ha
      obtain ⟨hr', hR'⟩ := hrely _ _ hr hR
      obtain ⟨hg, hk⟩ := hp _ hr' i (hassume _ _)
      obtain ⟨hg', hR''⟩ := hstep i _ _ _ hR' hg ha
      exact ⟨hg', ih _ hk hR''⟩

/-- What a program raises, under a contract that asks nothing of its steps. -/
theorem wp_of_raisesOnly {P : ε → Prop} (hguar : ∀ s s', K.guar s s') (h : p.raisesOnly P) :
    wp K (fun _ _ => True) (fun e _ => P e) p s := by
  induction p generalizing s with
  | ret a => exact fun _ _ => trivial
  | raise e => exact fun _ _ => h
  | call f k ih => exact fun s' _ i _ => ⟨hguar _ _, ih _ (h _)⟩

/-- One step of a program keeps `guar` and the precondition of what is left. -/
theorem wp_step (h : wp K Q E p s) (i : ι) (ha : K.assume s (p.step i s).2)
    (hf : p.finished = false) :
    K.guar s (p.step i s).2 ∧ wp K Q E (p.step i s).1 (p.step i s).2 := by
  cases p with
  | ret a => cases hf
  | raise e => cases hf
  | call f k => exact h s (K.rely_refl s) i ha

/-! A process that runs alone keeps what it knows about the state from step to step. -/

section alone

variable {guar : σ → σ → Prop}

@[simp] theorem wp_alone_ret {a : α} :
    wp (Contract.alone guar) Q E (ret a : Prog ι σ ε α) s ↔ Q a s := by
  simp [wp_ret, Contract.alone]

@[simp] theorem wp_alone_raise {e : ε} :
    wp (Contract.alone guar) Q E (raise e : Prog ι σ ε α) s ↔ E e s := by
  simp [wp_raise, Contract.alone]

@[simp] theorem wp_alone_call {f : ι → σ → β × σ} {k : β → Prog ι σ ε α} :
    wp (Contract.alone guar) Q E (call f k) s ↔
      ∀ i, guar s (f i s).2 ∧ wp (Contract.alone guar) Q E (k (f i s).1) (f i s).2 := by
  simp [wp_call, Contract.alone]

/-- A program that runs alone may owe less. -/
theorem wp_alone_guar {guar' : σ → σ → Prop} (hguar : ∀ s s', guar s s' → guar' s s')
    (h : p.wp (Contract.alone guar) Q E s) : p.wp (Contract.alone guar') Q E s :=
  wp_contract (K := Contract.alone guar) (fun _ _ hr => hr) (fun _ _ ha => ha) hguar h

theorem wp_alone_true : p.wp (Contract.alone fun _ _ => True) (fun _ _ => True) (fun _ _ => True) s := by
  induction p generalizing s with
  | ret a => exact wp_alone_ret.mpr trivial
  | raise e => exact wp_alone_raise.mpr trivial
  | call f k ih => exact wp_alone_call.mpr fun i => ⟨trivial, ih _⟩

/-- What every step of a program that runs alone preserves holds after each of them. -/
theorem wp_alone_inv {J : σ → Prop} (hJ : ∀ s s', guar s s' → J s → J s')
    (h : p.wp (Contract.alone guar) Q E s) (hs : J s) :
    p.wp (Contract.alone fun s s' => guar s s' ∧ J s') (fun a s => Q a s ∧ J s)
      (fun e s => E e s ∧ J s) s := by
  induction p generalizing s with
  | ret a => exact wp_alone_ret.mpr ⟨wp_alone_ret.mp h, hs⟩
  | raise e => exact wp_alone_raise.mpr ⟨wp_alone_raise.mp h, hs⟩
  | call f k ih =>
      refine wp_alone_call.mpr fun i => ?_
      obtain ⟨hg, hk⟩ := wp_alone_call.mp h i
      have hnext := hJ s _ hg hs
      exact ⟨⟨hg, hnext⟩, ih _ hk hnext⟩

end alone

theorem step_of_finished (hf : p.finished = true) (i : ι) : p.step i s = (p, s) := by
  cases p with
  | ret a => rfl
  | raise e => rfl
  | call f k => cases hf

end Prog

/-! ### One program after another, each stopped anywhere -/

section attempts

variable {ι σ ε α : Type}

/-- Run programs one after another, each for as many steps as it has inputs: one that has
fewer than it needs has crashed there. -/
def attempts (runs : List (Prog ι σ ε α × List ι)) (s : σ) : σ :=
  runs.foldl (fun s r => (r.1.exec r.2 s).2) s

@[simp] theorem attempts_nil (s : σ) : attempts ([] : List (Prog ι σ ε α × List ι)) s = s := rfl

@[simp] theorem attempts_cons (r : Prog ι σ ε α × List ι) (runs : List (Prog ι σ ε α × List ι))
    (s : σ) : attempts (r :: runs) s = attempts runs (r.1.exec r.2 s).2 := rfl

variable {Q : α → σ → Prop} {E : ε → σ → Prop} {J : σ → Prop}

/-- The precondition of what is left after any number of steps, and the last `guar`. -/
theorem Prog.wp_exec {guar : σ → σ → Prop} {p : Prog ι σ ε α} {s : σ}
    (h : p.wp (Contract.alone guar) Q E s) (inputs : List ι) :
    (p.exec inputs s).1.wp (Contract.alone guar) Q E (p.exec inputs s).2 := by
  induction inputs generalizing p s with
  | nil => exact h
  | cons i inputs ih =>
      rw [exec_cons]
      cases hf : p.finished with
      | true => rw [step_of_finished hf]; exact ih h
      | false => exact ih (wp_step h i trivial hf).2

/-- A program that has ended has established one of its postconditions. -/
theorem Prog.exec_finished {guar : σ → σ → Prop} {p : Prog ι σ ε α} {s : σ}
    (h : p.wp (Contract.alone guar) Q E s) {inputs : List ι}
    (hf : (p.exec inputs s).1.finished = true) :
    (∃ a, Q a (p.exec inputs s).2) ∨ ∃ e, E e (p.exec inputs s).2 := by
  have hw := wp_exec h inputs
  cases hp : (p.exec inputs s).1 with
  | ret a => rw [hp] at hw; exact Or.inl ⟨a, wp_alone_ret.mp hw⟩
  | raise e => rw [hp] at hw; exact Or.inr ⟨e, wp_alone_raise.mp hw⟩
  | call f k => rw [hp] at hf; cases hf

/-- A program each of whose steps ends in `J` can be stopped anywhere and leaves `J`. -/
theorem Prog.exec_inv {p : Prog ι σ ε α} {s : σ} (hs : J s)
    (h : p.wp (Contract.alone fun _ s' => J s') Q E s) (inputs : List ι) :
    J (p.exec inputs s).2 := by
  induction inputs generalizing p s with
  | nil => exact hs
  | cons i inputs ih =>
      rw [exec_cons]
      cases hf : p.finished with
      | true => rw [step_of_finished hf]; exact ih hs h
      | false =>
          obtain ⟨hJ, hk⟩ := wp_step h i trivial hf
          exact ih hJ hk

/-- **Invariant rule for sessions**: if every program keeps `J` at each of its steps from
every state satisfying `J`, then `J` holds after every session. -/
theorem attempts_inv {runs : List (Prog ι σ ε α × List ι)} {s : σ} (hs : J s)
    (h : ∀ r ∈ runs, ∀ s, J s → r.1.wp (Contract.alone fun _ s' => J s') Q E s) :
    J (attempts runs s) := by
  induction runs generalizing s with
  | nil => exact hs
  | cons r runs ih =>
      rw [attempts_cons]
      refine ih (Prog.exec_inv hs (h r List.mem_cons_self s hs) r.2) ?_
      exact fun r' hr' => h r' (List.mem_cons_of_mem r hr')

/-! What every step does, a session that remembers its steps shows of each of them. -/

theorem Prog.exec_traced (p : Prog ι σ ε α) (inputs : List ι) (s : σ) (steps : List (σ × σ)) :
    (p.traced.exec inputs (s, steps)).2.1 = (p.exec inputs s).2 := by
  induction inputs generalizing p s steps with
  | nil => rfl
  | cons i inputs ih =>
      cases p with
      | ret a => exact ih (ret a) s steps
      | raise e => exact ih (raise e) s steps
      | call f k => exact ih (k (f i s).1) (f i s).2 _

theorem attempts_traced (runs : List (Prog ι σ ε α × List ι)) (s : σ) (steps : List (σ × σ)) :
    (attempts (runs.map fun r => (r.1.traced, r.2)) (s, steps)).1 = attempts runs s := by
  induction runs generalizing s steps with
  | nil => rfl
  | cons r runs ih =>
      rw [List.map_cons, attempts_cons, attempts_cons, ← Prog.exec_traced r.1 r.2 s steps]
      exact ih _ _

theorem Prog.wp_traced {guar : σ → σ → Prop} {R : σ → List (σ × σ) → Prop} {p : Prog ι σ ε α} {s : σ}
    {steps : List (σ × σ)} (hR : ∀ s s' steps, guar s s' → R s steps → R s' ((s, s') :: steps))
    (h : p.wp (Contract.alone guar) Q E s) (h0 : R s steps) :
    p.traced.wp (Contract.alone fun _ x => R x.1 x.2) (fun _ _ => True) (fun _ _ => True)
      (s, steps) := by
  induction p generalizing s steps with
  | ret a => exact wp_alone_ret.mpr trivial
  | raise e => exact wp_alone_raise.mpr trivial
  | call f k ih =>
      refine wp_alone_call.mpr fun i => ?_
      obtain ⟨hg, hk⟩ := wp_alone_call.mp h i
      have hnext := hR s (f i s).2 steps hg h0
      exact ⟨hnext, ih _ hk hnext⟩

end attempts

end Concurrent
