import PersonalOS.EventInbox
import PersonalOS.Pool
import Mathlib.Data.List.Nodup

/-! # Consumed at most once

Deliveries to consumers, interleaved transaction by transaction.

* **Steps.** `ConsumeStep` says what one step of a call does: nothing, or it commits its row and its
  effect together, the key being free.
* **Contracts.** The other calls only commit entries of their own (`Commits`).  A call has committed
  nothing (`NothingBy`) until it returns that it applied the effect (`Consumed`).
* **Runs.** `consumed_once` collects what holds after every interleaving. -/

namespace PersonalOS

open Concurrent Concurrent.Prog IdempotentConsumer

variable {τ δ ρ ε : Type}

/-! ### What a step does -/

theorem hasKey_eq_true {key : String × String} {s : ConsumerState τ δ ρ} :
    hasKey key s = true ↔ key ∈ s.inbox.map (·.key) := by
  simp [hasKey]

/-- What one step of call `t` does. -/
inductive ConsumeStep (calls : τ → ConsumeCall) (t : τ) (s : ConsumerState τ δ ρ) :
    ConsumerState τ δ ρ → Prop where
  | quiet : ConsumeStep calls t s s
  | committed (result : ρ) (change : δ → Option δ) (data : δ) :
      (calls t).row.key ∉ s.inbox.map (·.key) → change s.data = some data →
      ConsumeStep calls t s { s with
        data, inbox := s.inbox ++ [(calls t).row],
        applied := s.applied ++ [{ call := t, row := (calls t).row, result, change }] }

/-- Entries were added, by calls of `writers`, each with its inbox row. -/
def Commits (writers : τ → Prop) (s s' : ConsumerState τ δ ρ) : Prop :=
  ∃ new, s'.applied = s.applied ++ new ∧ s'.inbox = s.inbox ++ new.map (·.row) ∧
    ∀ a ∈ new, writers a.call

theorem Commits.refl (writers : τ → Prop) (s : ConsumerState τ δ ρ) : Commits writers s s :=
  ⟨[], by simp, by simp, by simp⟩

theorem Commits.trans {writers : τ → Prop} {s₁ s₂ s₃ : ConsumerState τ δ ρ}
    (h₁ : Commits writers s₁ s₂) (h₂ : Commits writers s₂ s₃) : Commits writers s₁ s₃ := by
  obtain ⟨new₁, happlied₁, hinbox₁, hw₁⟩ := h₁
  obtain ⟨new₂, happlied₂, hinbox₂, hw₂⟩ := h₂
  refine ⟨new₁ ++ new₂, ?_, ?_, ?_⟩
  · rw [happlied₂, happlied₁, List.append_assoc]
  · rw [hinbox₂, hinbox₁, List.map_append, List.append_assoc]
  · intro a ha
    rcases List.mem_append.mp ha with ha | ha
    · exact hw₁ a ha
    · exact hw₂ a ha

theorem ConsumeStep.commits {calls : τ → ConsumeCall} {t : τ} {s s' : ConsumerState τ δ ρ}
    (h : ConsumeStep calls t s s') : Commits (· = t) s s' := by
  cases h with
  | quiet => exact Commits.refl _ s
  | committed result change data hfree hchange => exact ⟨[_], rfl, rfl, by simp⟩

def consumerContract (calls : τ → ConsumeCall) (t : τ) : Contract (ConsumerState τ δ ρ) where
  rely := Commits (· ≠ t)
  guar := ConsumeStep calls t
  assume _ _ := True
  rely_refl := Commits.refl _
  rely_trans := Commits.trans

/-! ### What a call leaves -/

/-- The call has committed nothing. -/
def NothingBy (t : τ) (s : ConsumerState τ δ ρ) : Prop := ∀ a ∈ s.applied, a.call ≠ t

theorem NothingBy.commits {t : τ} {s s' : ConsumerState τ δ ρ} (h : NothingBy t s)
    (hs : Commits (· ≠ t) s s') : NothingBy t s' := by
  obtain ⟨new, happlied, -, hw⟩ := hs
  intro a ha
  rw [happlied] at ha
  rcases List.mem_append.mp ha with ha | ha
  · exact h a ha
  · exact hw a ha

/-- What a call that answers has done: it committed what it reports, or nothing as the key was
taken. -/
def Consumed (calls : τ → ConsumeCall) (t : τ) (answer : Consumption ρ)
    (s : ConsumerState τ δ ρ) : Prop :=
  if answer.applied then
    ∃ a ∈ s.applied, a.call = t ∧ a.row = (calls t).row ∧ answer.result = some a.result
  else NothingBy t s ∧ (calls t).row.key ∈ s.inbox.map (·.key) ∧ answer.result = none

theorem Consumed.commits {calls : τ → ConsumeCall} {t : τ} {answer : Consumption ρ}
    {s s' : ConsumerState τ δ ρ} (h : Consumed calls t answer s) (hs : Commits (· ≠ t) s s') :
    Consumed calls t answer s' := by
  unfold Consumed at *
  have hs' := hs
  obtain ⟨new, happlied, hinbox, -⟩ := hs'
  split at h
  case isTrue htrue =>
    obtain ⟨a, ha, hcall⟩ := h
    rw [if_pos htrue, happlied]
    exact ⟨a, List.mem_append_left _ ha, hcall⟩
  case isFalse hfalse =>
    obtain ⟨hnothing, hkey, hresult⟩ := h
    rw [if_neg hfalse, hinbox, List.map_append]
    exact ⟨hnothing.commits hs, List.mem_append_left _ hkey, hresult⟩

/-! ### The program keeps the contract -/

section programs

variable {calls : τ → ConsumeCall} {t : τ} {α : Type} {s : ConsumerState τ δ ρ}
variable {Q : α → ConsumerState τ δ ρ → Prop} {k : Bool → ConsumerProgram τ δ ρ ε α}

theorem wp_raise_nothing {error : ConsumeError ε} (h : NothingBy t s) :
    (raise error : ConsumerProgram τ δ ρ ε α).wp (consumerContract calls t) Q
      (fun _ => NothingBy t) s :=
  fun _ hr => h.commits hr

theorem wp_ret_consumed {answer : Consumption ρ} (h : Consumed calls t answer s) :
    (ret answer : ConsumerProgram τ δ ρ ε (Consumption ρ)).wp (consumerContract calls t)
      (Consumed calls t) (fun _ => NothingBy t) s :=
  fun _ hr => h.commits hr

/-- A look in the inbox raises, or says whether the key is taken. -/
theorem wp_seen (h : NothingBy t s)
    (hk : ∀ s' found, NothingBy t s' →
      (found = true → (calls t).row.key ∈ s'.inbox.map (·.key)) →
      (k found).wp (consumerContract calls t) Q (fun _ => NothingBy t) s') :
    (seen (calls t) >>= k).wp (consumerContract calls t) Q (fun _ => NothingBy t) s := by
  intro s' hr i _
  have hnothing : NothingBy t s' := h.commits hr
  cases hfailure : i.failure with
  | some error =>
      simp only [hfailure]
      exact ⟨.quiet, wp_raise_nothing hnothing⟩
  | none =>
      simp only [hfailure]
      exact ⟨.quiet, hk s' _ hnothing hasKey_eq_true.mp⟩

theorem commit_cases (c : ConsumeCall) (result : ρ) (change : δ → Option δ)
    (i : ConsumeInput δ ρ ε) (s : ConsumerState τ δ ρ) :
    (∃ error, commit t c result change i s = (.failed error, s)) ∨
    commit t c result change i s = (.conflict, s) ∨
    ∃ data, c.row.key ∉ s.inbox.map (·.key) ∧ change s.data = some data ∧
      commit t c result change i s = (.committed, { s with
        data, inbox := s.inbox ++ [c.row],
        applied := s.applied ++ [{ call := t, row := c.row, result, change }] }) := by
  unfold commit
  cases i.failure with
  | some error => exact .inl ⟨error, rfl⟩
  | none =>
      refine .inr ?_
      dsimp only
      split
      case isTrue => exact .inl rfl
      case isFalse hkey =>
        rw [hasKey_eq_true] at hkey
        cases hchange : change s.data with
        | none => exact .inl rfl
        | some data => exact .inr ⟨data, hkey, rfl, rfl⟩

/-- Every call keeps the contract: what it reports is what it committed. -/
theorem consume_consumed (h : NothingBy t s) :
    (consume t (calls t) : ConsumerProgram τ δ ρ ε (Consumption ρ)).wp (consumerContract calls t)
      (Consumed calls t) (fun _ => NothingBy t) s := by
  have hduplicate : ∀ s' : ConsumerState τ δ ρ, NothingBy t s' →
      (calls t).row.key ∈ s'.inbox.map (·.key) → Consumed calls t .duplicate s' :=
    fun s' hnothing hkey => ⟨hnothing, hkey, rfl⟩
  refine wp_seen h fun s₁ found h₁ hkey₁ => ?_
  cases found with
  | true => exact wp_ret_consumed (hduplicate s₁ h₁ (hkey₁ rfl))
  | false =>
      intro s₂ hr₂ i _
      have h₂ : NothingBy t s₂ := h₁.commits hr₂
      refine ⟨.quiet, ?_⟩
      cases heffect : i.effect with
      | error error =>
          simp only [heffect]
          exact wp_raise_nothing h₂
      | ok staged =>
          obtain ⟨result, change⟩ := staged
          simp only [heffect]
          intro s₃ hr₃ i₃ _
          have h₃ : NothingBy t s₃ := h₂.commits hr₃
          obtain ⟨error, heq⟩ | heq | ⟨data, hfree, hchange, heq⟩ :=
            commit_cases (t := t) (calls t) result change i₃ s₃
          · rw [heq]
            exact ⟨.quiet, wp_raise_nothing h₃⟩
          · rw [heq]
            -- The key is looked for again; without it the conflict was the effect's own.
            refine ⟨.quiet, wp_seen h₃ fun s₄ found h₄ hkey₄ => ?_⟩
            cases found with
            | true => exact wp_ret_consumed (hduplicate s₄ h₄ (hkey₄ rfl))
            | false => exact wp_raise_nothing h₄
          · rw [heq]
            refine ⟨.committed result change data hfree hchange, wp_ret_consumed ?_⟩
            exact ⟨_, List.mem_append_right _ (List.mem_singleton.mpr rfl), rfl, rfl, rfl⟩

end programs

/-! ### Interleavings -/

/-- What holds of the database after every interleaving begun with `data`. -/
structure ConsumerInv (calls : τ → ConsumeCall) (data : δ) (s : ConsumerState τ δ ρ) : Prop where
  inbox : s.inbox = s.applied.map (·.row)
  keys : (s.applied.map (·.row.key)).Nodup
  rows : ∀ a ∈ s.applied, a.row = (calls a.call).row
  replay : s.applied.foldlM (fun d a => a.change d) data = some s.data

theorem ConsumerInv.step {calls : τ → ConsumeCall} {data : δ} {t : τ} {s s' : ConsumerState τ δ ρ}
    (h : ConsumerInv calls data s) (hs : ConsumeStep calls t s s') : ConsumerInv calls data s' := by
  cases hs with
  | quiet => exact h
  | committed result change data' hfree hchange =>
      rw [h.inbox, List.map_map] at hfree
      refine ⟨?_, ?_, ?_, ?_⟩
      · simp only [h.inbox, List.map_append, List.map_cons, List.map_nil]
      · rw [List.map_append, List.nodup_append]
        refine ⟨h.keys, List.nodup_singleton _, ?_⟩
        intro key hmem key' hkey'
        rw [List.map_singleton, List.mem_singleton] at hkey'
        rintro rfl
        exact hfree (hkey' ▸ hmem)
      · intro a ha
        rcases List.mem_append.mp ha with ha | ha
        · exact h.rows a ha
        · rw [List.mem_singleton.mp ha]
      · rw [List.foldlM_append, h.replay]
        simp [hchange]

/-- Deliveries to consumers over a database whose inbox is empty. -/
def consumerPool (ε : Type) (calls : τ → ConsumeCall) (data : δ) :
    Pool τ (ConsumeInput δ ρ ε) (ConsumerState τ δ ρ) (ConsumeError ε) (Consumption ρ) where
  procs t := consume t (calls t)
  state := { data, inbox := [], applied := [] }

section runs

variable {calls : τ → ConsumeCall} {data : δ}

theorem consumerPool_sound : Pool.Sound (consumerContract calls) (Consumed calls)
    (fun t _ => NothingBy t) (consumerPool (ρ := ρ) ε calls data) :=
  fun _ => consume_consumed (by simp [NothingBy, consumerPool])

theorem consumerPool_rely (t u : τ) (htu : t ≠ u) (s s' : ConsumerState τ δ ρ)
    (h : (consumerContract calls u).guar s s') : (consumerContract calls t).rely s s' := by
  obtain ⟨new, happlied, hinbox, hw⟩ := ConsumeStep.commits h
  exact ⟨new, happlied, hinbox, fun a ha => (hw a ha).trans_ne htu.symm⟩

end runs

/-- **Idempotent consumers.**  After every interleaving of deliveries, crashed ones among them: each
key of a consumer was committed at most once, by a call for it; the inbox has the rows of just what
was committed, and the data is what the committed changes make; a call that reports that it applied
the effect committed that result, one that reports a duplicate committed nothing for a key that is
taken, and one that raised committed nothing. -/
theorem consumed_once [DecidableEq τ] (calls : τ → ConsumeCall) (data : δ)
    (sched : List (τ × ConsumeInput δ ρ ε)) :
    let c := (consumerPool ε calls data).run sched
    (c.state.applied.map (·.row.key)).Nodup ∧
    c.state.inbox = c.state.applied.map (·.row) ∧
    (∀ a ∈ c.state.applied, a.row = (calls a.call).row) ∧
    c.state.applied.foldlM (fun d a => a.change d) data = some c.state.data ∧
    (∀ t answer, c.procs t = .ret answer →
      if answer.applied then ∃ a ∈ c.state.applied, a.call = t ∧ answer.result = some a.result
      else (∀ a ∈ c.state.applied, a.call ≠ t) ∧
        (calls t).row.key ∈ c.state.inbox.map (·.key)) ∧
    ∀ t error, c.procs t = .raise error → ∀ a ∈ c.state.applied, a.call ≠ t := by
  intro c
  have hmeets := Pool.meets_true (consumerPool (ρ := ρ) ε calls data) sched
  have hsound := Pool.run_wp consumerPool_sound (fun _ => rfl) consumerPool_rely hmeets
  have hinv : ConsumerInv calls data c.state :=
    Pool.run_inv consumerPool_sound (fun _ => rfl) consumerPool_rely
      (fun e _ s s' _ hs h => h.step hs) hmeets ⟨rfl, List.nodup_nil, by simp [consumerPool], rfl⟩
  refine ⟨hinv.keys, hinv.inbox, hinv.rows, hinv.replay, ?_, ?_⟩
  · intro t answer ht
    have hconsumed : Consumed calls t answer c.state := Pool.run_ret hsound ht
    unfold Consumed at hconsumed
    split at hconsumed
    case isTrue htrue =>
      obtain ⟨a, ha, hcall, -, hresult⟩ := hconsumed
      rw [if_pos htrue]
      exact ⟨a, ha, hcall, hresult⟩
    case isFalse hfalse =>
      rw [if_neg hfalse]
      exact ⟨hconsumed.1, hconsumed.2.1⟩
  · intro t error ht
    exact Pool.run_raise hsound ht

end PersonalOS
