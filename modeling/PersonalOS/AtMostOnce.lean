import PersonalOS.ToolExecutor

/-! # At most once per idempotency key

Attempts at `ToolExecutor.execute`, one after another and each stopped after any number of
its steps, enter the provider again only once a reconciler has said that the action never
took effect.

* **Invariant.** `AtMostOnce` relates the ledger to the calls made outside: a row is
  completed exactly when it has a receipt, a key without a row has not been entered since
  the last `NOT_APPLIED` (`Clear`), and every entry was made with the way clear and no
  receipt stored (`Vetted`).
* **Steps.** One lemma for each part of the executor says that every step it takes keeps the
  invariant (`run_keeps`, `resolveInDoubt_keeps`, `execute_keeps`).
* **Sessions.** `attempts_inv` carries it over whole sessions. -/

namespace PersonalOS

open Concurrent Concurrent.Prog

/-- No entry under `key` is newer than the last `NOT_APPLIED` answer for it. -/
def Clear (key : String) : List CallEvent → Prop
  | [] => True
  | .entered k _ :: calls => k ≠ key ∧ Clear key calls
  | .reconciled k outcome :: calls => (k = key ∧ outcome = .notApplied) ∨ Clear key calls

/-- Every entry was made with the way clear and no receipt stored. -/
def Vetted : List CallEvent → Prop
  | [] => True
  | .entered key stored :: calls => stored = none ∧ Clear key calls ∧ Vetted calls
  | .reconciled _ _ :: calls => Vetted calls

/-- What every step keeps; `asked` is whether some executor may ask a reconciler. -/
structure AtMostOnce (asked : Bool) (w : World) : Prop where
  completed_iff : ∀ key row, w.ledger.executions key = some row →
    (row.status = .completed ↔ row.receipt.isSome = true)
  unclaimed : ∀ key, w.ledger.executions key = none → Clear key w.calls
  vetted : Vetted w.calls
  reconciled : ∀ key outcome, .reconciled key outcome ∈ w.calls → asked = true

/-- The row of `key` has this status. -/
def Holds (key : String) (status : ToolExecutionStatus) (w : World) : Prop :=
  ∃ row, w.ledger.executions key = some row ∧ row.status = status

namespace AtMostOnce

variable {asked : Bool} {w : World} {key : String} {row : ToolExecution} {l : Ledger}

theorem init : AtMostOnce asked World.init where
  completed_iff := by intro key row h; cases h
  unclaimed := by intro key h; trivial
  vetted := trivial
  reconciled := by intro key outcome h; cases h

theorem setRow (h : AtMostOnce asked w)
    (hl : l.executions = (w.ledger.setRow key row).executions)
    (hrow : row.status = .completed ↔ row.receipt.isSome = true) :
    AtMostOnce asked { w with ledger := l } where
  completed_iff := by
    intro key' row' h'
    simp only [hl] at h'
    by_cases hk : key' = key
    · subst hk
      rw [Ledger.setRow_executions_self] at h'
      obtain rfl := Option.some.inj h'
      exact hrow
    · rw [Ledger.setRow_executions_ne _ _ hk] at h'
      exact h.completed_iff key' row' h'
  unclaimed := by
    intro key' h'
    simp only [hl] at h'
    by_cases hk : key' = key
    · subst hk
      rw [Ledger.setRow_executions_self] at h'
      cases h'
    · rw [Ledger.setRow_executions_ne _ _ hk] at h'
      exact h.unclaimed key' h'
  vetted := h.vetted
  reconciled := h.reconciled

theorem reconcile (h : AtMostOnce asked w) (ha : asked = true) (key : String)
    (outcome : ReconcileOutcome) :
    AtMostOnce asked { w with calls := .reconciled key outcome :: w.calls } where
  completed_iff := h.completed_iff
  unclaimed := by intro key' h'; exact Or.inr (h.unclaimed key' h')
  vetted := h.vetted
  reconciled := by intro _ _ _; exact ha

theorem receipt_eq_none (h : AtMostOnce asked w) (hrow : w.ledger.executions key = some row)
    (hs : row.status ≠ .completed) : row.receipt = none := by
  have := h.completed_iff key row hrow
  cases hr : row.receipt with
  | none => rfl
  | some receipt => exact absurd (this.mpr (by rw [hr]; rfl)) hs

theorem enter (h : AtMostOnce asked w) (hh : Holds key .inProgress w) (hc : Clear key w.calls) :
    AtMostOnce asked
      { w with calls := .entered key (w.ledger.storedReceipt key) :: w.calls } := by
  obtain ⟨row, hrow, hs⟩ := hh
  have hn : row.receipt = none := h.receipt_eq_none hrow (by rw [hs]; decide)
  refine ⟨h.completed_iff, ?_, ?_, ?_⟩
  · intro key' h'
    refine ⟨?_, h.unclaimed key' h'⟩
    rintro rfl
    rw [hrow] at h'
    cases h'
  · exact ⟨by simp [Ledger.storedReceipt, hrow, hn], hc, h.vetted⟩
  · intro key' outcome hmem
    cases hmem with
    | tail _ hmem => exact h.reconciled key' outcome hmem

end AtMostOnce

/-! ### Rules for the atomic steps -/

section rules

variable {α β : Type} {guar : World → World → Prop} {Q : α → World → Prop}
variable {E : ExecuteError → World → Prop} {w : World} {key : String}

theorem wp_onLedger {f : Ledger → β × Ledger} {k : β → Execution α}
    (hg : guar w { w with ledger := (f w.ledger).2 })
    (hk : (k (f w.ledger).1).wp (.alone guar) Q E { w with ledger := (f w.ledger).2 }) :
    (onLedger f >>= k).wp (.alone guar) Q E w :=
  wp_alone_call.mpr fun _ => ⟨hg, hk⟩

theorem wp_enterProvider {k : Unit → Execution α}
    (hg : guar w { w with calls := .entered key (w.ledger.storedReceipt key) :: w.calls })
    (hk : (k ()).wp (.alone guar) Q E
      { w with calls := .entered key (w.ledger.storedReceipt key) :: w.calls }) :
    (enterProvider key >>= k).wp (.alone guar) Q E w :=
  wp_alone_call.mpr fun _ => ⟨hg, hk⟩

theorem wp_reconcile {k : Option Reconciliation → Execution α}
    (hraise : guar w w ∧ (k none).wp (.alone guar) Q E w)
    (hanswer : ∀ answer : Reconciliation,
      guar w { w with calls := .reconciled key answer.outcome :: w.calls } ∧
      (k (some answer)).wp (.alone guar) Q E
        { w with calls := .reconciled key answer.outcome :: w.calls }) :
    (reconcile key >>= k).wp (.alone guar) Q E w := by
  refine wp_alone_call.mpr fun env => ?_
  dsimp only
  cases henv : env.reconciliation with
  | none => exact hraise
  | some answer => exact hanswer answer

theorem wp_input {f : Env → β} {k : β → Execution α} (hg : guar w w)
    (hk : ∀ b, (k b).wp (.alone guar) Q E w) : (input f >>= k).wp (.alone guar) Q E w :=
  wp_alone_call.mpr fun _ => ⟨hg, hk _⟩

end rules

/-! ### The parts of the executor -/

section executor

variable {P : Type} {ex : ToolExecutor} {intent : ActionIntent P} {tool : String}
variable {asked : Bool} {w : World} {α : Type}

/-- Every step of `p` from `w` keeps the invariant. -/
def Keeps (asked : Bool) (p : Execution α) (w : World) : Prop :=
  p.wp (.alone fun _ w' => AtMostOnce asked w') (fun _ _ => True) (fun _ _ => True) w

theorem recordReceipt_keeps {receipt : ActionReceipt} {row : ToolExecution} (h : AtMostOnce asked w)
    (hrow : w.ledger.executions intent.idempotencyKey = some row) :
    Keeps asked (ex.recordReceipt intent tool receipt) w := by
  unfold ToolExecutor.recordReceipt
  refine wp_onLedger ?_ ?_
  · rcases Ledger.recordOutcome_cases hrow with hc | ⟨l', hc, hl⟩
    · rw [hc]
      exact h
    · rw [hc]
      exact h.setRow hl (by simp [Ledger.complete])
  · split <;> simp

theorem failWith_keeps {error : RaisedError} {status : ToolExecutionStatus} (h : AtMostOnce asked w)
    (hh : Holds intent.idempotencyKey status w) (hs : status ≠ .completed) :
    Keeps asked (ex.failWith intent tool error) w := by
  obtain ⟨row, hrow, rfl⟩ := hh
  have hn : row.receipt = none := h.receipt_eq_none hrow hs
  unfold ToolExecutor.failWith
  refine wp_onLedger ?_ ?_
  · obtain ⟨l', hc, hl⟩ := Ledger.recordFailure_eq hrow
    rw [hc]
    exact h.setRow hl (by simp [Ledger.fail, hn])
  · split <;> simp

theorem AtMostOnce.markUnknown {key : String} {row : ToolExecution} (h : AtMostOnce asked w)
    (hrow : w.ledger.executions key = some row) (hs : row.status ≠ .completed) :
    AtMostOnce asked { w with ledger := (Ledger.markUnknown key w.ledger).2 } ∧
      Holds key .unknown { w with ledger := (Ledger.markUnknown key w.ledger).2 } := by
  have hn : row.receipt = none := h.receipt_eq_none hrow hs
  rw [Ledger.markUnknown_eq hrow hs]
  exact ⟨h.setRow rfl (by simp [hn]), _, Ledger.setRow_executions_self .., rfl⟩

theorem AtMostOnce.reclaim {key : String} (redactText : RedactText)
    (authorization : ExecutionAuthorization) (h : AtMostOnce asked w) (hh : Holds key .unknown w) :
    ∃ l, Ledger.reclaim redactText key authorization w.ledger = (true, l) ∧
      AtMostOnce asked { w with ledger := l } ∧ Holds key .inProgress { w with ledger := l } := by
  obtain ⟨row, hrow, hs⟩ := hh
  have hn : row.receipt = none := h.receipt_eq_none hrow (by rw [hs]; decide)
  obtain ⟨row', hc, hs', hr'⟩ := Ledger.reclaim_eq redactText authorization hrow hs
  refine ⟨_, hc, h.setRow rfl (by simp [hs', hr', hn]), row', ?_, hs'⟩
  exact Ledger.setRow_executions_self ..

theorem prepareRetry_keeps (h : AtMostOnce asked w)
    (hh : Holds intent.idempotencyKey .inProgress w) (hask : ex.reconciler = true → asked = true)
    (hreq : (ex.retryPolicies tool).requiresReconciliation = true) :
    (ex.prepareRetry intent tool).wp (.alone fun _ w' => AtMostOnce asked w')
      (fun prepared w' => match prepared with
        | .settled _ => True
        | .abandon => AtMostOnce asked w' ∧ Holds intent.idempotencyKey .unknown w'
        | .retry => AtMostOnce asked w' ∧ Holds intent.idempotencyKey .unknown w' ∧
            Clear intent.idempotencyKey w'.calls)
      (fun _ _ => True) w := by
  obtain ⟨row, hrow, hs⟩ := hh
  obtain ⟨h', hh'⟩ := h.markUnknown hrow (by rw [hs]; decide)
  unfold ToolExecutor.prepareRetry
  refine wp_onLedger h' ?_
  rw [hreq]
  simp only [Bool.true_eq_false, if_false]
  split
  · exact wp_alone_ret.mpr ⟨h', hh'⟩
  · rename_i hex
    have ha : asked = true := hask (by simpa using hex)
    refine wp_reconcile ⟨h', wp_alone_ret.mpr ⟨h', hh'⟩⟩ ?_
    intro answer
    have hr := h'.reconcile ha intent.idempotencyKey answer.outcome
    refine ⟨hr, ?_⟩
    obtain ⟨outcome, receipt⟩ := answer
    obtain ⟨row', hrow', hs'⟩ := hh'
    cases outcome with
    | applied =>
        cases receipt with
        | none => exact wp_alone_ret.mpr ⟨hr, row', hrow', hs'⟩
        | some receipt =>
            refine wp_bind (wp_mono (recordReceipt_keeps hr hrow') ?_ (fun _ _ h => h))
            exact fun _ _ _ => wp_alone_ret.mpr trivial
    | notApplied => exact wp_alone_ret.mpr ⟨hr, ⟨row', hrow', hs'⟩, Or.inl ⟨rfl, rfl⟩⟩
    | indeterminate => exact wp_alone_ret.mpr ⟨hr, row', hrow', hs'⟩

/-- The retry loop enters the provider only with the way clear. -/
theorem run_keeps {w : World} {authorization : ExecutionAuthorization} {attempt : ℕ} (h : AtMostOnce asked w)
    (hh : Holds intent.idempotencyKey .inProgress w) (hc : Clear intent.idempotencyKey w.calls)
    (hp : (ex.retryPolicies tool).Guarded) (ha : 1 ≤ attempt)
    (hask : ex.reconciler = true → asked = true) :
    Keeps asked (ex.run intent tool authorization attempt) w := by
  rw [ToolExecutor.run]
  refine wp_enterProvider (h.enter hh hc) (wp_input (h.enter hh hc) ?_)
  intro answer
  cases answer with
  | ok receipt =>
      obtain ⟨row, hrow, -⟩ := id hh
      exact recordReceipt_keeps (h.enter hh hc) hrow
  | error error =>
      dsimp only
      split
      · rename_i hr
        have hle : attempt ≤ (ex.retryPolicies tool).maxRetries := of_decide_eq_true hr.1
        refine wp_bind (wp_mono (prepareRetry_keeps (h.enter hh hc) hh hask (hp.requires ha hr.1))
          ?_ (fun _ _ h => h))
        intro prepared w' hw'
        cases prepared with
        | settled receipt => exact wp_alone_ret.mpr trivial
        | abandon => exact failWith_keeps hw'.1 hw'.2 (by decide)
        | retry =>
            obtain ⟨h', hh', hc'⟩ := hw'
            obtain ⟨l, hl, h'', hh''⟩ := h'.reclaim ex.redactText authorization hh'
            refine wp_onLedger (by rw [hl]; exact h'') ?_
            rw [hl]
            -- The retry of the retry: the policy leaves one fewer.
            exact run_keeps h'' hh'' hc' hp (by omega) hask
      · exact failWith_keeps (h.enter hh hc) hh (by decide)
termination_by (ex.retryPolicies tool).maxRetries + 1 - attempt
decreasing_by omega

/-- Settling a key in doubt executes again only with the way clear. -/
theorem resolveInDoubt_keeps {record row : ToolExecution} {authorization : ExecutionAuthorization}
    (h : AtMostOnce asked w) (hrow : w.ledger.executions intent.idempotencyKey = some row)
    (hs : row.status ≠ .completed) (hp : (ex.retryPolicies tool).Guarded)
    (hask : ex.reconciler = true → asked = true) :
    Keeps asked (ex.resolveInDoubt intent tool record authorization) w := by
  obtain ⟨h', hh'⟩ := h.markUnknown hrow hs
  unfold ToolExecutor.resolveInDoubt
  refine wp_onLedger h' ?_
  split
  · exact wp_alone_ret.mpr trivial
  · rename_i hex
    have ha : asked = true := hask (by simpa using hex)
    refine wp_reconcile ⟨h', wp_alone_ret.mpr trivial⟩ ?_
    intro answer
    have hr := h'.reconcile ha intent.idempotencyKey answer.outcome
    refine ⟨hr, ?_⟩
    obtain ⟨outcome, receipt⟩ := answer
    cases outcome with
    | applied =>
        cases receipt with
        | none => exact wp_alone_ret.mpr trivial
        | some receipt =>
            obtain ⟨row', hrow', -⟩ := hh'
            exact recordReceipt_keeps hr hrow'
    | notApplied =>
        obtain ⟨l, hl, h'', hh''⟩ := hr.reclaim ex.redactText authorization hh'
        refine wp_onLedger (by rw [hl]; exact h'') ?_
        rw [hl]
        exact run_keeps h'' hh'' (Or.inl ⟨rfl, rfl⟩) hp (by omega) hask
    | indeterminate => exact wp_alone_ret.mpr trivial

variable [ActionPayload P]

theorem authorize_keeps {decision : Option ApprovalDecision} (h : AtMostOnce asked w) :
    (ToolExecutor.authorize intent decision).wp (.alone fun _ w' => AtMostOnce asked w')
      (fun _ w' => w' = w) (fun _ _ => True) w := by
  unfold ToolExecutor.authorize
  refine wp_input h ?_
  intro verdict
  split
  · exact wp_alone_raise.mpr trivial
  split
  · exact wp_alone_raise.mpr trivial
  · exact wp_alone_ret.mpr rfl

theorem claim_keeps {authorization : ExecutionAuthorization} (h : AtMostOnce asked w) :
    (ex.claim intent tool authorization).wp (.alone fun _ w' => AtMostOnce asked w')
      (fun claim w' => AtMostOnce asked w' ∧ match claim with
        | (_, true) => Holds intent.idempotencyKey .inProgress w' ∧
            Clear intent.idempotencyKey w'.calls
        | (record, false) => w'.ledger.executions intent.idempotencyKey = some record)
      (fun _ _ => True) w := by
  unfold ToolExecutor.claim
  refine wp_alone_call.mpr fun _ => ⟨h, ?_⟩
  dsimp only
  cases hrow : w.ledger.executions intent.idempotencyKey with
  | some row => exact wp_alone_ret.mpr ⟨h, hrow⟩
  | none =>
      obtain ⟨row, l, hl, hs, hn, hex⟩ := Ledger.insertClaim_eq ex.redactText tool
        intent.fingerprint authorization hrow
      have h' : AtMostOnce asked { w with ledger := l } := h.setRow hex (by simp [hs, hn])
      refine wp_alone_call.mpr fun _ => ?_
      dsimp only
      rw [hl]
      refine ⟨h', wp_alone_ret.mpr ⟨h', ⟨row, ?_, hs⟩, h.unclaimed _ hrow⟩⟩
      rw [hex]
      exact Ledger.setRow_executions_self ..

/-- Every step of an attempt keeps the invariant. -/
theorem execute_keeps {decision : Option ApprovalDecision} (h : AtMostOnce asked w)
    (hp : (ex.retryPolicies (ex.toolFor intent.kind)).Guarded)
    (hask : ex.reconciler = true → asked = true) : Keeps asked (ex.execute intent decision) w := by
  unfold ToolExecutor.execute
  refine wp_bind (wp_mono (authorize_keeps h) ?_ (fun _ _ h => h))
  rintro authorization w' rfl
  refine wp_bind (wp_mono (claim_keeps h) ?_ (fun _ _ h => h))
  rintro ⟨record, claimed⟩ w'' ⟨h', hclaim⟩
  cases claimed with
  | true => exact run_keeps h' hclaim.1 hclaim.2 hp (by omega) hask
  | false =>
      simp only [Bool.false_eq_true, if_false]
      split
      · exact wp_alone_raise.mpr trivial
      split
      · exact wp_alone_ret.mpr trivial
      · rename_i hns
        refine resolveInDoubt_keeps h' hclaim ?_ hp hask
        intro hs
        have hr := (h'.completed_iff _ _ hclaim).mp hs
        obtain ⟨receipt, hreceipt⟩ := Option.isSome_iff_exists.mp hr
        exact hns receipt hs hreceipt

end executor

/-! ### Sessions -/

/-- One attempt, and the inputs of the steps it took before it ended or crashed. -/
structure Attempt (P : Type) where
  executor : ToolExecutor
  intent : ActionIntent P
  decision : Option ApprovalDecision
  inputs : List Env

/-- The retry budget the attempt runs under. -/
def Attempt.policy {P : Type} (attempt : Attempt P) : RetryPolicy :=
  attempt.executor.retryPolicies (attempt.executor.toolFor attempt.intent.kind)

/-- What attempts made one after another leave behind. -/
def session {P : Type} [ActionPayload P] (made : List (Attempt P)) : World :=
  attempts (made.map fun a => (a.executor.execute a.intent a.decision, a.inputs)) .init

/-- The call is an entry under `key`. -/
def CallEvent.isEntry (key : String) : CallEvent → Bool
  | .entered k _ => k == key
  | .reconciled _ _ => false

@[simp] theorem CallEvent.isEntry_entered (key k : String) (stored : Option ActionReceipt) :
    (CallEvent.entered k stored).isEntry key = (k == key) := rfl

@[simp] theorem CallEvent.isEntry_reconciled (key k : String) (outcome : ReconcileOutcome) :
    (CallEvent.reconciled k outcome).isEntry key = false := rfl

theorem Clear.of_append {key : String} {stored : Option ActionReceipt} {between earlier : List CallEvent}
    (h : Clear key (between ++ .entered key stored :: earlier)) :
    .reconciled key .notApplied ∈ between := by
  induction between with
  | nil => exact absurd rfl h.1
  | cons call between ih =>
      cases call with
      | entered k s => exact List.mem_cons_of_mem _ (ih h.2)
      | reconciled k outcome =>
          rcases h with ⟨rfl, rfl⟩ | h
          · exact List.mem_cons_self
          · exact List.mem_cons_of_mem _ (ih h)

theorem Vetted.of_append {later calls : List CallEvent} (h : Vetted (later ++ calls)) :
    Vetted calls := by
  induction later with
  | nil => exact h
  | cons call later ih =>
      cases call with
      | entered k s => exact ih h.2.2
      | reconciled k outcome => exact ih h

theorem Vetted.stored_eq_none {key : String} {stored : Option ActionReceipt} {calls : List CallEvent}
    (h : Vetted calls) (hmem : .entered key stored ∈ calls) : stored = none := by
  obtain ⟨later, earlier, rfl⟩ := List.append_of_mem hmem
  exact h.of_append.1

theorem Clear.filter_isEntry {key : String} {calls : List CallEvent} (h : Clear key calls)
    (hasked : ∀ outcome, .reconciled key outcome ∉ calls) : calls.filter (·.isEntry key) = [] := by
  induction calls with
  | nil => rfl
  | cons call calls ih =>
      have hasked' : ∀ outcome, .reconciled key outcome ∉ calls :=
        fun outcome hmem => hasked outcome (List.mem_cons_of_mem _ hmem)
      cases call with
      | entered k s => simpa [h.1] using ih h.2 hasked'
      | reconciled k outcome =>
          rcases h with ⟨rfl, rfl⟩ | h
          · exact absurd List.mem_cons_self (hasked .notApplied)
          · simpa using ih h hasked'

theorem Vetted.length_filter_isEntry {key : String} {calls : List CallEvent} (h : Vetted calls)
    (hasked : ∀ outcome, .reconciled key outcome ∉ calls) :
    (calls.filter (·.isEntry key)).length ≤ 1 := by
  induction calls with
  | nil => simp
  | cons call calls ih =>
      have hasked' : ∀ outcome, .reconciled key outcome ∉ calls :=
        fun outcome hmem => hasked outcome (List.mem_cons_of_mem _ hmem)
      cases call with
      | reconciled k outcome => simpa using ih h hasked'
      | entered k s =>
          by_cases hk : k = key
          · subst hk
            simp [h.2.1.filter_isEntry hasked']
          · simpa [hk] using ih h.2.2 hasked'

section session

variable {P : Type} [ActionPayload P] {made : List (Attempt P)}

theorem session_inv {asked : Bool} (hp : ∀ a ∈ made, a.policy.Guarded)
    (hask : ∀ a ∈ made, a.executor.reconciler = true → asked = true) :
    AtMostOnce asked (session made) := by
  refine attempts_inv (Q := fun _ _ => True) (E := fun _ _ => True) AtMostOnce.init ?_
  intro r hr w hw
  obtain ⟨a, ha, rfl⟩ := List.mem_map.mp hr
  exact execute_keeps hw (hp a ha) (hask a ha)

/-- **At most once**: attempts made one after another, on any keys and each crashing
anywhere, enter the provider under `key` a second time only after a `NOT_APPLIED` answer for
it, never with a receipt stored, and at most once where no reconciler is registered. -/
theorem session_atMostOnce (made : List (Attempt P))
    (hp : ∀ a ∈ made, a.policy = .send ∨ a.policy = .calendarWrite)
    (key : String) :
    (∀ later between earlier stored stored',
      (session made).calls =
        later ++ .entered key stored' :: (between ++ .entered key stored :: earlier) →
      .reconciled key .notApplied ∈ between) ∧
    (∀ stored, .entered key stored ∈ (session made).calls → stored = none) ∧
    ((∀ a ∈ made, a.executor.reconciler = false) →
      ((session made).calls.filter (·.isEntry key)).length ≤ 1) := by
  have hg : ∀ a ∈ made, a.policy.Guarded := by
    intro a ha
    rcases hp a ha with h | h
    · exact h ▸ RetryPolicy.send_guarded
    · exact h ▸ RetryPolicy.calendarWrite_guarded
  have hinv : AtMostOnce true (session made) := session_inv hg fun _ _ _ => rfl
  have hv := hinv.vetted
  refine ⟨?_, fun stored => hv.stored_eq_none, ?_⟩
  · intro later between earlier stored stored' hcalls
    rw [hcalls] at hv
    exact hv.of_append.2.1.of_append
  · intro hnone
    have hinv : AtMostOnce false (session made) :=
      session_inv hg fun a ha h => absurd h (by simp [hnone a ha])
    exact hv.length_filter_isEntry fun outcome hmem => absurd (hinv.reconciled _ _ hmem) (by decide)

end session

/-- A submission whose process dies in the provider call, and its retry without a reconciler. -/
def crashedSubmission : List (Attempt PlainPayload) :=
  let intent : ActionIntent PlainPayload :=
    { actionId := 1, kind := .submitApplication, target := "acme", summary := "apply to Acme",
      payload := .empty, idempotencyKey := "submit-acme", requestedBy := "graph:job_search" }
  let env : Env := ⟨⟨.allow, none⟩, .ok ⟨1, true, some "ref-1", none⟩, none⟩
  let executor := ToolExecutor.default false id
  [⟨executor, intent, none, List.replicate 4 env⟩, ⟨executor, intent, none, List.replicate 9 env⟩]

theorem session_atMostOnce_crashedSubmission :
    ((session crashedSubmission).calls.filter (·.isEntry "submit-acme")).length ≤ 1 :=
  (session_atMostOnce crashedSubmission
    (by simp [crashedSubmission, Attempt.policy, ToolExecutor.default_retryPolicies])
    "submit-acme").2.2 (by simp [crashedSubmission, ToolExecutor.default])

end PersonalOS
