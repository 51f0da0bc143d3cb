import PersonalOS.AtMostOnce

/-! # The execution ledger is consistent

Attempts at `ToolExecutor.execute`, one after another, on any keys, under any retry budget, each
stopped after any number of its steps.

* **Steps.** `LedgerStep` says what one step of an attempt does to the four tables and to the
  calls made outside.
* **Invariant.** `Consistent` ties a row to its receipt, its audit rows and its event, and the
  authorization on it to the one under which the provider was last entered.
* **Sessions.** `ledger_consistent` reads the claims off every session and every step of it, and
  says what a later attempt at a completed key returns. -/

namespace PersonalOS

open Concurrent Concurrent.Prog

/-! ### What a step does -/

/-- The dedupe key of an operation's success event. -/
def successKey (operationId : UUID) : String := s!"action.succeeded:{operationId}"

theorem toList_successKey (operationId : UUID) :
    (successKey operationId).toList = "action.succeeded:".toList ++ Nat.toDigits 10 operationId := by
  show (("action.succeeded:" : String) ++ Nat.repr operationId).toList = _
  rw [String.toList_append, Nat.toList_repr]

theorem successKey_inj {a b : UUID} (h : successKey a = successKey b) : a = b := by
  have hkeys := congrArg String.toList h
  rw [toList_successKey, toList_successKey] at hkeys
  have hdigits : Nat.toDigits 10 a = Nat.toDigits 10 b := List.append_cancel_left hkeys
  rw [← Nat.ofDigitChars_ten_toDigits (n := a), hdigits, Nat.ofDigitChars_ten_toDigits]

/-- The event announces that the operation succeeded. -/
def OutboxEvent.announces (operationId : UUID) (event : OutboxEvent) : Bool :=
  event.type == "action.succeeded" && event.dedupeKey == successKey operationId

/-- The rows agree on what the execution is made under. -/
def SameAuthorization (row row' : ToolExecution) : Prop :=
  row'.operationId = row.operationId ∧ row'.policyDecisionId = row.policyDecisionId ∧
    row'.approvalRef = row.approvalRef

/-- The ledger after an outcome was committed for `row`. -/
def Ledger.outcome (redactText : RedactText) (key : String) (row : ToolExecution)
    (receipt : ActionReceipt) (entry : AuditEntry) (payload : List (String × Option String))
    (l : Ledger) : Ledger :=
  { l.setRow key (Ledger.complete redactText receipt row) with
    audits := Ledger.auditRow row entry receipt.ok :: l.audits
    outbox := (if receipt.ok then
      [{ type := "action.succeeded", dedupeKey := successKey row.operationId, payload }] else []) ++
        l.outbox }

/-- What one step of an attempt does. -/
inductive LedgerStep (w : World) : World → Prop where
  | quiet : LedgerStep w w
  | entered (key : String) (row : ToolExecution) : w.ledger.executions key = some row →
      LedgerStep w { w with calls := .entered key (w.ledger.storedReceipt key) :: w.calls }
  | reconciled (key : String) (outcome : ReconcileOutcome) :
      LedgerStep w { w with calls := .reconciled key outcome :: w.calls }
  | claimed (key : String) (row : ToolExecution) : w.ledger.executions key = none →
      row.operationId = w.ledger.nextOperationId → row.status ≠ .completed → row.receipt = none →
      LedgerStep w { w with ledger :=
        { w.ledger.setRow key row with nextOperationId := w.ledger.nextOperationId + 1 } }
  | updated (key : String) (row row' : ToolExecution) : w.ledger.executions key = some row →
      row.status ≠ .completed → row'.status ≠ .completed → row'.receipt = row.receipt →
      row'.operationId = row.operationId → (SameAuthorization row row' ∨ Clear key w.calls) →
      LedgerStep w { w with ledger := w.ledger.setRow key row' }
  | failed (key : String) (row row' : ToolExecution) (entry : AuditEntry)
      (events : List OutboxEvent) : w.ledger.executions key = some row → row.status ≠ .completed →
      row'.status ≠ .completed → row'.receipt = row.receipt → SameAuthorization row row' →
      (∀ e ∈ events, e.type = "tool.operation.failed") →
      LedgerStep w { w with ledger :=
        { w.ledger.setRow key row' with
          audits := Ledger.auditRow row entry false :: w.ledger.audits
          outbox := events ++ w.ledger.outbox } }
  | recorded (redactText : RedactText) (key : String) (row : ToolExecution)
      (receipt : ActionReceipt) (entry : AuditEntry) (payload : List (String × Option String)) :
      w.ledger.executions key = some row → row.status ≠ .completed →
      LedgerStep w { w with
        ledger := w.ledger.outcome redactText key row receipt entry payload }

/-! ### The parts of the executor take such steps -/

section executor

variable {P : Type} {ex : ToolExecutor} {intent : ActionIntent P} {tool : String}
variable {authorization : ExecutionAuthorization} {w : World} {α : Type}

/-- Every step of `p` from `w` is a `LedgerStep`. -/
def TakesLedgerSteps (p : Execution α) (w : World) : Prop :=
  p.wp (.alone LedgerStep) (fun _ _ => True) (fun _ _ => True) w

/-- The row of `key` is not completed, and is made under `authorization`. -/
def HoldsUnder (redactText : RedactText) (key : String) (authorization : ExecutionAuthorization)
    (w : World) : Prop :=
  ∃ row, w.ledger.executions key = some row ∧ row.status ≠ .completed ∧
    row.policyDecisionId = authorization.policyDecisionId ∧
    row.approvalRef = authorization.approvalRef.map redactText.column

theorem recordReceipt_steps {receipt : ActionReceipt} {row : ToolExecution}
    (hrow : w.ledger.executions intent.idempotencyKey = some row) (hs : row.status ≠ .completed) :
    TakesLedgerSteps (ex.recordReceipt intent tool receipt) w := by
  unfold ToolExecutor.recordReceipt
  refine wp_onLedger ?_ ?_
  · simp only [Ledger.recordOutcome, hrow]
    split
    · exact .quiet
    · exact .recorded ex.redactText _ row _ _ _ hrow hs
  · split <;> simp

theorem failWith_steps {error : RaisedError} {row : ToolExecution}
    (hrow : w.ledger.executions intent.idempotencyKey = some row) (hs : row.status ≠ .completed) :
    TakesLedgerSteps (ex.failWith intent tool error) w := by
  unfold ToolExecutor.failWith
  refine wp_onLedger ?_ ?_
  · simp only [Ledger.recordFailure, hrow]
    refine .failed _ row _ _ _ hrow hs (by simp [Ledger.fail]) rfl ⟨rfl, rfl, rfl⟩ ?_
    intro e he
    split at he
    · cases he
    · obtain rfl := List.mem_singleton.mp he
      rfl
  · split <;> simp

theorem markUnknown_step {key : String} {row : ToolExecution}
    (hrow : w.ledger.executions key = some row) (hs : row.status ≠ .completed) :
    LedgerStep w { w with ledger := (Ledger.markUnknown key w.ledger).2 } ∧
      ∃ row', (Ledger.markUnknown key w.ledger).2.executions key = some row' ∧
        row'.status = .unknown ∧ SameAuthorization row row' := by
  rw [Ledger.markUnknown_eq hrow hs]
  refine ⟨.updated key row _ hrow hs (by simp) rfl rfl (Or.inl ⟨rfl, rfl, rfl⟩), ?_⟩
  exact ⟨_, Ledger.setRow_executions_self .., rfl, rfl, rfl, rfl⟩

/-- A key in doubt is taken back under what the row is made under already, or with the way
clear. -/
theorem reclaim_step {key : String} {row : ToolExecution} (redactText : RedactText)
    (authorization : ExecutionAuthorization) (hrow : w.ledger.executions key = some row)
    (hs : row.status = .unknown)
    (hsame : Clear key w.calls ∨ row.policyDecisionId = authorization.policyDecisionId ∧
      row.approvalRef = authorization.approvalRef.map redactText.column) :
    (Ledger.reclaim redactText key authorization w.ledger).1 = true ∧
      LedgerStep w { w with ledger := (Ledger.reclaim redactText key authorization w.ledger).2 } ∧
      HoldsUnder redactText key authorization
        { w with ledger := (Ledger.reclaim redactText key authorization w.ledger).2 } := by
  simp only [Ledger.reclaim, hrow, hs, if_true]
  refine ⟨trivial, .updated key row _ hrow (by simp [hs]) (by simp) rfl rfl ?_, ?_⟩
  · rcases hsame with hclear | ⟨hpolicy, happroval⟩
    · exact Or.inr hclear
    · exact Or.inl ⟨rfl, hpolicy.symm, happroval.symm⟩
  · exact ⟨_, Ledger.setRow_executions_self .., by simp, rfl, rfl⟩

/-- What a failed attempt leaves: a row in doubt, under the same authorization. -/
def LeavesUnder (redactText : RedactText) (key : String) (authorization : ExecutionAuthorization)
    (w : World) : Prop :=
  ∃ row, w.ledger.executions key = some row ∧ row.status = .unknown ∧
    row.policyDecisionId = authorization.policyDecisionId ∧
    row.approvalRef = authorization.approvalRef.map redactText.column

theorem prepareRetry_steps (hh : HoldsUnder ex.redactText intent.idempotencyKey authorization w) :
    (ex.prepareRetry intent tool).wp (.alone LedgerStep)
      (fun prepared w' => (∃ receipt, prepared = .settled receipt) ∨
        LeavesUnder ex.redactText intent.idempotencyKey authorization w') (fun _ _ => True) w := by
  obtain ⟨row, hrow, hs, hpolicy, happroval⟩ := hh
  obtain ⟨hstep, row', hrow', hunknown, hsame⟩ := markUnknown_step hrow hs
  have hleft : LeavesUnder ex.redactText intent.idempotencyKey authorization
      { w with ledger := (Ledger.markUnknown intent.idempotencyKey w.ledger).2 } :=
    ⟨row', hrow', hunknown, hsame.2.1.trans hpolicy, hsame.2.2.trans happroval⟩
  unfold ToolExecutor.prepareRetry
  refine wp_onLedger hstep ?_
  split
  · exact wp_alone_ret.mpr (Or.inr hleft)
  split
  · exact wp_alone_ret.mpr (Or.inr hleft)
  refine wp_reconcile ⟨.quiet, wp_alone_ret.mpr (Or.inr hleft)⟩ fun answer => ?_
  refine ⟨.reconciled intent.idempotencyKey answer.outcome, ?_⟩
  obtain ⟨outcome, receipt⟩ := answer
  cases outcome with
  | applied =>
      cases receipt with
      | none => exact wp_alone_ret.mpr (Or.inr hleft)
      | some receipt =>
          refine wp_bind (wp_mono (recordReceipt_steps hrow' (by rw [hunknown]; decide)) ?_
            (fun _ _ h => h))
          exact fun receipt' _ _ => wp_alone_ret.mpr (Or.inl ⟨receipt', rfl⟩)
  | notApplied => exact wp_alone_ret.mpr (Or.inr hleft)
  | indeterminate => exact wp_alone_ret.mpr (Or.inr hleft)

theorem run_steps {w : World} {attempt : ℕ}
    (hh : HoldsUnder ex.redactText intent.idempotencyKey authorization w) :
    TakesLedgerSteps (ex.run intent tool authorization attempt) w := by
  rw [ToolExecutor.run]
  obtain ⟨row, hrow, hs, -⟩ := id hh
  refine wp_enterProvider (.entered _ row hrow) (wp_input .quiet fun answer => ?_)
  cases answer with
  | ok receipt => exact recordReceipt_steps hrow hs
  | error error =>
      dsimp only
      split
      · rename_i hr
        have hle : attempt ≤ (ex.retryPolicies tool).maxRetries := of_decide_eq_true hr.1
        refine wp_bind (wp_mono (prepareRetry_steps hh) ?_ (fun _ _ h => h))
        rintro prepared w' (⟨receipt, rfl⟩ | ⟨row', hrow', hunknown, hsame⟩)
        · exact wp_alone_ret.mpr trivial
        · cases prepared with
          | settled receipt => exact wp_alone_ret.mpr trivial
          | abandon => exact failWith_steps hrow' (by rw [hunknown]; decide)
          | retry =>
              obtain ⟨hwon, hstep, hh'⟩ :=
                reclaim_step ex.redactText authorization hrow' hunknown (Or.inr hsame)
              refine wp_onLedger hstep ?_
              rw [hwon]
              -- The retry of the retry: the policy leaves one fewer.
              exact run_steps hh'
      · exact failWith_steps hrow hs
termination_by (ex.retryPolicies tool).maxRetries + 1 - attempt
decreasing_by omega

theorem resolveInDoubt_steps {record row : ToolExecution}
    (hrow : w.ledger.executions intent.idempotencyKey = some row) (hs : row.status ≠ .completed) :
    TakesLedgerSteps (ex.resolveInDoubt intent tool record authorization) w := by
  obtain ⟨hstep, row', hrow', hunknown, -⟩ := markUnknown_step hrow hs
  unfold ToolExecutor.resolveInDoubt
  refine wp_onLedger hstep ?_
  split
  · exact wp_alone_ret.mpr trivial
  refine wp_reconcile ⟨.quiet, wp_alone_ret.mpr trivial⟩ fun answer => ?_
  refine ⟨.reconciled intent.idempotencyKey answer.outcome, ?_⟩
  obtain ⟨outcome, receipt⟩ := answer
  cases outcome with
  | applied =>
      cases receipt with
      | none => exact wp_alone_ret.mpr trivial
      | some receipt => exact recordReceipt_steps hrow' (by rw [hunknown]; decide)
  | notApplied =>
      obtain ⟨hwon, hstep', hh'⟩ := reclaim_step
        (w := { ledger := _, calls := .reconciled intent.idempotencyKey .notApplied :: w.calls })
        ex.redactText authorization hrow' hunknown (Or.inl (Or.inl ⟨rfl, rfl⟩))
      refine wp_onLedger hstep' ?_
      rw [hwon]
      exact run_steps hh'
  | indeterminate => exact wp_alone_ret.mpr trivial

variable [ActionPayload P]

/-- Every step of an attempt is a `LedgerStep`, from a state in which a completed row has its
receipt. -/
theorem execute_steps {decision : Option ApprovalDecision}
    (hreceipt : ∀ key row, w.ledger.executions key = some row → row.status = .completed →
      row.receipt.isSome = true) : TakesLedgerSteps (ex.execute intent decision) w := by
  unfold ToolExecutor.execute ToolExecutor.authorize
  refine wp_bind (wp_input .quiet fun verdict => ?_)
  split
  · exact wp_alone_raise.mpr trivial
  split
  · exact wp_alone_raise.mpr trivial
  refine wp_alone_ret.mpr ?_
  unfold ToolExecutor.claim
  refine wp_bind (wp_alone_call.mpr fun _ => ⟨.quiet, ?_⟩)
  dsimp only
  cases hrow : w.ledger.executions intent.idempotencyKey with
  | none =>
      refine wp_alone_call.mpr fun _ => ?_
      simp only [Ledger.insertClaim, hrow]
      refine ⟨.claimed _ _ hrow rfl (by simp) rfl, wp_alone_ret.mpr (run_steps ?_)⟩
      exact ⟨_, Ledger.setRow_executions_self .., by simp, rfl, rfl⟩
  | some record =>
      refine wp_alone_ret.mpr ?_
      simp only [Bool.false_eq_true, if_false]
      split
      · exact wp_alone_raise.mpr trivial
      split
      · exact wp_alone_ret.mpr trivial
      · rename_i hns
        refine resolveInDoubt_steps hrow fun hs => ?_
        obtain ⟨receipt, hr⟩ := Option.isSome_iff_exists.mp (hreceipt _ _ hrow hs)
        exact hns receipt hs hr

end executor

/-! ### The invariant -/

/-- The row as it was when the provider was last entered under `key`; the newest step is first. -/
def dispatchedUnder (key : String) : List (World × World) → Option ToolExecution
  | [] => none
  | (w, w') :: earlier =>
      if w'.calls = .entered key (w.ledger.storedReceipt key) :: w.calls then w.ledger.executions key
      else dispatchedUnder key earlier

/-- The audit rows of an operation: one for its recorded outcome, which cites what the row was
made under, and before it those of the attempts that failed. -/
def Audited (row : ToolExecution) (audits : List AuditEvent) : Prop :=
  ∃ entry failures, (∀ audit ∈ failures, audit.succeeded = false) ∧
    audits.filter (·.operationId == row.operationId) =
      (row.receipt.map fun receipt => Ledger.auditRow row entry receipt.ok).toList ++ failures

/-- The success event of an operation is there once if its stored receipt is ok, and else not. -/
def Announced (row : ToolExecution) (outbox : List OutboxEvent) : Prop :=
  (outbox.filter (·.announces row.operationId)).length = if row.receipt.any (·.ok) then 1 else 0

/-- What every step keeps of the tables, and of the steps taken so far. -/
structure Consistent (w : World) (steps : List (World × World)) : Prop where
  completed_iff : ∀ key row, w.ledger.executions key = some row →
    (row.status = .completed ↔ row.receipt.isSome = true)
  operation_lt : ∀ key row, w.ledger.executions key = some row →
    row.operationId < w.ledger.nextOperationId
  operation_inj : ∀ key key' row row', w.ledger.executions key = some row →
    w.ledger.executions key' = some row' → row.operationId = row'.operationId → key = key'
  unclaimed : ∀ key, w.ledger.executions key = none → Clear key w.calls
  audited : ∀ key row, w.ledger.executions key = some row → Audited row w.ledger.audits
  announced : ∀ key row, w.ledger.executions key = some row → Announced row w.ledger.outbox
  fresh : ∀ operationId, w.ledger.nextOperationId ≤ operationId →
    w.ledger.audits.filter (·.operationId == operationId) = [] ∧
      w.ledger.outbox.filter (·.announces operationId) = []
  dispatched : ∀ key row, w.ledger.executions key = some row → ¬ Clear key w.calls →
    ∃ row₀, dispatchedUnder key steps = some row₀ ∧ SameAuthorization row₀ row

namespace Consistent

variable {w : World} {steps : List (World × World)} {key : String} {row row' : ToolExecution}
variable {l : Ledger}

theorem init : Consistent World.init [] where
  completed_iff := by intro key row h; cases h
  operation_lt := by intro key row h; cases h
  operation_inj := by intro key key' row row' h; cases h
  unclaimed := by intro key h; trivial
  audited := by intro key row h; cases h
  announced := by intro key row h; cases h
  fresh := by intro operationId h; exact ⟨rfl, rfl⟩
  dispatched := by intro key row h; cases h

theorem receipt_eq_none (h : Consistent w steps) (hrow : w.ledger.executions key = some row)
    (hs : row.status ≠ .completed) : row.receipt = none := by
  have := h.completed_iff key row hrow
  cases hr : row.receipt with
  | none => rfl
  | some receipt => exact absurd (this.mpr (by rw [hr]; rfl)) hs

theorem failures (h : Consistent w steps) (hrow : w.ledger.executions key = some row)
    (hs : row.status ≠ .completed) :
    ∀ audit ∈ w.ledger.audits.filter (·.operationId == row.operationId),
      audit.succeeded = false := by
  obtain ⟨entry, failures, hfailures, haudits⟩ := h.audited key row hrow
  rw [h.receipt_eq_none hrow hs] at haudits
  rw [haudits]
  simpa using hfailures

theorem unannounced (h : Consistent w steps) (hrow : w.ledger.executions key = some row)
    (hs : row.status ≠ .completed) :
    w.ledger.outbox.filter (·.announces row.operationId) = [] := by
  have hlength := h.announced key row hrow
  unfold Announced at hlength
  rw [h.receipt_eq_none hrow hs] at hlength
  exact List.length_eq_zero_iff.mp (by simpa using hlength)

theorem dispatchedUnder_ledger (steps : List (World × World)) :
    dispatchedUnder key ((w, { w with ledger := l }) :: steps) = dispatchedUnder key steps :=
  if_neg fun hcalls => List.cons_ne_self _ _ hcalls.symm

theorem setRow (h : Consistent w steps) (hrow : w.ledger.executions key = some row)
    (hexecutions : l.executions = (w.ledger.setRow key row').executions)
    (hnext : l.nextOperationId = w.ledger.nextOperationId)
    (hstatus : row'.status = .completed ↔ row'.receipt.isSome = true)
    (hoperation : row'.operationId = row.operationId)
    (hsame : SameAuthorization row row' ∨ Clear key w.calls)
    (haudited : Audited row' l.audits) (hannounced : Announced row' l.outbox)
    (haudits : ∀ operationId, operationId ≠ row.operationId →
      l.audits.filter (·.operationId == operationId) =
        w.ledger.audits.filter (·.operationId == operationId))
    (houtbox : ∀ operationId, operationId ≠ row.operationId →
      l.outbox.filter (·.announces operationId) =
        w.ledger.outbox.filter (·.announces operationId)) :
    Consistent { w with ledger := l } ((w, { w with ledger := l }) :: steps) := by
  have hself : l.executions key = some row' := by
    rw [hexecutions]
    exact Ledger.setRow_executions_self ..
  have hother : ∀ key', key' ≠ key → l.executions key' = w.ledger.executions key' := by
    intro key' hk
    rw [hexecutions]
    exact Ledger.setRow_executions_ne _ _ hk
  -- Every row of another key is there unchanged, under another operation id.
  have hcases : ∀ key' new, l.executions key' = some new →
      (key' = key ∧ new = row') ∨ (key' ≠ key ∧ w.ledger.executions key' = some new ∧
        new.operationId ≠ row.operationId) := by
    intro key' new hnew
    by_cases hk : key' = key
    · subst hk
      rw [hself] at hnew
      exact Or.inl ⟨rfl, (Option.some.inj hnew).symm⟩
    · rw [hother key' hk] at hnew
      exact Or.inr ⟨hk, hnew, fun hid => hk (h.operation_inj _ _ _ _ hnew hrow hid)⟩
  refine ⟨?_, ?_, ?_, ?_, ?_, ?_, ?_, ?_⟩
  · intro key' new hnew
    rcases hcases key' new hnew with ⟨rfl, rfl⟩ | ⟨-, hold, -⟩
    · exact hstatus
    · exact h.completed_iff key' new hold
  · intro key' new hnew
    rw [hnext]
    rcases hcases key' new hnew with ⟨rfl, rfl⟩ | ⟨-, hold, -⟩
    · rw [hoperation]
      exact h.operation_lt key' row hrow
    · exact h.operation_lt key' new hold
  · intro key₁ key₂ new₁ new₂ h₁ h₂ hid
    rcases hcases key₁ new₁ h₁ with ⟨rfl, rfl⟩ | ⟨-, hold₁, hne₁⟩
    · rcases hcases key₂ new₂ h₂ with ⟨rfl, -⟩ | ⟨-, -, hne₂⟩
      · rfl
      · exact absurd (hid.symm.trans hoperation) hne₂
    · rcases hcases key₂ new₂ h₂ with ⟨rfl, rfl⟩ | ⟨-, hold₂, -⟩
      · exact absurd (hid.trans hoperation) hne₁
      · exact h.operation_inj _ _ _ _ hold₁ hold₂ hid
  · intro key' hnone
    by_cases hk : key' = key
    · subst hk
      rw [show l.executions key' = some row' from hself] at hnone
      cases hnone
    · exact h.unclaimed key' ((hother key' hk).symm.trans hnone)
  · intro key' new hnew
    rcases hcases key' new hnew with ⟨rfl, rfl⟩ | ⟨-, hold, hne⟩
    · exact haudited
    · unfold Audited
      rw [haudits _ hne]
      exact h.audited key' new hold
  · intro key' new hnew
    rcases hcases key' new hnew with ⟨rfl, rfl⟩ | ⟨-, hold, hne⟩
    · exact hannounced
    · unfold Announced
      rw [houtbox _ hne]
      exact h.announced key' new hold
  · intro operationId hle
    rw [hnext] at hle
    have hne : operationId ≠ row.operationId := by
      have := h.operation_lt key row hrow
      unfold UUID at *
      omega
    rw [haudits _ hne, houtbox _ hne]
    exact h.fresh operationId hle
  · intro key' new hnew hclear
    rw [dispatchedUnder_ledger]
    rcases hcases key' new hnew with ⟨rfl, rfl⟩ | ⟨-, hold, -⟩
    · obtain ⟨row₀, hrow₀, hsame₀⟩ := h.dispatched key' row hrow hclear
      have hkept := hsame.resolve_right hclear
      exact ⟨row₀, hrow₀, hkept.1.trans hsame₀.1, hkept.2.1.trans hsame₀.2.1,
        hkept.2.2.trans hsame₀.2.2⟩
    · exact h.dispatched key' new hold hclear

theorem call (h : Consistent w steps) {event : CallEvent}
    (hclear : ∀ key, w.ledger.executions key = none → Clear key w.calls →
      Clear key (event :: w.calls))
    (hdispatched : ∀ key row, w.ledger.executions key = some row → ¬ Clear key (event :: w.calls) →
      event = .entered key (w.ledger.storedReceipt key) ∨
        (event ≠ .entered key (w.ledger.storedReceipt key) ∧ ¬ Clear key w.calls)) :
    Consistent { w with calls := event :: w.calls }
      ((w, { w with calls := event :: w.calls }) :: steps) where
  completed_iff := h.completed_iff
  operation_lt := h.operation_lt
  operation_inj := h.operation_inj
  unclaimed := fun key hnone => hclear key hnone (h.unclaimed key hnone)
  audited := h.audited
  announced := h.announced
  fresh := h.fresh
  dispatched := by
    intro key row hrow hc
    unfold dispatchedUnder
    rcases hdispatched key row hrow hc with rfl | ⟨hne, hold⟩
    · exact ⟨row, (if_pos rfl).trans hrow, rfl, rfl, rfl⟩
    · rw [if_neg fun hcalls => hne (List.cons.inj hcalls).1]
      exact h.dispatched key row hrow hold

theorem claimed (h : Consistent w steps) (hnone : w.ledger.executions key = none)
    (hoperation : row.operationId = w.ledger.nextOperationId) (hstatus : row.status ≠ .completed)
    (hreceipt : row.receipt = none)
    (hl : l = { w.ledger.setRow key row with
      nextOperationId := w.ledger.nextOperationId + 1 }) :
    Consistent { w with ledger := l } ((w, { w with ledger := l }) :: steps) := by
  subst hl
  have hfresh := h.fresh row.operationId (Nat.le_of_eq hoperation.symm)
  have hcases : ∀ key' new, (w.ledger.setRow key row).executions key' = some new →
      (key' = key ∧ new = row) ∨ (key' ≠ key ∧ w.ledger.executions key' = some new) := by
    intro key' new hnew
    by_cases hk : key' = key
    · subst hk
      rw [Ledger.setRow_executions_self] at hnew
      exact Or.inl ⟨rfl, (Option.some.inj hnew).symm⟩
    · rw [Ledger.setRow_executions_ne _ _ hk] at hnew
      exact Or.inr ⟨hk, hnew⟩
  have hlt : ∀ key' new, w.ledger.executions key' = some new → new.operationId ≠ row.operationId := by
    intro key' new hnew
    have := h.operation_lt key' new hnew
    unfold UUID at *
    omega
  refine ⟨?_, ?_, ?_, ?_, ?_, ?_, ?_, ?_⟩
  · intro key' new hnew
    rcases hcases key' new hnew with ⟨rfl, rfl⟩ | ⟨-, hold⟩
    · simp [hstatus, hreceipt]
    · exact h.completed_iff key' new hold
  · intro key' new hnew
    rcases hcases key' new hnew with ⟨rfl, rfl⟩ | ⟨-, hold⟩
    · rw [hoperation]
      exact Nat.lt_succ_self _
    · exact Nat.lt_succ_of_lt (h.operation_lt key' new hold)
  · intro key₁ key₂ new₁ new₂ h₁ h₂ hid
    rcases hcases key₁ new₁ h₁ with ⟨rfl, rfl⟩ | ⟨-, hold₁⟩
    · rcases hcases key₂ new₂ h₂ with ⟨rfl, -⟩ | ⟨-, hold₂⟩
      · rfl
      · exact absurd hid.symm (hlt _ _ hold₂)
    · rcases hcases key₂ new₂ h₂ with ⟨rfl, rfl⟩ | ⟨-, hold₂⟩
      · exact absurd hid (hlt _ _ hold₁)
      · exact h.operation_inj _ _ _ _ hold₁ hold₂ hid
  · intro key' hnone'
    by_cases hk : key' = key
    · subst hk
      exact h.unclaimed key' hnone
    · exact h.unclaimed key' ((Ledger.setRow_executions_ne _ _ hk).symm.trans hnone')
  · intro key' new hnew
    rcases hcases key' new hnew with ⟨rfl, rfl⟩ | ⟨-, hold⟩
    · refine ⟨⟨"", "", ""⟩, [], by simp, ?_⟩
      rw [hreceipt]
      exact hfresh.1
    · exact h.audited key' new hold
  · intro key' new hnew
    rcases hcases key' new hnew with ⟨rfl, rfl⟩ | ⟨-, hold⟩
    · show (w.ledger.outbox.filter _).length = _
      rw [hfresh.2, hreceipt]
      rfl
    · exact h.announced key' new hold
  · intro operationId hle
    exact h.fresh operationId (Nat.le_of_succ_le hle)
  · intro key' new hnew hclear
    rw [dispatchedUnder_ledger]
    rcases hcases key' new hnew with ⟨rfl, rfl⟩ | ⟨-, hold⟩
    · exact absurd (h.unclaimed key' hnone) hclear
    · exact h.dispatched key' new hold hclear

theorem step {w' : World} (h : Consistent w steps) (hs : LedgerStep w w') :
    Consistent w' ((w, w') :: steps) := by
  cases hs with
  | quiet =>
      refine ⟨h.completed_iff, h.operation_lt, h.operation_inj, h.unclaimed, h.audited, h.announced,
        h.fresh, fun key row hrow hclear => ?_⟩
      have hquiet : dispatchedUnder key ((w, w) :: steps) = dispatchedUnder key steps :=
        dispatchedUnder_ledger (l := w.ledger) steps
      rw [hquiet]
      exact h.dispatched key row hrow hclear
  | entered key row hrow =>
      refine h.call (fun key' hnone hclear => ⟨?_, hclear⟩) fun key' row' hrow' hclear => ?_
      · rintro rfl
        rw [hrow] at hnone
        cases hnone
      · by_cases hk : key = key'
        · subst hk
          exact Or.inl rfl
        · exact Or.inr ⟨by simp [hk], fun hc => hclear ⟨hk, hc⟩⟩
  | reconciled key outcome =>
      refine h.call (fun key' _ hclear => Or.inr hclear) fun key' row' hrow' hclear => ?_
      exact Or.inr ⟨by simp, fun hc => hclear (Or.inr hc)⟩
  | claimed key row hnone hoperation hstatus hreceipt =>
      exact h.claimed hnone hoperation hstatus hreceipt rfl
  | updated key row row' hrow hs hs' hreceipt hoperation hsame =>
      have hnone := h.receipt_eq_none hrow hs
      refine h.setRow hrow rfl rfl (by simp [hs', hreceipt, hnone]) hoperation hsame ?_ ?_
        (fun _ _ => rfl) fun _ _ => rfl
      · refine ⟨⟨"", "", ""⟩, _, h.failures hrow hs, ?_⟩
        rw [hreceipt, hnone, hoperation]
        rfl
      · unfold Announced
        rw [hreceipt, hnone, hoperation]
        exact congrArg List.length (h.unannounced hrow hs)
  | failed key row row' entry events hrow hs hs' hreceipt hsame hevents =>
      have hnone := h.receipt_eq_none hrow hs
      have hquiet : ∀ operationId, events.filter (·.announces operationId) = [] := by
        intro operationId
        rw [List.filter_eq_nil_iff]
        intro e he
        simp [OutboxEvent.announces, hevents e he]
      refine h.setRow hrow rfl rfl (by simp [hs', hreceipt, hnone]) hsame.1 (Or.inl hsame) ?_ ?_ ?_ ?_
      · refine ⟨⟨"", "", ""⟩, Ledger.auditRow row entry false ::
          w.ledger.audits.filter (·.operationId == row.operationId), ?_, ?_⟩
        · intro audit haudit
          rcases List.mem_cons.mp haudit with rfl | haudit
          · rfl
          · exact h.failures hrow hs audit haudit
        · rw [hreceipt, hnone, hsame.1, List.filter_cons_of_pos (by simp [Ledger.auditRow])]
          rfl
      · unfold Announced
        rw [hreceipt, hnone, hsame.1, List.filter_append, hquiet]
        exact congrArg List.length (h.unannounced hrow hs)
      · intro operationId hne
        exact List.filter_cons_of_neg (by simpa [Ledger.auditRow] using Ne.symm hne)
      · intro operationId _
        rw [List.filter_append, hquiet]
        rfl
  | recorded redactText key row receipt entry payload hrow hs =>
      have hannounces : ∀ operationId, (if receipt.ok then
          [({ type := "action.succeeded", dedupeKey := successKey row.operationId,
              payload } : OutboxEvent)] else []).filter (·.announces operationId) =
          if receipt.ok ∧ operationId = row.operationId then
            [{ type := "action.succeeded", dedupeKey := successKey row.operationId, payload }]
          else [] := by
        intro operationId
        cases hok : receipt.ok with
        | false => simp
        | true =>
            by_cases hid : operationId = row.operationId
            · subst hid
              simp [OutboxEvent.announces]
            · have hkey : successKey row.operationId ≠ successKey operationId :=
                fun hkey => hid (successKey_inj hkey).symm
              simp [OutboxEvent.announces, hkey, hid]
      refine h.setRow hrow rfl rfl (by simp [Ledger.complete]) rfl (Or.inl ⟨rfl, rfl, rfl⟩) ?_ ?_ ?_ ?_
      · refine ⟨entry, _, h.failures hrow hs, ?_⟩
        simp only [Ledger.outcome, Ledger.complete]
        rw [List.filter_cons_of_pos (by simp [Ledger.auditRow])]
        rfl
      · unfold Announced
        simp only [Ledger.outcome, Ledger.complete]
        rw [List.filter_append, hannounces, h.unannounced hrow hs]
        cases hok : receipt.ok <;> simp [ActionReceipt.redact, hok]
      · intro operationId hne
        exact List.filter_cons_of_neg (by simpa [Ledger.auditRow] using Ne.symm hne)
      · intro operationId hne
        simp only [Ledger.outcome]
        rw [List.filter_append, hannounces, if_neg fun hid => hne hid.2]
        rfl

end Consistent

/-! ### Sessions -/

/-- What one step does to a recorded outcome: it leaves one that is there alone, and commits a new
one together with its audit row and, for a success, its event. -/
structure CommitsOutcome (key : String) (w w' : World) : Prop where
  kept : ∀ row, w.ledger.executions key = some row → row.status = .completed →
    w'.ledger.executions key = some row ∧
      w'.ledger.audits.filter (·.operationId == row.operationId) =
        w.ledger.audits.filter (·.operationId == row.operationId) ∧
      w'.ledger.outbox.filter (·.announces row.operationId) =
        w.ledger.outbox.filter (·.announces row.operationId)
  committed : ∀ row', ¬ Holds key .completed w → w'.ledger.executions key = some row' →
    row'.status = .completed → ∃ receipt entry, row'.receipt = some receipt ∧
      w'.ledger.audits = Ledger.auditRow row' entry receipt.ok :: w.ledger.audits ∧
      ∃ events, w'.ledger.outbox = events ++ w.ledger.outbox ∧
        events.length = (if receipt.ok then 1 else 0) ∧
        ∀ event ∈ events, event.announces row'.operationId = true

/-- A step that changes the row of one key, which was not completed, leaves the outcomes of the
other keys alone. -/
theorem Consistent.commitsOutcome {w : World} {steps : List (World × World)} {key : String}
    {row row' : ToolExecution} {l : Ledger} (h : Consistent w steps)
    (hrow : w.ledger.executions key = some row) (hs : row.status ≠ .completed)
    (hexecutions : l.executions = (w.ledger.setRow key row').executions)
    (haudits : ∀ operationId, operationId ≠ row.operationId →
      l.audits.filter (·.operationId == operationId) =
        w.ledger.audits.filter (·.operationId == operationId))
    (houtbox : ∀ operationId, operationId ≠ row.operationId →
      l.outbox.filter (·.announces operationId) =
        w.ledger.outbox.filter (·.announces operationId))
    (hcommitted : row'.status = .completed → ∃ receipt entry, row'.receipt = some receipt ∧
      l.audits = Ledger.auditRow row' entry receipt.ok :: w.ledger.audits ∧
      ∃ events, l.outbox = events ++ w.ledger.outbox ∧
        events.length = (if receipt.ok then 1 else 0) ∧
        ∀ event ∈ events, event.announces row'.operationId = true) (key' : String) :
    CommitsOutcome key' w { w with ledger := l } := by
  refine ⟨fun old hold hdone => ?_, fun new hnot hnew hdone => ?_⟩
  · have hk : key' ≠ key := by
      rintro rfl
      rw [hrow] at hold
      exact hs (Option.some.inj hold ▸ hdone)
    have hne : old.operationId ≠ row.operationId :=
      fun hid => hk (h.operation_inj _ _ _ _ hold hrow hid)
    refine ⟨?_, haudits _ hne, houtbox _ hne⟩
    show l.executions key' = some old
    rw [hexecutions, Ledger.setRow_executions_ne _ _ hk]
    exact hold
  · have hnew' : l.executions key' = some new := hnew
    rw [hexecutions] at hnew'
    by_cases hk : key' = key
    · subst hk
      rw [Ledger.setRow_executions_self] at hnew'
      obtain rfl := Option.some.inj hnew'
      exact hcommitted hdone
    · rw [Ledger.setRow_executions_ne _ _ hk] at hnew'
      exact absurd ⟨new, hnew', hdone⟩ hnot

theorem commitsOutcome_calls (key : String) (w : World) (calls : List CallEvent) :
    CommitsOutcome key w { w with calls } :=
  ⟨fun _ hrow _ => ⟨hrow, rfl, rfl⟩, fun row' hnot hrow hdone => absurd ⟨row', hrow, hdone⟩ hnot⟩

theorem LedgerStep.commitsOutcome {w w' : World} {steps : List (World × World)} (hs : LedgerStep w w')
    (h : Consistent w steps) (key : String) : CommitsOutcome key w w' := by
  cases hs with
  | quiet => exact commitsOutcome_calls key w w.calls
  | entered key' row hrow => exact commitsOutcome_calls key w _
  | reconciled key' outcome => exact commitsOutcome_calls key w _
  | claimed key' row hnone hoperation hstatus hreceipt =>
      refine ⟨fun old hold _ => ⟨?_, rfl, rfl⟩, fun new hnot hnew hdone => ?_⟩
      · have hk : key ≠ key' := by
          rintro rfl
          rw [hnone] at hold
          cases hold
        exact (Ledger.setRow_executions_ne _ _ hk).trans hold
      · have hnew' : (w.ledger.setRow key' row).executions key = some new := hnew
        by_cases hk : key = key'
        · subst hk
          rw [Ledger.setRow_executions_self] at hnew'
          exact absurd (Option.some.inj hnew' ▸ hdone) hstatus
        · rw [Ledger.setRow_executions_ne _ _ hk] at hnew'
          exact absurd ⟨new, hnew', hdone⟩ hnot
  | updated key' row row' hrow hs hs' hreceipt hoperation hsame =>
      exact h.commitsOutcome hrow hs rfl (fun _ _ => rfl) (fun _ _ => rfl)
        (fun hdone => absurd hdone hs') key
  | failed key' row row' entry events hrow hs hs' hreceipt hsame hevents =>
      refine h.commitsOutcome
        (l := { w.ledger.setRow key' row' with
          audits := Ledger.auditRow row entry false :: w.ledger.audits
          outbox := events ++ w.ledger.outbox })
        hrow hs rfl ?_ ?_ (fun hdone => absurd hdone hs') key
      · intro operationId hne
        exact List.filter_cons_of_neg (by simpa [Ledger.auditRow] using Ne.symm hne)
      · intro operationId _
        have hquiet : events.filter (·.announces operationId) = [] := by
          rw [List.filter_eq_nil_iff]
          intro e he
          simp [OutboxEvent.announces, hevents e he]
        rw [List.filter_append, hquiet]
        rfl
  | recorded redactText key' row receipt entry payload hrow hs =>
      refine h.commitsOutcome (l := w.ledger.outcome redactText key' row receipt entry payload)
        hrow hs rfl ?_ ?_ (fun _ => ?_) key
      · intro operationId hne
        exact List.filter_cons_of_neg (by simpa [Ledger.auditRow] using Ne.symm hne)
      · intro operationId hne
        simp only [Ledger.outcome]
        rw [List.filter_append]
        cases hok : receipt.ok with
        | false => rfl
        | true =>
            have hkey : successKey row.operationId ≠ successKey operationId :=
              fun hkey => hne (successKey_inj hkey).symm
            simp [OutboxEvent.announces, hkey]
      · refine ⟨_, entry, rfl, rfl, _, rfl, ?_, ?_⟩
        · cases hok : receipt.ok <;> simp [ActionReceipt.redact, hok]
        · intro event hevent
          split at hevent
          · obtain rfl := List.mem_singleton.mp hevent
            simp [OutboxEvent.announces, Ledger.complete]
          · cases hevent

section session

variable {P : Type} [ActionPayload P]

/-- Every step of a session, newest first, as the worlds before and after it. -/
def sessionSteps (made : List (Attempt P)) : List (World × World) :=
  (attempts (made.map fun a => ((a.executor.execute a.intent a.decision).traced, a.inputs))
    (.init, [])).2

/-- What the steps of a session keep: the invariant, and what each of them has done. -/
def ConsistentSteps (w : World) (steps : List (World × World)) : Prop :=
  Consistent w steps ∧ ∀ s ∈ steps, ∀ key, CommitsOutcome key s.1 s.2

theorem ConsistentSteps.step (w w' : World) (steps : List (World × World)) (hs : LedgerStep w w')
    (h : ConsistentSteps w steps) : ConsistentSteps w' ((w, w') :: steps) := by
  refine ⟨h.1.step hs, fun s hmem key => ?_⟩
  rcases List.mem_cons.mp hmem with rfl | hmem
  · exact hs.commitsOutcome h.1 key
  · exact h.2 s hmem key

theorem session_consistent (made : List (Attempt P)) :
    ConsistentSteps (session made) (sessionSteps made) := by
  have hfst := attempts_traced (made.map fun a => (a.executor.execute a.intent a.decision, a.inputs))
    World.init []
  rw [List.map_map] at hfst
  unfold sessionSteps session
  rw [← hfst]
  refine attempts_inv (J := fun x : World × List (World × World) => ConsistentSteps x.1 x.2)
    (Q := fun _ _ => True) (E := fun _ _ => True)
    ⟨Consistent.init, fun s hmem => absurd hmem List.not_mem_nil⟩ ?_
  intro r hr x hx
  obtain ⟨a, -, rfl⟩ := List.mem_map.mp hr
  refine wp_traced ConsistentSteps.step (execute_steps fun key row hrow hs => ?_) hx
  exact (hx.1.completed_iff key row hrow).mp hs

/-- Policy clears the action, outright or with the approval at hand. -/
def ToolExecutor.cleared (intent : ActionIntent P) (decision : Option ApprovalDecision)
    (verdict : PolicyDecision) : Bool :=
  verdict.decision == .allow ||
    verdict.decision == .requireApproval && ToolExecutor.approved intent decision

/-- A later attempt at a completed key, cleared by policy, returns the stored receipt in its two
steps. -/
theorem execute_replays {ex : ToolExecutor} {intent : ActionIntent P}
    {decision : Option ApprovalDecision} {w : World} {row : ToolExecution} {receipt : ActionReceipt}
    (hrow : w.ledger.executions intent.idempotencyKey = some row) (hs : row.status = .completed)
    (hreceipt : row.receipt = some receipt)
    (hrequest : row.requestFingerprint = some intent.fingerprint) (e₀ e₁ : Env) (rest : List Env)
    (hcleared : ToolExecutor.cleared intent decision e₀.verdict = true) :
    (ex.execute intent decision).exec (e₀ :: e₁ :: rest) w =
      (ret { receipt with actionId := intent.actionId }, w) := by
  have hdeny : e₀.verdict.decision ≠ .deny := by
    intro hd
    simp [ToolExecutor.cleared, hd] at hcleared
  have happroved : ¬ (e₀.verdict.decision = .requireApproval ∧
      ToolExecutor.approved intent decision = false) := by
    rintro ⟨hd, ha⟩
    simp [ToolExecutor.cleared, hd, ha] at hcleared
  have hconflict : ToolExecutor.conflicts intent row = false := by
    simp [ToolExecutor.conflicts, hrequest]
  unfold ToolExecutor.execute ToolExecutor.authorize ToolExecutor.claim
  simp only [input_bind, call_bind, read_bind, exec_cons, Prog.step, hdeny, happroved, if_false,
    pure_eq, ret_bind, hrow, Bool.false_eq_true, hconflict, hs, hreceipt, exec_ret]

/-- **The ledger is consistent**: after attempts made one after another, on any keys, under any
retry budgets and each crashing anywhere, a row is completed exactly when its receipt is stored;
then one audit row records its outcome, under the authorization on the row, and one success event
is there exactly when the receipt is ok.  That authorization is the one under which the provider
was last entered, unless the provider has since denied that the call took effect.  Receipt, audit
row and event are committed by one step, and left alone by every later one; and a later attempt
with the same request that policy clears returns the stored receipt with its own action id. -/
theorem ledger_consistent (made : List (Attempt P)) :
    (∀ key row, (session made).ledger.executions key = some row →
      (row.status = .completed ↔ row.receipt.isSome = true) ∧
      Audited row (session made).ledger.audits ∧ Announced row (session made).ledger.outbox ∧
      (¬ Clear key (session made).calls → ∃ dispatched,
        dispatchedUnder key (sessionSteps made) = some dispatched ∧
          SameAuthorization dispatched row)) ∧
    (∀ s ∈ sessionSteps made, ∀ key, CommitsOutcome key s.1 s.2) ∧
    (∀ (executor : ToolExecutor) (intent : ActionIntent P) (decision : Option ApprovalDecision)
        (row : ToolExecution) (receipt : ActionReceipt),
      (session made).ledger.executions intent.idempotencyKey = some row →
      row.receipt = some receipt → row.requestFingerprint = some intent.fingerprint →
      ∀ e₀ e₁ rest, ToolExecutor.cleared intent decision e₀.verdict = true →
        (executor.execute intent decision).exec (e₀ :: e₁ :: rest) (session made) =
          (ret { receipt with actionId := intent.actionId }, session made)) := by
  obtain ⟨h, hsteps⟩ := session_consistent made
  refine ⟨fun key row hrow => ?_, hsteps, ?_⟩
  · exact ⟨h.completed_iff key row hrow, h.audited key row hrow, h.announced key row hrow,
      h.dispatched key row hrow⟩
  · intro executor intent decision row receipt hrow hreceipt hrequest e₀ e₁ rest hcleared
    have hdone : row.status = .completed := (h.completed_iff _ _ hrow).mpr (by rw [hreceipt]; rfl)
    exact execute_replays hrow hdone hreceipt hrequest e₀ e₁ rest hcleared

end session

/-- One submission, and what the surroundings answer at each of its steps. -/
def submissionUnder (decision : Decision) : Attempt PlainPayload where
  executor := ToolExecutor.default false id
  intent := submission
  decision := none
  inputs := List.replicate 6 ⟨⟨decision, none⟩, .ok ⟨1, true, some "ref-1", none⟩, none⟩

/-- Policy is asked on every attempt, replays included: an attempt at a completed key that it
denies raises, and does not return the stored receipt. -/
theorem denied_replay_raises :
    ¬ ∀ (made : List (Attempt PlainPayload)) (later : Attempt PlainPayload) (row : ToolExecution)
        (receipt : ActionReceipt),
      (session made).ledger.executions later.intent.idempotencyKey = some row →
      row.receipt = some receipt → row.requestFingerprint = some later.intent.fingerprint →
      ((later.executor.execute later.intent later.decision).exec later.inputs
        (session made)).1.finished = true →
      ((later.executor.execute later.intent later.decision).exec later.inputs (session made)).1 =
        ret { receipt with actionId := later.intent.actionId } := by
  intro h
  have hstored : ((session [submissionUnder .allow]).ledger.storedReceipt "submit-acme").isSome := by
    decide +kernel
  have hrequest : ((session [submissionUnder .allow]).ledger.executions "submit-acme").map
      (·.requestFingerprint) = some (some (submissionUnder .deny).intent.fingerprint) := by
    decide +kernel
  have hdenied : ∀ w, (((submissionUnder .deny).executor.execute (submissionUnder .deny).intent
      (submissionUnder .deny).decision).exec (submissionUnder .deny).inputs w).1 =
        raise (.policyDenied ⟨.deny, none⟩) := fun _ => rfl
  obtain ⟨row, hrow, hrequest⟩ := Option.map_eq_some_iff.mp hrequest
  unfold Ledger.storedReceipt at hstored
  rw [hrow] at hstored
  obtain ⟨receipt, hreceipt⟩ := Option.isSome_iff_exists.mp hstored
  have hreplay := h _ (submissionUnder .deny) row receipt hrow hreceipt hrequest
  rw [hdenied] at hreplay
  cases hreplay rfl

end PersonalOS
