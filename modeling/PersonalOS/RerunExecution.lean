import PersonalOS.ApplicationLifecycle
import PersonalOS.JobSearchGraph
import PersonalOS.LedgerConsistency

/-! # Re-running the execution node

`execute_approved_actions` over the execution ledger.  The process may die after any step, in
particular after an action was executed and before the node's update is checkpointed; the node is
then run again from the same checkpointed state, at a later time.

* **Node.** `executeApprovedOver` redeems the pending actions through `ToolExecutor.execute`;
  `redeemOver_refines` says that it does what `redeem` does with some executor.
* **Replay.** `redeemOver_reports`: every step leaves the recorded outcomes alone, and an action
  that is let through and has one is reported with it.
* **Expiry.** The gate looks at the clock before the executor looks at the ledger, so whether an
  executed action is reported or refused depends on when the node is run again
  (`rerun_reports_iff`). -/

namespace PersonalOS

open Concurrent Concurrent.Prog

variable {P : Type} [ActionPayload P]

/-! ### The node over the ledger -/

/-- What the node raises. -/
inductive NodeError where
  | contract (error : ContractError)
  | executor (error : ExecuteError)

abbrev NodeProgram := Prog Env World NodeError

/-- Redeem the actions whose approval still fits them through the executor, refuse the rest. -/
def redeemOver (ex : ToolExecutor) (requests : List ApprovalRequest)
    (approvals : List ApprovalDecision) (now : Time) :
    List (ActionIntent P) → NodeProgram (List ActionReceipt × List ApprovalRefusal)
  | [] => return ([], [])
  | intent :: intents => do
      let decision := latest (·.actionId) intent.actionId approvals
      match authorizeExecution intent (latest (·.actionId) intent.actionId requests) decision now,
          decision with
      | some refusal, _ =>
          let u ← redeemOver ex requests approvals now intents
          return (u.1, refusal :: u.2)
      -- Unreachable: the gate refuses an action with no decision.
      | none, none => raise (.contract .malformed)
      | none, some decision =>
          match ← (ex.execute intent (some decision)).attempt with
          | .error error => raise (.executor error)
          | .ok receipt =>
              let u ← redeemOver ex requests approvals now intents
              return (receipt.redact ex.redactText :: u.1, u.2)

/-- The state after the node appended its update. -/
def JobSearchState.settled {P : Type} (state : JobSearchState P)
    (u : List ActionReceipt × List ApprovalRefusal) : JobSearchState P :=
  { state with
    actionReceipts := state.actionReceipts ++ u.1
    approvalRefusals := state.approvalRefusals ++ u.2 }

/-- `execute_approved_actions`, its clock read once. -/
def executeApprovedOver (ex : ToolExecutor) (now : Time) (state : JobSearchState P) :
    NodeProgram (JobSearchState P) :=
  match load state.pendingActions with
  | .error error => raise (.contract error)
  | .ok intents => do
      let u ← redeemOver ex state.approvalRequests state.approvals now intents
      return state.settled u

/-! ### The node refines the one over ports -/

theorem redeem_congr {redactText : RedactText} {executor executor' : ActionExecutor P}
    {requests : List ApprovalRequest} {approvals : List ApprovalDecision} {now : Time} {n : ℕ}
    {intents : List (ActionIntent P)} (h : ∀ m, n ≤ m → executor m = executor' m) :
    redeem redactText executor requests approvals now n intents =
      redeem redactText executor' requests approvals now n intents := by
  induction intents generalizing n with
  | nil => rfl
  | cons intent intents ih =>
      simp only [redeem]
      rw [h n (Nat.le_refl n), ih fun m hm => h m (Nat.le_of_succ_le hm)]

/-- What the node returns is what it returns with an executor that answers as the ledger did. -/
theorem redeemOver_refines {ex : ToolExecutor} {requests : List ApprovalRequest}
    {approvals : List ApprovalDecision} {now : Time} {intents : List (ActionIntent P)} {w : World} :
    (redeemOver ex requests approvals now intents).wp (.alone fun _ _ => True)
      (fun u _ => ∀ n, ∃ executor : ActionExecutor P,
        (redeem ex.redactText executor requests approvals now n intents).update = .ok u)
      (fun _ _ => True) w := by
  induction intents generalizing w with
  | nil => exact wp_alone_ret.mpr fun n => ⟨fun _ _ _ => .error .malformed, rfl⟩
  | cons intent intents ih =>
      unfold redeemOver
      dsimp only
      split
      · rename_i refusal decision hauth
        refine wp_bind (wp_mono ih (fun u w' hu => wp_alone_ret.mpr fun n => ?_) fun _ _ h => h)
        obtain ⟨executor, hrest⟩ := hu (n + 1)
        refine ⟨executor, ?_⟩
        simp only [redeem, hauth, hrest]
        rfl
      · exact wp_alone_raise.mpr trivial
      · rename_i decision hauth hdecision
        refine wp_bind (wp_attempt (wp_mono wp_alone_true (fun receipt w' _ => ?_) fun _ _ _ => ?_))
        · refine wp_bind (wp_mono ih (fun u w'' hu => wp_alone_ret.mpr fun n => ?_) fun _ _ h => h)
          obtain ⟨executor, hrest⟩ := hu (n + 1)
          refine ⟨fun m => if m = n then fun _ _ => .ok receipt else executor m, ?_⟩
          have hcongr : ∀ m, n + 1 ≤ m →
              (if m = n then fun _ _ => .ok receipt else executor m) = executor m := by
            intro m hm
            rw [if_neg (by omega)]
          simp only [redeem, redeem_congr hcongr, hrest, if_true]
          rw [hdecision] at hauth ⊢
          rw [hauth]
          rfl
        · exact wp_alone_raise.mpr trivial

/-! ### Receipts and refusals -/

theorem redeem_update {redactText : RedactText} {executor : ActionExecutor P}
    {requests : List ApprovalRequest} {approvals : List ApprovalDecision} {now : Time} {n : ℕ}
    {intents : List (ActionIntent P)} {u : List ActionReceipt × List ApprovalRefusal}
    (h : (redeem redactText executor requests approvals now n intents).update = .ok u) :
    u.1.length + u.2.length = intents.length ∧
      u.2 = intents.filterMap fun intent => authorizeExecution intent
        (latest (·.actionId) intent.actionId requests)
        (latest (·.actionId) intent.actionId approvals) now := by
  induction intents generalizing n u with
  | nil =>
      obtain rfl := Except.ok.inj h
      exact ⟨rfl, rfl⟩
  | cons intent intents ih =>
      simp only [redeem] at h
      rw [List.filterMap_cons]
      split at h
      · rename_i refusal hauth
        rw [hauth]
        cases hrest : (redeem redactText executor requests approvals now (n + 1) intents).update with
        | error error => rw [hrest] at h; cases h
        | ok rest =>
            rw [hrest] at h
            obtain rfl := Except.ok.inj h
            obtain ⟨hlength, hrefusals⟩ := ih hrest
            rw [← hrefusals]
            refine ⟨?_, rfl⟩
            simp only [List.length_cons]
            omega
      · cases h
      · rename_i decision hauth hdecision
        rw [hauth]
        split at h
        · cases h
        · rename_i receipt hreceipt
          cases hrest : (redeem redactText executor requests approvals now (n + 1)
              intents).update with
          | error error => rw [hrest] at h; cases h
          | ok rest =>
              rw [hrest] at h
              obtain rfl := Except.ok.inj h
              obtain ⟨hlength, hrefusals⟩ := ih hrest
              refine ⟨?_, hrefusals⟩
              simp only [List.length_cons]
              omega

theorem authorizeExecution_cleared {intent : ActionIntent P} {request : ApprovalRequest}
    {decision : ApprovalDecision} {now : Time} (hid : request.actionId = intent.actionId)
    (hclears : decision.clears request = true) :
    (intent.fingerprint = request.actionHash → request.expiresAt ≤ now →
      ∃ refusal, authorizeExecution intent (some request) (some decision) now = some refusal ∧
        refusal.reason = .expired) ∧
    (now < request.expiresAt → ∀ refusal,
      authorizeExecution intent (some request) (some decision) now = some refusal →
        refusal.reason ≠ .expired) := by
  simp only [ApprovalDecision.clears, Bool.and_eq_true, beq_iff_eq] at hclears
  obtain ⟨⟨hanswers, hverdict⟩, hhash⟩ := hclears
  refine ⟨fun hsame hexpired => ?_, fun hopen refusal hrefusal => ?_⟩
  · simp [authorizeExecution, ApprovalRequest.describes, hid, hanswers, hverdict, hhash, hsame,
      ApprovalRequest.isExpired, hexpired]
  · have hexpired : ¬ request.expiresAt ≤ now := by
      unfold Time at *
      omega
    simp only [authorizeExecution, ApprovalRequest.describes, hid, hanswers, hverdict, hhash,
      ApprovalRequest.isExpired, hexpired, decide_false, beq_self_eq_true, Bool.not_true, if_true,
      Bool.false_eq_true, if_false, ne_eq, not_true_eq_false] at hrefusal
    split at hrefusal
    · obtain rfl := Option.some.inj hrefusal
      exact fun hreason => by cases hreason
    · cases hrefusal

/-! ### Replay -/

/-- A row is completed exactly when it has its receipt. -/
def Receipted (w : World) : Prop :=
  ∀ key row, w.ledger.executions key = some row →
    (row.status = .completed ↔ row.receipt.isSome = true)

/-- The rows are as they should be, and those completed at `w₀` are there unchanged. -/
structure KeepsOutcomes (w₀ w : World) : Prop where
  receipted : Receipted w
  kept : ∀ key row, w₀.ledger.executions key = some row → row.status = .completed →
    w.ledger.executions key = some row

omit [ActionPayload P] in
theorem KeepsOutcomes.setRow {w₀ w : World} {l : Ledger} {key : String} {row : ToolExecution}
    (h : KeepsOutcomes w₀ w) (hl : l.executions = (w.ledger.setRow key row).executions)
    (hold : ∀ old, w.ledger.executions key = some old → old.status ≠ .completed)
    (hrow : row.status = .completed ↔ row.receipt.isSome = true) :
    KeepsOutcomes w₀ { w with ledger := l } := by
  refine ⟨fun key' new hnew => ?_, fun key' old hdone hs => ?_⟩
  · have hnew' : l.executions key' = some new := hnew
    rw [hl] at hnew'
    by_cases hk : key' = key
    · subst hk
      rw [Ledger.setRow_executions_self] at hnew'
      obtain rfl := Option.some.inj hnew'
      exact hrow
    · rw [Ledger.setRow_executions_ne _ _ hk] at hnew'
      exact h.receipted key' new hnew'
  · have hkept := h.kept key' old hdone hs
    have hk : key' ≠ key := by
      rintro rfl
      exact hold old hkept hs
    show l.executions key' = some old
    rw [hl, Ledger.setRow_executions_ne _ _ hk]
    exact hkept

omit [ActionPayload P] in
theorem LedgerStep.keepsOutcomes {w₀ w w' : World} (hs : LedgerStep w w') (h : KeepsOutcomes w₀ w) :
    KeepsOutcomes w₀ w' := by
  -- A row that is replaced is not completed.
  have hopen : ∀ {key row}, w.ledger.executions key = some row → row.status ≠ .completed →
      row.receipt = none ∧ ∀ old, w.ledger.executions key = some old → old.status ≠ .completed := by
    intro key row hrow hstatus
    refine ⟨?_, fun old hold => ?_⟩
    · rw [← Option.not_isSome_iff_eq_none]
      exact fun hreceipt => hstatus ((h.receipted key row hrow).mpr hreceipt)
    · rw [hrow] at hold
      exact Option.some.inj hold ▸ hstatus
  cases hs with
  | quiet => exact h
  | entered key row _ => exact ⟨h.receipted, h.kept⟩
  | reconciled key outcome => exact ⟨h.receipted, h.kept⟩
  | claimed key row hnone _ hstatus hreceipt =>
      refine h.setRow rfl (fun old hold => ?_) (by simp [hstatus, hreceipt])
      rw [hnone] at hold
      cases hold
  | updated key row row' hrow hs hs' hreceipt _ _ =>
      obtain ⟨hnone, hold⟩ := hopen hrow hs
      exact h.setRow rfl hold (by simp [hs', hreceipt, hnone])
  | failed key row row' entry events hrow hs hs' hreceipt _ _ =>
      obtain ⟨hnone, hold⟩ := hopen hrow hs
      exact h.setRow rfl hold (by simp [hs', hreceipt, hnone])
  | recorded redactText key row receipt entry payload hrow hs =>
      exact h.setRow rfl (hopen hrow hs).2 (by simp [Ledger.complete])

theorem execute_settled {ex : ToolExecutor} {intent : ActionIntent P}
    {decision : Option ApprovalDecision} {w : World} {row : ToolExecution} {receipt : ActionReceipt}
    (hrow : w.ledger.executions intent.idempotencyKey = some row) (hs : row.status = .completed)
    (hreceipt : row.receipt = some receipt) :
    (ex.execute intent decision).wp (.alone LedgerStep)
      (fun r _ => r = { receipt with actionId := intent.actionId }) (fun _ _ => True) w := by
  unfold ToolExecutor.execute ToolExecutor.authorize
  refine wp_bind (wp_input .quiet fun verdict => ?_)
  split
  · exact wp_alone_raise.mpr trivial
  split
  · exact wp_alone_raise.mpr trivial
  refine wp_alone_ret.mpr ?_
  unfold ToolExecutor.claim
  refine wp_bind (wp_alone_call.mpr fun _ => ⟨.quiet, ?_⟩)
  dsimp only
  rw [hrow]
  refine wp_alone_ret.mpr ?_
  simp only [Bool.false_eq_true, if_false]
  split
  · exact wp_alone_raise.mpr trivial
  · rw [hs, hreceipt]
    exact wp_alone_ret.mpr rfl

/-- `receipt` is the one stored for `intent` at `w₀`, if one is. -/
def RepliesStored (w₀ : World) (intent : ActionIntent P) (receipt : ActionReceipt) : Prop :=
  ∀ row stored, w₀.ledger.executions intent.idempotencyKey = some row →
    row.receipt = some stored → receipt = { stored with actionId := intent.actionId }

theorem execute_replies {ex : ToolExecutor} {intent : ActionIntent P}
    {decision : Option ApprovalDecision} {w₀ w : World} (h₀ : Receipted w₀)
    (h : KeepsOutcomes w₀ w) :
    (ex.execute intent decision).wp (.alone fun _ w' => KeepsOutcomes w₀ w')
      (fun receipt w' => RepliesStored w₀ intent receipt ∧ KeepsOutcomes w₀ w')
      (fun _ _ => True) w := by
  have hreceipted : ∀ key row, w.ledger.executions key = some row → row.status = .completed →
      row.receipt.isSome = true := fun key row hrow => (h.receipted key row hrow).mp
  have hreplies : (ex.execute intent decision).wp (.alone LedgerStep)
      (fun receipt _ => RepliesStored w₀ intent receipt) (fun _ _ => True) w := by
    by_cases hdone : Holds intent.idempotencyKey .completed w₀
    · obtain ⟨row, hrow, hs⟩ := hdone
      obtain ⟨receipt, hreceipt⟩ := Option.isSome_iff_exists.mp ((h₀ _ row hrow).mp hs)
      refine wp_mono (execute_settled (h.kept _ row hrow hs) hs hreceipt) ?_ fun _ _ h => h
      intro r _ hr row' stored hrow' hstored
      rw [hrow] at hrow'
      obtain rfl := Option.some.inj hrow'
      rw [hreceipt] at hstored
      rw [hr, Option.some.inj hstored]
    · refine wp_mono (execute_steps hreceipted) ?_ fun _ _ h => h
      intro r _ _ row stored hrow hstored
      exact absurd ⟨row, hrow, (h₀ _ row hrow).mpr (by rw [hstored]; rfl)⟩ hdone
  have hkeeps := wp_alone_inv (fun _ _ hs h => LedgerStep.keepsOutcomes hs h) hreplies h
  exact wp_alone_guar (fun _ _ hstep => hstep.2)
    (wp_mono hkeeps (fun _ _ h => h) fun _ _ _ => trivial)

/-- The receipt stored for `intent` at `w₀`, if one is, is reported under the action's own id. -/
def Reports (redactText : RedactText) (w₀ : World) (intent : ActionIntent P)
    (receipts : List ActionReceipt) : Prop :=
  ∀ row stored, w₀.ledger.executions intent.idempotencyKey = some row →
    row.receipt = some stored →
    ({ stored with actionId := intent.actionId } : ActionReceipt).redact redactText ∈ receipts

/-- Every step leaves the recorded outcomes alone, and an action that is let through and has one
is reported with it. -/
theorem redeemOver_reports (ex : ToolExecutor) (requests : List ApprovalRequest)
    (approvals : List ApprovalDecision) (now : Time) (intents : List (ActionIntent P))
    {w₀ w : World} (h₀ : Receipted w₀) (h : KeepsOutcomes w₀ w) :
    (redeemOver ex requests approvals now intents).wp (.alone fun _ w' => KeepsOutcomes w₀ w')
      (fun u _ => ∀ intent ∈ intents, authorizeExecution intent
        (latest (·.actionId) intent.actionId requests)
        (latest (·.actionId) intent.actionId approvals) now = none →
        Reports ex.redactText w₀ intent u.1) (fun _ _ => True) w := by
  induction intents generalizing w with
  | nil => exact wp_alone_ret.mpr fun intent hmem => absurd hmem List.not_mem_nil
  | cons intent intents ih =>
      unfold redeemOver
      dsimp only
      split
      · rename_i refusal decision hauth
        refine wp_bind (wp_mono (ih h) (fun u w' hu => wp_alone_ret.mpr ?_) fun _ _ h => h)
        intro i hi hopen
        rcases List.mem_cons.mp hi with rfl | hi
        · rw [hauth] at hopen
          cases hopen
        · exact hu i hi hopen
      · exact wp_alone_raise.mpr trivial
      · rename_i decision hauth hdecision
        refine wp_bind (wp_attempt (wp_mono (execute_replies h₀ h) (fun receipt w' hr => ?_)
          fun _ _ _ => wp_alone_raise.mpr trivial))
        refine wp_bind (wp_mono (ih hr.2) (fun u _ hu => wp_alone_ret.mpr ?_) fun _ _ h => h)
        intro i hi hopen row stored hrow hstored
        rcases List.mem_cons.mp hi with rfl | hi
        · rw [← hr.1 row stored hrow hstored]
          exact List.mem_cons_self
        · exact List.mem_cons_of_mem _ (hu i hi hopen row stored hrow hstored)

/-! ### Runs of the node -/

/-- One run of the node, and the inputs of the steps it took before it ended or crashed. -/
structure NodeRun (P : Type) where
  executor : ToolExecutor
  state : JobSearchState P
  now : Time
  inputs : List Env

/-- What runs of the node, made one after another, leave behind. -/
def nodeSession (runs : List (NodeRun P)) : World :=
  attempts (runs.map fun r => (executeApprovedOver r.executor r.now r.state, r.inputs)) .init

theorem nodeSession_receipted (runs : List (NodeRun P)) : Receipted (nodeSession runs) := by
  refine attempts_inv (Q := fun _ _ => True) (E := fun _ _ => True)
    (fun key row hrow => by cases hrow) ?_
  intro r hr w hw
  obtain ⟨run, -, rfl⟩ := List.mem_map.mp hr
  unfold executeApprovedOver
  split
  · exact wp_alone_raise.mpr trivial
  · refine wp_bind (wp_alone_guar (fun _ _ hkept => KeepsOutcomes.receipted hkept)
      (wp_mono (redeemOver_reports _ _ _ _ _ hw ⟨hw, fun _ _ h _ => h⟩) (fun u _ _ => ?_) fun _ _ h => h))
    exact wp_alone_ret.mpr trivial

/-- What the gate says about a pending action at `now`. -/
def JobSearchState.refusalFor (state : JobSearchState P) (now : Time) (intent : ActionIntent P) :
    Option ApprovalRefusal :=
  authorizeExecution intent (latest (·.actionId) intent.actionId state.approvalRequests)
    (latest (·.actionId) intent.actionId state.approvals) now

theorem executeApprovedOver_returns {ex : ToolExecutor} {now : Time} {state state' : JobSearchState P}
    {inputs : List Env} {w : World} (hw : Receipted w)
    (hrun : ((executeApprovedOver ex now state).exec inputs w).1 = ret state') :
    ∃ intents u, load state.pendingActions = .ok intents ∧ state' = state.settled u ∧
      u.1.length + u.2.length = intents.length ∧
      u.2 = intents.filterMap (state.refusalFor now) ∧
      ∀ intent ∈ intents, state.refusalFor now intent = none →
        Reports ex.redactText w intent u.1 := by
  unfold executeApprovedOver at hrun
  cases hload : load state.pendingActions with
  | error error =>
      simp only [hload] at hrun
      have hraised : (raise (.contract error) : NodeProgram (JobSearchState P)).wp
          (.alone fun _ _ => True) (fun _ _ => False) (fun _ _ => True) w :=
        wp_alone_raise.mpr trivial
      have hend := wp_exec hraised inputs
      rw [hrun] at hend
      exact (wp_alone_ret.mp hend).elim
  | ok intents =>
      simp only [hload] at hrun
      have hreports := redeemOver_reports ex state.approvalRequests state.approvals now intents hw
        ⟨hw, fun _ _ hrow _ => hrow⟩
      have hboth := wp_and (fun _ _ hr => hr) (fun _ _ ha => ha) redeemOver_refines
        (wp_alone_guar (fun _ _ _ => trivial) hreports)
      have hend := wp_exec (wp_map state.settled hboth) inputs
      rw [show ((redeemOver ex state.approvalRequests state.approvals now intents >>= fun u =>
        ret (state.settled u)).exec inputs w).1 = ret state' from hrun] at hend
      obtain ⟨u, rfl, hrefines, hreports⟩ := wp_alone_ret.mp hend
      obtain ⟨executor, hupdate⟩ := hrefines 0
      obtain ⟨hlength, hrefusals⟩ := redeem_update hupdate
      exact ⟨intents, u, rfl, rfl, hlength, hrefusals, hreports⟩

/-! ### The application recorded -/

/-- What `persist_application` hands the application store about the submission. -/
structure SubmissionRecord where
  status : ApplicationStatus
  submitted : Bool
  receipt : Option ActionReceipt

omit [ActionPayload P] in
/-- `_receipt_for_kind`: the first receipt of a pending action of this kind. -/
def receiptForKind (state : JobSearchState P) (kind : ActionKind) : Option ActionReceipt :=
  state.actionReceipts.find? fun receipt => state.pendingActions.any fun raw =>
    raw.any fun intent => intent.kind = kind ∧ intent.actionId = receipt.actionId

omit [ActionPayload P] in
/-- `persist_application`, as far as it depends on the submission. -/
def persistApplication (state : JobSearchState P) : SubmissionRecord :=
  let receipt := receiptForKind state .submitApplication
  let submitted := receipt.any (·.ok)
  { status := if submitted then .applied else .readyToApply, submitted, receipt }

omit [ActionPayload P] in
theorem persistApplication_settled {state : JobSearchState P} {intent : ActionIntent P}
    {u : List ActionReceipt × List ApprovalRefusal} (hpending : state.pendingActions = [some intent])
    (hkind : intent.kind = .submitApplication)
    (hearlier : ∀ r ∈ state.actionReceipts, r.actionId ≠ intent.actionId) :
    (persistApplication (state.settled u)).status = .applied ↔
      (u.1.find? fun receipt => intent.actionId = receipt.actionId).any (·.ok) = true := by
  have hnone : (state.actionReceipts.find? fun receipt => intent.actionId = receipt.actionId) =
      none := by
    rw [List.find?_eq_none]
    intro r hr hid
    exact hearlier r hr (of_decide_eq_true hid).symm
  have hreceipt : receiptForKind (state.settled u) .submitApplication =
      u.1.find? fun receipt => intent.actionId = receipt.actionId := by
    simp only [receiptForKind, JobSearchState.settled, hpending, List.any_cons, List.any_nil,
      Option.any_some, hkind, true_and, Bool.or_false]
    rw [List.find?_append, hnone, Option.none_or]
  simp only [persistApplication, hreceipt]
  split
  · rename_i hany
    simp [hany]
  · rename_i hany
    simp [hany]

omit [ActionPayload P] in
theorem load_mem {raws : List (Dumped (ActionIntent P))} {intents : List (ActionIntent P)}
    (h : load raws = .ok intents) {intent : ActionIntent P} (hmem : some intent ∈ raws) :
    intent ∈ intents := by
  induction raws generalizing intents with
  | nil => cases hmem
  | cons raw raws ih =>
      cases raw with
      | none => cases h
      | some first =>
          simp only [load] at h
          cases hrest : load raws with
          | error error => rw [hrest] at h; cases h
          | ok rest =>
              rw [hrest] at h
              obtain rfl := Except.ok.inj h
              rcases List.mem_cons.mp hmem with heq | hmem
              · exact Option.some.inj heq ▸ List.mem_cons_self
              · exact List.mem_cons_of_mem _ (ih hrest hmem)

/-! ### The re-run -/

theorem refusalFor_later {state : JobSearchState P} {intent : ActionIntent P}
    {request : ApprovalRequest} {now : Time} (now' : Time) (happroved : state.refusalFor now intent = none)
    (hrequest : latest (·.actionId) intent.actionId state.approvalRequests = some request) :
    (now' < request.expiresAt → state.refusalFor now' intent = none ∧
      ∀ i : ActionIntent P, i.actionId = intent.actionId → ∀ refusal,
        state.refusalFor now' i = some refusal → refusal.reason ≠ .expired) ∧
    (request.expiresAt ≤ now' → ∃ refusal, state.refusalFor now' intent = some refusal ∧
      refusal.actionId = intent.actionId ∧ refusal.reason = .expired) := by
  obtain ⟨r, d, hr, hd, hid, hclears, hhash, -⟩ := authorizeExecution_eq_none.mp happroved
  rw [hrequest] at hr
  obtain rfl := Option.some.inj hr
  refine ⟨fun hopen => ⟨?_, fun i hi refusal hrefusal => ?_⟩, fun hexpired => ?_⟩
  · exact authorizeExecution_eq_none.mpr ⟨request, d, hrequest, hd, hid, hclears, hhash, hopen⟩
  · unfold JobSearchState.refusalFor at hrefusal
    rw [hi, hrequest, hd] at hrefusal
    exact (authorizeExecution_cleared (hid.trans hi.symm) hclears).2 hopen refusal hrefusal
  · obtain ⟨refusal, hrefusal, hreason⟩ :=
      (authorizeExecution_cleared hid hclears).1 hhash hexpired
    rw [← hrequest, ← hd] at hrefusal
    exact ⟨refusal, hrefusal, authorizeExecution_actionId hrefusal, hreason⟩

theorem executeApprovedOver_replays {ex : ToolExecutor} {state : JobSearchState P}
    {intent : ActionIntent P} {now : Time} {w : World} {row : ToolExecution} {receipt : ActionReceipt}
    (hsingle : state.pendingActions = [some intent]) (hopen : state.refusalFor now intent = none)
    (hrow : w.ledger.executions intent.idempotencyKey = some row) (hs : row.status = .completed)
    (hreceipt : row.receipt = some receipt)
    (hrequest : row.requestFingerprint = some intent.fingerprint) (e₀ e₁ : Env) (rest : List Env)
    (hcleared : ToolExecutor.cleared intent (latest (·.actionId) intent.actionId state.approvals)
      e₀.verdict = true) :
    (executeApprovedOver ex now state).exec (e₀ :: e₁ :: rest) w =
      (ret (state.settled ([({ receipt with actionId := intent.actionId } : ActionReceipt).redact
        ex.redactText], [])), w) := by
  obtain ⟨-, decision, -, hdecision, -⟩ := authorizeExecution_eq_none.mp hopen
  rw [hdecision] at hcleared
  have hauth : authorizeExecution intent
      (latest (·.actionId) intent.actionId state.approvalRequests) (some decision) now = none := by
    rw [← hdecision]
    exact hopen
  have hdeny : e₀.verdict.decision ≠ .deny := by
    intro hd
    simp [ToolExecutor.cleared, hd] at hcleared
  have happroved : ¬ (e₀.verdict.decision = .requireApproval ∧
      ToolExecutor.approved intent (some decision) = false) := by
    rintro ⟨hd, ha⟩
    simp [ToolExecutor.cleared, hd, ha] at hcleared
  have hconflict : ToolExecutor.conflicts intent row = false := by
    simp [ToolExecutor.conflicts, hrequest]
  unfold executeApprovedOver
  rw [hsingle]
  simp only [load, Except.map, redeemOver, hdecision, hauth]
  unfold ToolExecutor.execute ToolExecutor.authorize ToolExecutor.claim
  simp only [input_bind, call_bind, read_bind, attempt, exec_cons, Prog.step, hdeny, happroved,
    if_false, pure_eq, ret_bind, hrow, Bool.false_eq_true, hconflict, hs, hreceipt, exec_ret]

/-- **Re-running the node**: after runs of it that crashed anywhere, an approved action with an ok
receipt in the ledger is reported by the next run that returns, and not refused as expired, exactly
when that run reads the clock before the request expires.  Where the action is the one pending
submission, that is also when it is recorded as applied. -/
theorem rerun_reports_iff (runs : List (NodeRun P)) {ex : ToolExecutor}
    {state state' : JobSearchState P} {intent : ActionIntent P} {request : ApprovalRequest}
    {row : ToolExecution} {receipt : ActionReceipt} {now now' : Time} {inputs : List Env}
    (hpending : some intent ∈ state.pendingActions)
    (happroved : state.refusalFor now intent = none)
    (hrequest : latest (·.actionId) intent.actionId state.approvalRequests = some request)
    (hrow : (nodeSession runs).ledger.executions intent.idempotencyKey = some row)
    (hreceipt : row.receipt = some receipt) (hok : receipt.ok = true)
    (hrerun : ((executeApprovedOver ex now' state).exec inputs (nodeSession runs)).1 = ret state') :
    (∃ u, state' = state.settled u ∧
      (({ receipt with actionId := intent.actionId } : ActionReceipt).redact ex.redactText ∈ u.1 ∧
        (∀ refusal ∈ u.2, refusal.actionId = intent.actionId → refusal.reason ≠ .expired) ↔
      now' < request.expiresAt)) ∧
    (state.pendingActions = [some intent] → intent.kind = .submitApplication →
      (∀ r ∈ state.actionReceipts, r.actionId ≠ intent.actionId) →
      ((persistApplication state').status = .applied ↔ now' < request.expiresAt)) := by
  obtain ⟨intents, u, hload, rfl, hlength, hrefusals, hreports⟩ :=
    executeApprovedOver_returns (nodeSession_receipted runs) hrerun
  have hmem := load_mem hload hpending
  obtain ⟨hopen, hexpired⟩ := refusalFor_later now' happroved hrequest
  by_cases hnow : now' < request.expiresAt
  · obtain ⟨hnone, hothers⟩ := hopen hnow
    have hreported := hreports intent hmem hnone row receipt hrow hreceipt
    refine ⟨⟨u, rfl, fun _ => hnow, fun _ => ⟨hreported, fun refusal hrefusal hid => ?_⟩⟩, ?_⟩
    · rw [hrefusals] at hrefusal
      obtain ⟨i, -, hi⟩ := List.mem_filterMap.mp hrefusal
      exact hothers i ((authorizeExecution_actionId hi).symm.trans hid) refusal hi
    · intro hsingle hkind hearlier
      rw [hsingle] at hload
      obtain rfl := Except.ok.inj hload
      have hu : u.1 = [({ receipt with actionId := intent.actionId } : ActionReceipt).redact
          ex.redactText] := by
        rw [hrefusals, List.filterMap_cons, hnone] at hlength
        obtain ⟨r, hr⟩ := List.length_eq_one_iff.mp hlength
        rw [hr] at hreported ⊢
        rw [List.mem_singleton.mp hreported]
      rw [persistApplication_settled hsingle hkind hearlier, hu]
      simp [ActionReceipt.redact, hok, hnow]
  · obtain ⟨refusal, hrefusal, hid, hreason⟩ := hexpired (Int.not_lt.mp hnow)
    have hrefused : refusal ∈ u.2 := by
      rw [hrefusals]
      exact List.mem_filterMap.mpr ⟨intent, hmem, hrefusal⟩
    refine ⟨⟨u, rfl, fun h => absurd hreason (h.2 refusal hrefused hid), fun h => absurd h hnow⟩, ?_⟩
    intro hsingle hkind hearlier
    rw [hsingle] at hload
    obtain rfl := Except.ok.inj hload
    have hu : u.1 = [] := by
      rw [hrefusals, List.filterMap_cons, hrefusal] at hlength
      exact List.length_eq_zero_iff.mp (Nat.succ.inj hlength)
    rw [persistApplication_settled hsingle hkind hearlier, hu]
    simp [hnow]

/-- The submission, approved under a request that expires at 10. -/
def submissionState : JobSearchState PlainPayload :=
  ⟨[some submission], [submissionRequest], [submissionApproval], [], []⟩

/-- It is executed at 7, and the process dies before the node's update is checkpointed. -/
def lostSubmission : NodeRun PlainPayload where
  executor := ToolExecutor.default false id
  state := submissionState
  now := 7
  inputs := (submissionUnder .allow).inputs

theorem lostSubmission_stored : ∃ row receipt,
    (nodeSession [lostSubmission]).ledger.executions submission.idempotencyKey = some row ∧
      row.status = .completed ∧ row.receipt = some receipt ∧ receipt.ok = true ∧
      row.requestFingerprint = some submission.fingerprint := by
  have hstored : (((nodeSession [lostSubmission]).ledger.executions
      submission.idempotencyKey).bind (·.receipt)).map (·.ok) = some true := by
    decide +kernel
  have hrow : ((nodeSession [lostSubmission]).ledger.executions submission.idempotencyKey).map
      (fun row => (row.status, row.requestFingerprint)) =
        some (.completed, some submission.fingerprint) := by
    decide +kernel
  obtain ⟨row, hrow, hcolumns⟩ := Option.map_eq_some_iff.mp hrow
  rw [hrow] at hstored
  obtain ⟨receipt, hreceipt, hok⟩ := Option.map_eq_some_iff.mp hstored
  exact ⟨row, receipt, hrow, (Prod.mk.inj hcolumns).1, hreceipt, hok, (Prod.mk.inj hcolumns).2⟩

theorem rerun_reports_iff_submission : ∃ state',
    ((executeApprovedOver (ToolExecutor.default false id) 9 submissionState).exec
      (submissionUnder .allow).inputs (nodeSession [lostSubmission])).1 = ret state' ∧
    (persistApplication state').status = .applied := by
  obtain ⟨row, receipt, hrow, hs, hreceipt, hok, hfingerprint⟩ := lostSubmission_stored
  have hopen : submissionState.refusalFor 9 submission = none := rfl
  have hrerun : ((executeApprovedOver (ToolExecutor.default false id) 9 submissionState).exec
      (submissionUnder .allow).inputs (nodeSession [lostSubmission])).1 = ret _ :=
    congrArg Prod.fst (executeApprovedOver_replays rfl hopen hrow hs hreceipt hfingerprint
      ⟨⟨.allow, none⟩, .ok ⟨1, true, some "ref-1", none⟩, none⟩ _ _ rfl)
  obtain ⟨-, hpersist⟩ := rerun_reports_iff [lostSubmission] List.mem_cons_self hopen rfl hrow
    hreceipt hok hrerun
  exact ⟨_, hrerun, (hpersist rfl rfl (fun r hr => by cases hr)).mpr (by decide)⟩

/-- Re-run once the approval has expired, the node refuses the submission it made. -/
theorem executed_submission_is_refused :
    ¬ ∀ (runs : List (NodeRun PlainPayload)) (rerun : NodeRun PlainPayload)
        (state' : JobSearchState PlainPayload) (intent : ActionIntent PlainPayload) (now : Time)
        (row : ToolExecution) (receipt : ActionReceipt),
      some intent ∈ rerun.state.pendingActions → rerun.state.refusalFor now intent = none →
      (nodeSession runs).ledger.executions intent.idempotencyKey = some row →
      row.receipt = some receipt → receipt.ok = true →
      ((executeApprovedOver rerun.executor rerun.now rerun.state).exec rerun.inputs
        (nodeSession runs)).1 = ret state' →
      (∀ refusal ∈ state'.approvalRefusals, refusal.reason ≠ .expired) ∧
        (persistApplication state').status = .applied := by
  intro h
  obtain ⟨row, receipt, hrow, -, hreceipt, hok, -⟩ := lostSubmission_stored
  have hresult := (h [lostSubmission] { lostSubmission with now := 10 } _ submission 7 row receipt
    List.mem_cons_self rfl hrow hreceipt hok rfl).2
  revert hresult
  decide

end PersonalOS
