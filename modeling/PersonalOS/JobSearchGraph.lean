import PersonalOS.ExecutionLedger

/-! # The approval nodes of the job-search graph

`request_approval`, `approval_checkpoint` and `execute_approved_actions` as functions of the
checkpointed state.  A node that raises leaves the state as it was.

* **State.** The nodes append typed values, so only `pendingActions`, which other nodes
  replace, can hold an entry that does not validate (`none`).
* **Resume values.** `ResumeValue` is the shape of what a caller resumed the interrupt with,
  as far as `_decisions_from_resume` looks at it.
* **Ports.** The approval gate and the action executor are arbitrary: the gate answers, and
  the executor returns or raises, position by position.  A crash after a call is a raise.
* **Dictionaries.** A dictionary built from a list keyed by action id keeps the last entry of
  each key: `latest`. -/

namespace PersonalOS

/-- An entry of a list in graph state; `none` is one that does not validate. -/
abbrev Dumped (α : Type) := Option α

/-- Rebuild typed values from the form held in state. -/
def load {α : Type} : List (Dumped α) → Except ContractError (List α)
  | [] => .ok []
  | none :: _ => .error .malformed
  | some a :: raws => (load raws).map (a :: ·)

theorem mem_of_load {α : Type} {raws : List (Dumped α)} {loaded : List α}
    (h : load raws = .ok loaded) : ∀ a ∈ loaded, some a ∈ raws := by
  induction raws generalizing loaded with
  | nil =>
      obtain rfl := Except.ok.inj h
      simp
  | cons raw raws ih =>
      cases raw with
      | none => cases h
      | some b =>
          simp only [load] at h
          cases hrest : load raws with
          | error error => rw [hrest] at h; cases h
          | ok rest =>
              rw [hrest] at h
              obtain rfl := Except.ok.inj h
              intro a ha
              rcases List.mem_cons.mp ha with rfl | ha
              · exact List.mem_cons_self
              · exact List.mem_cons_of_mem _ (ih hrest a ha)

/-- The last entry with this key. -/
def latest {α : Type} (key : α → UUID) (id : UUID) (entries : List α) : Option α :=
  entries.reverse.find? fun a => key a == id

theorem latest_mem {α : Type} {key : α → UUID} {id : UUID} {entries : List α} {a : α}
    (h : latest key id entries = some a) : a ∈ entries ∧ key a = id := by
  refine ⟨List.mem_reverse.mp (List.mem_of_find?_eq_some h), ?_⟩
  simpa using List.find?_some h

theorem latest_eq_none {α : Type} {key : α → UUID} {id : UUID} {entries : List α} :
    latest key id entries = none ↔ ∀ a ∈ entries, key a ≠ id := by
  simp [latest]

theorem latest_append {α : Type} {key : α → UUID} {id : UUID} {entries later : List α} :
    latest key id (entries ++ later) = (latest key id later).or (latest key id entries) := by
  simp [latest]

/-- The channels of `JobSearchState` the approval nodes read and write. -/
structure JobSearchState (P : Type) where
  pendingActions : List (Dumped (ActionIntent P))
  approvalRequests : List ApprovalRequest
  approvals : List ApprovalDecision
  actionReceipts : List ActionReceipt
  approvalRefusals : List ApprovalRefusal

/-! ### Resume values -/

/-- What a caller resumed the interrupt with. -/
inductive ResumeValue where
  | none
  | decision (decision : ApprovalDecision)
  /-- A mapping with an `action_id`, and the decision it validates as. -/
  | record (decision : Dumped ApprovalDecision)
  /-- Any other mapping. -/
  | mapping (values : List ResumeValue)
  | sequence (items : List ResumeValue)
  /-- A string, a number or anything else. -/
  | other

mutual

/-- Parse whatever a caller resumed the interrupt with into typed decisions. -/
def decisionsFromResume : ResumeValue → Except ContractError (List ApprovalDecision)
  | .none => .ok []
  | .decision decision => .ok [decision]
  | .record (some decision) => .ok [decision]
  | .record none => .error .malformed
  | .mapping values => decisionsFromItems values
  | .sequence items => decisionsFromItems items
  | .other => .error .unreadableResume

def decisionsFromItems : List ResumeValue → Except ContractError (List ApprovalDecision)
  | [] => .ok []
  | item :: items =>
      match decisionsFromResume item with
      | .error error => .error error
      | .ok decisions => (decisionsFromItems items).map (decisions ++ ·)

end

variable {P : Type}

/-! ### Ports -/

/-- What the gate answers, or raises, about the action at a position of `pending_actions`. -/
abbrev ApprovalGate (P : Type) := ℕ → ActionIntent P → Except ContractError ApprovalDecision

/-- What the executor returns, or raises, for the action at a position of `pending_actions`. -/
abbrev ActionExecutor (P : Type) :=
  ℕ → ActionIntent P → ApprovalDecision → Except ContractError ActionReceipt

/-- A gate with nothing on file, so every action interrupts. -/
def interruptOnlyApprovalGate [ActionPayload P] (now : Time) : ApprovalGate P := fun _ intent =>
  .ok { actionId := intent.actionId, actionFingerprint := intent.fingerprint, verdict := .pending,
        decidedBy := "system:interrupt_only_gate", decidedAt := now,
        note := some "no decision on file; awaiting a human answer at the interrupt",
        requestId := none }

/-! ### request_approval -/

section requestApproval

variable [ActionPayload P]

/-- One request for every intent, all raised at `now`, with the ids drawn for them. -/
def raiseRequests (drawn : ℕ → UUID) (now : Time) (ttl : Option Time) :
    ℕ → List (ActionIntent P) → Except ContractError (List ApprovalRequest)
  | _, [] => .ok []
  | n, intent :: intents =>
      match ApprovalRequest.forIntent (drawn n) intent now ttl with
      | .error error => .error error
      | .ok request => (raiseRequests drawn now ttl (n + 1) intents).map (request :: ·)

/-- The requests the node raises. -/
def newRequests (drawn : ℕ → UUID) (now : Time) (ttl : Option Time) (state : JobSearchState P) :
    Except ContractError (List ApprovalRequest) :=
  match load state.pendingActions with
  | .error error => .error error
  | .ok intents => raiseRequests drawn now ttl 0 intents

/-- Raise a request for every action about to leave the system. -/
def requestApproval (drawn : ℕ → UUID) (now : Time) (ttl : Option Time) (state : JobSearchState P) :
    Except ContractError (JobSearchState P) :=
  (newRequests drawn now ttl state).map fun requests =>
    { state with approvalRequests := state.approvalRequests ++ requests }

/-- Every request raised pins one of the intents. -/
theorem raiseRequests_pins {drawn : ℕ → UUID} {now : Time} {ttl : Option Time} {n : ℕ}
    {intents : List (ActionIntent P)} {requests : List ApprovalRequest}
    (h : raiseRequests drawn now ttl n intents = .ok requests) :
    ∀ r ∈ requests, ∃ intent ∈ intents,
      r.actionId = intent.actionId ∧ r.actionHash = intent.fingerprint := by
  induction intents generalizing n requests with
  | nil =>
      obtain rfl := Except.ok.inj h
      simp
  | cons intent intents ih =>
      simp only [raiseRequests] at h
      cases hr : ApprovalRequest.forIntent (drawn n) intent now ttl with
      | error error => rw [hr] at h; cases h
      | ok request =>
          rw [hr] at h
          cases hrest : raiseRequests drawn now ttl (n + 1) intents with
          | error error => rw [hrest] at h; cases h
          | ok rest =>
              rw [hrest] at h
              obtain rfl := Except.ok.inj h
              intro r hmem
              rcases List.mem_cons.mp hmem with rfl | hmem
              · have hpins := ApprovalRequest.forIntent_pins hr
                exact ⟨intent, List.mem_cons_self, hpins.1, hpins.2.1⟩
              · obtain ⟨i, hi, hpins⟩ := ih hrest r hmem
                exact ⟨i, List.mem_cons_of_mem _ hi, hpins⟩

theorem newRequests_pins {drawn : ℕ → UUID} {now : Time} {ttl : Option Time}
    {state : JobSearchState P} {requests : List ApprovalRequest}
    (h : newRequests drawn now ttl state = .ok requests) :
    ∀ r ∈ requests, ∃ intent, some intent ∈ state.pendingActions ∧
      r.actionId = intent.actionId ∧ r.actionHash = intent.fingerprint := by
  simp only [newRequests] at h
  cases hload : load state.pendingActions with
  | error error => rw [hload] at h; cases h
  | ok intents =>
      rw [hload] at h
      intro r hr
      obtain ⟨intent, hmem, hpins⟩ := raiseRequests_pins h r hr
      exact ⟨intent, mem_of_load hload intent hmem, hpins⟩

end requestApproval

/-! ### approval_checkpoint -/

/-- The gate's answers by action id, newest first, and the actions it has none for. -/
structure Reviewed (P : Type) where
  answered : List (UUID × ApprovalDecision)
  outstanding : List (ActionIntent P)

/-- Ask the gate about every pending action from position `n` on. -/
def reviewAll (gate : ApprovalGate P) (requests : List ApprovalRequest) :
    ℕ → List (ActionIntent P) → Except ContractError (Reviewed P)
  | _, [] => .ok ⟨[], []⟩
  | n, intent :: intents =>
      if (latest (·.actionId) intent.actionId requests).isNone then
        .error (.noRequestOnFile intent.actionId intent.kind)
      else
        match gate n intent with
        | .error error => .error error
        | .ok decision => (reviewAll gate requests (n + 1) intents).map fun reviewed =>
            if decision.verdict = .pending then
              { reviewed with outstanding := intent :: reviewed.outstanding }
            else
              { reviewed with answered := reviewed.answered ++ [(intent.actionId, decision)] }

/-- How an execution of the checkpoint node ends. -/
inductive CheckpointResult where
  | raised (error : ContractError)
  /-- The thread is checkpointed at an interrupt carrying these requests. -/
  | parked (requests : List ApprovalRequest)
  /-- The decisions appended to `approvals`. -/
  | decided (decisions : List ApprovalDecision)

/-- The live requests of the outstanding actions. -/
def outstandingRequests (requests : List ApprovalRequest) (outstanding : List (ActionIntent P)) :
    List ApprovalRequest :=
  outstanding.filterMap fun intent => latest (·.actionId) intent.actionId requests

/-- The answers of the pending actions that have one, in their order. -/
def collect (answered : List (UUID × ApprovalDecision)) (intents : List (ActionIntent P)) :
    List ApprovalDecision :=
  intents.filterMap fun intent => answered.lookup intent.actionId

/-- The node after the gate was asked; `resume` is what `interrupt` returns, `none` when it
raises because nobody has resumed it yet. -/
def settleReview (requests : List ApprovalRequest) (resume : Option ResumeValue)
    (intents : List (ActionIntent P)) (reviewed : Reviewed P) : CheckpointResult :=
  if reviewed.outstanding = [] then .decided (collect reviewed.answered intents)
  else
    match resume with
    | none => .parked (outstandingRequests requests reviewed.outstanding)
    | some value =>
        match decisionsFromResume value with
        | .error error => .raised error
        | .ok decisions => .decided
            (collect (decisions.reverse.map (fun d => (d.actionId, d)) ++ reviewed.answered) intents)

/-- Park the run until every proposed external write has an answer. -/
def approvalCheckpoint (gate : ApprovalGate P) (resume : Option ResumeValue)
    (state : JobSearchState P) : CheckpointResult :=
  match load state.pendingActions with
  | .error error => .raised error
  | .ok [] => .decided []
  | .ok intents =>
      match reviewAll gate state.approvalRequests 0 intents with
      | .error error => .raised error
      | .ok reviewed => settleReview state.approvalRequests resume intents reviewed

/-! ### execute_approved_actions -/

/-- What redeeming the pending actions did: the calls made, and the update or the raise. -/
structure Redeemed (P : Type) where
  calls : List (ActionIntent P × ApprovalDecision)
  update : Except ContractError (List ActionReceipt × List ApprovalRefusal)

/-- Redeem the actions from position `n` on whose approval still fits them, refuse the rest. -/
def redeem [ActionPayload P] (redactText : RedactText) (executor : ActionExecutor P)
    (requests : List ApprovalRequest) (approvals : List ApprovalDecision) (now : Time) :
    ℕ → List (ActionIntent P) → Redeemed P
  | _, [] => ⟨[], .ok ([], [])⟩
  | n, intent :: intents =>
      let rest := redeem redactText executor requests approvals now (n + 1) intents
      let decision := latest (·.actionId) intent.actionId approvals
      match authorizeExecution intent (latest (·.actionId) intent.actionId requests) decision now,
          decision with
      | some refusal, _ => { rest with update := rest.update.map fun u => (u.1, refusal :: u.2) }
      -- Unreachable: the gate refuses an action with no decision.
      | none, none => ⟨[], .error .malformed⟩
      | none, some decision =>
          match executor n intent decision with
          | .error error => ⟨[(intent, decision)], .error error⟩
          | .ok receipt =>
              { calls := (intent, decision) :: rest.calls
                update := rest.update.map fun u => (receipt.redact redactText :: u.1, u.2) }

/-- Every call made is one the gate let through. -/
theorem redeem_calls [ActionPayload P] {redactText : RedactText} {executor : ActionExecutor P}
    {requests : List ApprovalRequest} {approvals : List ApprovalDecision} {now : Time} {n : ℕ}
    {intents : List (ActionIntent P)} :
    ∀ call ∈ (redeem redactText executor requests approvals now n intents).calls,
      authorizeExecution call.1 (latest (·.actionId) call.1.actionId requests) (some call.2) now =
        none := by
  induction intents generalizing n with
  | nil => simp [redeem]
  | cons intent intents ih =>
      intro call hcall
      simp only [redeem] at hcall
      split at hcall
      · exact ih call hcall
      · simp at hcall
      · rename_i decision hnone hdecision
        rw [hdecision] at hnone
        split at hcall
        · obtain rfl := List.mem_singleton.mp hcall
          exact hnone
        · rcases List.mem_cons.mp hcall with rfl | hcall
          · exact hnone
          · exact ih call hcall

/-- Every call redeems a pending action with its last decision. -/
theorem redeem_decision [ActionPayload P] {redactText : RedactText} {executor : ActionExecutor P}
    {requests : List ApprovalRequest} {approvals : List ApprovalDecision} {now : Time} {n : ℕ}
    {intents : List (ActionIntent P)} :
    ∀ call ∈ (redeem redactText executor requests approvals now n intents).calls,
      call.1 ∈ intents ∧ latest (·.actionId) call.1.actionId approvals = some call.2 := by
  induction intents generalizing n with
  | nil => simp [redeem]
  | cons intent intents ih =>
      have hrest : ∀ call ∈ (redeem redactText executor requests approvals now (n + 1) intents).calls,
          call.1 ∈ intent :: intents ∧ latest (·.actionId) call.1.actionId approvals = some call.2 :=
        fun call hcall => ⟨List.mem_cons_of_mem _ (ih call hcall).1, (ih call hcall).2⟩
      intro call hcall
      simp only [redeem] at hcall
      split at hcall
      · exact hrest call hcall
      · simp at hcall
      · rename_i decision hnone hdecision
        split at hcall
        · obtain rfl := List.mem_singleton.mp hcall
          exact ⟨List.mem_cons_self, hdecision⟩
        · rcases List.mem_cons.mp hcall with rfl | hcall
          · exact ⟨List.mem_cons_self, hdecision⟩
          · exact hrest call hcall

/-- Redeem the pending actions: the calls made, and the state the node leaves. -/
def executeApprovedActions [ActionPayload P] (redactText : RedactText) (executor : ActionExecutor P)
    (now : Time) (state : JobSearchState P) :
    List (ActionIntent P × ApprovalDecision) × Except ContractError (JobSearchState P) :=
  match load state.pendingActions with
  | .error error => ([], .error error)
  | .ok intents =>
      let redeemed := redeem redactText executor state.approvalRequests state.approvals now 0 intents
      (redeemed.calls, redeemed.update.map fun u =>
        { state with
          actionReceipts := state.actionReceipts ++ u.1
          approvalRefusals := state.approvalRefusals ++ u.2 })

theorem executeApprovedActions_calls [ActionPayload P] {redactText : RedactText}
    {executor : ActionExecutor P} {now : Time} {state : JobSearchState P} :
    ∀ call ∈ (executeApprovedActions redactText executor now state).1,
      authorizeExecution call.1 (latest (·.actionId) call.1.actionId state.approvalRequests)
        (some call.2) now = none := by
  intro call hcall
  simp only [executeApprovedActions] at hcall
  cases hload : load state.pendingActions with
  | error error => simp [hload] at hcall
  | ok intents =>
      rw [hload] at hcall
      exact redeem_calls call hcall

theorem executeApprovedActions_decision [ActionPayload P] {redactText : RedactText}
    {executor : ActionExecutor P} {now : Time} {state : JobSearchState P} :
    ∀ call ∈ (executeApprovedActions redactText executor now state).1,
      (∃ intents, load state.pendingActions = .ok intents ∧ call.1 ∈ intents) ∧
        latest (·.actionId) call.1.actionId state.approvals = some call.2 := by
  intro call hcall
  simp only [executeApprovedActions] at hcall
  cases hload : load state.pendingActions with
  | error error => simp [hload] at hcall
  | ok intents =>
      rw [hload] at hcall
      obtain ⟨hmem, hdecision⟩ := redeem_decision call hcall
      exact ⟨⟨intents, rfl, hmem⟩, hdecision⟩

/-- The node settles actions and leaves the requests and the decisions alone. -/
theorem executeApprovedActions_frame [ActionPayload P] {redactText : RedactText}
    {executor : ActionExecutor P} {now : Time} {state state' : JobSearchState P}
    (h : (executeApprovedActions redactText executor now state).2 = .ok state') :
    state'.approvalRequests = state.approvalRequests ∧ state'.approvals = state.approvals := by
  simp only [executeApprovedActions] at h
  cases hload : load state.pendingActions with
  | error error => simp [hload] at h
  | ok intents =>
      simp only [hload] at h
      cases hu : (redeem redactText executor state.approvalRequests state.approvals now 0
          intents).update with
      | error error => simp [hu, Except.map] at h
      | ok u =>
          rw [hu] at h
          obtain rfl := Except.ok.inj h
          exact ⟨rfl, rfl⟩

end PersonalOS
