import PersonalOS.ApprovedExecution
import PersonalOS.ApprovalQueue

/-! # What became of an action

`personalos.domain.action_status`: every action a thread's state holds, labelled from the facts on
record, with the decisions `personalos.persistence.workflow_actions` finds for its requests.

* **Facts.** `ActionFacts` are the five things on record about one action: its request, the decision in
  state, the decision on the `approvals` table, the refusal and the receipt.  Of several entries with
  one action id the last counts.
* **Label.** `status` is the label and the line on it; `label` is the label alone, which depends on no
  clock (`status_fst`).
* **Actions.** A `WorkflowAction` carries the proof that it is labelled executed exactly when its
  receipt is a success, the check its validator makes; `deriveAction_ok` says the check never fails.

What an action shows beyond its label and its request (the preview, what it would do, the links to its
execution row) is left out; that a preview cannot be read out of a payload is not. -/

namespace PersonalOS

/-- Where one action stands, from the outside world's point of view. -/
inductive ActionStatus where
  | recommended
  | awaitingApproval
  | executed
  | denied
  | failed
deriving DecidableEq, Repr

/-- The action was carried out, or will not be. -/
def ActionStatus.terminal : ActionStatus → Bool
  | recommended | awaitingApproval => false
  | executed | denied | failed => true

/-- A decision recorded through the approval queue, which state may not hold yet. -/
structure RecordedDecision where
  state : ApprovalState
  decidedBy : Option String
deriving DecidableEq, Repr

/-- The decisions on the `approvals` table for these requests, by request id. -/
def recordedDecisions {τ : Type} (s : ApprovalStore τ) (requests : List ApprovalRequest)
    (requestId : UUID) : Option RecordedDecision :=
  if requests.any (·.requestId == requestId) then
    (s.decidedRow requestId).map fun row => ⟨row.status, s.decidedBy requestId⟩
  else none

/-- A text that is there and not empty. -/
def nonEmpty (text : Option String) : Option String := text.filter (· ≠ "")

/-! ### The label -/

/-- What is on record about one action. -/
structure ActionFacts where
  request : Option ApprovalRequest
  decision : Option ApprovalDecision
  record : Option RecordedDecision
  refusal : Option ApprovalRefusal
  receipt : Option ActionReceipt

namespace ActionFacts

variable (facts : ActionFacts)

def succeeded : Bool := facts.receipt.any (·.ok)

/-- The action was refused because the reviewer said no. -/
def refusedByUser : Bool := facts.refusal.any (·.reason == .deniedByUser)

def decisionIs (verdict : ApprovalVerdict) : Bool := facts.decision.any (·.verdict == verdict)

def recordIs (state : ApprovalState) : Bool := facts.record.any (·.state == state)

/-- What the provider calls the action it carried out, as the line on it shows it. -/
def reference : String :=
  match nonEmpty (facts.receipt.bind (·.externalReference)) with
  | some reference => s!" (reference {reference})"
  | none => ""

def status (now : Time) : ActionStatus × String :=
  if facts.succeeded then (.executed, s!"Done{facts.reference}.")
  else
    match facts.refusal with
    | some refusal =>
        if refusal.reason = .deniedByUser then (.denied, "Denied by the reviewer; nothing was done.")
        else (.failed, s!"Not carried out: {refusal.detail}")
    | none =>
        match facts.receipt with
        | some receipt =>
            (.failed, "Attempted and failed: " ++ (nonEmpty receipt.detail).getD "no detail")
        | none =>
            if facts.decisionIs .rejected then (.denied, "Denied by the reviewer; nothing was done.")
            else if facts.recordIs .denied then (.denied, "Denied by the reviewer; nothing was done.")
            else
              match facts.request with
              | none => (.recommended, "Proposed; nothing has been done.")
              | some request =>
                  if facts.decisionIs .approved || facts.recordIs .approved then
                    (.awaitingApproval, "Approved; not carried out yet. Nothing has been sent.")
                  else if request.isExpired now then
                    (.awaitingApproval, "The approval window has closed; it can only be denied now.")
                  else (.awaitingApproval, "Waiting for your approval; nothing has been sent.")

/-- The executor node has recorded something about the action. -/
def settled : Bool := facts.refusal.isSome || facts.receipt.isSome

/-- The action is denied on record. -/
def denialRecorded : Bool := facts.decisionIs .rejected || facts.recordIs .denied

/-- The label alone: the most final fact decides. -/
def label : ActionStatus :=
  if facts.succeeded then .executed
  else if facts.refusedByUser then .denied
  else if facts.settled then .failed
  else if facts.denialRecorded then .denied
  else if facts.request.isSome then .awaitingApproval
  else .recommended

theorem status_fst (now : Time) : (facts.status now).1 = facts.label := by
  obtain ⟨request, decision, record, refusal, receipt⟩ := facts
  unfold status label
  split
  · rfl
  · cases refusal with
    | some refusal =>
        simp only [refusedByUser, settled, Option.any_some, beq_iff_eq, Option.isSome_some, Bool.true_or,
          if_true]
        split <;> rfl
    | none =>
        cases receipt with
        | some receipt => rfl
        | none =>
            simp only [refusedByUser, settled, denialRecorded, Option.any_none, Option.isSome_none,
              Bool.or_self, Bool.false_eq_true, if_false, Bool.or_eq_true]
            by_cases hdecision : decisionIs ⟨request, decision, record, none, none⟩ .rejected = true
            · rw [if_pos hdecision, if_pos (Or.inl hdecision)]
            · by_cases hrecord : recordIs ⟨request, decision, record, none, none⟩ .denied = true
              · rw [if_neg hdecision, if_pos hrecord, if_pos (Or.inr hrecord)]
              · have hnone : ¬(decisionIs ⟨request, decision, record, none, none⟩ .rejected = true ∨
                    recordIs ⟨request, decision, record, none, none⟩ .denied = true) :=
                  fun h => h.elim hdecision hrecord
                rw [if_neg hdecision, if_neg hrecord, if_neg hnone]
                cases request with
                | none => rfl
                | some request =>
                    dsimp only
                    split
                    · rfl
                    · split <;> rfl

theorem label_executed : facts.label = .executed ↔ facts.succeeded = true := by
  unfold label
  split
  · rename_i h
    exact iff_of_true rfl h
  · rename_i h
    refine iff_of_false ?_ h
    repeat' split
    all_goals exact ActionStatus.noConfusion

theorem denied_of_label (h : facts.label = .denied) :
    facts.refusedByUser = true ∨ facts.denialRecorded = true := by
  unfold label at h
  split at h
  · cases h
  · split at h
    · rename_i hrefused
      exact Or.inl hrefused
    · split at h
      · cases h
      · split at h
        · rename_i hdenial
          exact Or.inr hdenial
        · split at h <;> cases h

end ActionFacts

/-! ### The actions of a thread -/

/-- Where one approval stands. -/
inductive ApprovalStanding where
  | pending
  /-- Unanswered past its expiry. -/
  | expired
  | decided (state : ApprovalState)
deriving DecidableEq, Repr

def approvalState (facts : ActionFacts) (now : Time) : Option ApprovalStanding :=
  match facts.request with
  | none => none
  | some request =>
      if facts.decisionIs .approved then some (.decided .approved)
      else if facts.decisionIs .rejected then some (.decided .denied)
      else
        match facts.record with
        | some record => some (.decided record.state)
        | none => some (if request.isExpired now then .expired else .pending)

/-- One outward-facing action, labelled with what actually became of it. -/
structure WorkflowAction where
  actionId : UUID
  actionStatus : ActionStatus
  workflowId : UUID
  threadId : String
  kind : ActionKind
  target : String
  summary : String
  riskLevel : RiskLevel
  approvalId : Option UUID
  approvalState : Option ApprovalStanding
  approvalExpiresAt : Option Time
  decidedBy : Option String
  receipt : Option ActionReceipt
  refusalReason : Option RefusalReason
  detail : String
  executed_means_receipted : actionStatus = .executed ↔ receipt.any (·.ok) = true

/-- Rebuild typed values from state, skipping any that no longer fit the model. -/
def loadFitting {α : Type} (raws : List (Dumped α)) : List α := raws.filterMap id

theorem mem_loadFitting {α : Type} {raws : List (Dumped α)} {a : α} :
    a ∈ loadFitting raws ↔ some a ∈ raws := by
  simp [loadFitting]

section derivation

variable {P : Type} [ActionPayload P]

/-- What an action is, in the pending intent's words or else in its request's. -/
structure ActionTerms where
  kind : ActionKind
  target : String
  summary : String
  riskLevel : RiskLevel

/-- Read off what an action is; nothing is when it is neither pending nor requested, and a preview has
to be read out of an intent no request was raised for. -/
def actionTerms (intent : Option (ActionIntent P)) (request : Option ApprovalRequest) :
    Except ContractError ActionTerms :=
  match intent, request with
  | some intent, some request => .ok ⟨intent.kind, intent.target, intent.summary, request.risk⟩
  | some intent, none =>
      if ActionPayload.previewable intent.payload then
        .ok ⟨intent.kind, intent.target, intent.summary, (riskProfileFor intent.kind).risk⟩
      else .error .malformed
  | none, some request => .ok ⟨request.kind, request.target, request.summary, request.risk⟩
  | none, none => .error .malformed

/-- What a thread's state and the recorded decisions say about an action. -/
def factsOf (values : JobSearchState P) (recorded : UUID → Option RecordedDecision) (actionId : UUID) :
    ActionFacts where
  request := latest (·.actionId) actionId values.approvalRequests
  decision := latest (·.actionId) actionId values.approvals
  record := (latest (·.actionId) actionId values.approvalRequests).bind (recorded ·.requestId)
  refusal := latest (·.actionId) actionId values.approvalRefusals
  receipt := latest (·.actionId) actionId values.actionReceipts

variable (values : JobSearchState P) (workflowId : UUID) (threadId : String)
  (recorded : UUID → Option RecordedDecision) (now : Time)

/-- Label one action. -/
def deriveAction (actionId : UUID) : Except ContractError WorkflowAction :=
  let facts := factsOf values recorded actionId
  match actionTerms (latest (·.actionId) actionId (loadFitting values.pendingActions)) facts.request with
  | .error error => .error error
  | .ok terms =>
      let (status, detail) := facts.status now
      if h : status = .executed ↔ facts.receipt.any (·.ok) = true then
        .ok { actionId, actionStatus := status, workflowId, threadId, kind := terms.kind,
              target := terms.target, summary := terms.summary, riskLevel := terms.riskLevel,
              approvalId := facts.request.map (·.requestId), approvalState := approvalState facts now,
              approvalExpiresAt := facts.request.map (·.expiresAt),
              decidedBy := (nonEmpty (facts.decision.map (·.decidedBy))).or
                (facts.record.bind (·.decidedBy)),
              receipt := facts.receipt, refusalReason := facts.refusal.map (·.reason), detail,
              executed_means_receipted := h }
      else .error .malformed

def deriveActions : List UUID → Except ContractError (List WorkflowAction)
  | [] => .ok []
  | actionId :: actionIds =>
      match deriveAction values workflowId threadId recorded now actionId with
      | .error error => .error error
      | .ok action => (deriveActions actionIds).map (action :: ·)

/-- The actions a thread's state holds, in the order of their requests and then of their intents. -/
def actionOrder (values : JobSearchState P) : List UUID :=
  (values.approvalRequests.map (·.actionId) ++
    (loadFitting values.pendingActions).map (·.actionId)).eraseDups

/-- Label every action one thread's state holds with what became of it. -/
def deriveThreadActions : Except ContractError (List WorkflowAction) :=
  deriveActions values workflowId threadId recorded now (actionOrder values)

/-! ### What a derivation returns -/

variable {values workflowId threadId recorded now} {actionId : UUID} {action : WorkflowAction}

/-- The state asks about an action or holds one to ask about. -/
def Listed (values : JobSearchState P) (actionId : UUID) : Prop :=
  (∃ request ∈ values.approvalRequests, request.actionId = actionId) ∨
    ∃ intent, some intent ∈ values.pendingActions ∧ intent.actionId = actionId

omit [ActionPayload P] in
theorem mem_actionOrder : actionId ∈ actionOrder values ↔ Listed values actionId := by
  simp only [actionOrder, Listed, List.mem_eraseDups, List.mem_append, List.mem_map, mem_loadFitting]

theorem nodup_eraseDups : ∀ actionIds : List UUID, actionIds.eraseDups.Nodup
  | [] => List.nodup_nil
  | actionId :: actionIds => by
      rw [List.eraseDups_cons, List.nodup_cons, List.mem_eraseDups]
      exact ⟨by simp, nodup_eraseDups _⟩
termination_by actionIds => actionIds.length
decreasing_by exact Nat.lt_succ_of_le (List.length_filter_le _ _)

theorem deriveAction_eq (h : deriveAction values workflowId threadId recorded now actionId = .ok action) :
    action.actionId = actionId ∧ action.actionStatus = (factsOf values recorded actionId).label := by
  unfold deriveAction at h
  dsimp only at h
  split at h
  · cases h
  · split at h
    · obtain rfl := Except.ok.inj h
      exact ⟨rfl, ActionFacts.status_fst _ _⟩
    · cases h

/-- An action that is listed, and whose preview can be read, is labelled. -/
theorem deriveAction_ok (hlisted : Listed values actionId)
    (hpreview : ∀ intent, some intent ∈ values.pendingActions →
      ActionPayload.previewable intent.payload = true) :
    ∃ action, deriveAction values workflowId threadId recorded now actionId = .ok action := by
  have hterms : ∃ terms, actionTerms
      (latest (·.actionId) actionId (loadFitting values.pendingActions))
      (factsOf values recorded actionId).request = .ok terms := by
    cases hi : latest (·.actionId) actionId (loadFitting values.pendingActions) with
    | some intent =>
        cases hr : (factsOf values recorded actionId).request with
        | some request => exact ⟨_, rfl⟩
        | none =>
            have hpending := mem_loadFitting.mp (latest_mem hi).1
            exact ⟨_, by rw [actionTerms, if_pos (hpreview intent hpending)]⟩
    | none =>
        cases hr : (factsOf values recorded actionId).request with
        | some request => exact ⟨_, rfl⟩
        | none =>
            rcases hlisted with ⟨request, hmem, hid⟩ | ⟨intent, hmem, hid⟩
            · exact absurd hid (latest_eq_none.mp hr request hmem)
            · exact absurd hid (latest_eq_none.mp hi intent (mem_loadFitting.mpr hmem))
  obtain ⟨terms, hterms⟩ := hterms
  unfold deriveAction
  dsimp only
  rw [hterms]
  dsimp only
  rw [dif_pos]
  · exact ⟨_, rfl⟩
  · rw [ActionFacts.status_fst]
    exact ActionFacts.label_executed _

theorem deriveActions_ok {actionIds : List UUID}
    (h : ∀ actionId ∈ actionIds,
      ∃ action, deriveAction values workflowId threadId recorded now actionId = .ok action) :
    ∃ actions, deriveActions values workflowId threadId recorded now actionIds = .ok actions := by
  induction actionIds with
  | nil => exact ⟨[], rfl⟩
  | cons actionId actionIds ih =>
      obtain ⟨action, haction⟩ := h actionId List.mem_cons_self
      obtain ⟨actions, hactions⟩ := ih fun i hi => h i (List.mem_cons_of_mem _ hi)
      refine ⟨action :: actions, ?_⟩
      rw [deriveActions, haction]
      dsimp only
      rw [hactions]
      rfl

theorem deriveActions_eq {actionIds : List UUID} {actions : List WorkflowAction}
    (h : deriveActions values workflowId threadId recorded now actionIds = .ok actions) :
    actions.map (·.actionId) = actionIds ∧
      ∀ action ∈ actions, action.actionStatus = (factsOf values recorded action.actionId).label := by
  induction actionIds generalizing actions with
  | nil =>
      obtain rfl := Except.ok.inj h
      simp
  | cons actionId actionIds ih =>
      rw [deriveActions] at h
      cases haction : deriveAction values workflowId threadId recorded now actionId with
      | error error =>
          rw [haction] at h
          cases h
      | ok action =>
          rw [haction] at h
          dsimp only at h
          cases hrest : deriveActions values workflowId threadId recorded now actionIds with
          | error error =>
              rw [hrest] at h
              cases h
          | ok rest =>
              rw [hrest] at h
              obtain rfl := Except.ok.inj h
              obtain ⟨hids, hlabels⟩ := ih hrest
              obtain ⟨hid, hlabel⟩ := deriveAction_eq haction
              refine ⟨by rw [List.map_cons, hid, hids], fun a ha => ?_⟩
              rcases List.mem_cons.mp ha with rfl | ha
              · rw [hid]
                exact hlabel
              · exact hlabels a ha

end derivation

end PersonalOS
