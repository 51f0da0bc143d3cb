import PersonalOS.ActionStatus
import PersonalOS.CheckpointAnswers
import PersonalOS.RerunExecution

/-! # Labels that tell the truth

Runs of a thread's approval nodes together with the `approvals` rows recorded for its requests, in any
order, and what `deriveThreadActions` reads out of every state they reach.

* **Steps.** A node of the graph runs, or the queue records a decision; nothing else writes what the
  labels are read from.
* **Straight steps.** The expiry sweep's denials look like a reviewer's until the run is refused; an
  action with an outcome can come before the executor again, and one with a denial on record before the
  gate or the executor.  A step is `Straight` when what is on file before it rules this out.
* **Run.** After straight steps every fact on record is one a label may be read from (`Sound`), and no
  terminal label changes (`Sound.label_stands`); `labels_true` puts the two together. -/

namespace PersonalOS

open ApprovalStore

variable {P τ : Type}

/-- A thread of the graph with the decisions recorded for it. -/
structure ThreadRun (P τ : Type) where
  graph : GraphRun P
  store : ApprovalStore τ

/-- A thread nothing has happened on. -/
def ThreadRun.new (P τ : Type) : ThreadRun P τ := ⟨⟨⟨[], [], [], [], []⟩, []⟩, ⟨[], [], []⟩⟩

inductive ThreadStep (P τ : Type) where
  | node (step : SuperStep P)
  | record (call : τ) (request : ApprovalRequest) (outcome : ApprovalOutcome) (actorId : String)
      (now : Time)

namespace ThreadRun

variable (thread : ThreadRun P τ)

/-- The decisions the action reader finds. -/
def recorded : UUID → Option RecordedDecision :=
  recordedDecisions thread.store thread.graph.state.approvalRequests

def facts (actionId : UUID) : ActionFacts := factsOf thread.graph.state thread.recorded actionId

/-- The actions the reader lists for the thread. -/
def actions [ActionPayload P] (workflowId : UUID) (threadId : String) (now : Time) :
    Except ContractError (List WorkflowAction) :=
  deriveThreadActions thread.graph.state workflowId threadId thread.recorded now

variable [ActionPayload P]

/-- Take a step; only requests of the thread are decided. -/
def step : ThreadStep P τ → ThreadRun P τ
  | .node step => { thread with graph := superStep thread.graph step }
  | .record call request outcome actorId now =>
      if request ∈ thread.graph.state.approvalRequests then
        { thread with store := (thread.store.insertDecision call request outcome actorId now).2 }
      else thread

def run (steps : List (ThreadStep P τ)) : ThreadRun P τ :=
  steps.foldl (fun thread step => thread.step step) thread

/-! ### Straight steps -/

/-- A success is on file for the action. -/
def ReceiptedOk (actionId : UUID) : Prop :=
  ∃ receipt ∈ thread.graph.state.actionReceipts, receipt.actionId = actionId ∧ receipt.ok = true

/-- The last decision on the action answers its last request, and rejects it. -/
def Rejected (actionId : UUID) : Prop :=
  ∃ request decision, latest (·.actionId) actionId thread.graph.state.approvalRequests = some request ∧
    latest (·.actionId) actionId thread.graph.state.approvals = some decision ∧
    decision.answers request = true ∧ decision.verdict = .rejected

/-- Each pending action is there once.  One with an outcome on file was refused as denied and is rejected still,
and a denial on record is one that the state has. -/
structure RedeemsStraight (executor : ActionExecutor P) (intents : List (ActionIntent P)) : Prop where
  /-- A receipt names the action it is for. -/
  named : ∀ n intent decision receipt, executor n intent decision = .ok receipt →
    receipt.actionId = intent.actionId
  once : (intents.map (·.actionId)).Nodup
  settled : ∀ intent ∈ intents, (thread.facts intent.actionId).settled = true →
    (thread.facts intent.actionId).refusedByUser = true ∧ thread.Rejected intent.actionId
  denied : ∀ intent ∈ intents, (thread.facts intent.actionId).denialRecorded = true →
    thread.Rejected intent.actionId

/-- The step says nothing that a label would misreport or take back. -/
def Straight : ThreadStep P τ → Prop
  -- The nodes propose what a reviewer can be shown.
  | .node (.rewrite pendingActions) =>
      ∀ intent, some intent ∈ pendingActions → ActionPayload.previewable intent.payload = true
  -- An action denied through the queue alone is not asked about again.
  | .node (.requestApproval _ _ _) =>
      ∀ intent, some intent ∈ thread.graph.state.pendingActions →
        (thread.facts intent.actionId).settled = false →
        (thread.facts intent.actionId).recordIs .denied = true →
        (thread.facts intent.actionId).decisionIs .rejected = true
  -- No rejection is the sweep's, and no action that is rejected in state alone is answered again.
  | .node (.approvalCheckpoint gate resume) =>
      (∀ n intent decision, gate n intent = .ok decision → decision.actionId = intent.actionId ∧
        (decision.verdict = .rejected → decision.decidedBy ≠ approvalExpiryActor)) ∧
      (∀ decision ∈ resumeDecisions resume, decision.verdict = .rejected →
        decision.decidedBy ≠ approvalExpiryActor) ∧
      ∀ intent, some intent ∈ thread.graph.state.pendingActions →
        (thread.facts intent.actionId).settled = false →
        (thread.facts intent.actionId).decisionIs .rejected = true →
        (thread.facts intent.actionId).recordIs .denied = true
  | .node (.executeApprovedActions _ executor _) =>
      ∀ intents, load thread.graph.state.pendingActions = .ok intents →
        thread.RedeemsStraight executor intents
  -- The sweep closes no request.
  | .record _ _ outcome _ _ => outcome ≠ .expired

/-- Every step is straight where it is taken. -/
def AllStraight : ThreadRun P τ → List (ThreadStep P τ) → Prop
  | _, [] => True
  | thread, step :: steps => thread.Straight step ∧ AllStraight (thread.step step) steps

/-! ### What a label may be read from -/

/-- A reviewer, not the sweep, said no to the action: in state, or through the queue. -/
def RejectedByReviewer (actionId : UUID) : Prop :=
  (∃ decision ∈ thread.graph.state.approvals, decision.actionId = actionId ∧
    decision.verdict = .rejected ∧ decision.decidedBy ≠ approvalExpiryActor) ∨
  ∃ request ∈ thread.graph.state.approvalRequests, request.actionId = actionId ∧
    ∃ recorded ∈ thread.store.approvals, recorded.row.id = request.requestId ∧
      recorded.row.note = .deniedByUser

/-- The facts on record are ones the labels may be read from. -/
structure Sound : Prop where
  previewed : ∀ intent, some intent ∈ thread.graph.state.pendingActions →
    ActionPayload.previewable intent.payload = true
  receipts_agree : ∀ receipt ∈ thread.graph.state.actionReceipts,
    ∀ receipt' ∈ thread.graph.state.actionReceipts, receipt.actionId = receipt'.actionId →
      receipt.ok = receipt'.ok
  refusals_reviewed : ∀ refusal ∈ thread.graph.state.approvalRefusals, refusal.reason = .deniedByUser →
    ∃ decision ∈ thread.graph.state.approvals, decision.actionId = refusal.actionId ∧
      decision.verdict = .rejected ∧ decision.decidedBy ≠ approvalExpiryActor
  rejections_reviewed : ∀ decision ∈ thread.graph.state.approvals, decision.verdict = .rejected →
    decision.decidedBy ≠ approvalExpiryActor
  denials_reviewed : ∀ recorded ∈ thread.store.approvals, recorded.row.status = .denied →
    recorded.row.note = .deniedByUser

end ThreadRun

/-! ### What the nodes append -/

section nodes

variable [ActionPayload P] {graph : GraphRun P}

theorem superStep_request (graph : GraphRun P) (drawn : ℕ → UUID) (now : Time) (ttl : Option Time) :
    (superStep graph (.requestApproval drawn now ttl)).state = graph.state ∨
    ∃ requests, newRequests drawn now ttl graph.state = .ok requests ∧
      (superStep graph (.requestApproval drawn now ttl)).state =
        { graph.state with approvalRequests := graph.state.approvalRequests ++ requests } := by
  simp only [superStep]
  cases h : newRequests drawn now ttl graph.state with
  | error error => exact Or.inl rfl
  | ok requests => exact Or.inr ⟨requests, rfl, rfl⟩

theorem superStep_checkpoint (graph : GraphRun P) (gate : ApprovalGate P) (resume : Option ResumeValue) :
    (superStep graph (.approvalCheckpoint gate resume)).state = graph.state ∨
    ∃ decisions, approvalCheckpoint gate resume graph.state = .decided decisions ∧
      (superStep graph (.approvalCheckpoint gate resume)).state =
        { graph.state with approvals := graph.state.approvals ++ decisions } := by
  simp only [superStep]
  cases h : approvalCheckpoint gate resume graph.state with
  | raised error => exact Or.inl rfl
  | parked requests => exact Or.inl rfl
  | decided decisions => exact Or.inr ⟨decisions, rfl, rfl⟩

theorem superStep_execute (graph : GraphRun P) (redactText : RedactText) (executor : ActionExecutor P)
    (now : Time) :
    (superStep graph (.executeApprovedActions redactText executor now)).state = graph.state ∨
    ∃ intents receipts refusals, load graph.state.pendingActions = .ok intents ∧
      (redeem redactText executor graph.state.approvalRequests graph.state.approvals now 0
        intents).update = .ok (receipts, refusals) ∧
      (superStep graph (.executeApprovedActions redactText executor now)).state =
        { graph.state with
          actionReceipts := graph.state.actionReceipts ++ receipts
          approvalRefusals := graph.state.approvalRefusals ++ refusals } := by
  simp only [superStep, executeApprovedActions]
  cases hload : load graph.state.pendingActions with
  | error error => exact Or.inl rfl
  | ok intents =>
      dsimp only
      cases hupdate : (redeem redactText executor graph.state.approvalRequests graph.state.approvals now
          0 intents).update with
      | error error => exact Or.inl rfl
      | ok update => exact Or.inr ⟨intents, update.1, update.2, rfl, hupdate, rfl⟩

theorem redeem_receipts {redactText : RedactText} {executor : ActionExecutor P}
    {requests : List ApprovalRequest} {approvals : List ApprovalDecision} {now : Time} {n : ℕ}
    {intents : List (ActionIntent P)} {receipts : List ActionReceipt} {refusals : List ApprovalRefusal}
    (named : ∀ n intent decision receipt, executor n intent decision = .ok receipt →
      receipt.actionId = intent.actionId)
    (h : (redeem redactText executor requests approvals now n intents).update =
      .ok (receipts, refusals)) :
    (receipts.map (·.actionId)).Sublist (intents.map (·.actionId)) := by
  induction intents generalizing n receipts refusals with
  | nil =>
      obtain ⟨rfl, rfl⟩ := Prod.mk.inj (Except.ok.inj h)
      simp
  | cons intent intents ih =>
      simp only [redeem] at h
      cases hrest : (redeem redactText executor requests approvals now (n + 1) intents).update with
      | error error =>
          rw [hrest] at h
          split at h
          · cases h
          · cases h
          · split at h <;> cases h
      | ok rest =>
          have hsub := ih hrest
          rw [hrest] at h
          split at h
          · obtain ⟨rfl, rfl⟩ := Prod.mk.inj (Except.ok.inj h)
            exact hsub.cons _
          · cases h
          · rename_i decision _ _
            split at h
            · cases h
            · rename_i receipt hreceipt
              obtain ⟨rfl, rfl⟩ := Prod.mk.inj (Except.ok.inj h)
              have hname : (receipt.redact redactText).actionId = intent.actionId :=
                named n intent decision receipt hreceipt
              rw [List.map_cons, List.map_cons, hname]
              exact hsub.cons_cons _

theorem redeem_authorized {redactText : RedactText} {executor : ActionExecutor P}
    {requests : List ApprovalRequest} {approvals : List ApprovalDecision} {now : Time} {n : ℕ}
    {intents : List (ActionIntent P)} {receipts : List ActionReceipt} {refusals : List ApprovalRefusal}
    (named : ∀ n intent decision receipt, executor n intent decision = .ok receipt →
      receipt.actionId = intent.actionId)
    (h : (redeem redactText executor requests approvals now n intents).update =
      .ok (receipts, refusals)) :
    ∀ receipt ∈ receipts, ∃ intent ∈ intents, intent.actionId = receipt.actionId ∧
      authorizeExecution intent (latest (·.actionId) intent.actionId requests)
        (latest (·.actionId) intent.actionId approvals) now = none := by
  induction intents generalizing n receipts refusals with
  | nil =>
      obtain ⟨rfl, rfl⟩ := Prod.mk.inj (Except.ok.inj h)
      exact fun _ hmem => absurd hmem List.not_mem_nil
  | cons intent intents ih =>
      simp only [redeem] at h
      cases hrest : (redeem redactText executor requests approvals now (n + 1) intents).update with
      | error error =>
          rw [hrest] at h
          split at h
          · cases h
          · cases h
          · split at h <;> cases h
      | ok rest =>
          have hlater : ∀ receipt ∈ rest.1, ∃ intent' ∈ intent :: intents,
              intent'.actionId = receipt.actionId ∧
                authorizeExecution intent' (latest (·.actionId) intent'.actionId requests)
                  (latest (·.actionId) intent'.actionId approvals) now = none := by
            intro receipt hmem
            obtain ⟨intent', hintent, hrest'⟩ := ih hrest receipt hmem
            exact ⟨intent', List.mem_cons_of_mem _ hintent, hrest'⟩
          rw [hrest] at h
          split at h
          · obtain ⟨rfl, rfl⟩ := Prod.mk.inj (Except.ok.inj h)
            exact hlater
          · cases h
          · rename_i decision hauth hdecision
            split at h
            · cases h
            · rename_i receipt hreceipt
              obtain ⟨rfl, rfl⟩ := Prod.mk.inj (Except.ok.inj h)
              intro receipt' hmem
              rcases List.mem_cons.mp hmem with rfl | hmem
              · exact ⟨intent, List.mem_cons_self, (named n intent decision receipt hreceipt).symm, hauth⟩
              · exact hlater receipt' hmem

omit [ActionPayload P] in
/-- A decision of the checkpoint is the gate's on a pending action, or one of the resume value that names
a pending action. -/
theorem decided_origin {gate : ApprovalGate P} {resume : Option ResumeValue} {state : JobSearchState P}
    {decisions : List ApprovalDecision} (h : approvalCheckpoint gate resume state = .decided decisions) :
    ∀ decision ∈ decisions, ∃ intent, some intent ∈ state.pendingActions ∧
      ((∃ n, gate n intent = .ok decision) ∨
        decision ∈ resumeDecisions resume ∧ decision.actionId = intent.actionId) := by
  cases hload : load state.pendingActions with
  | error error =>
      unfold approvalCheckpoint at h
      rw [hload] at h
      cases h
  | ok intents =>
      obtain ⟨answers, rfl, hmerged⟩ := approvalCheckpoint_merged hload h
      intro decision hmem
      obtain ⟨intent, hintent, hlookup⟩ := List.mem_filterMap.mp hmem
      rcases hmerged.origin _ _ hlookup with ⟨-, hlatest⟩ | ⟨n, intent', hn, hid, hgate⟩
      · obtain ⟨hresumed, hname⟩ := latest_mem hlatest
        exact ⟨intent, mem_of_load hload intent hintent, Or.inr ⟨hresumed, hname⟩⟩
      · have hanswered : gate n intent' = .ok decision := by
          unfold gateAnswer at hgate
          split at hgate
          · cases hgate
          · rename_i answer hanswer
            split at hgate
            · cases hgate
            · rw [hanswer, Option.some.inj hgate]
        exact ⟨intent', mem_of_load hload intent' (List.mem_of_getElem? hn), Or.inl ⟨n, hanswered⟩⟩

theorem authorizeExecution_denied {intent : ActionIntent P} {request : Option ApprovalRequest}
    {decision : Option ApprovalDecision} {now : Time} {refusal : ApprovalRefusal}
    (h : authorizeExecution intent request decision now = some refusal)
    (hreason : refusal.reason = .deniedByUser) :
    ∃ d, decision = some d ∧ d.verdict = .rejected ∧ d.decidedBy ≠ approvalExpiryActor := by
  cases request with
  | none =>
      obtain rfl := Option.some.inj h
      cases hreason
  | some request =>
      cases decision with
      | none =>
          simp only [authorizeExecution] at h
          split at h
          all_goals
            obtain rfl := Option.some.inj h
            cases hreason
      | some d =>
          refine ⟨d, rfl, ?_⟩
          have hnon : d.verdict ≠ .approved → nonApprovalReason d = .deniedByUser →
              d.verdict = .rejected ∧ d.decidedBy ≠ approvalExpiryActor := by
            intro _ hr
            unfold nonApprovalReason at hr
            split at hr
            · cases hr
            · rename_i hactor
              split at hr
              · rename_i hverdict
                exact ⟨hverdict, hactor⟩
              · cases hr
          simp only [authorizeExecution] at h
          repeat' split at h
          all_goals first
            | (obtain rfl := Option.some.inj h
               first
                 | cases hreason
                 | exact hnon (by assumption) hreason)
            | cases h

end nodes

namespace ThreadRun

variable [ActionPayload P] {thread : ThreadRun P τ} {actionId : UUID}

/-! ### What a step leaves of the facts -/

omit [ActionPayload P] in
theorem recorded_of_mem {request : ApprovalRequest}
    (h : request ∈ thread.graph.state.approvalRequests) :
    thread.recorded request.requestId =
      (thread.store.decidedRow request.requestId).map fun row =>
        ⟨row.status, thread.store.decidedBy request.requestId⟩ := by
  unfold recorded recordedDecisions
  rw [if_pos]
  exact List.any_eq_true.mpr ⟨request, h, beq_self_eq_true _⟩

omit [ActionPayload P] in
theorem recordIs_iff {state : ApprovalState} : (thread.facts actionId).recordIs state = true ↔
    ∃ request row, latest (·.actionId) actionId thread.graph.state.approvalRequests = some request ∧
      thread.store.decidedRow request.requestId = some row ∧ row.status = state := by
  unfold facts factsOf ActionFacts.recordIs
  dsimp only
  cases hr : latest (·.actionId) actionId thread.graph.state.approvalRequests with
  | none => simp
  | some request =>
      simp only [Option.bind_some, recorded_of_mem (latest_mem hr).1]
      cases hrow : thread.store.decidedRow request.requestId with
      | none => simp [hrow]
      | some row => simp [hrow]

theorem label_of_kept {facts facts' : ActionFacts} (hreceipt : facts'.receipt = facts.receipt)
    (hrefusal : facts'.refusal = facts.refusal)
    (hdenial : facts.settled = false → facts.denialRecorded = true → facts'.denialRecorded = true)
    (h : facts.label.terminal = true) : facts'.label = facts.label := by
  have hsucceeded : facts'.succeeded = facts.succeeded := by
    rw [ActionFacts.succeeded, ActionFacts.succeeded, hreceipt]
  have hrefused : facts'.refusedByUser = facts.refusedByUser := by
    rw [ActionFacts.refusedByUser, ActionFacts.refusedByUser, hrefusal]
  have hsettled : facts'.settled = facts.settled := by
    rw [ActionFacts.settled, ActionFacts.settled, hreceipt, hrefusal]
  unfold ActionFacts.label at h ⊢
  rw [hsucceeded, hrefused, hsettled]
  split
  · rfl
  · split
    · rfl
    · split
      · rfl
      · rename_i h₁ h₂ h₃
        rw [if_neg h₁, if_neg h₂, if_neg h₃] at h
        by_cases hd : facts.denialRecorded = true
        · rw [if_pos hd, if_pos (hdenial (Bool.eq_false_iff.mpr h₃) hd)]
        · rw [if_neg hd] at h
          split at h <;> cases h

theorem label_of_repeated {facts facts' : ActionFacts} (hsettled : facts.settled = true)
    (hsettled' : facts'.settled = true) (hsucceeded : facts'.succeeded = facts.succeeded)
    (hrefused : facts.succeeded = false → facts'.refusedByUser = facts.refusedByUser) :
    facts'.label = facts.label := by
  unfold ActionFacts.label
  rw [hsucceeded, hsettled, hsettled']
  split
  · rfl
  · rename_i h
    rw [hrefused (Bool.eq_false_iff.mpr h), if_pos rfl, if_pos rfl]

theorem decidedRow_insertDecision {s : ApprovalStore τ} {call : τ} {request : ApprovalRequest}
    {outcome : ApprovalOutcome} {actorId : String} {now : Time} {requestId : UUID} {row : ApprovalRow}
    (h : s.decidedRow requestId = some row) :
    (s.insertDecision call request outcome actorId now).2.decidedRow requestId = some row := by
  unfold insertDecision
  split
  · exact h
  · rename_i hfree
    have hne : request.requestId ≠ requestId := by
      rintro rfl
      obtain ⟨⟨r, hr, rfl⟩, hid⟩ := decidedRow_eq_some h
      exact hfree (List.any_eq_true.mpr ⟨r, hr, by simpa using hid⟩)
    unfold decidedRow at h ⊢
    rw [List.find?_cons_of_neg (by simpa using hne)]
    exact h

/-! ### One straight step -/

theorem facts_node {node : SuperStep P} {state : JobSearchState P}
    (h : (superStep thread.graph node).state = state) :
    (thread.step (.node node)).facts actionId =
      factsOf state (recordedDecisions thread.store state.approvalRequests) actionId := by
  rw [← h]
  rfl

theorem label_request {drawn : ℕ → UUID} {now : Time} {ttl : Option Time}
    (hs : thread.Straight (.node (.requestApproval drawn now ttl)))
    (h : (thread.facts actionId).label.terminal = true) :
    ((thread.step (.node (.requestApproval drawn now ttl))).facts actionId).label =
      (thread.facts actionId).label := by
  rcases superStep_request thread.graph drawn now ttl with
    hsame | ⟨requests, hnew, hstate⟩
  · rw [facts_node hsame]
    rfl
  · refine label_of_kept (by rw [facts_node hstate]; rfl) (by rw [facts_node hstate]; rfl)
      (fun hunsettled hdenial => ?_) h
    have hdecision : ((thread.step (.node (.requestApproval drawn now ttl))).facts actionId).decision =
        (thread.facts actionId).decision := by
      rw [facts_node hstate]
      rfl
    unfold ActionFacts.denialRecorded ActionFacts.decisionIs
    rw [hdecision, Bool.or_eq_true]
    by_cases hrejected : (thread.facts actionId).decisionIs .rejected = true
    · exact Or.inl hrejected
    · have hrow : (thread.facts actionId).recordIs .denied = true :=
        (Bool.or_eq_true_iff.mp hdenial).resolve_left hrejected
      obtain ⟨request, row, hlatest, hdecided, hstatus⟩ := recordIs_iff.mp hrow
      refine Or.inr (recordIs_iff.mpr ⟨request, row, ?_, hdecided, hstatus⟩)
      -- The action is not asked about again, so its request is still the last.
      have hnone : latest (·.actionId) actionId requests = none := by
        refine latest_eq_none.mpr fun r hr hid => hrejected ?_
        obtain ⟨intent, hpending, hact, -⟩ := newRequests_pins hnew r hr
        obtain rfl : intent.actionId = actionId := hact.symm.trans hid
        exact hs intent hpending hunsettled hrow
      have hrequests : (thread.step (.node (.requestApproval drawn now ttl))).graph.state.approvalRequests =
          thread.graph.state.approvalRequests ++ requests :=
        congrArg JobSearchState.approvalRequests hstate
      rw [hrequests, latest_append, hnone, Option.none_or]
      exact hlatest

theorem label_checkpoint {gate : ApprovalGate P} {resume : Option ResumeValue}
    (hs : thread.Straight (.node (.approvalCheckpoint gate resume)))
    (h : (thread.facts actionId).label.terminal = true) :
    ((thread.step (.node (.approvalCheckpoint gate resume))).facts actionId).label =
      (thread.facts actionId).label := by
  rcases superStep_checkpoint thread.graph gate resume with
    hsame | ⟨decisions, hdecided, hstate⟩
  · rw [facts_node hsame]
    rfl
  · refine label_of_kept (by rw [facts_node hstate]; rfl) (by rw [facts_node hstate]; rfl)
      (fun hunsettled hdenial => ?_) h
    have hrecord : ((thread.step (.node (.approvalCheckpoint gate resume))).facts actionId).recordIs
        .denied = (thread.facts actionId).recordIs .denied := by
      rw [facts_node hstate]
      rfl
    have hdecision : ((thread.step (.node (.approvalCheckpoint gate resume))).facts actionId).decision =
        (latest (·.actionId) actionId decisions).or (thread.facts actionId).decision := by
      rw [facts_node hstate]
      exact latest_append
    unfold ActionFacts.denialRecorded
    rw [hrecord, Bool.or_eq_true]
    rcases Bool.or_eq_true_iff.mp hdenial with hrejected | hrow
    · unfold ActionFacts.decisionIs
      rw [hdecision]
      cases hl : latest (·.actionId) actionId decisions with
      | none => exact Or.inl hrejected
      | some decision =>
          obtain ⟨hmem, rfl⟩ := latest_mem hl
          obtain ⟨intent, hpending, horigin⟩ := decided_origin hdecided decision hmem
          have hid : decision.actionId = intent.actionId := by
            rcases horigin with ⟨n, hgate⟩ | ⟨-, hid⟩
            · exact (hs.1 n intent decision hgate).1
            · exact hid
          rw [hid] at hunsettled hrejected ⊢
          exact Or.inr (hs.2.2 intent hpending hunsettled hrejected)
    · exact Or.inr hrow

theorem label_record {call : τ} {request : ApprovalRequest} {outcome : ApprovalOutcome}
    {actorId : String} {now : Time} (h : (thread.facts actionId).label.terminal = true) :
    ((thread.step (.record call request outcome actorId now)).facts actionId).label =
      (thread.facts actionId).label := by
  have hstate : (thread.step (.record call request outcome actorId now)).graph = thread.graph := by
    simp only [step]
    split <;> rfl
  have hstore : ∀ requestId row, thread.store.decidedRow requestId = some row →
      (thread.step (.record call request outcome actorId now)).store.decidedRow requestId = some row := by
    intro requestId row hrow
    simp only [step]
    split
    · exact decidedRow_insertDecision hrow
    · exact hrow
  refine label_of_kept ?_ ?_ (fun _ hdenial => ?_) h
  · unfold facts factsOf
    rw [hstate]
  · unfold facts factsOf
    rw [hstate]
  · rw [ActionFacts.denialRecorded, Bool.or_eq_true]
    rcases Bool.or_eq_true_iff.mp hdenial with hrejected | hrow
    · left
      unfold facts factsOf at hrejected ⊢
      rw [hstate]
      exact hrejected
    · right
      obtain ⟨request, row, hlatest, hdecided, hstatus⟩ := recordIs_iff.mp hrow
      exact recordIs_iff.mpr ⟨request, row, hstate ▸ hlatest, hstore _ _ hdecided, hstatus⟩

theorem Sound.succeeded_iff (h : thread.Sound) :
    (thread.facts actionId).succeeded = true ↔ thread.ReceiptedOk actionId := by
  have hreceipt : (thread.facts actionId).receipt =
      latest (·.actionId) actionId thread.graph.state.actionReceipts := rfl
  unfold ActionFacts.succeeded ReceiptedOk
  rw [hreceipt]
  constructor
  · intro hok
    obtain ⟨receipt, hlatest, hok⟩ := (Option.any_eq_true _ _).mp hok
    exact ⟨receipt, (latest_mem hlatest).1, (latest_mem hlatest).2, hok⟩
  · rintro ⟨receipt, hmem, hid, hok⟩
    cases hlatest : latest (·.actionId) actionId thread.graph.state.actionReceipts with
    | none => exact absurd hid (latest_eq_none.mp hlatest receipt hmem)
    | some last =>
        obtain ⟨hlast, hlastid⟩ := latest_mem hlatest
        rw [Option.any_some, h.receipts_agree last hlast receipt hmem (hlastid.trans hid.symm)]
        exact hok

theorem Sound.refuses (h : thread.Sound) {intent : ActionIntent P} (hrejected : thread.Rejected intent.actionId)
    (now : Time) : ∃ refusal,
      authorizeExecution intent (latest (·.actionId) intent.actionId thread.graph.state.approvalRequests)
        (latest (·.actionId) intent.actionId thread.graph.state.approvals) now = some refusal ∧
      refusal.reason = .deniedByUser := by
  obtain ⟨request, decision, hrequest, hdecision, hanswers, hverdict⟩ := hrejected
  obtain ⟨-, hid⟩ := latest_mem hrequest
  have hactor := h.rejections_reviewed decision (latest_mem hdecision).1 hverdict
  rw [hrequest, hdecision]
  simp [authorizeExecution, ApprovalRequest.describes, hid, hanswers, hverdict, nonApprovalReason, hactor]

section redeeming

variable {redactText : RedactText} {executor : ActionExecutor P} {now : Time}
variable {intents : List (ActionIntent P)} {receipts : List ActionReceipt} {refusals : List ApprovalRefusal}

theorem Sound.unredeemed (h : thread.Sound) (hstraight : thread.RedeemsStraight executor intents)
    (hupdate : (redeem redactText executor thread.graph.state.approvalRequests
      thread.graph.state.approvals now 0 intents).update = .ok (receipts, refusals))
    (hdenied : ∀ intent ∈ intents, intent.actionId = actionId → thread.Rejected actionId) :
    latest (·.actionId) actionId receipts = none := by
  refine latest_eq_none.mpr fun receipt hmem hid => ?_
  obtain ⟨intent, hintent, hname, hauth⟩ := redeem_authorized hstraight.named hupdate receipt hmem
  have hrejected := hdenied intent hintent (hname.trans hid)
  rw [← hname.trans hid] at hrejected
  obtain ⟨refusal, hrefusal, -⟩ := h.refuses hrejected now
  rw [hauth] at hrefusal
  cases hrefusal

theorem Sound.refused_denied (h : thread.Sound)
    (hupdate : (redeem redactText executor thread.graph.state.approvalRequests
      thread.graph.state.approvals now 0 intents).update = .ok (receipts, refusals))
    {refusal : ApprovalRefusal} (hmem : refusal ∈ refusals)
    (hdenied : ∀ intent ∈ intents, intent.actionId = refusal.actionId → thread.Rejected refusal.actionId) :
    (∃ intent ∈ intents, intent.actionId = refusal.actionId) ∧ refusal.reason = .deniedByUser := by
  have hgate := (redeem_update hupdate).2
  dsimp only at hgate
  rw [hgate] at hmem
  obtain ⟨intent, hintent, hauth⟩ := List.mem_filterMap.mp hmem
  have hid := (authorizeExecution_actionId hauth).symm
  have hrejected := hdenied intent hintent hid
  rw [← hid] at hrejected
  obtain ⟨refusal', hrefusal, hreason⟩ := h.refuses hrejected now
  obtain rfl := Option.some.inj (hauth.symm.trans hrefusal)
  exact ⟨⟨intent, hintent, hid⟩, hreason⟩

end redeeming

theorem Sound.label_execute {redactText : RedactText} {executor : ActionExecutor P} {now : Time}
    (hsound : thread.Sound)
    (hs : thread.Straight (.node (.executeApprovedActions redactText executor now)))
    (h : (thread.facts actionId).label.terminal = true) :
    ((thread.step (.node (.executeApprovedActions redactText executor now))).facts actionId).label =
      (thread.facts actionId).label := by
  rcases superStep_execute thread.graph redactText executor now with
    hsame | ⟨intents, receipts, refusals, hload, hupdate, hstate⟩
  · rw [facts_node hsame]
    rfl
  · have hstraight := hs intents hload
    have hreceipt :
        ((thread.step (.node (.executeApprovedActions redactText executor now))).facts actionId).receipt =
          (latest (·.actionId) actionId receipts).or (thread.facts actionId).receipt := by
      rw [facts_node hstate]
      exact latest_append
    have hrefusal :
        ((thread.step (.node (.executeApprovedActions redactText executor now))).facts actionId).refusal =
          (latest (·.actionId) actionId refusals).or (thread.facts actionId).refusal := by
      rw [facts_node hstate]
      exact latest_append
    have hdenied :
        ((thread.step (.node (.executeApprovedActions redactText executor now))).facts
          actionId).denialRecorded = (thread.facts actionId).denialRecorded := by
      rw [facts_node hstate]
      rfl
    generalize (thread.step (.node (.executeApprovedActions redactText executor now))).facts actionId =
      facts' at hreceipt hrefusal hdenied ⊢
    cases hsettled : (thread.facts actionId).settled with
    | true =>
        have hrejected : ∀ intent ∈ intents, intent.actionId = actionId → thread.Rejected actionId :=
          fun intent hintent hid => hid ▸ (hstraight.settled intent hintent (hid ▸ hsettled)).2
        rw [hsound.unredeemed hstraight hupdate hrejected, Option.none_or] at hreceipt
        refine label_of_repeated hsettled ?_ ?_ fun _ => ?_
        · rw [ActionFacts.settled, Bool.or_eq_true] at hsettled ⊢
          rw [hrefusal, hreceipt, Option.isSome_or]
          exact hsettled.imp (fun hr => by rw [hr, Bool.or_true]) id
        · rw [ActionFacts.succeeded, ActionFacts.succeeded, hreceipt]
        · unfold ActionFacts.refusedByUser
          rw [hrefusal]
          cases hnew : latest (·.actionId) actionId refusals with
          | none => rfl
          | some refusal =>
              obtain ⟨hmem, rfl⟩ := latest_mem hnew
              obtain ⟨⟨intent, hintent, hid⟩, hreason⟩ := hsound.refused_denied hupdate hmem hrejected
              have hbefore := (hstraight.settled intent hintent (hid ▸ hsettled)).1
              rw [hid, ActionFacts.refusedByUser] at hbefore
              rw [Option.some_or, Option.any_some, hreason, hbefore]
              rfl
    | false =>
        obtain ⟨hnorefusal, hnoreceipt⟩ := Bool.or_eq_false_iff.mp hsettled
        rw [Option.isSome_eq_false_iff, Option.isNone_iff_eq_none] at hnorefusal hnoreceipt
        have hdenial : (thread.facts actionId).denialRecorded = true := by
          by_contra hdenial
          unfold ActionFacts.label ActionFacts.succeeded ActionFacts.refusedByUser at h
          rw [hnoreceipt, hnorefusal, hsettled, if_neg hdenial] at h
          simp only [Option.any_none, Bool.false_eq_true, if_false] at h
          split at h <;> cases h
        have hrejected : ∀ intent ∈ intents, intent.actionId = actionId → thread.Rejected actionId :=
          fun intent hintent hid => hid ▸ hstraight.denied intent hintent (hid ▸ hdenial)
        rw [hsound.unredeemed hstraight hupdate hrejected, Option.none_or] at hreceipt
        cases hnew : latest (·.actionId) actionId refusals with
        | none =>
            rw [hnew, Option.none_or] at hrefusal
            exact label_of_kept hreceipt hrefusal (fun _ hd => hdenied.trans hd) h
        | some refusal =>
            obtain ⟨hmem, rfl⟩ := latest_mem hnew
            have hreason := (hsound.refused_denied hupdate hmem hrejected).2
            rw [hnew, Option.some_or] at hrefusal
            rw [hnoreceipt] at hreceipt
            unfold ActionFacts.label ActionFacts.succeeded ActionFacts.refusedByUser
            rw [hreceipt, hrefusal, hnoreceipt, hnorefusal, hsettled, if_pos hdenial]
            simp [hreason]

/-! ### Straight steps keep the facts sound -/

theorem Sound.receipts_agree_execute (h : thread.Sound) {redactText : RedactText}
    {executor : ActionExecutor P} {now : Time} {intents : List (ActionIntent P)}
    {receipts : List ActionReceipt} {refusals : List ApprovalRefusal}
    (hstraight : thread.RedeemsStraight executor intents)
    (hupdate : (redeem redactText executor thread.graph.state.approvalRequests
      thread.graph.state.approvals now 0 intents).update = .ok (receipts, refusals)) :
    ∀ receipt ∈ thread.graph.state.actionReceipts ++ receipts,
      ∀ receipt' ∈ thread.graph.state.actionReceipts ++ receipts, receipt.actionId = receipt'.actionId →
        receipt.ok = receipt'.ok := by
  have hnodup : (receipts.map (·.actionId)).Nodup :=
    hstraight.once.sublist (redeem_receipts hstraight.named hupdate)
  -- An action with a receipt on file gets no other.
  have hfresh : ∀ receipt ∈ thread.graph.state.actionReceipts, ∀ receipt' ∈ receipts,
      receipt.actionId ≠ receipt'.actionId := by
    intro receipt hold receipt' hnew hid
    have hsettled : (thread.facts receipt.actionId).settled = true := by
      rw [ActionFacts.settled, Bool.or_eq_true, Option.isSome_iff_ne_none (o := (thread.facts _).receipt)]
      exact Or.inr fun hnone => latest_eq_none.mp hnone receipt hold rfl
    have hnone : latest (·.actionId) receipt.actionId receipts = none :=
      h.unredeemed hstraight hupdate fun intent hintent hname =>
        hname ▸ (hstraight.settled intent hintent (hname ▸ hsettled)).2
    exact latest_eq_none.mp hnone receipt' hnew hid.symm
  intro receipt hmem receipt' hmem' hid
  rcases List.mem_append.mp hmem with hold | hnew
  · rcases List.mem_append.mp hmem' with hold' | hnew'
    · exact h.receipts_agree receipt hold receipt' hold' hid
    · exact absurd hid (hfresh receipt hold receipt' hnew')
  · rcases List.mem_append.mp hmem' with hold' | hnew'
    · exact absurd hid.symm (hfresh receipt' hold' receipt hnew)
    · exact congrArg ActionReceipt.ok (List.inj_on_of_nodup_map hnodup hnew hnew' hid)

theorem Sound.of_same (h : thread.Sound) {thread' : ThreadRun P τ}
    (hstate : thread'.graph.state = thread.graph.state) (hstore : thread'.store = thread.store) :
    thread'.Sound := by
  constructor
  · rw [hstate]
    exact h.previewed
  · rw [hstate]
    exact h.receipts_agree
  · rw [hstate]
    exact h.refusals_reviewed
  · rw [hstate]
    exact h.rejections_reviewed
  · rw [hstore]
    exact h.denials_reviewed

theorem Sound.step (h : thread.Sound) {step : ThreadStep P τ} (hs : thread.Straight step) :
    (thread.step step).Sound := by
  cases step with
  | node node =>
      cases node with
      | rewrite pendingActions =>
          exact ⟨hs, h.receipts_agree, h.refusals_reviewed, h.rejections_reviewed, h.denials_reviewed⟩
      | requestApproval drawn now ttl =>
          rcases superStep_request thread.graph drawn now ttl with
            hsame | ⟨requests, hnew, hstate⟩
          · exact h.of_same hsame rfl
          · constructor <;> simp only [ThreadRun.step, hstate]
            · exact h.previewed
            · exact h.receipts_agree
            · exact h.refusals_reviewed
            · exact h.rejections_reviewed
            · exact h.denials_reviewed
      | approvalCheckpoint gate resume =>
          rcases superStep_checkpoint thread.graph gate resume with
            hsame | ⟨decisions, hdecided, hstate⟩
          · exact h.of_same hsame rfl
          · constructor <;> simp only [ThreadRun.step, hstate]
            · exact h.previewed
            · exact h.receipts_agree
            · intro refusal hmem hreason
              obtain ⟨decision, hdecision, hrest⟩ := h.refusals_reviewed refusal hmem hreason
              exact ⟨decision, List.mem_append_left _ hdecision, hrest⟩
            · intro decision hmem hrejected
              rcases List.mem_append.mp hmem with hmem | hmem
              · exact h.rejections_reviewed decision hmem hrejected
              · obtain ⟨intent, -, horigin⟩ := decided_origin hdecided decision hmem
                rcases horigin with ⟨n, hgate⟩ | ⟨hresumed, -⟩
                · exact (hs.1 n intent decision hgate).2 hrejected
                · exact hs.2.1 decision hresumed hrejected
            · exact h.denials_reviewed
      | executeApprovedActions redactText executor now =>
          rcases superStep_execute thread.graph redactText executor now with
            hsame | ⟨intents, receipts, refusals, hload, hupdate, hstate⟩
          · exact h.of_same hsame rfl
          · have hstraight := hs intents hload
            constructor <;> simp only [ThreadRun.step, hstate]
            · exact h.previewed
            · exact h.receipts_agree_execute hstraight hupdate
            · intro refusal hmem hreason
              rcases List.mem_append.mp hmem with hmem | hmem
              · exact h.refusals_reviewed refusal hmem hreason
              · have hgate := (redeem_update hupdate).2
                dsimp only at hgate
                rw [hgate] at hmem
                obtain ⟨intent, -, hauth⟩ := List.mem_filterMap.mp hmem
                obtain ⟨decision, hlatest, hrejected, hactor⟩ := authorizeExecution_denied hauth hreason
                obtain ⟨hdecision, hid⟩ := latest_mem hlatest
                exact ⟨decision, hdecision, hid.trans (authorizeExecution_actionId hauth).symm, hrejected,
                  hactor⟩
            · exact h.rejections_reviewed
            · exact h.denials_reviewed
  | record call request outcome actorId now =>
      simp only [ThreadRun.step]
      split
      · refine ⟨h.previewed, h.receipts_agree, h.refusals_reviewed, h.rejections_reviewed, ?_⟩
        intro recorded hmem hstatus
        by_cases hfree : ∀ r ∈ thread.store.approvals, r.row.id ≠ request.requestId
        · rw [insertDecision_approvals hfree] at hmem
          rcases List.mem_cons.mp hmem with rfl | hmem
          · have hexpired : outcome ≠ .expired := hs
            cases outcome with
            | approved => cases hstatus
            | deniedByUser => rfl
            | expired => exact absurd rfl hexpired
          · exact h.denials_reviewed recorded hmem hstatus
        · have hany : thread.store.approvals.any (·.row.id == request.requestId) = true := by
            simpa using hfree
          unfold insertDecision at hmem
          rw [if_pos hany] at hmem
          exact h.denials_reviewed recorded hmem hstatus
      · exact h

theorem Sound.label_stands (h : thread.Sound) {step : ThreadStep P τ} (hs : thread.Straight step)
    (hterminal : (thread.facts actionId).label.terminal = true) :
    ((thread.step step).facts actionId).label = (thread.facts actionId).label := by
  cases step with
  | node node =>
      cases node with
      | rewrite pendingActions => rfl
      | requestApproval drawn now ttl => exact label_request hs hterminal
      | approvalCheckpoint gate resume => exact label_checkpoint hs hterminal
      | executeApprovedActions redactText executor now => exact h.label_execute hs hterminal
  | record call request outcome actorId now => exact label_record hterminal

/-! ### Runs -/

theorem allStraight_append {steps later : List (ThreadStep P τ)} :
    AllStraight thread (steps ++ later) ↔ AllStraight thread steps ∧ AllStraight (thread.run steps) later := by
  induction steps generalizing thread with
  | nil => exact (and_iff_right trivial).symm
  | cons step steps ih =>
      rw [List.cons_append, AllStraight, AllStraight, ih, and_assoc]
      rfl

theorem Sound.run (h : thread.Sound) {steps : List (ThreadStep P τ)} (hs : AllStraight thread steps) :
    (thread.run steps).Sound := by
  induction steps generalizing thread with
  | nil => exact h
  | cons step steps ih => exact ih (h.step hs.1) hs.2

theorem Sound.label_run (h : thread.Sound) {steps : List (ThreadStep P τ)} (hs : AllStraight thread steps)
    (hterminal : (thread.facts actionId).label.terminal = true) :
    ((thread.run steps).facts actionId).label = (thread.facts actionId).label := by
  induction steps generalizing thread with
  | nil => rfl
  | cons step steps ih =>
      have hlabel := h.label_stands hs.1 hterminal
      exact (ih (h.step hs.1) hs.2 (by rw [hlabel]; exact hterminal)).trans hlabel

theorem sound_new : (ThreadRun.new P τ).Sound := by
  constructor <;> simp [ThreadRun.new]

theorem Sound.rejectedByReviewer (h : thread.Sound)
    (hlabel : (thread.facts actionId).label = .denied) : thread.RejectedByReviewer actionId := by
  rcases ActionFacts.denied_of_label _ hlabel with hrefused | hdenial
  · obtain ⟨refusal, hlatest, hreason⟩ := (Option.any_eq_true _ _).mp hrefused
    obtain ⟨hmem, rfl⟩ := latest_mem hlatest
    obtain ⟨decision, hdecision, hid, hverdict, hactor⟩ :=
      h.refusals_reviewed refusal hmem (beq_iff_eq.mp hreason)
    exact Or.inl ⟨decision, hdecision, hid, hverdict, hactor⟩
  · rcases Bool.or_eq_true_iff.mp hdenial with hrejected | hrow
    · obtain ⟨decision, hlatest, hverdict⟩ := (Option.any_eq_true _ _).mp hrejected
      obtain ⟨hmem, hid⟩ := latest_mem hlatest
      have hverdict := beq_iff_eq.mp hverdict
      exact Or.inl ⟨decision, hmem, hid, hverdict, h.rejections_reviewed decision hmem hverdict⟩
    · obtain ⟨request, row, hlatest, hdecided, hstatus⟩ := recordIs_iff.mp hrow
      obtain ⟨hmem, hid⟩ := latest_mem hlatest
      obtain ⟨⟨recorded, hrecorded, rfl⟩, hrowid⟩ := decidedRow_eq_some hdecided
      exact Or.inr ⟨request, hmem, hid, recorded, hrecorded, hrowid,
        h.denials_reviewed recorded hrecorded hstatus⟩

end ThreadRun

/-! ### The labels of a run -/

/-- The reader answers, lists every action once, and says of each whether it happened and whether a
reviewer denied it. -/
structure LabelsTrue (thread : ThreadRun P τ) (actions : List WorkflowAction) : Prop where
  once : (actions.map (·.actionId)).Nodup
  listed : ∀ actionId, actionId ∈ actions.map (·.actionId) ↔ Listed thread.graph.state actionId
  executed : ∀ action ∈ actions,
    action.actionStatus = .executed ↔ thread.ReceiptedOk action.actionId
  denied : ∀ action ∈ actions, action.actionStatus = .denied → thread.RejectedByReviewer action.actionId

/-- No action whose label was terminal has another label. -/
def LabelsStand (actions actions' : List WorkflowAction) : Prop :=
  ∀ action ∈ actions, ∀ action' ∈ actions', action'.actionId = action.actionId →
    action.actionStatus.terminal = true → action'.actionStatus = action.actionStatus

variable [ActionPayload P]

theorem ThreadRun.Sound.labelsTrue {thread : ThreadRun P τ} (h : thread.Sound) {workflowId : UUID}
    {threadId : String} {now : Time} {actions : List WorkflowAction}
    (hactions : thread.actions workflowId threadId now = .ok actions) : LabelsTrue thread actions := by
  obtain ⟨hids, hlabels⟩ := deriveActions_eq hactions
  constructor
  · rw [hids]
    exact nodup_eraseDups _
  · intro actionId
    rw [hids]
    exact mem_actionOrder
  · intro action hmem
    rw [hlabels action hmem, ActionFacts.label_executed]
    exact h.succeeded_iff
  · intro action hmem hdenied
    rw [hlabels action hmem] at hdenied
    exact h.rejectedByReviewer hdenied

/-- **Labels tell the truth**: after straight steps the reader answers, lists every requested or pending
action once, calls it executed exactly when a success is stored for it and denied only when a reviewer
said no; and whatever straight steps follow, no terminal label changes. -/
theorem labels_true (steps later : List (ThreadStep P τ))
    (hs : ThreadRun.AllStraight (.new P τ) (steps ++ later)) (workflowId : UUID) (threadId : String)
    (now now' : Time) :
    ∃ actions actions',
      ((ThreadRun.new P τ).run steps).actions workflowId threadId now = .ok actions ∧
      ((ThreadRun.new P τ).run (steps ++ later)).actions workflowId threadId now' = .ok actions' ∧
      LabelsTrue ((ThreadRun.new P τ).run steps) actions ∧ LabelsStand actions actions' := by
  have hreads : ∀ {thread : ThreadRun P τ}, thread.Sound → ∀ now,
      ∃ actions, thread.actions workflowId threadId now = .ok actions := by
    intro thread hsound now
    exact deriveActions_ok fun actionId hid => deriveAction_ok (mem_actionOrder.mp hid) hsound.previewed
  obtain ⟨hsteps, hlater⟩ := ThreadRun.allStraight_append.mp hs
  have hsound := ThreadRun.sound_new.run hsteps
  obtain ⟨actions, hactions⟩ := hreads hsound now
  obtain ⟨actions', hactions'⟩ := hreads (ThreadRun.sound_new.run hs) now'
  refine ⟨actions, actions', hactions, hactions', hsound.labelsTrue hactions, ?_⟩
  intro action hmem action' hmem' hid hterminal
  rw [(deriveActions_eq hactions').2 action' hmem', hid]
  rw [(deriveActions_eq hactions).2 action hmem] at hterminal ⊢
  have hrun : (ThreadRun.new P τ).run (steps ++ later) = ((ThreadRun.new P τ).run steps).run later :=
    List.foldl_append
  rw [hrun]
  exact hsound.label_run hlater hterminal

/-! ### A submission that is not approved -/

/-- The submission is put to a reviewer and recorded as denied. -/
def unapprovedSteps (outcome : ApprovalOutcome) (actorId : String) : List (ThreadStep PlainPayload Unit) :=
  [.node (.rewrite [some submission]), .node (.requestApproval (fun n => 100 + n) 0 (some 10)),
   .node (.approvalCheckpoint (interruptOnlyApprovalGate 1) none),
   .record () submissionRequest outcome actorId 20]

/-- The run is resumed with the denial and refuses the submission. -/
def refusedSteps (decidedBy : String) : List (ThreadStep PlainPayload Unit) :=
  [.node (.approvalCheckpoint (interruptOnlyApprovalGate 21) (some (.ofDecisions
      [{ submissionApproval with verdict := .rejected, decidedBy }]))),
   .node (.executeApprovedActions id (fun _ intent _ => .ok ⟨intent.actionId, true, none, none⟩) 22)]

/-- Denied by a reviewer, the submission is and stays labelled denied. -/
theorem labels_true_submission :
    ∃ actions actions',
      ((ThreadRun.new PlainPayload Unit).run (unapprovedSteps .deniedByUser "reviewer")).actions 7
        "job_search:7" 20 = .ok actions ∧
      ((ThreadRun.new PlainPayload Unit).run (unapprovedSteps .deniedByUser "reviewer" ++
        refusedSteps "reviewer")).actions 7 "job_search:7" 22 = .ok actions' ∧
      LabelsTrue ((ThreadRun.new PlainPayload Unit).run (unapprovedSteps .deniedByUser "reviewer"))
        actions ∧ LabelsStand actions actions' := by
  refine labels_true (unapprovedSteps .deniedByUser "reviewer") (refusedSteps "reviewer") ?_ 7
    "job_search:7" 20 22
  refine ⟨?_, ?_, ?_, (by decide : ApprovalOutcome.deniedByUser ≠ .expired), ?_, ?_, trivial⟩
  · intro intent _
    rfl
  · intro intent hpending _ hdenied
    obtain rfl := Option.some.inj (List.mem_singleton.mp hpending)
    exact absurd hdenied (by decide)
  · refine ⟨?_, ?_, ?_⟩
    · rintro n intent decision ⟨⟩
      exact ⟨rfl, fun h => by cases h⟩
    · exact fun decision hmem => absurd hmem List.not_mem_nil
    · intro intent hpending _ hrejected
      obtain rfl := Option.some.inj (List.mem_singleton.mp hpending)
      exact absurd hrejected (by decide)
  · refine ⟨?_, ?_, ?_⟩
    · rintro n intent decision ⟨⟩
      exact ⟨rfl, fun h => by cases h⟩
    · intro decision hmem _
      obtain rfl := List.mem_singleton.mp hmem
      decide
    · intro intent hpending _ hrejected
      obtain rfl := Option.some.inj (List.mem_singleton.mp hpending)
      exact absurd hrejected (by decide)
  · intro intents hload
    obtain rfl : [submission] = intents := Except.ok.inj hload
    constructor
    · rintro n intent decision receipt ⟨⟩
      rfl
    · decide
    · intro intent hintent hsettled
      obtain rfl := List.mem_singleton.mp hintent
      exact absurd hsettled (by decide)
    · intro intent hintent _
      obtain rfl := List.mem_singleton.mp hintent
      exact ⟨submissionRequest, _, rfl, rfl, by decide, rfl⟩

/-- The sweep closes the submission's request: it is labelled denied though no reviewer answered, and
labelled failed once the run has refused it. -/
theorem expired_action_labelled_denied :
    (¬∃ actions, ((ThreadRun.new PlainPayload Unit).run
        (unapprovedSteps .expired approvalExpiryActor)).actions 7 "job_search:7" 20 = .ok actions ∧
      LabelsTrue ((ThreadRun.new PlainPayload Unit).run (unapprovedSteps .expired approvalExpiryActor))
        actions) ∧
    ¬∃ actions actions',
      ((ThreadRun.new PlainPayload Unit).run (unapprovedSteps .expired approvalExpiryActor)).actions 7
        "job_search:7" 20 = .ok actions ∧
      ((ThreadRun.new PlainPayload Unit).run (unapprovedSteps .expired approvalExpiryActor ++
        refusedSteps approvalExpiryActor)).actions 7 "job_search:7" 22 = .ok actions' ∧
      LabelsStand actions actions' := by
  constructor
  · rintro ⟨actions, hactions, hlabels⟩
    obtain rfl := Except.ok.inj hactions
    rcases hlabels.denied _ List.mem_cons_self rfl with
      ⟨decision, hdecision, -⟩ | ⟨request, -, -, recorded, hrecorded, -, hnote⟩
    · cases hdecision
    · obtain rfl := List.mem_singleton.mp hrecorded
      cases hnote
  · rintro ⟨actions, actions', hactions, hactions', hstand⟩
    obtain rfl := Except.ok.inj hactions
    obtain rfl := Except.ok.inj hactions'
    have hsame := hstand _ List.mem_cons_self _ List.mem_cons_self rfl rfl
    cases hsame

end PersonalOS
