import PersonalOS.JobSearchGraph

/-! # Nothing is executed without its approval

Runs of the approval nodes, one checkpointed super-step after another in any order, while
`pending_actions` is rewritten between them at will.

* **Events.** A run records, newest first, which requests each `request_approval` raised and
  for which pending actions, and each call of the executor with the checkpointed requests and
  the clock the node read at its start.
* **Step.** `superStep_vetted`: if every request on file was raised by a recorded super-step and
  every recorded call was `Approved` by the events before it, the same holds one super-step later.
* **Run.** `graphRun_approved` reads the law off the invariant; with an injective hash the
  action executed has the kind, target and payload its request was raised with. -/

namespace PersonalOS

variable {P : Type}

/-- What happened at a super-step. -/
inductive GraphEvent (P : Type) where
  /-- These requests were raised for these pending actions. -/
  | raised (pendingActions : List (Dumped (ActionIntent P))) (requests : List ApprovalRequest)
  /-- The executor was called, with these requests in the checkpoint and this clock reading. -/
  | executed (requests : List ApprovalRequest) (intent : ActionIntent P)
      (decision : ApprovalDecision) (now : Time)

/-- A super-step of the graph, with everything its node takes from outside. -/
inductive SuperStep (P : Type) where
  /-- Another node, or an adversary, replaces the pending actions. -/
  | rewrite (pendingActions : List (Dumped (ActionIntent P)))
  | requestApproval (drawn : ℕ → UUID) (now : Time) (ttl : Option Time)
  | approvalCheckpoint (gate : ApprovalGate P) (resume : Option ResumeValue)
  | executeApprovedActions (redactText : RedactText) (executor : ActionExecutor P) (now : Time)

structure GraphRun (P : Type) where
  state : JobSearchState P
  events : List (GraphEvent P)

/-- The events after these calls of one node. -/
def recordCalls (requests : List ApprovalRequest) (now : Time) :
    List (ActionIntent P × ApprovalDecision) → List (GraphEvent P) → List (GraphEvent P)
  | [], events => events
  | call :: calls, events =>
      recordCalls requests now calls (.executed requests call.1 call.2 now :: events)

variable [ActionPayload P]

/-- Take a super-step; a node that raises leaves the checkpoint as it was. -/
def superStep (run : GraphRun P) : SuperStep P → GraphRun P
  | .rewrite pendingActions => { run with state := { run.state with pendingActions } }
  | .requestApproval drawn now ttl =>
      match newRequests drawn now ttl run.state with
      | .error _ => run
      | .ok requests =>
          { state := { run.state with approvalRequests := run.state.approvalRequests ++ requests }
            events := .raised run.state.pendingActions requests :: run.events }
  | .approvalCheckpoint gate resume =>
      match approvalCheckpoint gate resume run.state with
      | .decided decisions =>
          { run with state := { run.state with approvals := run.state.approvals ++ decisions } }
      | _ => run
  | .executeApprovedActions redactText executor now =>
      let (calls, update) := executeApprovedActions redactText executor now run.state
      { state := match update with
          | .error _ => run.state
          | .ok state => state
        events := recordCalls run.state.approvalRequests now calls run.events }

def graphRun (start : JobSearchState P) (steps : List (SuperStep P)) : GraphRun P :=
  steps.foldl superStep ⟨start, []⟩

/-! ### The invariant -/

/-- `request` was raised by an earlier super-step, for an action of its id and hash. -/
def RaisedIn (events : List (GraphEvent P)) (request : ApprovalRequest) : Prop :=
  ∃ pendingActions requests intent, .raised pendingActions requests ∈ events ∧ request ∈ requests ∧
    some intent ∈ pendingActions ∧ request.actionId = intent.actionId ∧
      request.actionHash = intent.fingerprint

/-- The call is approved by a request on file that was raised before it. -/
def Approved (events : List (GraphEvent P)) (requests : List ApprovalRequest)
    (intent : ActionIntent P) (decision : ApprovalDecision) (now : Time) : Prop :=
  ∃ request, latest (·.actionId) intent.actionId requests = some request ∧
    RaisedIn events request ∧ decision.clears request = true ∧
      intent.fingerprint = request.actionHash ∧ now < request.expiresAt

/-- Every call was approved by the events before it. -/
def AllApproved : List (GraphEvent P) → Prop
  | [] => True
  | .raised _ _ :: events => AllApproved events
  | .executed requests intent decision now :: events =>
      Approved events requests intent decision now ∧ AllApproved events

structure VettedRun (run : GraphRun P) : Prop where
  raised : ∀ request ∈ run.state.approvalRequests, RaisedIn run.events request
  approved : AllApproved run.events

theorem RaisedIn.cons {events : List (GraphEvent P)} {request : ApprovalRequest}
    (h : RaisedIn events request) (event : GraphEvent P) : RaisedIn (event :: events) request := by
  obtain ⟨pendingActions, requests, intent, hmem, h⟩ := h
  exact ⟨pendingActions, requests, intent, List.mem_cons_of_mem _ hmem, h⟩

theorem AllApproved.of_append {later events : List (GraphEvent P)} (h : AllApproved (later ++ events)) :
    AllApproved events := by
  induction later with
  | nil => exact h
  | cons event later ih =>
      cases event with
      | raised pendingActions requests => exact ih h
      | executed requests intent decision now => exact ih h.2

/-- Calls the gate let through are approved by the requests on file. -/
theorem AllApproved.recordCalls {events : List (GraphEvent P)} {requests : List ApprovalRequest}
    {now : Time} {calls : List (ActionIntent P × ApprovalDecision)}
    (hraised : ∀ request ∈ requests, RaisedIn events request) (h : AllApproved events)
    (hcalls : ∀ call ∈ calls, authorizeExecution call.1
      (latest (·.actionId) call.1.actionId requests) (some call.2) now = none) :
    (∀ request ∈ requests, RaisedIn (recordCalls requests now calls events) request) ∧
      AllApproved (recordCalls requests now calls events) := by
  induction calls generalizing events with
  | nil => exact ⟨hraised, h⟩
  | cons call calls ih =>
      refine ih (fun request hr => (hraised request hr).cons _) ⟨?_, h⟩ ?_
      · obtain ⟨r, d, hr, hd, -, hclears, hhash, hnow⟩ :=
          authorizeExecution_eq_none.mp (hcalls call List.mem_cons_self)
        obtain rfl := Option.some.inj hd
        exact ⟨r, hr, hraised r (latest_mem hr).1, hclears, hhash, hnow⟩
      · exact fun call' hcall' => hcalls call' (List.mem_cons_of_mem _ hcall')

theorem superStep_vetted {run : GraphRun P} (h : VettedRun run) (step : SuperStep P) :
    VettedRun (superStep run step) := by
  cases step with
  | rewrite pendingActions => exact ⟨h.raised, h.approved⟩
  | requestApproval drawn now ttl =>
      simp only [superStep]
      cases hn : newRequests drawn now ttl run.state with
      | error error => exact h
      | ok requests =>
          refine ⟨?_, h.approved⟩
          intro request hr
          rcases List.mem_append.mp hr with hr | hr
          · exact (h.raised request hr).cons _
          · obtain ⟨intent, hmem, hpins⟩ := newRequests_pins hn request hr
            exact ⟨_, _, intent, List.mem_cons_self, hr, hmem, hpins⟩
  | approvalCheckpoint gate resume =>
      simp only [superStep]
      split
      · exact ⟨h.raised, h.approved⟩
      · exact h
  | executeApprovedActions redactText executor now =>
      obtain ⟨hraised, happroved⟩ := h.approved.recordCalls h.raised
        (executeApprovedActions_calls (P := P))
      refine ⟨?_, happroved⟩
      simp only [superStep]
      split
      · exact hraised
      · rename_i state hstate
        rw [(executeApprovedActions_frame hstate).1]
        exact hraised

theorem graphRun_vetted {start : JobSearchState P} (hstart : start.approvalRequests = [])
    (steps : List (SuperStep P)) : VettedRun (graphRun start steps) := by
  have h0 : VettedRun ⟨start, []⟩ := ⟨by simp [hstart], trivial⟩
  unfold graphRun
  generalize (⟨start, []⟩ : GraphRun P) = run at h0
  induction steps generalizing run with
  | nil => exact h0
  | cons step steps ih => exact ih _ (superStep_vetted h0 step)

/-- **The approval gate**: in every run, a call of the executor has a request for its action on
file, raised by an earlier super-step; its decision approves exactly that request, under the
hash of the intent handed over; that intent has the kind, target and payload the request was
raised with; and the clock the node read is before the request's expiry. -/
theorem graphRun_approved
    (hinj : Function.Injective (ActionPayload.canonicalHash : ActionDocument P → String))
    {start : JobSearchState P} (hstart : start.approvalRequests = []) (steps : List (SuperStep P))
    {later earlier : List (GraphEvent P)} {requests : List ApprovalRequest} {intent : ActionIntent P}
    {decision : ApprovalDecision} {now : Time}
    (hrun : (graphRun start steps).events =
      later ++ .executed requests intent decision now :: earlier) :
    ∃ request ∈ requests, ∃ pendingActions raised proposed,
      .raised pendingActions raised ∈ earlier ∧ request ∈ raised ∧ some proposed ∈ pendingActions ∧
      request.actionId = intent.actionId ∧ proposed.actionId = intent.actionId ∧
      proposed.document = intent.document ∧
      decision.verdict = .approved ∧ decision.answers request = true ∧
      decision.actionFingerprint = request.actionHash ∧ request.actionHash = intent.fingerprint ∧
      now < request.expiresAt := by
  have hv := (graphRun_vetted hstart steps).approved
  rw [hrun] at hv
  obtain ⟨⟨request, hlatest, hraised, hclears, hhash, hnow⟩, -⟩ := hv.of_append
  obtain ⟨pendingActions, raised, proposed, hmem, hr, hproposed, hid, hpinned⟩ := hraised
  obtain ⟨hrequest, hkey⟩ := latest_mem hlatest
  simp only [ApprovalDecision.clears, Bool.and_eq_true, beq_iff_eq] at hclears
  obtain ⟨⟨hanswers, hverdict⟩, hfingerprint⟩ := hclears
  refine ⟨request, hrequest, pendingActions, raised, proposed, hmem, hr, hproposed, hkey,
    hid.symm.trans hkey, hinj ?_, hverdict, hanswers, hfingerprint, hhash.symm, hnow⟩
  exact (hpinned.symm.trans hhash.symm : proposed.fingerprint = intent.fingerprint)

/-- A submission put to a reviewer at time 0, approved, and redeemed at time 10. -/
def approvedSteps : List (SuperStep PlainPayload) :=
  [.rewrite [some submission], .requestApproval (fun n => 100 + n) 0 none,
   .approvalCheckpoint (interruptOnlyApprovalGate 1) none,
   .approvalCheckpoint (interruptOnlyApprovalGate 5) (some (.decision submissionApproval)),
   .executeApprovedActions id (fun _ intent _ => .ok ⟨intent.actionId, true, none, none⟩) 10]

theorem graphRun_approved_submission :
    ∃ request ∈ (graphRun ⟨[], [], [], [], []⟩ approvedSteps).state.approvalRequests,
      request.actionId = 1 ∧ submissionApproval.answers request = true ∧
        request.actionHash = submission.fingerprint ∧ 10 < request.expiresAt := by
  have hrun : (graphRun ⟨[], [], [], [], []⟩ approvedSteps).events =
      [] ++ .executed (graphRun ⟨[], [], [], [], []⟩ approvedSteps).state.approvalRequests
        submission submissionApproval 10 ::
          (graphRun ⟨[], [], [], [], []⟩ (approvedSteps.take 4)).events := rfl
  obtain ⟨request, hmem, -, -, -, -, -, -, hid, -, -, -, hanswers, -, hhash, hnow⟩ :=
    graphRun_approved canonicalHash_plainPayload rfl approvedSteps hrun
  exact ⟨request, hmem, hid, hanswers, hhash, hnow⟩

end PersonalOS
