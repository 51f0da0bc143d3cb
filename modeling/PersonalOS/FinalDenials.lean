import PersonalOS.OneAnswer
import PersonalOS.CheckpointAnswers

/-! # A recorded denial against a caller's decisions

Calls of the approval queue and requests of the resume route over one parked interrupt, and
then the resumed run of `approval_checkpoint` and `execute_approved_actions`.

* **Resumed run.** The run holds the decisions of the resume value over the ones it had before
  (`heldDecision`); an action is redeemed only if that decision clears its request
  (`executed_cleared`).
* **Denials.** The queue resumes with what is recorded, but the route reads no record: it
  queues the caller's verdicts while some request of the batch is still open.  `NoOverride`
  excludes verdicts against a recorded denial, and `denied_not_executed` shows that then no
  denied action is redeemed; `denied_action_executed` is the run in which one is. -/

namespace PersonalOS

open Concurrent Concurrent.Prog

variable {P : Type}

/-! ### The resumed run -/

/-- The node parks the run of `g` at the interrupt. -/
def ParksAt [ActionPayload P] (g : JobSearchState P) (p : ParkedInterrupt) : Prop :=
  ∃ now, approvalCheckpoint (interruptOnlyApprovalGate now) none g = .parked p.requests

theorem ParksAt.latest [ActionPayload P] {g : JobSearchState P} {p : ParkedInterrupt} (h : ParksAt g p)
    {request : ApprovalRequest} (hmem : request ∈ p.requests) :
    PersonalOS.latest (·.actionId) request.actionId g.approvalRequests = some request := by
  obtain ⟨now, h⟩ := h
  unfold approvalCheckpoint at h
  split at h
  · cases h
  · cases h
  · split at h
    · cases h
    · unfold settleReview at h
      split at h
      · cases h
      · rw [← CheckpointResult.parked.inj h] at hmem
        obtain ⟨i, -, hi⟩ := List.mem_filterMap.mp hmem
        rw [(latest_mem hi).2]
        exact hi

/-- The decision a run of `g` resumed with this value holds about an action. -/
def heldDecision (g : JobSearchState P) (value : ResumeValue) (actionId : UUID) :
    Option ApprovalDecision :=
  (latest (·.actionId) actionId (resumeDecisions (some value))).or
    (latest (·.actionId) actionId g.approvals)

theorem latest_decided {now : Time} {value : ResumeValue} {g : JobSearchState P}
    {intents : List (ActionIntent P)} {decisions : List ApprovalDecision} {intent : ActionIntent P}
    [ActionPayload P] (hload : load g.pendingActions = .ok intents) (hmem : intent ∈ intents)
    (h : approvalCheckpoint (interruptOnlyApprovalGate now) (some value) g = .decided decisions) :
    latest (·.actionId) intent.actionId decisions =
      latest (·.actionId) intent.actionId (resumeDecisions (some value)) := by
  obtain ⟨answers, rfl, hm⟩ := approvalCheckpoint_merged hload h
  have hgate : ∀ n (i : ActionIntent P), gateAnswer (interruptOnlyApprovalGate now) n i = none :=
    fun n i => by simp [gateAnswer, interruptOnlyApprovalGate]
  have hlookup : ∀ i ∈ intents, answers.lookup i.actionId =
      latest (·.actionId) i.actionId (resumeDecisions (some value)) := by
    intro i hi
    obtain ⟨n, hn⟩ := List.mem_iff_getElem?.mp hi
    cases hl : latest (·.actionId) i.actionId (resumeDecisions (some value)) with
    | some d => exact hm.fromResume ⟨n, i, hn, hgate n i⟩ _ _ hl
    | none =>
        cases ha : answers.lookup i.actionId with
        | none => rfl
        | some d =>
            rcases hm.origin _ _ ha with ⟨-, hl'⟩ | ⟨k, j, -, -, hg⟩
            · rw [hl] at hl'
              cases hl'
            · rw [hgate] at hg
              cases hg
  cases hl : latest (·.actionId) intent.actionId (resumeDecisions (some value)) with
  | none =>
      refine latest_eq_none.mpr fun d hd hid => ?_
      obtain ⟨i, hi, hd⟩ := mem_collect.mp hd
      rw [hlookup i hi] at hd
      have : i.actionId = intent.actionId := (latest_mem hd).2.symm.trans hid
      rw [this, hl] at hd
      cases hd
  | some d =>
      have hcollected : d ∈ collect answers intents :=
        mem_collect.mpr ⟨intent, hmem, (hlookup intent hmem).trans hl⟩
      cases hc : latest (·.actionId) intent.actionId (collect answers intents) with
      | none => exact absurd (latest_mem hl).2 (latest_eq_none.mp hc d hcollected)
      | some d' =>
          obtain ⟨hd', hid⟩ := latest_mem hc
          obtain ⟨i, hi, hd'⟩ := mem_collect.mp hd'
          rw [hlookup i hi] at hd'
          have : i.actionId = intent.actionId := (latest_mem hd').2.symm.trans hid
          rw [this, hl] at hd'
          exact hd'.symm

/-- An action that the resumed run redeems had its request cleared by the decision it holds. -/
theorem executed_cleared [ActionPayload P] {gateNow now : Time} {value : ResumeValue}
    {g : JobSearchState P} {p : ParkedInterrupt} {decisions : List ApprovalDecision}
    {redactText : RedactText} {executor : ActionExecutor P} (hpark : ParksAt g p)
    (h : approvalCheckpoint (interruptOnlyApprovalGate gateNow) (some value) g = .decided decisions)
    {request : ApprovalRequest} (hmem : request ∈ p.requests) :
    ∀ call ∈ (executeApprovedActions redactText executor now
        { g with approvals := g.approvals ++ decisions }).1,
      call.1.actionId = request.actionId →
        ∃ d, heldDecision g value request.actionId = some d ∧ d.clears request = true := by
  intro call hcall hid
  obtain ⟨r, d, hr, hd, -, hclears, -⟩ :=
    authorizeExecution_eq_none.mp (executeApprovedActions_calls call hcall)
  obtain ⟨⟨intents, hload, hpending⟩, hdecision⟩ := executeApprovedActions_decision call hcall
  obtain rfl := Option.some.inj hd
  have hlatest := hpark.latest hmem
  dsimp only at hr hdecision hload
  rw [hid, hlatest] at hr
  obtain rfl := Option.some.inj hr
  refine ⟨call.2, ?_, hclears⟩
  rw [latest_append, latest_decided hload hpending h, hid] at hdecision
  exact hdecision

/-! ### Denials -/

/-- The request's row is a denial. -/
def Denied {τ : Type} (s : ApprovalStore τ) (request : ApprovalRequest) : Prop :=
  ∃ r ∈ s.approvals, r.row.id = request.requestId ∧ r.row.status = .denied

/-- A run of `g` resumed with this value redeems no action of the request. -/
def Withholds (g : JobSearchState P) (value : ResumeValue) (request : ApprovalRequest) : Prop :=
  ∀ d, heldDecision g value request.actionId = some d → d.clears request = false

/-- The route queues no decisions with which the run would redeem a denied action. -/
def NoOverride {τ : Type} (g : JobSearchState P) (p : ParkedInterrupt) (calls : τ → ReviewCall) (t : τ)
    (s s' : ApprovalStore τ) : Prop :=
  s'.commands ≠ s.commands → ∀ c, calls t = .resume c →
    ∀ request ∈ p.requests, Denied s request → Withholds g c.value request

theorem resumeDecisions_ofDecisions (decisions : List ApprovalDecision) :
    resumeDecisions (some (.ofDecisions decisions)) = decisions := by
  have hitems : decisionsFromItems (decisions.map fun d => .record (some d)) = .ok decisions := by
    induction decisions with
    | nil => rfl
    | cons d decisions ih =>
        simp only [List.map_cons, decisionsFromItems, decisionsFromResume, ih]
        rfl
  simp [resumeDecisions, ResumeValue.ofDecisions, decisionsFromResume, hitems]

section denials

variable {τ : Type} {g : JobSearchState P} {p : ParkedInterrupt} {request : ApprovalRequest}

theorem BatchOf.withholds [ActionPayload P] {s : ApprovalStore τ}
    {decided : List (ApprovalRequest × ApprovalRow)} (h : BatchOf p s decided) (hpark : ParksAt g p)
    (hnodup : (s.approvals.map (·.row.id)).Nodup) (hmem : request ∈ p.requests)
    (hdenied : Denied s request) (deciders : UUID → Option String) (actorId : String) :
    Withholds g (.ofDecisions (decided.map (resumeDecision deciders actorId))) request := by
  obtain ⟨hfst, hrows⟩ := h
  obtain ⟨r, hr, hid, hstatus⟩ := hdenied
  intro d hd
  rw [heldDecision, resumeDecisions_ofDecisions] at hd
  cases hl : latest (·.actionId) request.actionId (decided.map (resumeDecision deciders actorId)) with
  | none =>
      rw [← hfst] at hmem
      obtain ⟨q, hq, hq₁⟩ := List.mem_map.mp hmem
      exact absurd (congrArg ApprovalRequest.actionId hq₁)
        (latest_eq_none.mp hl _ (List.mem_map_of_mem hq))
  | some d' =>
      rw [hl, Option.some_or] at hd
      obtain rfl := Option.some.inj hd
      obtain ⟨hd', hact⟩ := latest_mem hl
      obtain ⟨q, hq, rfl⟩ := List.mem_map.mp hd'
      -- The entry is the request's own, and its row is the denial.
      have hq₁ : q.1 = request := by
        have hqmem : q.1 ∈ p.requests := hfst ▸ List.mem_map_of_mem hq
        have hact : q.1.actionId = request.actionId := hact
        have := hpark.latest hqmem
        rw [hact, hpark.latest hmem] at this
        exact (Option.some.inj this).symm
      obtain ⟨⟨r', hr', hrow⟩, hqid⟩ := hrows q hq
      have hr' : r' = r := List.inj_on_of_nodup_map hnodup hr' hr
        (by rw [hrow, hqid, hq₁, hid])
      have hrejected : verdictByState q.2.status = .rejected := by
        rw [← hrow, hr', hstatus]
        rfl
      simp [ApprovalDecision.clears, resumeDecision, hrejected]

/-- The denial is on record, and no resume of the interrupt would redeem its action. -/
structure DenialKept (g : JobSearchState P) (p : ParkedInterrupt) (request : ApprovalRequest)
    (s : ApprovalStore τ) : Prop where
  nodup : (s.approvals.map (·.row.id)).Nodup
  denied : Denied s request
  withheld : ∀ row ∈ s.commands, p.resumedBy row = true → Withholds g row.command.graphInput request

theorem AnswerStep.nodup {calls : τ → AnswerCall}
    {assume : τ → ApprovalStore τ → ApprovalStore τ → Prop} {t : τ} {s s' : ApprovalStore τ}
    (h : AnswerStep p calls assume t s s') (hnodup : (s.approvals.map (·.row.id)).Nodup) :
    (s'.approvals.map (·.row.id)).Nodup := by
  cases h with
  | unchanged => exact hnodup
  | queued looked command _ _ _ => exact hnodup
  | approval c s' hc hs =>
      cases hs with
      | audited audits => exact hnodup
      | resumed decided deciders actorId commandId hbatch hnew => exact hnodup
      | recorded request outcome actorId now hmem hfree hmay =>
          rw [ApprovalStore.insertDecision_approvals hfree]
          refine List.nodup_cons.mpr ⟨fun hid => ?_, hnodup⟩
          obtain ⟨r, hr, hid⟩ := List.mem_map.mp hid
          exact hfree r hr hid

theorem DenialKept.step [ActionPayload P] {calls : τ → ReviewCall} {t : τ} {s s' : ApprovalStore τ}
    (h : DenialKept g p request s) (hpark : ParksAt g p) (hmem : request ∈ p.requests)
    (hno : NoOverride g p calls t s s')
    (hs : AnswerStep p (fun t => .review (calls t)) (NoOverride g p calls) t s s') :
    DenialKept g p request s' := by
  obtain ⟨r, hr, hrow⟩ := h.denied
  refine ⟨hs.nodup h.nodup, ⟨r, hs.grows.mem hr, hrow⟩, ?_⟩
  -- A row queued now carries the batch's own records, or verdicts of the route.
  have hqueue : ∀ row, Withholds g row.command.graphInput request →
      ∀ row' ∈ s.commands ++ [row], p.resumedBy row' = true →
        Withholds g row'.command.graphInput request := by
    intro row hw row' hrow' hres
    rcases List.mem_append.mp hrow' with hrow' | hrow'
    · exact h.withheld row' hrow' hres
    · obtain rfl := List.mem_singleton.mp hrow'
      exact hw
  cases hs with
  | unchanged => exact h.withheld
  | approval c s' hc hs =>
      cases hs with
      | audited audits => exact h.withheld
      | recorded request' outcome actorId now hmem' hfree hmay =>
          rw [ApprovalStore.insertDecision_commands]
          exact h.withheld
      | resumed decided deciders actorId commandId hbatch hnew =>
          exact hqueue _ (hbatch.withholds hpark h.nodup hmem h.denied deciders actorId)
  | queued looked command hlooked hq hnew =>
      refine hqueue _ ?_
      have hcall := hno (by simp)
      generalize calls t = call at hq hcall
      cases hq with
      | resumed c commandId hmay => exact hcall c rfl request hmem h.denied

/-- **Recorded denials**: in a run in which the route queues no verdict against a recorded
denial, an action denied before its resume was queued is not redeemed by the resumed run. -/
theorem denied_not_executed [ActionPayload P] [DecidableEq τ] (g : JobSearchState P)
    (p : ParkedInterrupt) (hpark : ParksAt g p) (calls : τ → ReviewCall) (before : List CommandRow)
    (sched later : List (τ × UUID))
    (hm : Pool.Meets (NoOverride g p calls) (answerPool p (fun t => .review (calls t)) before)
      (sched ++ later))
    (request : ApprovalRequest) (hmem : request ∈ p.requests)
    (hdenied : Denied ((answerPool p (fun t => .review (calls t)) before).run sched).state request)
    (hnew : p.isResumed
      ((answerPool p (fun t => .review (calls t)) before).run sched).state.commands = false)
    (row : CommandRow) (hrow : row ∈ ((answerPool p (fun t => .review (calls t)) before).run
      (sched ++ later)).state.commands) (hres : p.resumedBy row = true)
    (gateNow now : Time) {decisions : List ApprovalDecision}
    (hdecided : approvalCheckpoint (interruptOnlyApprovalGate gateNow) (some row.command.graphInput) g =
      .decided decisions) (redactText : RedactText) (executor : ActionExecutor P) :
    ∀ call ∈ (executeApprovedActions redactText executor now
        { g with approvals := g.approvals ++ decisions }).1, call.1.actionId ≠ request.actionId := by
  have hnodup : (((answerPool p (fun t => .review (calls t)) before).run sched).state.approvals.map
      (·.row.id)).Nodup :=
    answerPool_inv (J := fun s => (s.approvals.map (·.row.id)).Nodup) []
      (fun t s s' _ hs h => hs.nodup h) (Pool.meets_append.mp hm).1 (by simp [answerPool])
  have hkept : DenialKept g p request ((answerPool p (fun t => .review (calls t)) before).run
      (sched ++ later)).state := by
    refine answerPool_inv (J := DenialKept g p request) sched
      (fun t s s' hno hs h => h.step hpark hmem hno hs) hm ⟨hnodup, hdenied, fun row hrow hres => ?_⟩
    exact absurd (List.any_eq_true.mpr ⟨row, hrow, hres⟩) (by rw [← ParkedInterrupt.isResumed, hnew]; decide)
  intro call hcall hid
  obtain ⟨d, hd, hclears⟩ := executed_cleared hpark hdecided hmem call hcall hid
  rw [hkept.withheld row hrow hres d hd] at hclears
  cases hclears

end denials

/-! ### A batch denied in part -/

/-- The thread parked on the submission and the reply. -/
def parkedBatch : ParkedInterrupt where
  workflowId := 7
  threadId := "job_search:7"
  checkpointId := 70
  interruptId := some "interrupt-70"
  requests := batchState.approvalRequests
  nodup := by decide

theorem parksAt_parkedBatch : ParksAt batchState parkedBatch := ⟨5, rfl⟩

/-- A caller approves the reply. -/
def replyApproval : ApprovalDecisionInput := ⟨2, "Mrecruiter", true, some 101, none, by decide⟩

/-- The submission is denied through the queue, and the route is called with these decisions. -/
def denialAndRoute (first : ApprovalDecisionInput) (rest : List ApprovalDecisionInput) : Bool → ReviewCall
  | true => .approval (.decide ⟨100, false, "Sacme", "reviewer", 5⟩)
  | false => .resume ⟨.decisions first rest, none, "caller", 6⟩

/-- The denial is recorded. -/
def denialSteps : List (Bool × UUID) := [(true, 1), (true, 2), (true, 3)]

/-- The route reads what is pending and queues the decisions. -/
def routeSteps : List (Bool × UUID) := [(false, 4), (false, 5)]

/-- An executor that succeeds. -/
def succeedingExecutor : ActionExecutor PlainPayload :=
  fun _ intent _ => .ok ⟨intent.actionId, true, none, none⟩

/-- The row the route queues. -/
def routeRow (inputs : List ApprovalDecisionInput) : CommandRow :=
  .queued (parkedBatch.answerCommand "caller" (.ofDecisions (inputs.map (·.decision "caller" 6))) 5)
    (some (.checkpoint 70))

theorem denied_not_executed_reply :
    ((executeApprovedActions id succeedingExecutor 7
        { batchState with approvals := batchState.approvals ++ [replyApproval.decision "caller" 6] }).1.all
      fun call => call.1.actionId != 1) = true := by
  refine List.all_eq_true.mpr fun call hcall => bne_iff_ne.mpr ?_
  refine denied_not_executed batchState parkedBatch parksAt_parkedBatch
    (denialAndRoute replyApproval []) [] denialSteps routeSteps ?_ batchState.approvalRequests[0]
    (by decide) ⟨_, List.mem_cons_self, rfl, rfl⟩ rfl (routeRow [replyApproval]) List.mem_cons_self
    rfl 6 7 rfl id succeedingExecutor call hcall
  refine ⟨?_, ?_, ?_, ?_, ?_, trivial⟩
  · intro _ c hc
    cases hc
  · intro _ c hc
    cases hc
  · intro _ c hc
    cases hc
  · intro hne
    exact absurd rfl hne
  · rintro - c ⟨⟩ request hmem ⟨r, hr, hid, -⟩ d hd
    -- Only the submission is denied, and the caller says nothing about it.
    have hheld : ∀ request ∈ parkedBatch.requests, 100 = request.requestId →
        heldDecision batchState (routeRow [replyApproval]).command.graphInput request.actionId = none := by
      decide
    obtain rfl := List.mem_singleton.mp hr
    cases (hheld request hmem hid).symm.trans hd

/-- The submission is executed against its recorded denial. -/
theorem denied_action_executed :
    ¬ ∀ (τ : Type) [DecidableEq τ] (g : JobSearchState PlainPayload) (p : ParkedInterrupt)
      (calls : τ → ReviewCall) (before : List CommandRow) (sched later : List (τ × UUID))
      (request : ApprovalRequest) (row : CommandRow) (gateNow now : Time)
      (decisions : List ApprovalDecision) (redactText : RedactText)
      (executor : ActionExecutor PlainPayload), ParksAt g p → request ∈ p.requests →
      Denied ((answerPool p (fun t => .review (calls t)) before).run sched).state request →
      p.isResumed
        ((answerPool p (fun t => .review (calls t)) before).run sched).state.commands = false →
      row ∈ ((answerPool p (fun t => .review (calls t)) before).run (sched ++ later)).state.commands →
      p.resumedBy row = true →
      approvalCheckpoint (interruptOnlyApprovalGate gateNow) (some row.command.graphInput) g =
        .decided decisions →
      ∀ call ∈ (executeApprovedActions redactText executor now
        { g with approvals := g.approvals ++ decisions }).1, call.1.actionId ≠ request.actionId := by
  intro h
  exact h Bool batchState parkedBatch (denialAndRoute approvedSubmission [replyApproval]) [] denialSteps
    routeSteps batchState.approvalRequests[0] (routeRow [approvedSubmission, replyApproval]) 6 7 _ id
    succeedingExecutor parksAt_parkedBatch (by decide) ⟨_, List.mem_cons_self, rfl, rfl⟩ rfl
    List.mem_cons_self rfl rfl _ List.mem_cons_self rfl

end PersonalOS
