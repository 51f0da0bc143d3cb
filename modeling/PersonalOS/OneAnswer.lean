import PersonalOS.ResumePaths
import PersonalOS.DecidedOnce

/-! # One answer to a parked interrupt

Calls of the approval queue, requests of the resume route and event deliveries, all over one
parked interrupt and interleaved transaction by transaction.

* **Steps.** `AnswerStep` adds to what a call of the queue does (`CallStep`) that a route or a
  router queues a command under a key nothing has, having looked at what waits before;
  `answerContract` is kept by every call.
* **One answer.** The queue refuses a second command under one key, but an event is queued
  under its own digest, and it is routed to whatever waits.  `OneKey` asks of the calls that may
  queue for the interrupt that they have one key and, where it carries requests, bring their
  answers; `resumes_once` shows that nothing else is needed, and `event_answers_approval` is the
  run in which an event takes an approval. -/

namespace PersonalOS

open Concurrent Concurrent.Prog

variable {τ : Type} {p : ParkedInterrupt}

/-! ### What a transaction does -/

/-- The call answers the interrupt if these commands leave it waiting; the approval queue goes by
the records alone. -/
def MayAnswer (p : ParkedInterrupt) (commands : List CommandRow) : AnswerCall → Prop
  | .review (.approval _) => True
  | .review (.resume c) => p.isWaiting commands = true ∧ c.threadId.all (· == p.threadId) = true
  | .event d => d.envelope.correlated = true ∧ p.isWaiting commands = true

/-- The key under which a call queues. -/
def AnswerCall.dedupe (p : ParkedInterrupt) : AnswerCall → Dedupe
  | .review _ => .checkpoint p.checkpointId
  | .event d => .event d.envelope.digest

/-- The commands a call may queue itself once it has looked at the commands. -/
inductive Queues (p : ParkedInterrupt) (looked : List CommandRow) :
    AnswerCall → WorkflowCommand → Prop where
  | resumed (c : ResumeCall) (commandId : UUID) : MayAnswer p looked (.review (.resume c)) →
      Queues p looked (.review (.resume c)) (p.answerCommand c.actorId c.value commandId)
  | routed (d : EventDelivery) (commandId : UUID) : MayAnswer p looked (.event d) →
      Queues p looked (.event d)
        (p.answerCommand d.waitingActorId d.envelope.resumeValue commandId)
  | started (d : EventDelivery) (commandId : UUID) : Queues p looked (.event d)
      (d.startCommand commandId)

/-- What one transaction of call `t` does, when every step it makes is one that `assume` admits. -/
inductive AnswerStep (p : ParkedInterrupt) (calls : τ → AnswerCall)
    (assume : τ → ApprovalStore τ → ApprovalStore τ → Prop) (t : τ) (s : ApprovalStore τ) :
    ApprovalStore τ → Prop where
  | unchanged : AnswerStep p calls assume t s s
  | approval (c : ApprovalCall) (s' : ApprovalStore τ) : calls t = .review (.approval c) →
      CallStep p (fun _ => c) t s s' → AnswerStep p calls assume t s s'
  | queued (looked : ApprovalStore τ) (command : WorkflowCommand) : assume t looked looked →
      Queues p looked.commands (calls t) command →
      (∀ row ∈ s.commands, row.key ≠ (CommandRow.queued command (some ((calls t).dedupe p))).key) →
      AnswerStep p calls assume t s
        { s with commands := s.commands ++ [.queued command (some ((calls t).dedupe p))] }

theorem AnswerStep.grows {calls : τ → AnswerCall}
    {assume : τ → ApprovalStore τ → ApprovalStore τ → Prop} {t : τ} {s s' : ApprovalStore τ}
    (h : AnswerStep p calls assume t s s') : Grows (· = t) s s' := by
  cases h with
  | unchanged => exact Grows.refl _ s
  | approval c s' _ hs => exact hs.grows
  | queued looked command _ _ _ => exact ⟨⟨[], rfl, by simp⟩, List.prefix_append _ _⟩

def answerContract (p : ParkedInterrupt) (calls : τ → AnswerCall)
    (assume : τ → ApprovalStore τ → ApprovalStore τ → Prop) (t : τ) : Contract (ApprovalStore τ) :=
  growingContract t (AnswerStep p calls assume t) (assume t)

section programs

variable {calls : τ → AnswerCall} {assume : τ → ApprovalStore τ → ApprovalStore τ → Prop} {t : τ}
variable {s : ApprovalStore τ} {α ε : Type}

theorem wp_read_commands {β : Type} {f : ApprovalStore τ → β} {k : β → Prog UUID (ApprovalStore τ) ε α}
    (h : ∀ s', assume t s' s' →
      (k (f s')).wp (answerContract p calls assume t) (fun _ _ => True) (fun _ _ => True) s') :
    (read f >>= k).wp (answerContract p calls assume t) (fun _ _ => True) (fun _ _ => True) s :=
  fun s' _ _ hassume => ⟨.unchanged, h s' hassume⟩

theorem wp_queueCommand {looked : ApprovalStore τ} {command : UUID → WorkflowCommand} {dedupe : Dedupe}
    {k : Bool → Prog UUID (ApprovalStore τ) ε α} (hdedupe : (calls t).dedupe p = dedupe)
    (hlooked : assume t looked looked) (hq : ∀ id, Queues p looked.commands (calls t) (command id))
    (hk : ∀ b s', (k b).wp (answerContract p calls assume t) (fun _ _ => True) (fun _ _ => True) s') :
    (act (queueCommand command dedupe) >>= k).wp (answerContract p calls assume t)
      (fun _ _ => True) (fun _ _ => True) s := by
  intro s' _ id _
  refine ⟨?_, hk _ _⟩
  subst hdedupe
  rcases @enqueue_cases (command id) (some ((calls t).dedupe p)) s'.commands with he | ⟨he, hnew⟩
  · simp only [queueCommand, he]
    exact .unchanged
  · simp only [queueCommand, he]
    exact .queued looked (command id) hlooked (hq id) hnew

theorem resumeWorkflow_spec {c : ResumeCall} (hc : calls t = .review (.resume c)) :
    (resumeWorkflow p c).wp (answerContract p calls assume t) (fun _ _ => True)
      (fun _ _ => True) s := by
  unfold resumeWorkflow
  refine wp_read_commands fun s₁ hlooked => ?_
  split
  case isTrue hwaiting =>
    refine wp_queueCommand (by rw [hc]; rfl) hlooked (fun id => ?_) fun b s₂ => ?_
    · rw [hc]
      exact .resumed c id hwaiting
    · cases b <;> exact fun _ _ => trivial
  case isFalse => exact fun _ _ => trivial

theorem queueRouted_spec {d : EventDelivery} (hd : calls t = .event d) {looked : ApprovalStore τ}
    {command : UUID → WorkflowCommand} {kind : RouteKind} (hlooked : assume t looked looked)
    (hq : ∀ id, Queues p looked.commands (calls t) (command id)) :
    (queueRouted d command kind).wp (answerContract p calls assume t) (fun _ _ => True)
      (fun _ _ => True) s := by
  refine wp_queueCommand (by rw [hd]; rfl) hlooked hq fun b s₁ => ?_
  cases b <;> exact fun _ _ => trivial

theorem routeEvent_spec {d : EventDelivery} (hd : calls t = .event d) :
    (routeEvent p d).wp (answerContract p calls assume t) (fun _ _ => True) (fun _ _ => True) s := by
  unfold routeEvent
  refine wp_read_commands fun s₁ hlooked => ?_
  split
  case isTrue hwaiting =>
    refine queueRouted_spec hd hlooked fun id => ?_
    rw [hd]
    exact .routed d id (Bool.and_eq_true_iff.mp hwaiting)
  case isFalse =>
    split
    · refine queueRouted_spec hd hlooked fun id => ?_
      rw [hd]
      exact .started d id
    · exact fun _ _ => trivial

theorem wp_attempt_only {q : Prog UUID (ApprovalStore τ) ε α} {Q : α → ApprovalStore τ → Prop}
    {E : ε → ApprovalStore τ → Prop} (h : q.wp (answerContract p calls assume t) Q E s) :
    (do let _ ← q.attempt : Prog UUID (ApprovalStore τ) Empty Unit).wp
      (answerContract p calls assume t) (fun _ _ => True) (fun _ _ => True) s :=
  wp_bind (wp_attempt (wp_mono h (fun _ _ _ _ _ => trivial) fun _ _ _ _ _ => trivial))

theorem answerCall_spec (h : Settled p t s) :
    ((calls t).program t p).wp (answerContract p calls assume t) (fun _ _ => True)
      (fun _ _ => True) s := by
  cases hc : calls t with
  | event d => exact wp_attempt_only (routeEvent_spec hc)
  | review c =>
      cases c with
      | resume c => exact wp_attempt_only (resumeWorkflow_spec hc)
      | approval c =>
          have hprogram : (c.program t p).wp (answerContract p calls assume t)
              (fun _ => Settled p t) (fun _ => Settled p t) s :=
            wp_contract (K := approvalContract p (fun _ => c) t) (fun _ _ hr => hr)
              (fun _ _ _ => trivial) (fun s s' hs => .approval c s' hc hs) (program_settled h)
          exact wp_attempt_only hprogram

end programs

/-! ### Interleavings -/

/-- Calls on a parked interrupt with nothing recorded, when the queue holds `before`. -/
def answerPool (p : ParkedInterrupt) (calls : τ → AnswerCall) (before : List CommandRow) :
    Pool τ UUID (ApprovalStore τ) Empty Unit where
  procs t := (calls t).program t p
  state := ⟨[], [], before⟩

theorem answerContract_rely {calls : τ → AnswerCall}
    (assume : τ → ApprovalStore τ → ApprovalStore τ → Prop) (t u : τ) (htu : t ≠ u)
    (s s' : ApprovalStore τ) (h : (answerContract p calls assume u).guar s s') :
    (answerContract p calls assume t).rely s s' := by
  obtain ⟨⟨new, hn, hw⟩, hc⟩ := AnswerStep.grows h
  exact ⟨⟨new, hn, fun r hr => (hw r hr).trans_ne htu.symm⟩, hc⟩

theorem answerPool_inv [DecidableEq τ] {calls : τ → AnswerCall} {before : List CommandRow}
    {assume : τ → ApprovalStore τ → ApprovalStore τ → Prop} {J : ApprovalStore τ → Prop}
    (sched : List (τ × UUID)) {sched' : List (τ × UUID)}
    (hJ : ∀ t s s', assume t s s' → AnswerStep p calls assume t s s' → J s → J s')
    (hm : Pool.Meets assume (answerPool p calls before) (sched ++ sched'))
    (h0 : J ((answerPool p calls before).run sched).state) :
    J ((answerPool p calls before).run (sched ++ sched')).state := by
  have hsound : Pool.Sound (answerContract p calls assume) (fun _ _ _ => True) (fun _ _ _ => True)
      (answerPool p calls before) := fun t => answerCall_spec fun _ _ h => by cases h
  exact Pool.run_inv_append hsound (fun _ => rfl) (answerContract_rely assume) (fun e _ => hJ e.1)
    hm h0

/-! ### One answer -/

/-- The row carries decisions that answer every request of the interrupt. -/
def Carries (p : ParkedInterrupt) (row : CommandRow) : Prop :=
  ∃ decisions, row.command.graphInput = .ofDecisions decisions ∧
    ∀ request ∈ p.requests, ∃ d ∈ decisions, d.answers request = true

/-- What the call brings answers every request: the approval queue's own records always do. -/
def Brings (p : ParkedInterrupt) : AnswerCall → Prop
  | .review (.approval _) => True
  | .review (.resume c) => ∃ first rest, c.answer = .decisions first rest ∧
      ∀ request ∈ p.requests, ∃ input ∈ first :: rest,
        (input.decision c.actorId c.now).answers request = true
  | .event _ => False

/-- Only calls with this key make steps in which they may answer the interrupt, and where it
carries requests they bring the answers. -/
def OneKey (p : ParkedInterrupt) (calls : τ → AnswerCall) (dedupe : Dedupe) (t : τ)
    (s _s' : ApprovalStore τ) : Prop :=
  MayAnswer p s.commands (calls t) →
    (calls t).dedupe p = dedupe ∧ (p.requests ≠ [] → Brings p (calls t))

/-- The resumes of the interrupt queued after `before`. -/
structure AnsweredOnce (p : ParkedInterrupt) (before commands : List CommandRow) : Prop where
  kept : before <+: commands
  once : (commands.drop before.length).countP p.namedBy ≤ 1
  carries : p.requests ≠ [] → ∀ row ∈ commands.drop before.length, p.namedBy row = true → Carries p row

theorem countP_le_one_of_forall {α : Type} {f : α → Bool} {entries : List α} {a : α}
    (h : ∀ b ∈ entries, f b = false) : (entries ++ [a]).countP f ≤ 1 := by
  have : entries.countP f = 0 := List.countP_eq_zero.mpr fun b hb => by simp [h b hb]
  rw [List.countP_append, this, Nat.zero_add]
  exact List.countP_le_length

/-- What holds all along a run with one key. -/
structure AnsweredUnder (p : ParkedInterrupt) (dedupe : Dedupe) (before commands : List CommandRow) :
    Prop extends AnsweredOnce p before commands where
  keyed : ∀ row ∈ commands.drop before.length, p.namedBy row = true → row.dedupe = dedupe

theorem ParkedInterrupt.key_of_namedBy {row : CommandRow} (h : p.namedBy row = true) :
    row.key = (p.workflowId, .resume, row.dedupe) := by
  simp only [namedBy, Bool.and_eq_true, beq_iff_eq] at h
  simp only [CommandRow.key, h.1.1, h.1.2]

theorem AnsweredUnder.queue {dedupe : Dedupe} {before commands : List CommandRow} {row : CommandRow}
    (h : AnsweredUnder p dedupe before commands) (hnew : ∀ row' ∈ commands, row'.key ≠ row.key)
    (hrow : p.namedBy row = true → row.dedupe = dedupe ∧ (p.requests ≠ [] → Carries p row)) :
    AnsweredUnder p dedupe before (commands ++ [row]) := by
  have hdrop : (commands ++ [row]).drop before.length = commands.drop before.length ++ [row] :=
    List.drop_append_of_le_length h.kept.length_le
  refine ⟨⟨h.kept.trans (List.prefix_append _ _), ?_, ?_⟩, ?_⟩
  · rw [hdrop]
    cases hnamed : p.namedBy row with
    | false =>
        rw [List.countP_append, List.countP_singleton, hnamed]
        simpa using h.once
    | true =>
        -- an earlier row naming the interrupt would have the very key of the new one
        refine countP_le_one_of_forall fun row' hrow' => ?_
        by_contra hnamed'
        have hnamed' : p.namedBy row' = true := by simpa using hnamed'
        refine hnew row' (List.mem_of_mem_drop hrow') ?_
        rw [ParkedInterrupt.key_of_namedBy hnamed', ParkedInterrupt.key_of_namedBy hnamed,
          h.keyed row' hrow' hnamed', (hrow hnamed).1]
  · intro hne row' hrow' hnamed
    rw [hdrop] at hrow'
    rcases List.mem_append.mp hrow' with hrow' | hrow'
    · exact h.carries hne row' hrow' hnamed
    · obtain rfl := List.mem_singleton.mp hrow'
      exact (hrow hnamed).2 hne
  · intro row' hrow' hnamed
    rw [hdrop] at hrow'
    rcases List.mem_append.mp hrow' with hrow' | hrow'
    · exact h.keyed row' hrow' hnamed
    · obtain rfl := List.mem_singleton.mp hrow'
      exact (hrow hnamed).1

theorem BatchOf.carriesAnswers {s : ApprovalStore τ} {decided : List (ApprovalRequest × ApprovalRow)}
    (h : BatchOf p s decided) (deciders : UUID → Option String) (actorId : String) (commandId : UUID)
    (dedupe : Option Dedupe) : Carries p (.queued (p.resumeCommand actorId
      (decided.map (resumeDecision deciders actorId)) commandId) dedupe) := by
  refine ⟨_, rfl, fun request hmem => ?_⟩
  rw [← h.1] at hmem
  obtain ⟨q, hq, rfl⟩ := List.mem_map.mp hmem
  refine ⟨resumeDecision deciders actorId q, List.mem_map_of_mem hq, ?_⟩
  simp [ApprovalDecision.answers, resumeDecision]

theorem Brings.carries {c : ResumeCall} (h : Brings p (.review (.resume c))) (commandId : UUID)
    (dedupe : Option Dedupe) :
    Carries p (.queued (p.answerCommand c.actorId c.value commandId) dedupe) := by
  obtain ⟨first, rest, hanswer, hall⟩ := h
  refine ⟨(first :: rest).map (·.decision c.actorId c.now), ?_, fun request hmem => ?_⟩
  · simp [CommandRow.queued, ParkedInterrupt.answerCommand, ResumeCall.value, hanswer]
  · obtain ⟨input, hinput, hanswers⟩ := hall request hmem
    exact ⟨_, List.mem_map_of_mem hinput, hanswers⟩

theorem AnsweredUnder.step {calls : τ → AnswerCall} {dedupe : Dedupe} {before : List CommandRow}
    {t : τ} {s s' : ApprovalStore τ} (h : AnsweredUnder p dedupe before s.commands)
    (hone : OneKey p calls dedupe t s s') (hs : AnswerStep p calls (OneKey p calls dedupe) t s s') :
    AnsweredUnder p dedupe before s'.commands := by
  cases hs with
  | unchanged => exact h
  | approval c s' hc hs =>
      cases hs with
      | audited audits => exact h
      | recorded request outcome actorId now hmem hfree hmay =>
          rwa [ApprovalStore.insertDecision_commands]
      | resumed decided deciders actorId commandId hbatch hnew =>
          rw [OneKey, hc] at hone
          refine h.queue (fun row hrow hkey => ?_) fun _ =>
            ⟨(hone trivial).1, fun _ => hbatch.carriesAnswers deciders actorId commandId _⟩
          have := hnew row hrow
          rw [ParkedInterrupt.resumedBy, hkey] at this
          simp [CommandRow.key, CommandRow.queued, ParkedInterrupt.resumeCommand] at this
  | queued looked command hlooked hq hnew =>
      refine h.queue hnew fun hnamed => ?_
      -- the call answers what it saw waiting, in a step that the run considers
      rw [OneKey] at hlooked
      generalize calls t = call at hq hlooked hnamed
      cases hq with
      | resumed c commandId hmay =>
          obtain ⟨hkey, hbrings⟩ := hlooked hmay
          exact ⟨hkey, fun hne => (hbrings hne).carries commandId _⟩
      | routed d commandId hmay =>
          obtain ⟨hkey, hbrings⟩ := hlooked hmay
          exact ⟨hkey, fun hne => (hbrings hne).elim⟩
      | started d commandId =>
          simp [ParkedInterrupt.namedBy, CommandRow.queued, EventDelivery.startCommand] at hnamed

/-- **One answer to a parked interrupt**: in a run in which all calls that may answer the interrupt
do so under one key, and bring the answers of its requests, at most one resume of it is queued, and
it carries them. -/
theorem resumes_once [DecidableEq τ] (p : ParkedInterrupt) (calls : τ → AnswerCall) (dedupe : Dedupe)
    (before : List CommandRow) (sched : List (τ × UUID))
    (hm : Pool.Meets (OneKey p calls dedupe) (answerPool p calls before) sched) :
    AnsweredOnce p before ((answerPool p calls before).run sched).state.commands := by
  have hunder : AnsweredUnder p dedupe before
      ((answerPool p calls before).run sched).state.commands := by
    refine answerPool_inv (J := fun s => AnsweredUnder p dedupe before s.commands) []
      (fun t s s' hone hs h => h.step hone hs) hm ⟨⟨List.prefix_rfl, ?_, ?_⟩, ?_⟩ <;>
      simp [answerPool]
  exact hunder.toAnsweredOnce

/-- The submission is approved. -/
def approvedSubmission : ApprovalDecisionInput := ⟨1, "Sacme", true, some 100, none, by decide⟩

/-- A reviewer approves it through the route. -/
def routeApproval : ResumeCall := ⟨.decisions approvedSubmission [], none, "reviewer", 5⟩

/-- A message arrives in the conversation the submission belongs to. -/
def correlatedMessage : EventDelivery :=
  ⟨⟨"message.received", "gmail", true, "d1", [.other]⟩, none, 8, "events:8", "user:1"⟩

/-- The route and the router. -/
def routeAndRouter : Bool → AnswerCall
  | true => .review (.resume routeApproval)
  | false => .event correlatedMessage

/-- The route answers first, and the event finds nothing that waits. -/
theorem resumes_once_routeApproval :
    AnsweredOnce parkedSubmission [] ((answerPool parkedSubmission routeAndRouter []).run
      [(true, 1), (true, 2), (false, 3)]).state.commands := by
  refine resumes_once parkedSubmission routeAndRouter (.checkpoint 70) []
    [(true, 1), (true, 2), (false, 3)] ?_
  have hroute : Brings parkedSubmission (routeAndRouter true) := ⟨_, _, rfl, by decide⟩
  refine ⟨?_, ?_, ?_, trivial⟩
  · exact fun _ => ⟨rfl, fun _ => hroute⟩
  · exact fun _ => ⟨rfl, fun _ => hroute⟩
  · rintro ⟨-, hwaiting⟩
    cases hwaiting

/-- The event is queued as the answer to the approval, and the reviewer's answer after it. -/
theorem event_answers_approval :
    ¬ ∀ (τ : Type) [DecidableEq τ] (p : ParkedInterrupt) (calls : τ → AnswerCall)
      (before : List CommandRow) (sched : List (τ × UUID)),
      AnsweredOnce p before ((answerPool p calls before).run sched).state.commands := by
  intro h
  have := (h Bool parkedSubmission routeAndRouter [] [(true, 1), (false, 2), (false, 3), (true, 4)]).once
  exact absurd this (by decide)

end PersonalOS
