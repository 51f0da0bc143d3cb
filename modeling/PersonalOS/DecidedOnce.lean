import PersonalOS.ApprovalQueue
import PersonalOS.Pool
import Mathlib.Data.List.Forall2

/-! # Approval decisions exactly once

Any number of `decide` and `expire_overdue` calls over one parked interrupt, interleaved
transaction by transaction.

* **Steps.** `CallStep` says what one transaction of a call can do to the store: audit, record
  one row under a free id with a reason of the call's own (`MayRecord`), or queue the resume of
  a batch that is all recorded.
* **Contracts.** The other calls only add rows of their own and queue commands
  (`approvalContract`).  A call leaves `Settled`: if the newest row is its own, the resume is
  queued or some request still has no row.
* **Runs.** `approvals_decidedOnce` collects what holds after every interleaving: the call that
  wrote the newest row is the one that found the batch complete. -/

namespace PersonalOS

open Concurrent Concurrent.Prog ApprovalQueue

variable {τ : Type} {p : ParkedInterrupt}

/-! ### What a transaction does -/

/-- The call may record this outcome of the request, at this time. -/
def MayRecord (request : ApprovalRequest) (outcome : ApprovalOutcome) (now : Time) :
    ApprovalCall → Prop
  | .decide c => c.approvalId = request.requestId ∧ outcome = c.outcome ∧ now = c.now ∧
      c.actionHash = request.actionHash ∧ (c.approved = true → c.now < request.expiresAt)
  | .expireOverdue t _ => outcome = .expired ∧ now = t ∧ request.expiresAt ≤ t

/-- The rows a batch was read as decided with are in the store. -/
def BatchOf (p : ParkedInterrupt) (s : ApprovalStore τ)
    (decided : List (ApprovalRequest × ApprovalRow)) : Prop :=
  decided.map (·.1) = p.requests ∧
    ∀ q ∈ decided, (∃ r ∈ s.approvals, r.row = q.2) ∧ q.2.id = q.1.requestId

/-- What one transaction of call `t` does. -/
inductive CallStep (p : ParkedInterrupt) (calls : τ → ApprovalCall) (t : τ) (s : ApprovalStore τ) :
    ApprovalStore τ → Prop where
  | audited (audits : List ApprovalAudit) : CallStep p calls t s { s with audits }
  | recorded (request : ApprovalRequest) (outcome : ApprovalOutcome) (actorId : String) (now : Time) :
      request ∈ p.requests → (∀ r ∈ s.approvals, r.row.id ≠ request.requestId) →
      MayRecord request outcome now (calls t) →
      CallStep p calls t s (s.insertDecision t request outcome actorId now).2
  | resumed (decided : List (ApprovalRequest × ApprovalRow)) (deciders : UUID → Option String)
      (actorId : String) (commandId : UUID) : BatchOf p s decided →
      (∀ row ∈ s.commands, p.resumedBy row = false) →
      CallStep p calls t s
        { s with commands := s.commands ++ [.queued (p.resumeCommand actorId
          (decided.map (resumeDecision deciders actorId)) commandId)
          (some (.checkpoint p.checkpointId))] }

/-- Rows are only added, by calls of `writers`, and commands only queued. -/
def Grows (writers : τ → Prop) (s s' : ApprovalStore τ) : Prop :=
  (∃ new, s'.approvals = new ++ s.approvals ∧ ∀ r ∈ new, writers r.call) ∧ s.commands <+: s'.commands

theorem Grows.refl (writers : τ → Prop) (s : ApprovalStore τ) : Grows writers s s :=
  ⟨⟨[], rfl, by simp⟩, List.prefix_rfl⟩

theorem Grows.trans {writers : τ → Prop} {s₁ s₂ s₃ : ApprovalStore τ} (h₁ : Grows writers s₁ s₂)
    (h₂ : Grows writers s₂ s₃) : Grows writers s₁ s₃ := by
  obtain ⟨⟨new₁, hn₁, hw₁⟩, hc₁⟩ := h₁
  obtain ⟨⟨new₂, hn₂, hw₂⟩, hc₂⟩ := h₂
  refine ⟨⟨new₂ ++ new₁, by rw [hn₂, hn₁, List.append_assoc], ?_⟩, hc₁.trans hc₂⟩
  intro r hr
  rcases List.mem_append.mp hr with hr | hr
  · exact hw₂ r hr
  · exact hw₁ r hr

theorem Grows.mem {writers : τ → Prop} {s s' : ApprovalStore τ} (h : Grows writers s s')
    {r : RecordedRow τ} (hr : r ∈ s.approvals) : r ∈ s'.approvals := by
  obtain ⟨⟨new, hn, -⟩, -⟩ := h
  rw [hn]
  exact List.mem_append_right _ hr

theorem CallStep.grows {calls : τ → ApprovalCall} {t : τ} {s s' : ApprovalStore τ}
    (h : CallStep p calls t s s') : Grows (· = t) s s' := by
  cases h with
  | audited audits => exact ⟨⟨[], rfl, by simp⟩, List.prefix_rfl⟩
  | recorded request outcome actorId now hmem hfree hmay =>
      refine ⟨⟨[_], ApprovalStore.insertDecision_approvals hfree, by simp⟩, ?_⟩
      rw [ApprovalStore.insertDecision_commands]
  | resumed decided deciders actorId commandId hbatch hnew =>
      exact ⟨⟨[], rfl, by simp⟩, List.prefix_append _ _⟩

/-- A contract of call `t`: the others add rows of their own. -/
def growingContract (t : τ) (guar assume : ApprovalStore τ → ApprovalStore τ → Prop) :
    Contract (ApprovalStore τ) where
  rely := Grows (· ≠ t)
  guar := guar
  assume := assume
  rely_refl := Grows.refl _
  rely_trans := Grows.trans

def approvalContract (p : ParkedInterrupt) (calls : τ → ApprovalCall) (t : τ) :
    Contract (ApprovalStore τ) := growingContract t (CallStep p calls t) fun _ _ => True

/-! ### What a call leaves -/

/-- If the newest row is the call's, the resume is queued or the batch is not all recorded. -/
def Settled (p : ParkedInterrupt) (t : τ) (s : ApprovalStore τ) : Prop :=
  ∀ r rest, s.approvals = r :: rest → r.call = t →
    p.isResumed s.commands = true ∨ ¬ AllDecided p s

/-- Only rows of another call can become the newest. -/
theorem Settled.grows {t : τ} {s s' : ApprovalStore τ} (h : Settled p t s) (hg : Grows (· ≠ t) s s') :
    Settled p t s' := by
  obtain ⟨⟨new, hn, hw⟩, hc⟩ := hg
  intro r rest hr ht
  cases new with
  | nil =>
      rw [List.nil_append] at hn
      rcases h r rest (hn.symm.trans hr) ht with hq | hd
      · exact Or.inl (ParkedInterrupt.isResumed_mono hc hq)
      · exact Or.inr fun hall => hd fun request hmem => by rw [← hn]; exact hall request hmem
  | cons r' new =>
      rw [hn, List.cons_append] at hr
      exact absurd ((List.cons.inj hr).1 ▸ ht) (hw r' List.mem_cons_self)

theorem Settled.of_isResumed {t : τ} {s : ApprovalStore τ} (h : p.isResumed s.commands = true) :
    Settled p t s := fun _ _ _ _ => Or.inl h

theorem Settled.of_not_allDecided {t : τ} {s : ApprovalStore τ} (h : ¬ AllDecided p s) :
    Settled p t s := fun _ _ _ _ => Or.inr h

/-! ### The programs keep the contract -/

section programs

variable {calls : τ → ApprovalCall} {t : τ} {α β : Type} {s : ApprovalStore τ}
variable {Q : α → ApprovalStore τ → Prop} {E : ApprovalError → ApprovalStore τ → Prop}

theorem wp_read_approvals {f : ApprovalStore τ → β} {k : β → ApprovalProgram τ α}
    (h : ∀ s', Grows (· ≠ t) s s' → (k (f s')).wp (approvalContract p calls t) Q E s') :
    (read f >>= k).wp (approvalContract p calls t) Q E s :=
  fun s' hr _ _ => ⟨.audited s'.audits, h s' hr⟩

theorem wp_ret_settled {a : α} (h : Settled p t s) :
    (ret a : ApprovalProgram τ α).wp (approvalContract p calls t) (fun _ => Settled p t) E s :=
  fun _ hr => h.grows hr

theorem wp_raise_settled {e : ApprovalError} (h : Settled p t s) :
    (raise e : ApprovalProgram τ α).wp (approvalContract p calls t) Q (fun _ => Settled p t) s :=
  fun _ hr => h.grows hr

/-- Whatever the store was, a call that has looked for a complete batch leaves it settled. -/
theorem resumeIfAnswered_settled {actorId : String} :
    (resumeIfAnswered p actorId).wp (approvalContract p calls t) (fun _ => Settled p t) E s := by
  unfold resumeIfAnswered
  refine wp_read_approvals fun s₁ _ => ?_
  cases hb : s₁.decidedBatch p.requests with
  | none =>
      refine wp_ret_settled (.of_not_allDecided fun hall => ?_)
      obtain ⟨request, hmem, hno⟩ := ApprovalStore.decidedBatch_eq_none hb
      obtain ⟨r, hr, hid⟩ := hall request hmem
      exact hno r hr hid
  | some decided =>
      obtain ⟨hfst, hrows⟩ := ApprovalStore.decidedBatch_eq_some hb
      refine wp_read_approvals fun s₂ hg₂ => ?_
      intro s₃ hr₃ commandId _
      have hg₃ : Grows (· ≠ t) s₂ s₃ := hr₃
      refine ⟨?_, wp_ret_settled (.of_isResumed enqueue_any)⟩
      have hbatch : BatchOf p s₃ decided := by
        refine ⟨hfst, fun q hq => ⟨?_, (hrows q hq).2⟩⟩
        obtain ⟨r, hr, hrow⟩ := (hrows q hq).1
        exact ⟨r, hg₃.mem (hg₂.mem hr), hrow⟩
      dsimp only
      rcases enqueue_cases with he | ⟨he, hnew⟩
      · rw [he]
        exact .audited s₃.audits
      · rw [he]
        refine .resumed decided _ actorId commandId hbatch fun row hrow => ?_
        exact beq_eq_false_iff_ne.mpr (hnew row hrow)

theorem settleDecision_settled {c : DecideCall} {found : Option ApprovalRequest}
    {recorded : ApprovalRow} {replayed : Bool} (h : found = none ∨ replayed = true → Settled p t s) :
    (settleDecision p c found recorded replayed).wp (approvalContract p calls t)
      (fun _ => Settled p t) (fun _ => Settled p t) s := by
  unfold settleDecision
  split
  · rename_i hr
    exact wp_raise_settled (h (Or.inr hr.1))
  split
  · rename_i hr
    exact wp_raise_settled (h (Or.inr hr.1))
  have hend : ∀ (resumed : Bool) (s : ApprovalStore τ), Settled p t s →
      (do let decidedBy ← read (ApprovalStore.decidedBy c.approvalId)
          return ({ approvalId := c.approvalId, actionHash := recorded.actionHash,
                    state := recorded.status, outcome := recorded.outcome, decidedBy,
                    decidedAt := recorded.decidedAt, resumed, replayed } :
            RecordedApprovalDecision) : ApprovalProgram τ RecordedApprovalDecision).wp
        (approvalContract p calls t) (fun _ => Settled p t) (fun _ => Settled p t) s :=
    fun resumed s hs => wp_read_approvals fun s' hg => wp_ret_settled (hs.grows hg)
  cases found with
  | none => exact hend true s (h (Or.inl rfl))
  | some request =>
      exact wp_bind (wp_mono resumeIfAnswered_settled (fun resumed s hs => hend resumed s hs)
        fun _ _ h => h)

/-- A transaction that records, and what may be said after it. -/
theorem wp_insertDecision {request : ApprovalRequest} {outcome : ApprovalOutcome}
    {actorId : String} {now : Time} {k : Bool → ApprovalProgram τ α} (hmem : request ∈ p.requests)
    (hmay : MayRecord request outcome now (calls t))
    (hnew : ∀ s', (∃ r ∈ s'.approvals, r.row.id = request.requestId) →
      (k true).wp (approvalContract p calls t) Q E s')
    (hold : ∀ s', Grows (· ≠ t) s s' → (k false).wp (approvalContract p calls t) Q E s') :
    (act (fun _ => ApprovalStore.insertDecision t request outcome actorId now) >>= k).wp
      (approvalContract p calls t) Q E s := by
  intro s' hg _ _
  rcases ApprovalStore.insertDecision_cases t request outcome actorId now s' with
    ⟨-, he⟩ | ⟨hfree, htrue, hrow⟩
  · simp only [he]
    exact ⟨.audited s'.audits, hold s' hg⟩
  · refine ⟨.recorded request outcome actorId now hmem hfree hmay, ?_⟩
    rw [htrue]
    exact hnew _ hrow

theorem decide_settled {c : DecideCall} (hc : calls t = .decide c) (h : Settled p t s) :
    (ApprovalQueue.decide t p c).wp (approvalContract p calls t) (fun _ => Settled p t)
      (fun _ => Settled p t) s := by
  unfold ApprovalQueue.decide
  refine wp_read_approvals fun s₁ hg₁ => wp_read_approvals fun s₂ hg₂ => ?_
  have h₂ : Settled p t s₂ := (h.grows hg₁).grows hg₂
  cases hrec : s₂.decidedRow c.approvalId with
  | some recorded => exact settleDecision_settled fun _ => h₂
  | none =>
      cases hfound : s₁.openRequest p c.approvalId with
      | none => exact wp_raise_settled h₂
      | some request =>
          obtain ⟨hmem, hid⟩ := ApprovalStore.openRequest_eq_some hfound
          dsimp only
          split
          · intro s₃ hg₃ _ _
            exact ⟨.audited _, wp_raise_settled (h₂.grows hg₃)⟩
          rename_i hhash
          split
          · intro s₃ hg₃ _ _
            exact ⟨.audited _, wp_raise_settled (h₂.grows hg₃)⟩
          rename_i hexp
          have hmay : MayRecord request c.outcome c.now (calls t) := by
            rw [hc]
            refine ⟨hid.symm, rfl, rfl, by simpa using hhash, fun happ => ?_⟩
            exact ApprovalRequest.isExpired_eq_false.mp (by simpa [happ] using hexp)
          -- A row of the call's own is followed by a look at the batch; a lost race is a replay.
          refine wp_insertDecision hmem hmay (fun s₃ hrow => ?_) (fun s₃ hg₃ => ?_)
          · refine wp_read_approvals fun s₄ hg₄ => ?_
            obtain ⟨r, hr, hr'⟩ := hrow
            cases hrec' : s₄.decidedRow c.approvalId with
            | none =>
                exact absurd (hr'.trans hid) (ApprovalStore.decidedRow_eq_none.mp hrec' r (hg₄.mem hr))
            | some recorded => exact settleDecision_settled (by simp)
          · refine wp_read_approvals fun s₄ hg₄ => ?_
            have h₄ : Settled p t s₄ := (h₂.grows hg₃).grows hg₄
            cases s₄.decidedRow c.approvalId with
            | none => exact wp_raise_settled h₄
            | some recorded => exact settleDecision_settled fun _ => h₄

theorem expireRequests_settled {actorId : String} {now : Time} {decided : List UUID}
    (hc : calls t = .expireOverdue now actorId) {requests : List ApprovalRequest}
    (hmem : ∀ request ∈ requests, request ∈ p.requests) (h : Settled p t s) :
    (expireRequests t p actorId now decided requests).wp (approvalContract p calls t)
      (fun _ => Settled p t) (fun _ => Settled p t) s := by
  induction requests generalizing s with
  | nil => exact wp_ret_settled h
  | cons request requests ih =>
      have ih' : ∀ s, Settled p t s → _ := fun s hs =>
        ih (fun r hr => hmem r (List.mem_cons_of_mem _ hr)) hs
      unfold expireRequests
      split
      · exact ih' s h
      rename_i hskip
      have hmay : MayRecord request .expired now (calls t) := by
        rw [hc]
        refine ⟨rfl, rfl, ?_⟩
        have : request.isExpired now = true := by simpa using fun hf => hskip (Or.inr hf)
        simpa [ApprovalRequest.isExpired] using this
      refine wp_insertDecision (hmem request List.mem_cons_self) hmay (fun s₁ _ => ?_) fun s₁ hg₁ => ?_
      · refine wp_bind (wp_mono resumeIfAnswered_settled (fun _ s₂ h₂ => ?_) fun _ _ h => h)
        refine wp_bind (wp_mono (ih' s₂ h₂) (fun _ s₃ h₃ => ?_) fun _ _ h => h)
        exact wp_ret_settled h₃
      · exact ih' s₁ (h.grows hg₁)

/-- Every call keeps the contract and leaves the store settled. -/
theorem program_settled (h : Settled p t s) :
    ((calls t).program t p).wp (approvalContract p calls t) (fun _ => Settled p t)
      (fun _ => Settled p t) s := by
  cases hc : calls t with
  | decide c =>
      exact wp_bind (wp_mono (decide_settled hc h) (fun _ _ hs => wp_ret_settled hs) fun _ _ h => h)
  | expireOverdue now actorId =>
      refine wp_bind (wp_mono ?_ (fun _ _ hs => wp_ret_settled hs) fun _ _ h => h)
      unfold expireOverdue
      refine wp_read_approvals fun s₁ hg₁ => wp_read_approvals fun s₂ hg₂ => ?_
      refine expireRequests_settled hc ?_ ((h.grows hg₁).grows hg₂)
      split
      · exact fun _ hr => hr
      · simp

end programs

/-! ### Interleavings -/

/-- The command carries the recorded verdict and hash of every request of the batch. -/
structure CarriesRecorded (p : ParkedInterrupt) (s : ApprovalStore τ) (row : CommandRow) : Prop where
  resumes : p.resumedBy row = true
  input : ∃ decisions, row.command.graphInput = .ofDecisions decisions ∧
    List.Forall₂ (fun request d => ∃ r ∈ s.approvals, r.row.id = request.requestId ∧
      d.requestId = some request.requestId ∧ d.actionId = request.actionId ∧
      d.actionFingerprint = r.row.actionHash ∧ d.verdict = verdictByState r.row.status)
      p.requests decisions

/-- A row was written by a call that may record it. -/
def Justified (p : ParkedInterrupt) (calls : τ → ApprovalCall) (r : RecordedRow τ) : Prop :=
  ∃ request ∈ p.requests, ∃ outcome, MayRecord request outcome r.row.decidedAt (calls r.call) ∧
    r.row.id = request.requestId ∧ r.row.actionHash = request.actionHash ∧
    r.row.status = statusByOutcome outcome ∧ r.row.note = outcome

/-- What holds of the store after every interleaving begun with the queue at `before`. -/
structure ApprovalInv (p : ParkedInterrupt) (calls : τ → ApprovalCall) (before : List CommandRow)
    (s : ApprovalStore τ) : Prop where
  nodup : (s.approvals.map (·.row.id)).Nodup
  justified : ∀ r ∈ s.approvals, Justified p calls r
  commands : s.commands = before ∨ ∃ row, s.commands = before ++ [row] ∧ CarriesRecorded p s row

theorem CarriesRecorded.grows {writers : τ → Prop} {s s' : ApprovalStore τ} {row : CommandRow}
    (h : CarriesRecorded p s row) (hg : Grows writers s s') : CarriesRecorded p s' row := by
  obtain ⟨decisions, hinput, hall⟩ := h.input
  refine ⟨h.resumes, decisions, hinput, hall.imp ?_⟩
  rintro request d ⟨r, hr, hd⟩
  exact ⟨r, hg.mem hr, hd⟩

/-- The decisions made from a batch carry its rows. -/
theorem BatchOf.carries {s : ApprovalStore τ} {decided : List (ApprovalRequest × ApprovalRow)}
    (h : BatchOf p s decided) (deciders : UUID → Option String) (actorId : String) (commandId : UUID) :
    CarriesRecorded p s (.queued (p.resumeCommand actorId
      (decided.map (resumeDecision deciders actorId)) commandId) (some (.checkpoint p.checkpointId))) := by
  obtain ⟨hfst, hrows⟩ := h
  refine ⟨by simp [ParkedInterrupt.resumedBy, CommandRow.key, CommandRow.queued,
    ParkedInterrupt.resumeCommand], _, rfl, ?_⟩
  rw [← hfst, List.forall₂_map_left_iff, List.forall₂_map_right_iff, List.forall₂_same]
  intro q hq
  obtain ⟨⟨r, hr, hrow⟩, hid⟩ := hrows q hq
  exact ⟨r, hr, by rw [hrow, hid], rfl, rfl, by rw [hrow]; rfl, by rw [hrow]; rfl⟩

theorem ApprovalInv.step {calls : τ → ApprovalCall} {before : List CommandRow} {t : τ}
    {s s' : ApprovalStore τ} (h : ApprovalInv p calls before s) (hs : CallStep p calls t s s') :
    ApprovalInv p calls before s' := by
  have hg := hs.grows
  have hkept : s'.commands = s.commands → s'.commands = before ∨
      ∃ row, s'.commands = before ++ [row] ∧ CarriesRecorded p s' row := by
    intro heq
    rw [heq]
    exact h.commands.imp_right fun ⟨row, hrow, hc⟩ => ⟨row, hrow, hc.grows hg⟩
  cases hs with
  | audited audits => exact ⟨h.nodup, h.justified, hkept rfl⟩
  | recorded request outcome actorId now hmem hfree hmay =>
      have hrows : (s.insertDecision t request outcome actorId now).2.approvals = _ :=
        ApprovalStore.insertDecision_approvals hfree
      refine ⟨?_, ?_, hkept (ApprovalStore.insertDecision_commands ..)⟩
      · rw [hrows]
        refine List.nodup_cons.mpr ⟨fun hid => ?_, h.nodup⟩
        obtain ⟨r, hr, hid⟩ := List.mem_map.mp hid
        exact hfree r hr hid
      · intro r hr
        rw [hrows] at hr
        rcases List.mem_cons.mp hr with rfl | hr
        · exact ⟨request, hmem, outcome, hmay, rfl, rfl, rfl, rfl⟩
        · exact h.justified r hr
  | resumed decided deciders actorId commandId hbatch hnew =>
      refine ⟨h.nodup, h.justified, Or.inr ?_⟩
      rcases h.commands with heq | ⟨row, heq, hc⟩
      · exact ⟨_, by rw [heq], (hbatch.carries deciders actorId commandId).grows hg⟩
      · have := hnew row (by simp [heq])
        rw [hc.resumes] at this
        cases this

/-- Calls on a parked interrupt: nothing is recorded, and the queue holds `before`. -/
def approvalPool (p : ParkedInterrupt) (calls : τ → ApprovalCall) (before : List CommandRow) :
    Pool τ UUID (ApprovalStore τ) ApprovalError ApprovalResult where
  procs t := (calls t).program t p
  state := ⟨[], [], before⟩

section runs

variable {calls : τ → ApprovalCall} {before : List CommandRow}

theorem approvalPool_sound : Pool.Sound (approvalContract p calls) (fun t _ => Settled p t)
    (fun t _ => Settled p t) (approvalPool p calls before) :=
  fun _ => program_settled fun _ _ h => by cases h

theorem approvalPool_rely (t u : τ) (htu : t ≠ u) (s s' : ApprovalStore τ)
    (h : (approvalContract p calls u).guar s s') : (approvalContract p calls t).rely s s' := by
  obtain ⟨⟨new, hn, hw⟩, hc⟩ := CallStep.grows h
  exact ⟨⟨new, hn, fun r hr => (hw r hr).trans_ne htu.symm⟩, hc⟩

variable [DecidableEq τ]

theorem approvalPool_run_sound (sched : List (τ × UUID)) :
    Pool.Sound (approvalContract p calls) (fun t _ => Settled p t) (fun t _ => Settled p t)
      ((approvalPool p calls before).run sched) :=
  Pool.run_wp approvalPool_sound (fun _ => rfl) approvalPool_rely (Pool.meets_true _ sched)

/-- What any schedule keeps, if every transaction of its calls does. -/
theorem approvalPool_inv {J : ApprovalStore τ → Prop} (sched : List (τ × UUID))
    {sched' : List (τ × UUID)} (hJ : ∀ e ∈ sched', ∀ s s', CallStep p calls e.1 s s' → J s → J s')
    (h0 : J ((approvalPool p calls before).run sched).state) :
    J ((approvalPool p calls before).run (sched ++ sched')).state :=
  Pool.run_inv_append approvalPool_sound (fun _ => rfl) approvalPool_rely
    (fun e he s s' _ => hJ e he s s') (Pool.meets_true _ _) h0

/-- A call that has ended has left the store settled. -/
theorem approvalPool_settled {sched : List (τ × UUID)} {t : τ}
    (h : (((approvalPool p calls before).run sched).procs t).finished = true) :
    Settled p t ((approvalPool p calls before).run sched).state := by
  cases hp : ((approvalPool p calls before).run sched).procs t with
  | ret a => exact Pool.run_ret (approvalPool_run_sound sched) hp
  | raise e => exact Pool.run_raise (approvalPool_run_sound sched) hp
  | call f k => rw [hp] at h; cases h

/-- Every row was written by a call that was scheduled. -/
theorem approvalPool_scheduled {sched : List (τ × UUID)} :
    ∀ r ∈ ((approvalPool p calls before).run sched).state.approvals, ∃ e ∈ sched, e.1 = r.call := by
  refine approvalPool_inv (J := fun s => ∀ r ∈ s.approvals, ∃ e ∈ sched, e.1 = r.call) []
    ?_ (by simp [approvalPool])
  intro e he s s' hs h r hr
  obtain ⟨⟨new, hn, hw⟩, -⟩ := hs.grows
  rw [hn] at hr
  rcases List.mem_append.mp hr with hr | hr
  · exact ⟨e, he, (hw r hr).symm⟩
  · exact h r hr

/-- **Approval decisions exactly once**, whatever the interleaving: a request has at most one
recorded outcome and keeps it; it is recorded as approved only by a call that named its stored
hash before its expiry; the queue holds at most one resume of the checkpoint, carrying the
recorded verdict and hash of every request; and once no call is unfinished and every request is
recorded, that resume is queued. -/
theorem approvals_decidedOnce (p : ParkedInterrupt) (calls : τ → ApprovalCall)
    (before : List CommandRow) (sched : List (τ × UUID)) :
    let c := (approvalPool p calls before).run sched
    (c.state.approvals.map (·.row.id)).Nodup ∧
    (∀ later, c.state.approvals <:+ (c.run later).state.approvals) ∧
    (∀ r ∈ c.state.approvals, r.row.status = .approved → ∃ request ∈ p.requests, ∃ d,
      calls r.call = .decide d ∧ r.row.id = request.requestId ∧
      r.row.actionHash = request.actionHash ∧ d.approvalId = request.requestId ∧
      d.approved = true ∧ d.actionHash = request.actionHash ∧ d.now < request.expiresAt) ∧
    (c.state.commands = before ∨
      ∃ row, c.state.commands = before ++ [row] ∧ CarriesRecorded p c.state row) ∧
    (p.requests ≠ [] → (∀ t, (c.procs t).finished = true ∨ ∀ e ∈ sched, e.1 ≠ t) →
      AllDecided p c.state → p.isResumed c.state.commands = true) := by
  intro c
  have hinv : ApprovalInv p calls before c.state := by
    have h0 : ApprovalInv p calls before (approvalPool p calls before).state :=
      ⟨by simp [approvalPool], by simp [approvalPool], Or.inl rfl⟩
    exact approvalPool_inv [] (fun e _ s s' hs h => h.step hs) h0
  refine ⟨hinv.nodup, ?_, ?_, hinv.commands, ?_⟩
  · intro later
    rw [← Pool.run_append]
    refine approvalPool_inv (J := fun s => c.state.approvals <:+ s.approvals) sched ?_
      List.suffix_rfl
    intro e _ s s' hs h
    obtain ⟨⟨new, hn, -⟩, -⟩ := hs.grows
    exact h.trans ⟨new, hn.symm⟩
  · intro r hr hstatus
    obtain ⟨request, hmem, outcome, hmay, hid, hhash, hst, -⟩ := hinv.justified r hr
    cases hcall : calls r.call with
    | expireOverdue now actorId =>
        rw [hcall] at hmay
        rw [hst, hmay.1] at hstatus
        cases hstatus
    | decide d =>
        rw [hcall] at hmay
        obtain ⟨hd, hout, -, hnamed, hnow⟩ := hmay
        have happ : d.approved = true := by
          cases hap : d.approved with
          | true => rfl
          | false => simp [hst, hout, DecideCall.outcome, hap, statusByOutcome] at hstatus
        exact ⟨request, hmem, d, rfl, hid, hhash, hd, happ, hnamed, hnow happ⟩
  · intro hne hfin hall
    obtain ⟨request, hmem⟩ := List.exists_mem_of_ne_nil _ hne
    obtain ⟨r₀, hr₀, -⟩ := hall request hmem
    -- The call that wrote the newest row has ended, so it has seen the complete batch.
    obtain ⟨r, rest, hrows⟩ := List.exists_cons_of_ne_nil (List.ne_nil_of_mem hr₀)
    have hr : r ∈ c.state.approvals := by rw [hrows]; exact List.mem_cons_self
    obtain ⟨e, he, hcall⟩ := approvalPool_scheduled r hr
    have hdone : (c.procs r.call).finished = true :=
      (hfin r.call).resolve_right fun hno => hno e he hcall
    exact (approvalPool_settled hdone r rest hrows rfl).resolve_right fun hn => hn hall

end runs

end PersonalOS
