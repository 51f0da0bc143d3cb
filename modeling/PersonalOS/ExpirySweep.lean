import PersonalOS.ApprovalQueue

/-! # Expiry sweeps that may crash

Sweeps of `expire_overdue` made one after another over one parked interrupt, each stopped
after any number of its transactions.  A sweep looks for requests without a row and resumes
only after recording one, so the one thing it does not pick up is the resume itself.

* `expireRequests_spec` says what a sweep over overdue requests leaves when nothing interrupts
  it; every step it takes keeps `Answerable`: the interrupt waits, or its resume is queued.
* `completed_sweep_resumes_iff`: a sweep that runs to its end leaves the resume queued exactly
  when it was queued before or some request had no row yet. -/

namespace PersonalOS

open Concurrent Concurrent.Prog ApprovalQueue

variable {p : ParkedInterrupt} {s : ApprovalStore Unit}

/-- One sweep, and the inputs of the steps it took before it ended or crashed. -/
structure Sweep where
  now : Time
  actorId : String
  inputs : List UUID

def Sweep.program (p : ParkedInterrupt) (sweep : Sweep) : ApprovalProgram Unit ApprovalResult :=
  (ApprovalCall.expireOverdue sweep.now sweep.actorId).program () p

/-- What sweeps made one after another leave. -/
def sweeps (p : ParkedInterrupt) (made : List Sweep) (s : ApprovalStore Unit) : ApprovalStore Unit :=
  attempts (made.map fun sweep => (sweep.program p, sweep.inputs)) s

/-- The interrupt waits, or its resume is queued. -/
def Answerable (p : ParkedInterrupt) (s : ApprovalStore Unit) : Prop :=
  p.isWaiting s.commands = true ∨ p.isResumed s.commands = true

/-- The request has a row. -/
def Recorded (s : ApprovalStore Unit) (request : ApprovalRequest) : Prop :=
  ∃ r ∈ s.approvals, r.row.id = request.requestId

/-! ### Wherever a sweep crashes -/

theorem resumeIfAnswered_answerable {actorId : String} (h : Answerable p s) :
    (resumeIfAnswered p actorId).wp (.alone fun _ s' => Answerable p s')
      (fun _ s' => Answerable p s') (fun _ _ => True) s := by
  unfold resumeIfAnswered
  refine wp_alone_call.mpr fun _ => ⟨h, ?_⟩
  dsimp only
  cases hb : s.decidedBatch p.requests with
  | none => exact wp_alone_ret.mpr h
  | some decided =>
      refine wp_alone_call.mpr fun _ => ⟨h, wp_alone_call.mpr fun commandId => ?_⟩
      exact ⟨Or.inr enqueue_any, wp_alone_ret.mpr (Or.inr enqueue_any)⟩

theorem expireRequests_answerable {actorId : String} {now : Time} {decided : List UUID}
    {requests : List ApprovalRequest} (h : Answerable p s) :
    (expireRequests () p actorId now decided requests).wp (.alone fun _ s' => Answerable p s')
      (fun _ _ => True) (fun _ _ => True) s := by
  induction requests generalizing s with
  | nil => exact wp_alone_ret.mpr trivial
  | cons request requests ih =>
      unfold expireRequests
      split
      · exact ih h
      refine wp_alone_call.mpr fun _ => ?_
      have h₁ : Answerable p (s.insertDecision () request .expired actorId now).2 := by
        unfold Answerable
        rwa [ApprovalStore.insertDecision_commands]
      refine ⟨h₁, ?_⟩
      simp only [Prog.bind]
      split
      · refine wp_bind (wp_mono (resumeIfAnswered_answerable h₁) (fun _ s₂ h₂ => ?_)
          fun _ _ h => h)
        exact wp_bind (wp_mono (ih h₂) (fun _ _ _ => wp_alone_ret.mpr trivial) fun _ _ h => h)
      · exact ih h₁

theorem sweeps_answerable {made : List Sweep} (h : Answerable p s) : Answerable p (sweeps p made s) := by
  refine attempts_inv (Q := fun _ _ => True) (E := fun _ _ => True) h ?_
  intro r hr s hs
  obtain ⟨sweep, -, rfl⟩ := List.mem_map.mp hr
  refine wp_bind (wp_mono (Q := fun _ _ => True) ?_ (fun _ _ _ => wp_alone_ret.mpr trivial)
    fun _ _ h => h)
  unfold expireOverdue
  refine wp_alone_call.mpr fun _ => ⟨hs, ?_⟩
  simp only [Prog.bind]
  refine wp_alone_call.mpr fun _ => ⟨hs, ?_⟩
  simp only [Prog.bind]
  exact expireRequests_answerable hs

/-! ### A sweep that runs to its end -/

section spec

variable {α : Type} {Q : α → ApprovalStore Unit → Prop} {E : ApprovalError → ApprovalStore Unit → Prop}

theorem resumeIfAnswered_spec (actorId : String) (s : ApprovalStore Unit) :
    (resumeIfAnswered p actorId).wp (.alone fun _ _ => True)
      (fun _ s' => s'.approvals = s.approvals ∧
        (p.isResumed s.commands = true → p.isResumed s'.commands = true) ∧
        (AllDecided p s → p.isResumed s'.commands = true)) (fun _ _ => False) s := by
  unfold resumeIfAnswered
  refine wp_alone_call.mpr fun _ => ⟨trivial, ?_⟩
  dsimp only
  cases hb : s.decidedBatch p.requests with
  | none =>
      obtain ⟨request, hmem, hno⟩ := ApprovalStore.decidedBatch_eq_none hb
      refine wp_alone_ret.mpr ⟨rfl, id, fun hall => ?_⟩
      obtain ⟨r, hr, hid⟩ := hall request hmem
      exact absurd hid (hno r hr)
  | some decided =>
      refine wp_alone_call.mpr fun _ => ⟨trivial, wp_alone_call.mpr fun commandId => ⟨trivial, ?_⟩⟩
      exact wp_alone_ret.mpr ⟨rfl, fun _ => enqueue_any, fun _ => enqueue_any⟩

/-- What an uninterrupted sweep over these overdue requests makes of `s`, given the ids it found
recorded: it records the others, and resumes after the last of them. -/
structure Swept (p : ParkedInterrupt) (decided : List UUID) (requests : List ApprovalRequest)
    (s s' : ApprovalStore Unit) : Prop where
  grows : s.approvals ⊆ s'.approvals
  recorded : ∀ request ∈ requests, Recorded s' request
  resumed : p.isResumed s.commands = true → p.isResumed s'.commands = true
  idle : (∀ request ∈ requests, request.requestId ∈ decided) → s' = s
  completed : (∃ request ∈ requests, request.requestId ∉ decided) → AllDecided p s' →
    p.isResumed s'.commands = true

namespace Swept

variable {decided : List UUID} {requests : List ApprovalRequest} {request : ApprovalRequest}
variable {s s₁ s' : ApprovalStore Unit}

theorem skip (h : Swept p decided requests s s') (hd : request.requestId ∈ decided)
    (hrec : Recorded s request) : Swept p decided (request :: requests) s s' where
  grows := h.grows
  recorded r hr := by
    rcases List.mem_cons.mp hr with rfl | hr
    · obtain ⟨row, hrow, hid⟩ := hrec
      exact ⟨row, h.grows hrow, hid⟩
    · exact h.recorded r hr
  resumed := h.resumed
  idle hall := h.idle fun r hr => hall r (List.mem_cons_of_mem _ hr)
  completed := by
    rintro ⟨r, hr, hnd⟩
    rcases List.mem_cons.mp hr with rfl | hr
    · exact absurd hd hnd
    · exact h.completed ⟨r, hr, hnd⟩

theorem record (h : Swept p decided requests s₁ s') (hd : request.requestId ∉ decided)
    (hgrows : s.approvals ⊆ s₁.approvals) (hrec : Recorded s₁ request)
    (hresumed : p.isResumed s.commands = true → p.isResumed s₁.commands = true)
    (hall : AllDecided p s₁ → p.isResumed s₁.commands = true) :
    Swept p decided (request :: requests) s s' where
  grows := List.Subset.trans hgrows h.grows
  recorded r hr := by
    rcases List.mem_cons.mp hr with rfl | hr
    · obtain ⟨row, hrow, hid⟩ := hrec
      exact ⟨row, h.grows hrow, hid⟩
    · exact h.recorded r hr
  resumed hr := h.resumed (hresumed hr)
  idle hdecided := absurd (hdecided request List.mem_cons_self) hd
  completed _ hall' := by
    -- Either a later request was recorded as well, or this was the last one.
    by_cases hlater : ∃ r ∈ requests, r.requestId ∉ decided
    · exact h.completed hlater hall'
    · have he : s' = s₁ := h.idle fun r hr => not_not.mp fun hn => hlater ⟨r, hr, hn⟩
      rw [he] at hall' ⊢
      exact hall hall'

end Swept

theorem expireRequests_spec {actorId : String} {now : Time} {decided : List UUID}
    {requests : List ApprovalRequest} (hnodup : (requests.map (·.requestId)).Nodup)
    (hexp : ∀ request ∈ requests, request.isExpired now = true) (s : ApprovalStore Unit)
    (hdecided : ∀ request ∈ requests, request.requestId ∈ decided ↔ Recorded s request) :
    (expireRequests () p actorId now decided requests).wp (.alone fun _ _ => True)
      (fun _ s' => Swept p decided requests s s') (fun _ _ => False) s := by
  induction requests generalizing s with
  | nil => exact wp_alone_ret.mpr ⟨fun _ h => h, by simp, id, fun _ => rfl, by simp⟩
  | cons request requests ih =>
      obtain ⟨hnew, hnodup'⟩ := List.nodup_cons.mp hnodup
      have hexp' : ∀ r ∈ requests, r.isExpired now = true :=
        fun r hr => hexp r (List.mem_cons_of_mem _ hr)
      have hfound := hdecided request List.mem_cons_self
      unfold expireRequests
      by_cases hd : request.requestId ∈ decided
      · rw [if_pos (Or.inl hd)]
        exact wp_mono (ih hnodup' hexp' s fun r hr => hdecided r (List.mem_cons_of_mem _ hr))
          (fun _ s' h => h.skip hd (hfound.mp hd)) fun _ _ h => h
      · have hfree : ∀ r ∈ s.approvals, r.row.id ≠ request.requestId :=
          fun r hr hid => hd (hfound.mpr ⟨r, hr, hid⟩)
        rw [if_neg (by simp [hd, hexp request List.mem_cons_self])]
        refine wp_alone_call.mpr fun _ => ⟨trivial, ?_⟩
        obtain ⟨-, htrue, -⟩ := (ApprovalStore.insertDecision_cases () request .expired actorId now
          s).resolve_left fun h => h.1.elim fun r hr => hfree r hr.1 hr.2
        have hcommands := ApprovalStore.insertDecision_commands () request .expired actorId now s
        have hins : (s.insertDecision () request .expired actorId now).2.approvals = _ :=
          ApprovalStore.insertDecision_approvals hfree
        generalize hs₁ : s.insertDecision () request .expired actorId now = inserted at *
        obtain ⟨ok, s₁⟩ := inserted
        obtain rfl : ok = true := htrue
        dsimp only at hcommands hins ⊢
        simp only [Prog.bind, if_true]
        refine wp_bind (wp_mono (resumeIfAnswered_spec actorId s₁) ?_ fun _ _ h => h)
        rintro _ s₂ ⟨hrows₂, hres₂, hall₂⟩
        have hdecided' : ∀ r ∈ requests, r.requestId ∈ decided ↔ Recorded s₂ r := by
          intro r hr
          have hne : request.requestId ≠ r.requestId := fun he =>
            hnew (List.mem_map.mpr ⟨r, hr, he.symm⟩)
          rw [hdecided r (List.mem_cons_of_mem _ hr)]
          simp [Recorded, hrows₂, hins, hne]
        refine wp_bind (wp_mono (ih hnodup' hexp' s₂ hdecided') (fun _ s' h => ?_) fun _ _ h => h)
        refine wp_alone_ret.mpr (h.record hd ?_ ?_ (fun hr => hres₂ (hcommands ▸ hr)) fun hall => ?_)
        · rw [hrows₂, hins]
          exact List.subset_cons_self _ _
        · exact ⟨_, by rw [hrows₂, hins]; exact List.mem_cons_self, rfl⟩
        · refine hall₂ fun r hr => ?_
          rw [← hrows₂]
          exact hall r hr

theorem sweep_spec {sweep : Sweep} (hexp : ∀ request ∈ p.requests, request.isExpired sweep.now = true)
    (hs : Answerable p s) : (sweep.program p).wp (.alone fun _ _ => True)
      (fun _ s' => p.isResumed s'.commands = true ↔
        p.isResumed s.commands = true ∨ ¬ AllDecided p s) (fun _ _ => False) s := by
  refine wp_bind (wp_mono (Q := fun _ s' => p.isResumed s'.commands = true ↔
    p.isResumed s.commands = true ∨ ¬ AllDecided p s) ?_ (fun _ _ h => wp_alone_ret.mpr h)
      fun _ _ h => h)
  unfold expireOverdue
  refine wp_alone_call.mpr fun _ => ⟨trivial, ?_⟩
  simp only [Prog.bind]
  refine wp_alone_call.mpr fun _ => ⟨trivial, ?_⟩
  simp only [Prog.bind]
  cases hw : p.isWaiting s.commands with
  | false =>
      have hres : p.isResumed s.commands = true := hs.resolve_left (by simp [hw])
      simp [expireRequests, hres]
  | true =>
      have hdecided : ∀ request ∈ p.requests,
          request.requestId ∈ s.approvals.map (·.row.id) ↔ Recorded s request := by
        intro request _
        simp [Recorded]
      refine wp_mono (expireRequests_spec p.nodup hexp s hdecided) ?_ fun _ _ h => h
      intro _ s' hswept
      constructor
      · intro hr
        by_cases hall : AllDecided p s
        · rw [hswept.idle fun request hmem => (hdecided request hmem).mpr (hall request hmem)] at hr
          exact Or.inl hr
        · exact Or.inr hall
      · rintro (hr | hnot)
        · exact hswept.resumed hr
        · refine hswept.completed ?_ hswept.recorded
          by_contra hno
          refine hnot fun request hmem => (hdecided request hmem).mp ?_
          by_contra hn
          exact hno ⟨request, hmem, hn⟩

/-- **Expiry sweeps**: after sweeps that crashed anywhere, one that runs to its end over overdue
requests leaves the resume queued exactly when it was queued already or some request was still
without a row. -/
theorem completed_sweep_resumes_iff {before : List CommandRow} (hwait : p.isWaiting before = true)
    (made : List Sweep) {last : Sweep}
    (hexp : ∀ request ∈ p.requests, request.isExpired last.now = true)
    (hdone : ((last.program p).exec last.inputs (sweeps p made ⟨[], [], before⟩)).1.finished = true) :
    p.isResumed (sweeps p (made ++ [last]) ⟨[], [], before⟩).commands = true ↔
      p.isResumed (sweeps p made ⟨[], [], before⟩).commands = true ∨
        ¬ AllDecided p (sweeps p made ⟨[], [], before⟩) := by
  have hs : Answerable p (sweeps p made ⟨[], [], before⟩) := sweeps_answerable (Or.inl hwait)
  have hlast : sweeps p (made ++ [last]) ⟨[], [], before⟩ =
      ((last.program p).exec last.inputs (sweeps p made ⟨[], [], before⟩)).2 := by
    simp [sweeps, attempts]
  rw [hlast]
  rcases exec_finished (sweep_spec hexp hs) hdone with ⟨_, h⟩ | ⟨_, h⟩
  · exact h
  · exact h.elim

end spec

/-- A sweep that records the one outcome and dies before it queues the resume. -/
def crashedSweep : Sweep := ⟨20, approvalExpiryActor, [1, 2, 3]⟩

/-- The sweep after it, run to its end. -/
def nextSweep : Sweep := ⟨30, approvalExpiryActor, [4, 5]⟩

theorem completed_sweep_resumes_iff_crashedSweep :
    parkedSubmission.isResumed (sweeps parkedSubmission ([crashedSweep] ++ [nextSweep])
        ⟨[], [], []⟩).commands = true ↔
      parkedSubmission.isResumed (sweeps parkedSubmission [crashedSweep] ⟨[], [], []⟩).commands = true ∨
        ¬ AllDecided parkedSubmission (sweeps parkedSubmission [crashedSweep] ⟨[], [], []⟩) :=
  completed_sweep_resumes_iff (by decide) [crashedSweep] (by decide) rfl

/-- The run stays parked with every request decided. -/
theorem crashed_sweep_parks_forever :
    ¬ ∀ (p : ParkedInterrupt) (before : List CommandRow) (made : List Sweep) (last : Sweep),
      p.isWaiting before = true → p.requests ≠ [] →
      (∀ sweep ∈ made ++ [last], ∀ request ∈ p.requests, request.isExpired sweep.now = true) →
      ((last.program p).exec last.inputs (sweeps p made ⟨[], [], before⟩)).1.finished = true →
      p.isResumed (sweeps p (made ++ [last]) ⟨[], [], before⟩).commands = true := by
  intro h
  have := h parkedSubmission [] [crashedSweep] nextSweep (by decide) (by decide) (by decide) rfl
  exact absurd this (by decide)

end PersonalOS
