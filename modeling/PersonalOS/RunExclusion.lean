import PersonalOS.DurableRunner
import PersonalOS.LeaseExclusion

/-! # One live run

Any number of calls of the runner on one workflow, interleaved step by step.

* **Steps.** `RunnerStep` says what one step of a call can do; what the call holds and how far
  it has come with the graph are its own (`runnerContract`).
* **Exclusion.** A call takes the lease once, for the time to live, and never renews it: the
  graph may still be running when the lease expires and is taken over.  `RunsOver` excludes
  exactly that, and `runs_exclusive` shows that otherwise at most one call executes the graph;
  `long_run_overtaken` is the run in which two do. -/

namespace PersonalOS

open Concurrent Concurrent.Prog DurableWorkflowRunner

variable {τ : Type} [DecidableEq τ]

/-! ### What a step does -/

/-- Which runs a call may begin, and on which threads. -/
abbrev Begins (τ : Type) := Option UUID → GraphInput → ThreadState τ → Prop

/-- What one step of call `t` does, when it begins only runs of `B`. -/
inductive RunnerStep (B : Begins τ) (t : τ) (s : RunnerState τ) : RunnerState τ → Prop where
  | lease (s₁ : LeaseStore τ) : LeaseStep t s.1 s₁ → (s.2.phase t).isExecuting = false →
      RunnerStep B t s (s₁, s.2)
  | marked (n : ℕ) (status : RunStatus) :
      RunnerStep B t s (s.1.tick n, { s.2 with runStatus := status })
  | began (n : ℕ) (commandId : Option UUID) (input : GraphInput) :
      s.2.phase t = .waiting → s.1.held t ≠ none → B commandId input s.2 →
      RunnerStep B t s (s.1.tick n, (begin t commandId input s.2).2)
  | advanced (n : ℕ) (commandId : Option UUID) (mode : RunMode) (next : List String) :
      s.2.phase t = .executing commandId mode → mode ≠ .reparking →
      RunnerStep B t s (s.1.tick n, advance t commandId next s.2)
  | stopped (n : ℕ) (commandId : Option UUID) (mode : RunMode) (outcome : RunOutcome) :
      s.2.phase t = .executing commandId mode → mode ≠ .reparking →
      RunnerStep B t s (s.1.tick n, stop t outcome s.2)
  /-- The graph has stopped where it was, or the worker has died. -/
  | left (n : ℕ) : RunnerStep B t s (s.1.tick n, enter t .over s.2)

/-- What the other calls leave alone. -/
structure SameCall (t : τ) (s s' : RunnerState τ) : Prop where
  held : s'.1.held t = s.1.held t
  phase : s'.2.phase t = s.2.phase t
  /-- Checkpoints are not taken back. -/
  stamps : s.2.stamps ⊆ s'.2.stamps

omit [DecidableEq τ] in
theorem SameCall.refl (t : τ) (s : RunnerState τ) : SameCall t s s := ⟨rfl, rfl, fun _ h => h⟩

omit [DecidableEq τ] in
theorem SameCall.trans {t : τ} {s₁ s₂ s₃ : RunnerState τ} (h₁ : SameCall t s₁ s₂)
    (h₂ : SameCall t s₂ s₃) : SameCall t s₁ s₃ :=
  ⟨h₂.held.trans h₁.held, h₂.phase.trans h₁.phase, fun _ h => h₂.stamps (h₁.stamps h)⟩

theorem RunnerStep.stamps {B : Begins τ} {t : τ} {s s' : RunnerState τ} (h : RunnerStep B t s s') :
    s.2.stamps ⊆ s'.2.stamps := by
  cases h with
  | lease s₁ _ _ => exact fun _ h => h
  | marked n status => exact fun _ h => h
  | began n commandId input _ _ _ =>
      rw [begin_stamps]
      exact List.subset_append_right _ _
  | advanced n commandId mode next _ _ => exact List.subset_cons_self _ _
  | stopped n commandId mode outcome _ _ =>
      rw [stop_stamps]
      exact fun _ h => h
  | left n => exact fun _ h => h

theorem RunnerStep.sameCall {B : Begins τ} {t u : τ} {s s' : RunnerState τ} (h : RunnerStep B u s s')
    (ht : t ≠ u) : SameCall t s s' := by
  have hstamps := h.stamps
  cases h with
  | lease s₁ hs _ => exact ⟨hs.held_ne ht, rfl, hstamps⟩
  | marked n status => exact ⟨rfl, rfl, hstamps⟩
  | began n commandId input _ _ _ =>
      exact ⟨rfl, begin_phase_ne u commandId ht _ _, hstamps⟩
  | advanced n commandId mode next _ _ => exact ⟨rfl, enter_phase_ne u ht _ _, hstamps⟩
  | stopped n commandId mode outcome _ _ =>
      exact ⟨rfl, stop_phase_ne u ht _ _, hstamps⟩
  | left n => exact ⟨rfl, enter_phase_ne u ht _ _, hstamps⟩

def runnerContract (assume : RunnerState τ → RunnerState τ → Prop) (B : Begins τ) (t : τ) :
    Contract (RunnerState τ) where
  rely := SameCall t
  guar := RunnerStep B t
  assume := assume
  rely_refl := SameCall.refl t
  rely_trans := SameCall.trans

/-! ### The calls keep the contract -/

section calls

variable {assume : RunnerState τ → RunnerState τ → Prop} {B : Begins τ} {t : τ} {ttl : Time}
variable {s : RunnerState τ} {α β : Type}

/-- A step on the thread, from any state that agrees on the call. -/
theorem wp_onThread {f : ThreadState τ → β × ThreadState τ} {k : β → RunnerProgram τ α}
    {Q : α → RunnerState τ → Prop} {E : RunnerError → RunnerState τ → Prop}
    (h : ∀ s' n, SameCall t s s' → RunnerStep B t s' (s'.1.tick n, (f s'.2).2) ∧
      (k (f s'.2).1).wp (runnerContract assume B t) Q E (s'.1.tick n, (f s'.2).2)) :
    (onThread f >>= k).wp (runnerContract assume B t) Q E s :=
  fun s' hr i _ => h s' i.elapsed hr

/-- The call holds this lease and is not executing the graph. -/
def Idle (t : τ) (lease : Option WorkflowLease) (s : RunnerState τ) : Prop :=
  s.1.held t = lease ∧ (s.2.phase t).isExecuting = false

omit [DecidableEq τ] in
theorem Idle.sameCall {lease : Option WorkflowLease} {s s' : RunnerState τ} (h : Idle t lease s)
    (hs : SameCall t s s') : Idle t lease s' := ⟨hs.held.trans h.1, hs.phase ▸ h.2⟩

theorem wp_ret_idle {lease : Option WorkflowLease} {a : α}
    {E : RunnerError → RunnerState τ → Prop} (h : Idle t lease s) :
    (ret a : RunnerProgram τ α).wp (runnerContract assume B t) (fun _ => Idle t lease) E s :=
  fun _ hr => h.sameCall hr

theorem wp_raise_idle {lease : Option WorkflowLease} {e : RunnerError}
    {Q : α → RunnerState τ → Prop} (h : Idle t lease s) :
    (raise e : RunnerProgram τ α).wp (runnerContract assume B t) Q (fun _ => Idle t lease) s :=
  fun _ hr => h.sameCall hr

/-- A step that neither moves the call nor what it holds. -/
theorem wp_mark {f : ThreadState τ → β × ThreadState τ} {k : β → RunnerProgram τ α}
    {Q : α → RunnerState τ → Prop} {E : RunnerError → RunnerState τ → Prop}
    (hf : ∀ s, ∃ status, (f s).2 = { s with runStatus := status })
    (h : ∀ b s', SameCall t s s' → (k b).wp (runnerContract assume B t) Q E s') :
    (onThread f >>= k).wp (runnerContract assume B t) Q E s := by
  refine wp_onThread fun s' n hs => ?_
  obtain ⟨status, he⟩ := hf s'.2
  rw [he]
  exact ⟨.marked n status, h _ _ ⟨hs.held, hs.phase, hs.stamps⟩⟩

theorem wp_onThread_last {f : ThreadState τ → β × ThreadState τ} {lease : Option WorkflowLease}
    {E : RunnerError → RunnerState τ → Prop}
    (h : ∀ s' n, SameCall t s s' → RunnerStep B t s' (s'.1.tick n, (f s'.2).2) ∧
      Idle t lease (s'.1.tick n, (f s'.2).2)) :
    (onThread f).wp (runnerContract assume B t) (fun _ => Idle t lease) E s :=
  fun s' hr i _ => ⟨(h s' i.elapsed hr).1, fun _ hr' => (h s' i.elapsed hr).2.sameCall hr'⟩

theorem superSteps_spec {commandId : Option UUID} {mode : RunMode} {nexts : List (List String)}
    {lease : Option WorkflowLease} (hm : mode ≠ .reparking) (hheld : s.1.held t = lease)
    (hphase : s.2.phase t = .executing commandId mode) :
    (superSteps t commandId nexts).wp (runnerContract assume B t)
      (fun _ s' => s'.1.held t = lease ∧
        ∃ mode, mode ≠ .reparking ∧ s'.2.phase t = .executing commandId mode)
      (fun _ _ => False) s := by
  induction nexts generalizing s mode with
  | nil => exact fun s' hr => ⟨hr.held.trans hheld, mode, hm, hr.phase.trans hphase⟩
  | cons next nexts ih =>
      refine wp_onThread fun s' n hs => ⟨?_, ?_⟩
      · exact .advanced n commandId mode next (hs.phase.trans hphase) hm
      · exact ih (by decide) (hs.held.trans hheld) (enter_phase_self ..)

/-- A call that holds a lease and has not run the graph yet runs it. -/
theorem stream_spec {input : GraphInput} {commandId : Option UUID} {run : StreamedRun}
    {lease : WorkflowLease} (hheld : s.1.held t = some lease) (hphase : s.2.phase t = .waiting)
    (hB : ∀ r : ThreadState τ, s.2.stamps ⊆ r.stamps → B commandId input r) :
    (stream t input commandId run).wp (runnerContract assume B t)
      (fun _ => Idle t (some lease)) (fun _ => Idle t (some lease)) s := by
  unfold stream
  refine wp_onThread fun s₁ n hs₁ => ⟨?_, ?_⟩
  · exact .began n commandId input (hs₁.phase.trans hphase) (by rw [hs₁.held, hheld]; simp)
      (hB s₁.2 hs₁.stamps)
  have hheld₁ : s₁.1.held t = some lease := hs₁.held.trans hheld
  have hphase₁ : (begin t commandId input s₁.2).2.phase t =
      .executing commandId (begin t commandId input s₁.2).1 := by
    rw [begin_phase_self]
  split
  · refine wp_onThread_last fun s₂ n hs₂ => ⟨.left n, hs₂.held.trans hheld₁, ?_⟩
    rw [enter_phase_self]
    rfl
  · rename_i hmode
    refine wp_bind (wp_mono (superSteps_spec hmode hheld₁ hphase₁) ?_ fun _ _ h => h.elim)
    rintro _ s₂ ⟨hheld₂, mode, hm, hphase₂⟩
    refine wp_onThread fun s₃ n hs₃ => ⟨.stopped n commandId mode run.outcome
      (hs₃.phase.trans hphase₂) hm, ?_⟩
    have hidle : ∀ outcome, Idle t (some lease) (s₃.1.tick n, stop t outcome s₃.2) := by
      refine fun outcome => ⟨hs₃.held.trans hheld₂, ?_⟩
      rw [stop_phase_self]
      rfl
    cases run.outcome with
    | returned => exact wp_ret_idle (hidle .returned)
    | interrupted interrupt => exact wp_ret_idle (hidle (.interrupted interrupt))
    | raised => exact wp_raise_idle (hidle .raised)

theorem markStatus_spec {status : RunStatus} {lease : Option WorkflowLease}
    {E : RunnerError → RunnerState τ → Prop} (h : Idle t lease s) :
    (markStatus status).wp (runnerContract assume B t) (fun _ => Idle t lease) E s :=
  wp_onThread_last fun _ n hs => ⟨.marked n status, h.sameCall ⟨hs.held, hs.phase, hs.stamps⟩⟩

theorem invoke_spec {input : GraphInput} {commandId : Option UUID} {run : StreamedRun}
    {lease : WorkflowLease} (hheld : s.1.held t = some lease) (hphase : s.2.phase t = .waiting)
    (hB : ∀ r : ThreadState τ, s.2.stamps ⊆ r.stamps → B commandId input r) :
    (invoke t input commandId run).wp (runnerContract assume B t)
      (fun _ => Idle t (some lease)) (fun _ => Idle t (some lease)) s := by
  unfold invoke
  refine wp_mark (fun s => ⟨.running, rfl⟩) fun _ s₁ hs₁ => ?_
  refine wp_bind (wp_attempt (wp_mono
    (stream_spec (hs₁.held.trans hheld) (hs₁.phase.trans hphase) fun r hr =>
      hB r (List.Subset.trans hs₁.stamps hr)) (fun _ s₂ h₂ => ?_) fun error s₂ h₂ => ?_))
  · refine wp_mark (fun s => ⟨s.runStatus, rfl⟩) fun newest s₃ hs₃ => ?_
    have h₃ := h₂.sameCall hs₃
    cases newest with
    | none => exact markStatus_spec h₃
    | some checkpoint =>
        dsimp only
        split
        · exact markStatus_spec h₃
        · exact wp_ret_idle h₃
  · exact wp_mark (fun s => ⟨.failed, rfl⟩) fun _ s₃ hs₃ => wp_raise_idle (h₂.sameCall hs₃)

/-- An operation on the lease, by a call that is not executing: `R` is what it knows of the
thread meanwhile. -/
theorem wp_lease {R : ThreadState τ → Prop} {p : LeaseProgram τ α} {Q : α → LeaseStore τ → Prop}
    {E : LeaseError → LeaseStore τ → Prop} (hR : ∀ r, R r → (r.phase t).isExecuting = false)
    (hsame : ∀ s s', SameCall t s s' → R s.2 → R s'.2) (hs : R s.2)
    (hp : p.wp (leaseContract (fun _ _ => True) t) Q E s.1) :
    (p.onFst RunnerInput.toLeaseInput RunnerError.lease).wp (runnerContract assume B t)
      (fun a s => Q a s.1 ∧ R s.2) (fun _ s => R s.2) s := by
  refine wp_mono (wp_onFst (R := R) (E := fun _ _ => True) ?_ (fun _ _ _ _ => trivial) ?_
    (wp_mono hp (fun _ _ h => h) fun _ _ _ => trivial) hs) (fun _ _ h => h) fun _ _ h => h.2
  · exact fun s s' hr hs => ⟨hr.held, hsame s s' hr hs⟩
  · exact fun s s' r hr hs => .lease s' hs (hR r hr)

/-- A block run under the lease: whatever it does, the call is idle before and after. -/
theorem hold_spec {owner : String} {threadId : Option String} {body : RunnerProgram τ Unit}
    (hphase : s.2.phase t = .waiting)
    (hbody : ∀ s' lease, s'.1.held t = some lease → s'.2.phase t = .waiting →
      s.2.stamps ⊆ s'.2.stamps → body.wp (runnerContract assume B t) (fun _ => Idle t (some lease))
        (fun _ => Idle t (some lease)) s') :
    (hold t ttl owner threadId body).wp (runnerContract assume B t)
      (fun _ s => (s.2.phase t).isExecuting = false) (fun _ s => (s.2.phase t).isExecuting = false) s := by
  have hstopped : ∀ s s', SameCall t s s' → (s.2.phase t).isExecuting = false →
      (s'.2.phase t).isExecuting = false := fun s s' hs h => hs.phase ▸ h
  unfold hold
  refine wp_bind (wp_mono (wp_lease (R := fun r => r.phase t = .waiting ∧ s.2.stamps ⊆ r.stamps)
    (fun r hr => hr.1 ▸ rfl) (fun s₁ s₂ hs hr => ⟨hs.phase.trans hr.1, List.Subset.trans hr.2 hs.stamps⟩)
    ⟨hphase, fun _ h => h⟩ (acquire_spec owner threadId s.1)) ?_ fun _ s₁ h => h.1 ▸ rfl)
  rintro lease s₁ ⟨hheld, hphase₁, hstamps⟩
  have hrelease : ∀ s₂, Idle t (some lease) s₂ → ((WorkflowLeaseStore.release t lease).onFst
      RunnerInput.toLeaseInput RunnerError.lease).wp (runnerContract assume B t)
      (fun _ s => ∀ s', SameCall t s s' → (s'.2.phase t).isExecuting = false)
      (fun _ s => (s.2.phase t).isExecuting = false) s₂ := fun s₂ hs₂ =>
    wp_mono (wp_lease (R := fun r => (r.phase t).isExecuting = false) (fun _ h => h) hstopped hs₂.2
      (release_spec hs₂.1)) (fun _ s h s' hs => hstopped s s' hs h.2) fun _ _ h => h
  exact wp_tryFinally (wp_mono (hbody s₁ lease hheld hphase₁ hstamps)
    (fun _ s₂ hs₂ => hrelease s₂ hs₂) fun _ s₂ hs₂ => hrelease s₂ hs₂)

theorem start_spec {owner : String} {threadId : Option String} {commandId : Option UUID}
    {run : StreamedRun} (hphase : s.2.phase t = .waiting)
    (hB : ∀ r : ThreadState τ, s.2.stamps ⊆ r.stamps → B commandId .initial r) :
    (start t ttl owner threadId commandId run).wp (runnerContract assume B t)
      (fun _ s => (s.2.phase t).isExecuting = false) (fun _ s => (s.2.phase t).isExecuting = false) s :=
  hold_spec hphase fun _ _ hheld hphase' hstamps =>
    invoke_spec hheld hphase' fun r hr => hB r (List.Subset.trans hstamps hr)

theorem resume_spec {owner : String} {threadId : Option String} {input : GraphInput}
    {commandId : Option UUID} {run : StreamedRun} (hphase : s.2.phase t = .waiting)
    (hB : ∀ r : ThreadState τ, s.2.stamps ⊆ r.stamps → B commandId input r) :
    (resume t ttl owner threadId input commandId run).wp (runnerContract assume B t)
      (fun _ s => (s.2.phase t).isExecuting = false) (fun _ s => (s.2.phase t).isExecuting = false) s := by
  refine hold_spec hphase fun s' lease hheld hphase' hstamps => ?_
  refine wp_onThread fun s₁ n hs₁ => ?_
  have hover : Idle t (some lease) (s₁.1.tick n, enter t .over s₁.2) :=
    ⟨hs₁.held.trans hheld, by rw [enter_phase_self]; rfl⟩
  cases hnewest : s₁.2.newest with
  | none => exact ⟨.left n, wp_raise_idle hover⟩
  | some checkpoint =>
      by_cases hnext : checkpoint.position.next = []
      · simp only [Option.all_some, hnext, decide_true, if_true]
        exact ⟨.left n, markStatus_spec hover⟩
      · simp only [Option.all_some, hnext, decide_false, Bool.false_eq_true, if_false]
        exact ⟨.marked n s₁.2.runStatus, invoke_spec (hs₁.held.trans hheld)
          (hs₁.phase.trans hphase') fun r hr =>
            hB r (List.Subset.trans (List.Subset.trans hstamps hs₁.stamps) hr)⟩

/-- Every call keeps the contract, whenever its worker dies. -/
theorem call_spec {call : RunnerCall} (hphase : s.2.phase t = .waiting) :
    (call.program t ttl).wp (runnerContract assume (fun _ _ _ => True) t) (fun _ _ => True)
      (fun _ _ => True) s := by
  refine wp_mortal (fun i s' => ⟨.left i.elapsed, fun _ _ => trivial⟩) ?_
  cases call with
  | start owner threadId commandId run =>
      exact wp_mono (start_spec hphase fun _ _ => trivial) (fun _ _ _ => trivial) fun _ _ _ => trivial
  | resume owner threadId input commandId run =>
      exact wp_mono (resume_spec hphase fun _ _ => trivial) (fun _ _ _ => trivial) fun _ _ _ => trivial

end calls

/-! ### Invariants -/

/-- No two calls execute the graph. -/
def OneRun (s : RunnerState τ) : Prop :=
  ∀ t u, (s.2.phase t).isExecuting = true → (s.2.phase u).isExecuting = true → t = u

/-- A lease whose row gets a new token was held by a call that is over. -/
def RunsOver (s s' : RunnerState τ) : Prop :=
  ∀ row row', s.1.row = some row → s'.1.row = some row' → row'.leaseToken ≠ row.leaseToken →
    ∀ t lease, s.1.held t = some lease → lease.token = row.leaseToken → s.2.phase t = .over

omit [DecidableEq τ] in
theorem RunsOver.of_token {s s' : RunnerState τ}
    (h : s'.1.row.map (·.leaseToken) = s.1.row.map (·.leaseToken)) : RunsOver s s' := by
  intro row row' hrow hrow' hne
  rw [hrow, hrow', Option.map_some, Option.map_some] at h
  exact absurd (Option.some.inj h) hne

omit [DecidableEq τ] in
theorem RunsOver.of_free {s s' : RunnerState τ} (h : ∀ t, s.1.held t = none) : RunsOver s s' := by
  intro row row' _ _ _ t lease hheld
  rw [h t] at hheld
  cases hheld

omit [DecidableEq τ] in
theorem RunsOver.of_none {s s' : RunnerState τ} (h : s.1.row = none) : RunsOver s s' := by
  intro row row' hrow
  rw [h] at hrow
  cases hrow

/-- A call that is not over has the lease it took. -/
structure RunInv (s : RunnerState τ) : Prop where
  tokens : TokenInv s.1
  backed : ∀ t lease, s.1.held t = some lease → s.2.phase t ≠ .over →
    ∃ row, s.1.ownRow lease.token = some row
  holding : ∀ t, (s.2.phase t).isExecuting = true → s.1.held t ≠ none

omit [DecidableEq τ] in
theorem RunInv.oneRun {s : RunnerState τ} (h : RunInv s) : OneRun s := by
  intro t u ht hu
  obtain ⟨lease, hlease⟩ := Option.ne_none_iff_exists'.mp (h.holding t ht)
  obtain ⟨lease', hlease'⟩ := Option.ne_none_iff_exists'.mp (h.holding u hu)
  obtain ⟨row, hrow⟩ := h.backed t lease hlease fun ho => by rw [ho] at ht; cases ht
  obtain ⟨row', hrow'⟩ := h.backed u lease' hlease' fun ho => by rw [ho] at hu; cases hu
  exact h.tokens.eq_of_ownRow hlease hlease' hrow hrow'

/-- A step on the lease keeps the leases of the calls that are not over in the row. -/
theorem RunInv.leaseStep {t : τ} {s : RunnerState τ} {s₁ : LeaseStore τ} (h : RunInv s)
    (hover : RunsOver s (s₁, s.2)) (hs : LeaseStep t s.1 s₁) {u : τ} {lease : WorkflowLease}
    (hu : s₁.held u = some lease) (hphase : s.2.phase u ≠ .over) :
    ∃ row, s₁.ownRow lease.token = some row := by
  by_cases hut : u = t
  · subst hut
    cases hs with
    | waited n => exact h.backed u lease hu hphase
    | granted n owner threadId now expiresAt =>
        simp only [LeaseStore.grant, LeaseStore.hand_held_self, Option.some.injEq] at hu
        subst hu
        exact ⟨_, LeaseStore.ownRow_eq_some.mpr ⟨rfl, rfl, rfl⟩⟩
    | renewed n lease' row expiresAt hheld hrow =>
        obtain ⟨-, htoken, hrel⟩ := LeaseStore.ownRow_eq_some.mp hrow
        rw [LeaseStore.hand_held_self] at hu
        cases hu
        exact ⟨_, LeaseStore.ownRow_eq_some.mpr ⟨rfl, htoken, hrel⟩⟩
    | released n lease' row now hheld hrow =>
        rw [LeaseStore.hand_held_self] at hu
        cases hu
    | dropped n lease' hheld hrow =>
        rw [LeaseStore.hand_held_self] at hu
        cases hu
  · rw [hs.held_ne hut] at hu
    obtain ⟨row, hrow⟩ := h.backed u lease hu hphase
    obtain ⟨hrow₀, htoken, hrel⟩ := LeaseStore.ownRow_eq_some.mp hrow
    -- Another call's token is not in the row, and a takeover would have found this call over.
    have hother : ∀ lease' row', s.1.held t = some lease' → s.1.ownRow lease'.token = some row' →
        False := fun lease' row' hheld hrow' => hut (h.tokens.eq_of_ownRow hu hheld hrow hrow')
    cases hs with
    | waited n => exact ⟨row, hrow⟩
    | granted n owner threadId now expiresAt =>
        have hne : s.1.minted ≠ row.leaseToken := Nat.ne_of_gt (h.tokens.row row hrow₀)
        exact absurd (hover row _ hrow₀ rfl hne u lease hu htoken.symm) hphase
    | renewed n lease' row' expiresAt hheld hrow' => exact (hother lease' row' hheld hrow').elim
    | released n lease' row' now hheld hrow' => exact (hother lease' row' hheld hrow').elim
    | dropped n lease' hheld hrow' => exact ⟨row, hrow⟩

/-- A step on the thread by a call that still holds what it took, if it executes. -/
theorem RunInv.onThread {t : τ} {s : RunnerState τ} (h : RunInv s) (n : ℕ) {r : ThreadState τ}
    (hother : ∀ u, u ≠ t → r.phase u = s.2.phase u)
    (hself : r.phase t = s.2.phase t ∨ r.phase t = .over ∨
      s.2.phase t ≠ .over ∧ s.1.held t ≠ none) : RunInv (s.1.tick n, r) := by
  refine ⟨⟨h.tokens.row, h.tokens.held, h.tokens.distinct⟩, ?_, ?_⟩
  · intro u lease hu hphase
    by_cases hut : u = t
    · subst hut
      refine h.backed u lease hu fun ho => ?_
      rcases hself with he | he | he
      · exact hphase (he.trans ho)
      · exact hphase he
      · exact he.1 ho
    · exact h.backed u lease hu (hother u hut ▸ hphase)
  · intro u hu
    by_cases hut : u = t
    · subst hut
      rcases hself with he | he | he
      · exact h.holding u (he ▸ hu)
      · rw [he] at hu
        cases hu
      · exact he.2
    · exact h.holding u (hother u hut ▸ hu)

theorem RunInv.step {B : Begins τ} {t : τ} {s s' : RunnerState τ} (h : RunInv s)
    (hover : RunsOver s s') (hs : RunnerStep B t s s') : RunInv s' := by
  have hexecuting : ∀ {commandId : Option UUID} {mode : RunMode},
      s.2.phase t = .executing commandId mode → s.2.phase t ≠ .over ∧ s.1.held t ≠ none := by
    intro commandId mode hp
    exact ⟨fun ho => (by rw [ho] at hp; cases hp), h.holding t (by rw [hp]; rfl)⟩
  cases hs with
  | lease s₁ hs hidle =>
      refine ⟨h.tokens.step hs, fun u lease hu hphase => h.leaseStep hover hs hu hphase, ?_⟩
      intro u hu
      have hut : u ≠ t := fun he => by rw [he, hidle] at hu; cases hu
      rw [hs.held_ne hut]
      exact h.holding u hu
  | marked n status => exact h.onThread (t := t) n (fun _ _ => rfl) (Or.inl rfl)
  | began n commandId input hphase hheld _ =>
      have hover' : s.2.phase t ≠ .over := fun ho => by rw [ho] at hphase; cases hphase
      exact h.onThread n (fun u hu => begin_phase_ne t commandId hu _ _) (Or.inr (Or.inr ⟨hover', hheld⟩))
  | advanced n commandId mode next hphase hmode =>
      exact h.onThread n (fun u hu => enter_phase_ne t hu _ _) (Or.inr (Or.inr (hexecuting hphase)))
  | stopped n commandId mode outcome hphase hmode =>
      exact h.onThread n (fun u hu => stop_phase_ne t hu _ _) (Or.inr (Or.inl (stop_phase_self ..)))
  | left n =>
      exact h.onThread n (fun u hu => enter_phase_ne t hu _ _) (Or.inr (Or.inl (enter_phase_self ..)))

omit [DecidableEq τ] in
theorem RunInv.unleased (clock : Time) (runStatus : RunStatus) (checkpoints : List Checkpoint) :
    RunInv (RunnerState.unleased clock runStatus checkpoints : RunnerState τ) := by
  refine ⟨⟨?_, ?_, ?_⟩, ?_, ?_⟩
  · exact fun _ h => (by cases h)
  · exact fun _ _ h => (by cases h)
  · exact fun _ _ _ _ h => (by cases h)
  · exact fun _ _ h => (by cases h)
  · exact fun _ h => (by cases h)

/-! ### Interleavings -/

/-- Calls on a thread that stands where it stands, of a workflow that was never leased. -/
def runnerPool (ttl clock : Time) (calls : τ → RunnerCall) (runStatus : RunStatus)
    (checkpoints : List Checkpoint) : Pool τ RunnerInput (RunnerState τ) RunnerError (Option Unit) where
  procs t := (calls t).program t ttl
  state := .unleased clock runStatus checkpoints

theorem runnerContract_rely (assume : RunnerState τ → RunnerState τ → Prop) (B : Begins τ) (t u : τ)
    (htu : t ≠ u) (s s' : RunnerState τ) (h : (runnerContract assume B u).guar s s') :
    (runnerContract assume B t).rely s s' := RunnerStep.sameCall h htu

/-- **One live run**: in a run in which every lease is taken over from a call that is over, at
most one call ever executes the graph. -/
theorem runs_exclusive (ttl clock : Time) (calls : τ → RunnerCall) (runStatus : RunStatus)
    (checkpoints : List Checkpoint) (sched : List (τ × RunnerInput))
    (hm : Pool.Meets (fun _ => RunsOver) (runnerPool ttl clock calls runStatus checkpoints) sched) :
    OneRun ((runnerPool ttl clock calls runStatus checkpoints).run sched).state := by
  have hsound : Pool.Sound (runnerContract RunsOver fun _ _ _ => True) (fun _ _ _ => True) (fun _ _ _ => True)
      (runnerPool ttl clock calls runStatus checkpoints) := fun t => call_spec rfl
  refine RunInv.oneRun (Pool.run_inv hsound (fun _ => rfl) (runnerContract_rely RunsOver _)
    (fun e _ s s' hover hs h => RunInv.step h hover hs) hm (.unleased clock runStatus checkpoints))

/-- Two commands started on one thread. -/
def twoStarts (t : Bool) : RunnerCall :=
  .start "host:1" none (some (if t then 1 else 2)) ⟨[["approval_checkpoint"]], .returned⟩

/-- Three steps take the lease, one marks the run, and one enters the graph. -/
def startSteps (t : Bool) (elapsed : ℕ) : List (Bool × RunnerInput) :=
  [(t, ⟨⟨elapsed, false⟩, false⟩), (t, ⟨⟨0, false⟩, false⟩), (t, ⟨⟨0, false⟩, false⟩),
   (t, ⟨⟨0, false⟩, false⟩), (t, ⟨⟨0, false⟩, false⟩)]

/-- The worker of the first call dies in the graph, and the second call takes the lease over. -/
def diedMidRun : List (Bool × RunnerInput) :=
  startSteps true 0 ++ (true, ⟨⟨0, false⟩, true⟩) :: startSteps false 300

theorem runs_exclusive_diedMidRun :
    OneRun ((runnerPool defaultLeaseTtlSeconds 0 twoStarts .pending []).run diedMidRun).state := by
  refine runs_exclusive defaultLeaseTtlSeconds 0 twoStarts .pending [] diedMidRun ?_
  refine ⟨.of_none rfl, .of_none rfl, .of_none rfl, .of_token rfl, .of_token rfl, .of_token rfl,
    .of_token rfl, .of_token rfl, ?_, .of_token rfl, .of_token rfl, trivial⟩
  rintro row row' ⟨⟩ - - t lease hheld -
  cases t with
  | false => cases hheld
  | true => rfl

/-- The graph of the first call is still running when its lease expires. -/
theorem long_run_overtaken :
    ¬ ∀ (τ : Type) [DecidableEq τ] (ttl clock : Time) (calls : τ → RunnerCall)
      (runStatus : RunStatus) (checkpoints : List Checkpoint) (sched : List (τ × RunnerInput)),
      0 < ttl → OneRun ((runnerPool ttl clock calls runStatus checkpoints).run sched).state := by
  intro h
  have := h Bool defaultLeaseTtlSeconds 0 twoStarts .pending [] (startSteps true 0 ++ startSteps false 300)
    (by decide) true false (by decide) (by decide)
  cases this

end PersonalOS
