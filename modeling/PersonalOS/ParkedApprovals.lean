import PersonalOS.CommandWorker
import PersonalOS.RunExclusion
import Mathlib.Data.List.Nodup

/-! # Unanswered approvals are kept

Any number of requests, workers and monitors on one thread of a workflow, interleaved step by
step.

* **Steps.** `WorkflowStep` says what one step of a call does: a step of the runner for a command
  of the queue or for the monitor, or a transaction on the queue.
* **Approvals.** Nothing between the queueing of a start and its run looks at the thread again:
  a start queued while another run is on its way runs from the top on whatever that run left.
  `InTurn` excludes that, and what else can take an interrupt away; `approvals_await_resume`
  shows that an approval then leaves the thread by a resume of it only, and
  `approval_stranded` is the conversation that loses one. -/

namespace PersonalOS

open Concurrent Concurrent.Prog DurableWorkflowRunner

variable {τ : Type} [DecidableEq τ]

/-! ### What a step does -/

/-- The runs that carry a command out, and the one run a monitor begins. -/
def BeginsFor (command : Option WorkflowCommand) : Begins τ := fun commandId input s =>
  match command with
  | none => commandId = none ∧ input = .initial
  | some command => commandId = some command.commandId ∧
      match input with
      | .initial => command.kind = .start
      | .none => command.kind = .retry ∨ commandId ∈ s.stamps
      | .resume _ => command.kind = .resume

/-- What one step of call `t` does. -/
inductive WorkflowStep (t : τ) (s : WorkflowState τ) : WorkflowState τ → Prop where
  | ran (command : Option WorkflowCommand) (r : RunnerState τ) :
      (∀ c, command = some c → ∃ row ∈ s.2.rows, row.command = c) →
      RunnerStep (BeginsFor command) t s.1 r → WorkflowStep t s (r, s.2)
  | queued (row : CommandRow) : row.command.commandId = s.2.nextCommand →
      WorkflowStep t s
        (s.1, { s.2 with rows := s.2.rows ++ [row], nextCommand := s.2.nextCommand + 1 })
  | updated (f : CommandRow → CommandRow) : CommandRow.Keeps f →
      WorkflowStep t s (s.1, { s.2 with rows := s.2.rows.map f })
  | closed (closed : List UUID) : WorkflowStep t s (s.1, { s.2 with closed })

/-- What the other calls leave alone. -/
structure SameWork (t : τ) (s s' : WorkflowState τ) : Prop where
  call : SameCall t s.1 s'.1
  /-- Commands are not taken back. -/
  commands : s.2.rows.map (·.command) <+: s'.2.rows.map (·.command)

theorem WorkflowStep.sameWork {t u : τ} {s s' : WorkflowState τ} (h : WorkflowStep u s s')
    (ht : t ≠ u) : SameWork t s s' := by
  cases h with
  | ran command r _ hs => exact ⟨hs.sameCall ht, List.prefix_rfl⟩
  | queued row _ =>
      refine ⟨.refl t s.1, ?_⟩
      rw [List.map_append]
      exact List.prefix_append _ _
  | updated f hf =>
      refine ⟨.refl t s.1, ?_⟩
      have : (s.2.rows.map f).map (·.command) = s.2.rows.map (·.command) := by
        rw [List.map_map]
        exact List.map_congr_left fun row _ => (hf row).1
      rw [this]
  | closed _ => exact ⟨.refl t s.1, List.prefix_rfl⟩

def workflowContract (assume : WorkflowState τ → WorkflowState τ → Prop) (t : τ) :
    Contract (WorkflowState τ) where
  rely := SameWork t
  guar := WorkflowStep t
  assume := assume
  rely_refl s := ⟨.refl t s.1, List.prefix_rfl⟩
  rely_trans h₁ h₂ := ⟨h₁.call.trans h₂.call, h₁.commands.trans h₂.commands⟩

/-- The program keeps the contract, whatever it ends with. -/
abbrev Contracted (assume : WorkflowState τ → WorkflowState τ → Prop) (t : τ) {β : Type}
    (p : WorkflowProgram τ β) (s : WorkflowState τ) : Prop :=
  p.wp (workflowContract assume t) (fun _ _ => True) (fun _ _ => True) s

/-! ### The calls keep the contract -/

section calls

variable {assume : WorkflowState τ → WorkflowState τ → Prop} {t : τ} {ttl : Time}
variable {s : WorkflowState τ} {β γ : Type}

theorem wp_onTable {f : WorkflowInput → CommandTable → β × CommandTable}
    {k : β → WorkflowProgram τ γ}
    (h : ∀ s' i, SameWork t s s' → WorkflowStep t s' (s'.1, (f i s'.2).2) ∧
      Contracted assume t (k (f i s'.2).1) (s'.1, (f i s'.2).2)) :
    Contracted assume t (onTable f >>= k) s :=
  fun s' hr i _ => h s' i hr

/-- An update of a command's row, the last thing a worker does. -/
theorem update_spec {commandId : UUID} {f : CommandRow → CommandRow} {p : WorkflowProgram τ γ}
    (hf : CommandRow.Keeps f) (hp : ∀ s', Contracted assume t p s') :
    Contracted assume t (onTable (fun _ table => ((), table.update commandId f)) >>= fun _ => p) s :=
  wp_onTable fun _ _ _ => ⟨.updated _ (hf.only commandId), hp _⟩

theorem readWorkflow_spec {k : WorkflowSnapshot → WorkflowProgram τ γ}
    (hk : ∀ snapshot s', Contracted assume t (k snapshot) s') :
    Contracted assume t (readWorkflow >>= k) s :=
  fun s₁ _ _ _ => ⟨.closed s₁.2.closed, fun s₂ _ _ _ => ⟨.closed s₂.2.closed, hk _ _⟩⟩

theorem enqueueCommand_spec {command : UUID → WorkflowCommand} {dedupe : Option Dedupe}
    (hid : ∀ id, (command id).commandId = id) :
    Contracted assume t (enqueueCommand command dedupe) s := by
  refine wp_onTable fun s' i _ => ⟨?_, ?_⟩
  · simp only [CommandTable.enqueue]
    rcases @enqueue_cases (command s'.2.nextCommand) dedupe s'.2.rows with he | ⟨he, -⟩
    · simp only [he]
      exact .closed s'.2.closed
    · simp only [he]
      exact .queued _ (hid _)
  · split <;> exact fun _ _ => trivial

theorem queueEffectfulTransition_spec {thread : WorkflowThread} {request : StartRequest}
    {verdict : Decision} :
    Contracted assume t (queueEffectfulTransition thread request verdict) s := by
  refine readWorkflow_spec fun snapshot s' => ?_
  split
  · exact fun _ _ => trivial
  · split
    · exact fun _ _ => trivial
    · exact enqueueCommand_spec fun _ => rfl

theorem chat_spec {thread : WorkflowThread} {request : StartRequest} :
    Contracted assume t (chat thread request) s := by
  refine readWorkflow_spec fun snapshot s' => ?_
  split
  · exact fun _ _ => trivial
  · exact enqueueCommand_spec fun _ => rfl

/-- A program of the runner for a command of the queue, or for the monitor. -/
theorem onRunner_spec (command : Option WorkflowCommand) {p : RunnerProgram τ β}
    {Q : β → RunnerState τ → Prop} {E : RunnerError → RunnerState τ → Prop}
    (hrow : ∀ c, command = some c → ∃ row ∈ s.2.rows, row.command = c)
    (hp : p.wp (runnerContract (fun _ _ => True) (BeginsFor command) t) Q E s.1) :
    (onRunner p).wp (workflowContract assume t) (fun b s => Q b s.1) (fun _ _ => True) s := by
  refine wp_mono (wp_onFst (L := workflowContract assume t) (E := fun _ _ => True)
    (R := fun table => ∀ c, command = some c → ∃ row ∈ table.rows, row.command = c) ?_
    (fun _ _ _ _ => trivial) (fun _ r _ hR hs => .ran command r hR hs)
    (wp_mono hp (fun _ _ h => h) fun _ _ _ => trivial) hrow) (fun _ _ h => h.1) fun _ _ _ => trivial
  intro s s' hs hR
  refine ⟨hs.call, fun c hc => ?_⟩
  obtain ⟨row, hrow, he⟩ := hR c hc
  have hmem : c ∈ s'.2.rows.map (·.command) :=
    hs.commands.subset (List.mem_map.mpr ⟨row, hrow, he⟩)
  exact List.mem_map.mp hmem

omit [DecidableEq τ] in
theorem mem_stamps_of_newest {s : ThreadState τ} {id : UUID}
    (h : s.newest.bind (·.commandId) = some id) : some id ∈ s.stamps := by
  obtain ⟨checkpoint, hnewest, hid⟩ := Option.bind_eq_some_iff.mp h
  exact List.mem_map.mpr ⟨checkpoint, List.mem_of_mem_head? hnewest, hid⟩

theorem runAsQueued_spec {owner : String} {command : WorkflowCommand} {run : StreamedRun}
    {r : RunnerState τ} (hphase : r.2.phase t = .waiting) :
    (runAsQueued t ttl owner command run).wp
      (runnerContract (fun _ _ => True) (BeginsFor (some command)) t)
      (fun _ s => (s.2.phase t).isExecuting = false) (fun _ s => (s.2.phase t).isExecuting = false)
      r := by
  unfold runAsQueued
  cases hkind : command.kind with
  | start => exact start_spec hphase fun _ _ => ⟨rfl, hkind⟩
  | retry => exact resume_spec hphase fun _ _ => ⟨rfl, Or.inl hkind⟩
  | resume => exact resume_spec hphase fun _ _ => ⟨rfl, hkind⟩

theorem runWorkflowCommand_spec {owner : String} {claimed : CommandRow} {run : StreamedRun}
    {r : RunnerState τ} (hphase : r.2.phase t = .waiting) :
    (runWorkflowCommand t ttl owner claimed run).wp
      (runnerContract (fun _ _ => True) (BeginsFor (some claimed.command)) t)
      (fun _ s => (s.2.phase t).isExecuting = false) (fun _ s => (s.2.phase t).isExecuting = false)
      r := by
  unfold runWorkflowCommand
  dsimp only
  split
  · refine wp_onThread fun r' n hs => ⟨.marked n r'.2.runStatus, ?_⟩
    have hphase' : r'.2.phase t = .waiting := hs.phase.trans hphase
    split
    · -- Its own stamp is on the thread, and stays there.
      rename_i hunderWay
      have hstamp := mem_stamps_of_newest (eq_of_beq hunderWay)
      exact resume_spec hphase' fun _ hr => ⟨rfl, Or.inr (hr hstamp)⟩
    · exact runAsQueued_spec hphase'
  · exact runAsQueued_spec hphase

theorem processNext_spec {owner : String} {run : StreamedRun}
    (hphase : s.1.2.phase t = .waiting) : Contracted assume t (processNext t ttl owner run) s := by
  refine wp_onTable fun s' i hs => ?_
  have hphase' : s'.1.2.phase t = .waiting := hs.call.phase.trans hphase
  cases hrow : s'.2.rows[i.candidate]? with
  | none =>
      simp only [CommandTable.claimNext, hrow]
      exact ⟨.closed s'.2.closed, fun _ _ => trivial⟩
  | some row =>
      simp only [CommandTable.claimNext, hrow]
      split
      · refine ⟨.updated _ (CommandRow.claim_keeps.only _), ?_⟩
        refine wp_bind (wp_attempt (wp_mono (onRunner_spec (some row.claim.command) ?_
          (runWorkflowCommand_spec hphase')) (fun _ s₁ _ => ?_) fun error s₁ _ => ?_))
        · rintro c ⟨⟩
          refine ⟨_, List.mem_map.mpr ⟨row, List.mem_of_getElem? hrow, rfl⟩, ?_⟩
          simp
        · exact update_spec (CommandRow.settle_keeps (Or.inl rfl)) fun _ _ _ => trivial
        · split
          · rename_i he
            cases he
          · exact update_spec CommandRow.release_keeps fun _ _ _ => trivial
          · exact update_spec (CommandRow.settle_keeps (Or.inr rfl)) fun _ _ _ => trivial
      · exact ⟨.closed s'.2.closed, fun _ _ => trivial⟩

theorem close_spec {checkpointId : UUID} {k : Bool → WorkflowProgram τ γ}
    (hk : ∀ b s', SameWork t s s' → ∀ closed,
      Contracted assume t (k b) (s'.1, { s'.2 with closed })) :
    Contracted assume t (onTable (fun _ => CommandTable.close checkpointId) >>= k) s := by
  refine wp_onTable fun s' i hs => ?_
  simp only [CommandTable.close]
  split
  · exact ⟨.closed s'.2.closed, hk _ s' hs s'.2.closed⟩
  · exact ⟨.closed _, hk _ s' hs _⟩

theorem fire_spec {thread : WorkflowThread} {owner : String} {checkpointId : UUID}
    {run : StreamedRun} (hphase : s.1.2.phase t = .waiting) :
    Contracted assume t (fire t ttl thread owner checkpointId run) s := by
  have hinspect : inspect.wp (runnerContract (fun _ _ => True) (BeginsFor none) t)
      (fun _ r => r.2.phase t = .waiting) (fun _ _ => True) s.1 := fun r hr i _ =>
    ⟨.marked i.elapsed r.2.runStatus, fun r' hr' => hr'.phase.trans (hr.phase.trans hphase)⟩
  refine wp_bind (wp_mono (onRunner_spec none (fun _ h => by cases h) hinspect) ?_ fun _ _ h => h)
  intro newest s₁ hphase₁
  cases newest with
  | none => exact close_spec fun _ _ _ _ _ _ => trivial
  | some checkpoint =>
      dsimp only
      split
      · exact fun _ _ => trivial
      · refine close_spec fun closed s₂ hs₂ _ => ?_
        cases closed with
        | false => exact fun _ _ => trivial
        | true =>
            refine wp_bind (wp_attempt (wp_mono (onRunner_spec none (fun _ h => by cases h)
              (start_spec (hs₂.call.phase.trans hphase₁) fun _ _ => ⟨rfl, rfl⟩))
              (fun _ _ _ => ?_) fun _ _ _ => ?_))
            · exact fun _ _ => trivial
            · exact fun _ _ => trivial

/-- Every call keeps the contract, whenever its process dies. -/
theorem workflowCall_spec {thread : WorkflowThread} {call : WorkflowCall}
    (hphase : s.1.2.phase t = .waiting) :
    Contracted assume t (call.program t ttl thread) s := by
  refine wp_mortal (fun i s' => ⟨.ran none _ (fun _ h => by cases h) (.left i.elapsed),
    fun _ _ => trivial⟩) ?_
  cases call with
  | transition request verdict => exact queueEffectfulTransition_spec
  | chat request => exact chat_spec
  | queue request => exact enqueueCommand_spec fun _ => rfl
  | worker owner run =>
      exact wp_bind (wp_mono (processNext_spec hphase) (fun _ _ _ _ _ => trivial) fun _ _ h => h)
  | monitor owner checkpointId run =>
      exact wp_bind (wp_mono (fire_spec hphase) (fun _ _ _ _ _ => trivial) fun _ _ h => h)

end calls

/-! ### Runs taking turns -/

/-- The interrupt the thread is parked at, when it carries approval requests. -/
def ThreadState.approval (s : ThreadState τ) : Option ParkedInterrupt :=
  s.interrupt.filter fun p => !p.requests.isEmpty

omit [DecidableEq τ] in
theorem ThreadState.interrupt_of_approval {s : ThreadState τ} {p : ParkedInterrupt}
    (h : s.approval = some p) : s.interrupt = some p := (Option.filter_eq_some_iff.mp h).1

/-- A start no worker has finished with, and no run of which has written a checkpoint. -/
def Unstarted (s : WorkflowState τ) (row : CommandRow) : Prop :=
  row.command.kind = .start ∧ row.unfinished = true ∧ some row.command.commandId ∉ s.1.2.stamps

/-- Nothing is in flight. -/
structure Quiet (s : WorkflowState τ) : Prop where
  finished : ∀ row ∈ s.2.rows, row.unfinished = false
  unparked : s.1.2.approval = none
  idle : ∀ u, (s.1.2.phase u).isExecuting = false

/-- A step in which call `t` begins a run. -/
def Enters (t : τ) (commandId : Option UUID) (mode : RunMode) (s s' : WorkflowState τ) : Prop :=
  s.1.2.phase t = .waiting ∧ s'.1.2.phase t = .executing commandId mode

/-- A step that keeps the runs of the thread one after another. -/
structure InTurn (t : τ) (s s' : WorkflowState τ) : Prop where
  /-- A start is queued when nothing is in flight. -/
  queues : ∀ row, s'.2.rows = s.2.rows ++ [row] → row.command.kind = .start → Quiet s
  /-- The monitor's run begins when no approval waits and no start is to be run. -/
  fires : ∀ mode, Enters t none mode s s' →
    s.1.2.approval = none ∧ ∀ row ∈ s.2.rows, ¬ Unstarted s row
  /-- A command's run begins while the row is unfinished and after the starts queued before it;
  and it begins with a checkpoint only if no run of the command has written one. -/
  runs : ∀ commandId mode, Enters t (some commandId) mode s s' →
    ∃ before row after, s.2.rows = before ++ row :: after ∧ row.command.commandId = commandId ∧
      row.unfinished = true ∧ (∀ row' ∈ before, ¬ Unstarted s row') ∧
      (s'.1.2.checkpoints ≠ s.1.2.checkpoints → some commandId ∉ s.1.2.stamps)
  /-- An answer is given to an approval its command names. -/
  answers : ∀ commandId p, Enters t (some commandId) .answering s s' → s.1.2.approval = some p →
    ∀ row ∈ s.2.rows, row.command.commandId = commandId → p.namedBy row = true
  /-- A lease is taken over from a run that is over. -/
  leases : RunsOver s.1 s'.1

/-- A resume of the interrupt is queued under this command id. -/
def Resumes (s : WorkflowState τ) (p : ParkedInterrupt) (commandId : Option UUID) : Prop :=
  ∃ row ∈ s.2.rows, commandId = some row.command.commandId ∧ p.namedBy row = true

/-- An approval the thread is parked at stays, or is taken by the run of a resume of it. -/
def LeavesByResume (t : τ) (s s' : WorkflowState τ) : Prop :=
  ∀ p, s.1.2.approval = some p → s'.1.2.approval = some p ∨
    ∃ commandId, s.1.2.phase t = .executing commandId .answering ∧ Resumes s p commandId

/-! ### Invariants -/

/-- Commands are queued in the order of their ids; a start that is to be run has the thread for
itself; and a run on an approval answers it or stops again. -/
structure ParkedInv (s : WorkflowState τ) : Prop where
  runs : RunInv s.1
  ordered : (s.2.rows.map (·.command.commandId)).Pairwise (· < ·)
  fresh : ∀ row ∈ s.2.rows, row.command.commandId < s.2.nextCommand
  starts : ∀ row ∈ s.2.rows, Unstarted s row →
    (∀ row' ∈ s.2.rows, row'.command.commandId < row.command.commandId → row'.unfinished = false) ∧
    s.1.2.approval = none ∧ ∀ u, (s.1.2.phase u).isExecuting = false
  parked : ∀ p, s.1.2.approval = some p → ∀ u commandId mode,
    s.1.2.phase u = .executing commandId mode →
    mode = .reparking ∨ mode = .answering ∧ Resumes s p commandId

/-- What a step of the runner does to the runs of the thread: nothing, or it begins one, or it
is one that moves the thread on. -/
theorem RunnerStep.cases_run {B : Begins τ} {t : τ} {s s' : RunnerState τ} (h : RunnerStep B t s s') :
    (s'.2.interrupt = s.2.interrupt ∧
      ∀ u, (s'.2.phase u).isExecuting = true → s'.2.phase u = s.2.phase u) ∨
    (∃ commandId input, s.2.phase t = .waiting ∧ B commandId input s.2 ∧
      s'.2 = (begin t commandId input s.2).2) ∨
    (∃ commandId mode, s.2.phase t = .executing commandId mode ∧ mode ≠ .reparking ∧
      (s'.2.interrupt = none ∨ (s'.2.phase t).isExecuting = false)) := by
  cases h with
  | lease s₁ _ _ => exact Or.inl ⟨rfl, fun _ _ => rfl⟩
  | marked n status => exact Or.inl ⟨rfl, fun _ _ => rfl⟩
  | began n commandId input hphase _ hB => exact Or.inr (Or.inl ⟨commandId, input, hphase, hB, rfl⟩)
  | advanced n commandId mode next hphase hmode =>
      exact Or.inr (Or.inr ⟨commandId, mode, hphase, hmode, Or.inl (advance_interrupt t commandId next _)⟩)
  | stopped n commandId mode outcome hphase hmode =>
      refine Or.inr (Or.inr ⟨commandId, mode, hphase, hmode, Or.inr ?_⟩)
      rw [stop_phase_self]
      rfl
  | left n =>
      refine Or.inl ⟨rfl, fun u hu => ?_⟩
      by_cases hut : u = t
      · subst hut
        rw [enter_phase_self] at hu
        cases hu
      · exact enter_phase_ne t hut _ _

namespace ParkedInv

variable {t : τ} {s : WorkflowState τ}

omit [DecidableEq τ] in
theorem row_eq (h : ParkedInv s) {row row' : CommandRow} (hrow : row ∈ s.2.rows)
    (hrow' : row' ∈ s.2.rows) (he : row.command.commandId = row'.command.commandId) : row = row' :=
  List.inj_on_of_nodup_map (h.ordered.imp Nat.ne_of_lt) hrow hrow' he

/-- When a run begins in turn, every start that was to be run has written its checkpoint with it,
and no approval is left. -/
theorem begins (h : ParkedInv s) {r : RunnerState τ} (hturn : InTurn t s (r, s.2))
    {command : Option WorkflowCommand}
    (hcommand : ∀ c, command = some c → ∃ row ∈ s.2.rows, row.command = c)
    {commandId : Option UUID} {input : GraphInput} (hphase : s.1.2.phase t = .waiting)
    (hB : BeginsFor command commandId input s.1.2)
    (hr : r.2 = (begin t commandId input s.1.2).2) :
    (∀ row ∈ s.2.rows, Unstarted s row → some row.command.commandId ∈ r.2.stamps) ∧
    ∀ p, s.1.2.approval = some p → r.2.approval = some p := by
  have henters : Enters t commandId (begin t commandId input s.1.2).1 s (r, s.2) := by
    refine ⟨hphase, ?_⟩
    show r.2.phase t = _
    rw [hr, begin_phase_self]
  cases command with
  | none =>
      obtain ⟨rfl, rfl⟩ := hB
      obtain ⟨hnone, hstarts⟩ := hturn.fires _ henters
      refine ⟨fun row hrow hu => absurd hu (hstarts row hrow), fun p hp => ?_⟩
      rw [hnone] at hp
      cases hp
  | some c =>
      obtain ⟨rfl, hinput⟩ := hB
      obtain ⟨before, row, after, hrows, hid, hunfinished, hbefore, hfirst⟩ :=
        hturn.runs _ _ henters
      have hrow : row ∈ s.2.rows := by simp [hrows]
      obtain ⟨row₀, hrow₀, hc⟩ := hcommand c rfl
      obtain rfl : row₀ = row := h.row_eq hrow₀ hrow (by rw [hc, hid])
      subst hc
      constructor
      · intro x hx hstart
        rw [hrows, List.mem_append, List.mem_cons] at hx
        rcases hx with hx | rfl | hx
        · exact absurd hstart (hbefore x hx)
        · cases input with
          | initial =>
              rw [hr, begin_stamps]
              exact List.mem_cons_self
          | none =>
              rcases hinput with hk | hk
              · rw [hstart.1] at hk
                cases hk
              · exact absurd hk hstart.2.2
          | resume value =>
              have hk : x.command.kind = .resume := hinput
              rw [hstart.1] at hk
              cases hk
        · -- A start queued after this row has waited for it.
          have hlt : row₀.command.commandId < x.command.commandId := by
            have hordered := h.ordered
            rw [hrows, List.pairwise_map, List.pairwise_append, List.pairwise_cons] at hordered
            exact hordered.2.1.1 x hx
          have hfinished := (h.starts x (by simp [hrows, hx]) hstart).1 row₀ hrow hlt
          rw [hunfinished] at hfinished
          cases hfinished
      · intro p hp
        cases input with
        | initial =>
            have hne : r.2.checkpoints ≠ s.1.2.checkpoints := by
              rw [hr]
              exact List.cons_ne_self _ _
            have hnone := (h.starts row₀ hrow ⟨hinput, hunfinished, hfirst hne⟩).2.1
            rw [hnone] at hp
            cases hp
        | none =>
            rw [ThreadState.approval, hr, begin_interrupt]
            exact hp
        | resume value =>
            rw [ThreadState.approval, hr, begin_interrupt]
            exact hp

omit [DecidableEq τ] in
theorem unstarted_of_stamps {r : RunnerState τ} {row : CommandRow} (hstamps : s.1.2.stamps ⊆ r.2.stamps)
    (h : Unstarted (r, s.2) row) : Unstarted s row :=
  ⟨h.1, h.2.1, fun hm => h.2.2 (hstamps hm)⟩

/-- A run that begins on an approval stops at it again, or answers it and is a resume of it. -/
theorem begins_parked {r : RunnerState τ} (hturn : InTurn t s (r, s.2))
    {command : Option WorkflowCommand}
    (hcommand : ∀ c, command = some c → ∃ row ∈ s.2.rows, row.command = c)
    {commandId : Option UUID} {input : GraphInput} (hphase : s.1.2.phase t = .waiting)
    (hB : BeginsFor command commandId input s.1.2)
    (hr : r.2 = (begin t commandId input s.1.2).2) {p : ParkedInterrupt}
    (hp : r.2.approval = some p) :
    (begin t commandId input s.1.2).1 = .reparking ∨
      (begin t commandId input s.1.2).1 = .answering ∧ Resumes s p commandId := by
  have hphase' : r.2.phase t = .executing commandId (begin t commandId input s.1.2).1 := by
    rw [hr, begin_phase_self]
  have hinterrupt := ThreadState.interrupt_of_approval hp
  rw [hr, begin_interrupt] at hinterrupt
  cases input with
  | initial => cases hinterrupt
  | none =>
      have hinterrupt : s.1.2.interrupt = some p := hinterrupt
      left
      simp only [begin, modeOf, hinterrupt]
  | resume value =>
      have hinterrupt : s.1.2.interrupt = some p := hinterrupt
      have happroval : s.1.2.approval = some p := by
        rw [ThreadState.approval, hr, begin_interrupt] at hp
        exact hp
      have hmode : (begin t commandId (.resume value) s.1.2).1 = .answering := by
        simp only [begin, modeOf, hinterrupt]
      rw [hmode] at hphase'
      cases command with
      | none => exact absurd hB.2 (by simp)
      | some c =>
          obtain ⟨rfl, -⟩ := hB
          obtain ⟨row, hrow, hc⟩ := hcommand c rfl
          refine Or.inr ⟨hmode, row, hrow, by rw [hc], ?_⟩
          exact hturn.answers _ p ⟨hphase, hphase'⟩ happroval row hrow (by rw [hc])

theorem ran (h : ParkedInv s) {r : RunnerState τ} (hturn : InTurn t s (r, s.2))
    {command : Option WorkflowCommand}
    (hcommand : ∀ c, command = some c → ∃ row ∈ s.2.rows, row.command = c)
    (hs : RunnerStep (BeginsFor command) t s.1 r) :
    ParkedInv (r, s.2) ∧ LeavesByResume t s (r, s.2) := by
  have hruns : RunInv r := h.runs.step hturn.leases hs
  have hstart : ∀ row, Unstarted (r, s.2) row → Unstarted s row :=
    fun row hu => unstarted_of_stamps hs.stamps hu
  rcases hs.cases_run with ⟨hinterrupt, hphase⟩ | ⟨commandId, input, hphase, hB, hr⟩ |
    ⟨commandId, mode, hphase, hmode, hend⟩
  · have happroval : r.2.approval = s.1.2.approval := by
      rw [ThreadState.approval, hinterrupt, ThreadState.approval]
    refine ⟨⟨hruns, h.ordered, h.fresh, fun row hrow hu => ?_, fun p hp u commandId mode hu => ?_⟩,
      fun p hp => Or.inl (happroval.trans hp)⟩
    · obtain ⟨hbefore, hnone, hidle⟩ := h.starts row hrow (hstart row hu)
      refine ⟨hbefore, happroval.trans hnone, fun u => ?_⟩
      cases hx : (r.2.phase u).isExecuting with
      | false => rfl
      | true =>
          have hidle := hidle u
          rw [← hphase u hx, hx] at hidle
          cases hidle
    · have hu' : r.2.phase u = .executing commandId mode := hu
      exact h.parked p (happroval ▸ hp) u commandId mode
        ((hphase u (by rw [hu']; rfl)).symm.trans hu')
  · obtain ⟨hstamped, hkept⟩ := h.begins hturn hcommand hphase hB hr
    refine ⟨⟨hruns, h.ordered, h.fresh, fun row hrow hu => ?_, fun p hp u commandId' mode hu => ?_⟩,
      fun p hp => Or.inl (hkept p hp)⟩
    · exact absurd (hstamped row hrow (hstart row hu)) hu.2.2
    · have hphase' : r.2.phase t = .executing commandId (begin t commandId input s.1.2).1 := by
        rw [hr, begin_phase_self]
      have hu' : r.2.phase u = .executing commandId' mode := hu
      obtain rfl : u = t := hruns.oneRun u t (by rw [hu']; rfl) (by rw [hphase']; rfl)
      rw [hphase'] at hu'
      cases hu'
      exact begins_parked hturn hcommand hphase hB hr hp
  · have hexecuting : (s.1.2.phase t).isExecuting = true := by rw [hphase]; rfl
    refine ⟨⟨hruns, h.ordered, h.fresh, fun row hrow hu => ?_, fun p hp u commandId' mode' hu => ?_⟩,
      fun p hp => Or.inr ?_⟩
    · have hidle := (h.starts row hrow (hstart row hu)).2.2 t
      rw [hexecuting] at hidle
      cases hidle
    · -- The run that left the thread at `p` has stopped, and there is no other.
      have hu' : r.2.phase u = .executing commandId' mode' := hu
      have hstopped : (r.2.phase t).isExecuting = false := by
        refine hend.resolve_left fun hnone => ?_
        have hp' := ThreadState.interrupt_of_approval hp
        rw [hnone] at hp'
        cases hp'
      by_cases hut : u = t
      · rw [← hut, hu'] at hstopped
        cases hstopped
      · have hsame : r.2.phase u = s.1.2.phase u := (hs.sameCall hut).phase
        exact absurd (h.runs.oneRun u t (by rw [← hsame, hu']; rfl) hexecuting) hut
    · obtain ⟨rfl, hresumes⟩ := (h.parked p hp t commandId mode hphase).resolve_left hmode
      exact ⟨commandId, hphase, hresumes⟩

omit [DecidableEq τ] in
/-- A start that is queued finds nothing in flight; anything else waits behind the starts. -/
theorem queued (h : ParkedInv s) {row : CommandRow} (hid : row.command.commandId = s.2.nextCommand)
    (hquiet : row.command.kind = .start → Quiet s) :
    ParkedInv (s.1, { s.2 with rows := s.2.rows ++ [row], nextCommand := s.2.nextCommand + 1 }) := by
  have hlast : ∀ row' ∈ s.2.rows, row'.command.commandId < row.command.commandId :=
    fun row' hrow' => hid ▸ h.fresh row' hrow'
  refine ⟨h.runs, ?_, ?_, ?_, ?_⟩
  · simp only [List.map_append, List.map_cons, List.map_nil, List.pairwise_append,
      List.pairwise_singleton, List.mem_map, List.mem_singleton, true_and]
    refine ⟨h.ordered, ?_⟩
    rintro _ ⟨row', hrow', rfl⟩ _ rfl
    exact hlast row' hrow'
  · intro row' hrow'
    rcases List.mem_append.mp hrow' with hrow' | hrow'
    · exact Nat.lt_succ_of_lt (h.fresh row' hrow')
    · rw [List.mem_singleton.mp hrow', hid]
      exact Nat.lt_succ_self _
  · intro x hx hu
    rcases List.mem_append.mp hx with hx | hx
    · obtain ⟨hbefore, hrest⟩ := h.starts x hx hu
      refine ⟨fun row' hrow' hlt => ?_, hrest⟩
      rcases List.mem_append.mp hrow' with hrow' | hrow'
      · exact hbefore row' hrow' hlt
      · rw [List.mem_singleton.mp hrow'] at hlt
        exact absurd (hlast x hx) (Nat.not_lt_of_gt hlt)
    · rw [List.mem_singleton.mp hx] at hu ⊢
      have hquiet := hquiet hu.1
      refine ⟨fun row' hrow' hlt => ?_, hquiet.unparked, hquiet.idle⟩
      rcases List.mem_append.mp hrow' with hrow' | hrow'
      · exact hquiet.finished row' hrow'
      · rw [List.mem_singleton.mp hrow'] at hlt
        exact absurd hlt (Nat.lt_irrefl _)
  · intro p hp u commandId mode hu
    refine (h.parked p hp u commandId mode hu).imp_right fun hanswers => ⟨hanswers.1, ?_⟩
    obtain ⟨row', hrow', hnamed⟩ := hanswers.2
    exact ⟨row', List.mem_append_left _ hrow', hnamed⟩

omit [DecidableEq τ] in
theorem updated (h : ParkedInv s) {f : CommandRow → CommandRow} (hf : CommandRow.Keeps f) :
    ParkedInv (s.1, { s.2 with rows := s.2.rows.map f }) := by
  have hids : (s.2.rows.map f).map (·.command.commandId) = s.2.rows.map (·.command.commandId) := by
    rw [List.map_map]
    exact List.map_congr_left fun row _ => congrArg WorkflowCommand.commandId (hf row).1
  refine ⟨h.runs, ?_, ?_, ?_, ?_⟩
  · rw [hids]
    exact h.ordered
  · intro row' hrow'
    obtain ⟨row, hrow, rfl⟩ := List.mem_map.mp hrow'
    rw [(hf row).1]
    exact h.fresh row hrow
  · intro x hx hu
    obtain ⟨row, hrow, rfl⟩ := List.mem_map.mp hx
    have hu' : Unstarted s row := by
      obtain ⟨hkind, hunfinished, hstamp⟩ := hu
      rw [(hf row).1] at hkind hstamp
      exact ⟨hkind, (hf row).2 hunfinished, hstamp⟩
    obtain ⟨hbefore, hrest⟩ := h.starts row hrow hu'
    refine ⟨fun row' hrow' hlt => ?_, hrest⟩
    obtain ⟨row₀, hrow₀, rfl⟩ := List.mem_map.mp hrow'
    rw [(hf row₀).1, (hf row).1] at hlt
    cases hfinished : (f row₀).unfinished with
    | false => rfl
    | true =>
        have hunfinished := (hf row₀).2 hfinished
        rw [hbefore row₀ hrow₀ hlt] at hunfinished
        cases hunfinished
  · intro p hp u commandId mode hu
    refine (h.parked p hp u commandId mode hu).imp_right fun hanswers => ⟨hanswers.1, ?_⟩
    obtain ⟨row, hrow, hid, hnamed⟩ := hanswers.2
    refine ⟨f row, List.mem_map.mpr ⟨row, hrow, rfl⟩, by rw [(hf row).1, hid], ?_⟩
    rw [← hnamed, ParkedInterrupt.namedBy, ParkedInterrupt.namedBy, (hf row).1]

/-- One step of a run taking turns. -/
theorem step {s' : WorkflowState τ} (h : ParkedInv s) (hturn : InTurn t s s')
    (hs : WorkflowStep t s s') : ParkedInv s' ∧ LeavesByResume t s s' := by
  cases hs with
  | ran command r hcommand hs => exact h.ran hturn hcommand hs
  | queued row hid => exact ⟨h.queued hid (hturn.queues row rfl), fun p hp => Or.inl hp⟩
  | updated f hf => exact ⟨h.updated hf, fun p hp => Or.inl hp⟩
  | closed closed => exact ⟨⟨h.runs, h.ordered, h.fresh, h.starts, h.parked⟩, fun p hp => Or.inl hp⟩

end ParkedInv

omit [DecidableEq τ] in
/-- What the route of a transition checks is that nothing is in flight, when it reads the
workflow at one moment and no run is on its way. -/
theorem Quiet.of_status {s : WorkflowState τ} (hidle : ∀ u, (s.1.2.phase u).isExecuting = false)
    (h : (WorkflowSnapshot.status ⟨s.1.2.runStatus, s.1.2.interrupt,
      s.2.rows.filter (·.unfinished)⟩).isInFlight = false) : Quiet s := by
  have hstatus : s.2.rows.filter (·.unfinished) = [] ∧
      s.1.2.interrupt.filter (·.isWaiting (s.2.rows.filter (·.unfinished))) = none := by
    unfold WorkflowSnapshot.status WorkflowSnapshot.pendingInterrupt at h
    dsimp only at h
    split at h
    · cases h
    split at h
    · cases h
    split at h
    · cases h
    rename_i hpending _ hqueued
    exact ⟨by simpa using hqueued, Option.not_isSome_iff_eq_none.mp hpending⟩
  obtain ⟨hqueued, hpending⟩ := hstatus
  refine ⟨fun row hrow => ?_, ?_, hidle⟩
  · have := List.filter_eq_nil_iff.mp hqueued row hrow
    simpa using this
  · rw [hqueued] at hpending
    cases hinterrupt : s.1.2.interrupt with
    | none => rw [ThreadState.approval, hinterrupt]; rfl
    | some p => rw [hinterrupt] at hpending; cases hpending

/-! ### Interleavings -/

/-- Calls on a thread that stands where it stands, of a workflow with no lease and no command. -/
def workflowPool (ttl clock : Time) (thread : WorkflowThread) (calls : τ → WorkflowCall)
    (runStatus : RunStatus) (checkpoints : List Checkpoint) :
    Pool τ WorkflowInput (WorkflowState τ) WorkflowError (Option Unit) where
  procs t := (calls t).program t ttl thread
  state := (.unleased clock runStatus checkpoints, { rows := [], nextCommand := 0, closed := [] })

/-- **Approvals await their resume**: in a run in which the runs of the thread take turns, an
unanswered approval leaves the thread by the run of a resume of it only. -/
theorem approvals_await_resume (ttl clock : Time) (thread : WorkflowThread)
    (calls : τ → WorkflowCall) (runStatus : RunStatus) (checkpoints : List Checkpoint)
    (sched : List (τ × WorkflowInput))
    (hm : Pool.Meets InTurn (workflowPool ttl clock thread calls runStatus checkpoints) sched) :
    Pool.Meets LeavesByResume (workflowPool ttl clock thread calls runStatus checkpoints) sched := by
  have hsound : Pool.Sound (fun t => workflowContract (InTurn t) t) (fun _ _ _ => True)
      (fun _ _ _ => True) (workflowPool ttl clock thread calls runStatus checkpoints) :=
    fun t => workflowCall_spec rfl
  refine Pool.run_meets (J := ParkedInv) hsound (fun _ => rfl) (fun t u htu s s' h => h.sameWork htu)
    (fun t s p hp => Or.inl hp) (fun t s s' hturn hs h => h.step hturn hs) hm ?_
  refine ⟨.unleased clock runStatus checkpoints, .nil, ?_, ?_, ?_⟩
  · exact fun _ h => (by cases h)
  · exact fun _ h => (by cases h)
  · exact fun _ _ _ _ _ h => (by cases h)

/-! A step that begins no run, queues nothing and takes over no live run is in turn; so is one
that queues something else than a start. -/

omit [DecidableEq τ] in
theorem InTurn.of_rows {t : τ} {s s' : WorkflowState τ} (hrows : s'.2.rows.length = s.2.rows.length)
    (hbegins : ¬ (s.1.2.phase t = .waiting ∧ (s'.1.2.phase t).isExecuting = true))
    (hleases : RunsOver s.1 s'.1) : InTurn t s s' := by
  have henters : ∀ commandId mode, ¬ Enters t commandId mode s s' :=
    fun commandId mode h => hbegins ⟨h.1, by rw [h.2]; rfl⟩
  refine ⟨fun row h => ?_, fun mode h => ?_, fun id mode h => ?_, fun id p h => ?_, hleases⟩
  · rw [h, List.length_append] at hrows
    exact absurd hrows (Nat.succ_ne_self _)
  · exact absurd h (henters _ _)
  · exact absurd h (henters _ _)
  · exact absurd h (henters _ _)

omit [DecidableEq τ] in
theorem InTurn.of_queued {t : τ} {s s' : WorkflowState τ} (row : CommandRow)
    (hrows : s'.2.rows = s.2.rows ++ [row]) (hrunner : s'.1 = s.1)
    (hquiet : row.command.kind = .start → Quiet s) : InTurn t s s' := by
  have henters : ∀ commandId mode, ¬ Enters t commandId mode s s' := by
    intro commandId mode h
    have hphase := h.2
    rw [hrunner, h.1] at hphase
    cases hphase
  refine ⟨fun row' h hk => ?_, fun mode h => ?_, fun id mode h => ?_, fun id p h => ?_, ?_⟩
  · rw [hrows] at h
    obtain rfl := List.singleton_inj.mp (List.append_cancel_left h)
    exact hquiet hk
  · exact absurd h (henters _ _)
  · exact absurd h (henters _ _)
  · exact absurd h (henters _ _)
  · exact .of_token (by rw [hrunner])

omit [DecidableEq τ] in
theorem InTurn.of_begun {t : τ} {s s' : WorkflowState τ} (before : List CommandRow)
    {after : List CommandRow} {row : CommandRow} (mode : RunMode) (hrows : s.2.rows = before ++ row :: after)
    (hlength : s'.2.rows.length = s.2.rows.length)
    (hphase : s'.1.2.phase t = .executing (some row.command.commandId) mode)
    (hunfinished : row.unfinished = true) (hbefore : ∀ row' ∈ before, ¬ Unstarted s row')
    (hfirst : s'.1.2.checkpoints = s.1.2.checkpoints ∨ some row.command.commandId ∉ s.1.2.stamps)
    (hnamed : mode = .answering → ∀ p, s.1.2.approval = some p → ∀ row' ∈ s.2.rows,
      row'.command.commandId = row.command.commandId → p.namedBy row' = true)
    (hleases : RunsOver s.1 s'.1) : InTurn t s s' := by
  refine ⟨fun row' h => ?_, fun mode' h => ?_, fun id mode' h => ?_, fun id p h => ?_, hleases⟩
  · rw [h, List.length_append] at hlength
    exact absurd hlength (Nat.succ_ne_self _)
  · have := hphase.symm.trans h.2
    cases this
  · obtain ⟨rfl, rfl⟩ : row.command.commandId = id ∧ mode = mode' := by
      simpa using hphase.symm.trans h.2
    exact ⟨before, row, after, hrows, rfl, hunfinished, hbefore, hfirst.resolve_left⟩
  · obtain ⟨rfl, rfl⟩ : row.command.commandId = id ∧ mode = .answering := by
      simpa using hphase.symm.trans h.2
    exact hnamed rfl p

/-- A run that parks the thread on the approval of the submission. -/
def parkingRun : StreamedRun := ⟨[["approval_checkpoint"]], .interrupted parkedSubmission⟩

/-- The resume that names the parked interrupt. -/
def resumeRequest : CommandRequest where
  kind := .resume
  actorId := "user:1"
  graphInput := .mapping []
  interruptIds := ["interrupt-70"]
  dedupe := some (.checkpoint 70)

/-- A message, the worker that runs it, the answer to its approval, and the worker that resumes. -/
def answeredConversation : Fin 4 → WorkflowCall
  | 0 => .chat ⟨"user:1", .mapping []⟩
  | 1 => .worker "host:1" parkingRun
  | 2 => .queue resumeRequest
  | 3 => .worker "host:2" ⟨[[]], .returned⟩

/-- A call's next steps; a claim among them finds this row. -/
def steps {τ : Type} (t : τ) (n candidate : ℕ) : List (τ × WorkflowInput) :=
  List.replicate n (t, ⟨⟨⟨0, false⟩, false⟩, candidate⟩)

/-- The first run is over and its lease released when the second one begins. -/
def answeredSteps : List (Fin 4 × WorkflowInput) :=
  steps 0 3 0 ++ steps 1 12 0 ++ steps 2 1 0 ++ steps 3 8 1

def submissionThread : WorkflowThread := ⟨7, "job_search:7"⟩

theorem approvals_await_resume_answered :
    Pool.Meets LeavesByResume (workflowPool defaultLeaseTtlSeconds 0 submissionThread
      answeredConversation .pending []) answeredSteps := by
  refine approvals_await_resume defaultLeaseTtlSeconds 0 submissionThread answeredConversation
    .pending [] answeredSteps ?_
  have hstay : ∀ {t : Fin 4} {s s' : WorkflowState (Fin 4)}, s'.2.rows.length = s.2.rows.length →
      ¬ (s.1.2.phase t = .waiting ∧ (s'.1.2.phase t).isExecuting = true) →
      s'.1.1.row.map (·.leaseToken) = s.1.1.row.map (·.leaseToken) → InTurn t s s' :=
    fun hrows hbegins htoken => .of_rows hrows hbegins (.of_token htoken)
  refine ⟨hstay rfl (by decide) rfl, hstay rfl (by decide) rfl, ?_,
    hstay rfl (by decide) rfl, hstay rfl (by decide) rfl, hstay rfl (by decide) rfl,
    .of_rows rfl (by decide) (.of_none rfl), hstay rfl (by decide) rfl, ?_,
    hstay rfl (by decide) rfl, hstay rfl (by decide) rfl, hstay rfl (by decide) rfl,
    hstay rfl (by decide) rfl, hstay rfl (by decide) rfl, hstay rfl (by decide) rfl, ?_,
    hstay rfl (by decide) rfl, hstay rfl (by decide) rfl, hstay rfl (by decide) rfl,
    .of_rows rfl (by decide) (.of_free (by decide)),
    hstay rfl (by decide) rfl, hstay rfl (by decide) rfl, ?_, hstay rfl (by decide) rfl, trivial⟩
  · -- The message is queued.
    refine .of_queued (.queued (StartRequest.command submissionThread ⟨"user:1", .mapping []⟩ 0)
      none) rfl rfl fun _ => ⟨?_, rfl, fun _ => rfl⟩
    exact fun row h => absurd h List.not_mem_nil
  · -- Its run begins.
    refine .of_begun [] .advancing rfl rfl rfl rfl ?_
      (Or.inr List.not_mem_nil) (fun h => by cases h) (.of_token rfl)
    exact fun row h => absurd h List.not_mem_nil
  · -- The answer is queued.
    exact .of_queued (.queued (resumeRequest.command submissionThread 1) (some (.checkpoint 70)))
      rfl rfl fun h => by cases h
  · -- The answer's run begins.
    refine .of_begun [_] .answering rfl rfl rfl rfl ?_ (Or.inl rfl) ?_ (.of_token rfl)
    · intro row h hunstarted
      rw [List.mem_singleton.mp h] at hunstarted
      exact absurd hunstarted.2.1 (by decide)
    · intro _ p hp
      obtain rfl : parkedSubmission = p := Option.some.inj hp
      decide

/-- Two messages of one conversation, and the workers that run them. -/
def twoMessages : Fin 4 → WorkflowCall
  | 0 => .chat ⟨"user:1", .mapping []⟩
  | 1 => .worker "host:1" parkingRun
  | 2 => .chat ⟨"user:1", .mapping []⟩
  | 3 => .worker "host:2" parkingRun

/-- Both messages are accepted before the first run parks, and the second run starts the thread
over: no step of it looks for the approval. -/
theorem approval_stranded :
    ¬ ∀ (τ : Type) [DecidableEq τ] (ttl clock : Time) (thread : WorkflowThread)
      (calls : τ → WorkflowCall) (runStatus : RunStatus) (checkpoints : List Checkpoint)
      (sched : List (τ × WorkflowInput)), 0 < ttl →
      Pool.Meets LeavesByResume (workflowPool ttl clock thread calls runStatus checkpoints) sched := by
  intro h
  have hm := h (Fin 4) defaultLeaseTtlSeconds 0 submissionThread twoMessages .pending []
    ((steps 0 3 0 ++ steps 2 3 0 ++ steps 1 12 0 ++ steps 3 5 1) ++ steps 3 1 1) (by decide)
  rcases (Pool.meets_append.mp hm).2.1 parkedSubmission rfl with hkept | ⟨commandId, hphase, -⟩
  · cases hkept
  · cases hphase

end PersonalOS
