import PersonalOS.CommandWorker

/-! # The history of a thread's commands

What the workers of one thread have done so far, remembered beside the state they do it to.

* **Events.** A worker claims a command, looks for the command's own checkpoint if the command
  was claimed before, hands the graph the command's input, and is done with the command or has
  died.  The input is handed over where a run that carries the command out as it was queued
  enters the graph; a run that continues is given nothing, and neither is a retry.
* **Erasure.** No step reads the history: `commandPool_run` takes it away again. -/

namespace PersonalOS

open Concurrent

inductive WorkEvent (τ : Type) where
  /-- The command has been claimed this often. -/
  | claimed (t : τ) (commandId : UUID) (attempts : ℕ)
  /-- Whether the newest checkpoint was the command's own. -/
  | looked (t : τ) (commandId : UUID) (underWay : Bool)
  | fed (t : τ) (commandId : UUID)
  | over (t : τ) (died : Bool)
deriving DecidableEq, Repr

abbrev HistoryState (τ : Type) := WorkflowState τ × List (WorkEvent τ)

abbrev HistoryProgram (τ : Type) := Prog WorkflowInput (HistoryState τ) WorkflowError

section programs

open Concurrent.Prog (raise noting)
open DurableWorkflowRunner (resume)

variable {τ : Type} [DecidableEq τ] (t : τ) (ttl : Time)

/-! ### What is worth remembering of a step -/

def silent (_ : WorkflowInput) (_ _ : WorkflowState τ) : Option (WorkEvent τ) := none

def claimNote (i : WorkflowInput) (s _ : WorkflowState τ) : Option (WorkEvent τ) :=
  (CommandTable.claimNext i.candidate s.2).1.map fun row =>
    .claimed t row.command.commandId row.attempts

def lookNote (command : WorkflowCommand) (_ : WorkflowInput) (s _ : WorkflowState τ) :
    Option (WorkEvent τ) :=
  some (.looked t command.commandId
    (s.1.2.newest.bind (·.commandId) == some command.commandId))

/-- The graph is entered, with the command's input. -/
def feedNote (command : WorkflowCommand) (_ : WorkflowInput) (s s' : WorkflowState τ) :
    Option (WorkEvent τ) :=
  if command.kind ≠ .retry ∧ s.1.2.phase t = .waiting ∧ (s'.1.2.phase t).isExecuting = true then
    some (.fed t command.commandId)
  else none

def overNote (_ : WorkflowInput) (_ _ : WorkflowState τ) : Option (WorkEvent τ) :=
  some (.over t false)

/-! ### The worker, with its history -/

/-- `runWorkflowCommand`. -/
def runRemembered (owner : String) (claimed : CommandRow) (run : StreamedRun) :
    HistoryProgram τ Unit := do
  let command := claimed.command
  let underWay ←
    if 1 < claimed.attempts then (onRunner (alreadyUnderWay command)).noting (lookNote t command)
    else pure false
  if underWay then
    (onRunner (resume t ttl owner (some command.threadId) .none (some command.commandId) run)).noting
      silent
  else (onRunner (runAsQueued t ttl owner command run)).noting (feedNote t command)

/-- The row of the command is updated, the last thing a worker does with it. -/
def finishRow (commandId : UUID) (f : CommandRow → CommandRow) : HistoryProgram τ Unit :=
  (onTable fun _ table => ((), table.update commandId f)).noting (overNote t)

/-- `processNext`. -/
def processRemembered (owner : String) (run : StreamedRun) : HistoryProgram τ Bool := do
  match ← (onTable fun i => CommandTable.claimNext i.candidate).noting (claimNote t) with
  | none => return false
  | some claimed =>
      let commandId := claimed.command.commandId
      match ← (runRemembered t ttl owner claimed run).attempt with
      | .ok () => do
          finishRow t commandId (.settle .dispatched)
          return true
      | .error (.runner (.lease (.unavailable _ _))) => do
          finishRow t commandId .release
          return true
      | .error error => do
          finishRow t commandId (.settle .failed)
          raise error

end programs

/-! ### Calls -/

/-- A request that queues a command of the thread, or a worker that takes one. -/
inductive CommandCall where
  | queue (request : CommandRequest)
  | worker (owner : String) (run : StreamedRun)

/-- The call, with nothing remembered. -/
def CommandCall.toWorkflowCall : CommandCall → WorkflowCall
  | queue request => .queue request
  | worker owner run => .worker owner run

section call

variable {τ : Type} [DecidableEq τ] (t : τ) (ttl : Time) (thread : WorkflowThread)

def CommandCall.body : CommandCall → HistoryProgram τ Unit
  | queue request => (enqueueCommand (request.command thread) request.dedupe).noting silent
  | worker owner run => do let _ ← processRemembered t ttl owner run

/-- The death of a call's process. -/
def perish (i : WorkflowInput) (x : HistoryState τ) : HistoryState τ :=
  (((x.1.1.1.tick i.elapsed, DurableWorkflowRunner.enter t .over x.1.1.2), x.1.2), .over t true :: x.2)

def CommandCall.program (call : CommandCall) : HistoryProgram τ (Option Unit) :=
  (call.body t ttl thread).mortal (·.dies) (perish t)

end call

/-! ### Erasure -/

section erasure

open Concurrent.Prog

variable {τ : Type} [DecidableEq τ] {t : τ} {ttl : Time}

omit [DecidableEq τ] in
theorem onRunner_bind {β γ : Type} (p : RunnerProgram τ β) (k : β → RunnerProgram τ γ) :
    onRunner (p >>= k) = onRunner p >>= fun b => onRunner (k b) := onFst_bind ..

/-- A run for a command, from the answer of the look on. -/
theorem ranFor_erases {owner : String} {command : WorkflowCommand} {run : StreamedRun}
    (underWay : Bool) :
    Erases
      (if underWay then
        (onRunner (DurableWorkflowRunner.resume t ttl owner (some command.threadId) .none
          (some command.commandId) run)).noting silent
      else (onRunner (runAsQueued t ttl owner command run)).noting (feedNote t command))
      (onRunner (if underWay then
        DurableWorkflowRunner.resume t ttl owner (some command.threadId) .none
          (some command.commandId) run
      else runAsQueued t ttl owner command run)) := by
  split
  · exact noting_erases _ _
  · exact noting_erases _ _

theorem runRemembered_erases {owner : String} {claimed : CommandRow} {run : StreamedRun} :
    Erases (runRemembered t ttl owner claimed run)
      (onRunner (runWorkflowCommand t ttl owner claimed run)) := by
  unfold runRemembered runWorkflowCommand
  dsimp only
  split
  · rw [onRunner_bind]
    exact Erases.bind (noting_erases _ _) ranFor_erases
  · exact ranFor_erases false

theorem processRemembered_erases {owner : String} {run : StreamedRun} :
    Erases (processRemembered t ttl owner run) (processNext t ttl owner run) := by
  refine Erases.bind (noting_erases _ _) fun claimed => ?_
  cases claimed with
  | none => exact erases_ret false
  | some claimed =>
      have hfailed : ∀ error, Erases
          (finishRow t claimed.command.commandId (.settle .failed) >>= fun _ => raise error)
          (onTable (fun _ table => ((), table.update claimed.command.commandId (.settle .failed))) >>=
            fun _ => (raise error : WorkflowProgram τ Bool)) := fun error =>
        Erases.bind (noting_erases _ _) fun _ => erases_raise error
      refine Erases.bind runRemembered_erases.attempt fun ended => ?_
      cases ended with
      | ok ended => exact Erases.bind (noting_erases _ _) fun _ => erases_ret true
      | error error =>
          cases error with
          | runner error =>
              cases error with
              | lease error =>
                  cases error with
                  | unavailable reason holder =>
                      exact Erases.bind (noting_erases _ _) fun _ => erases_ret true
                  | lost token owner => exact hfailed _
                  | operational => exact hfailed _
              | nothingToResume => exact hfailed _
              | graph => exact hfailed _
          | inFlight status => exact hfailed _
          | waitingOnApproval => exact hfailed _
          | policyDenied => exact hfailed _
          | duplicateCommand => exact hfailed _

theorem commandCall_erases {thread : WorkflowThread} {call : CommandCall} :
    Erases (call.program t ttl thread) (call.toWorkflowCall.program t ttl thread) := by
  refine Erases.mortal (fun _ _ => rfl) ?_
  cases call with
  | queue request => exact noting_erases _ _
  | worker owner run => exact Erases.bind processRemembered_erases fun _ => erases_ret ()

end erasure

/-! ### Interleavings -/

variable {τ : Type} [DecidableEq τ]

/-- Calls on a thread that stands where it stands, of a workflow with no lease and no command. -/
def commandPool (ttl clock : Time) (thread : WorkflowThread) (calls : τ → CommandCall)
    (runStatus : RunStatus) (checkpoints : List Checkpoint) (nextCommand : UUID) :
    Pool τ WorkflowInput (HistoryState τ) WorkflowError (Option Unit) where
  procs t := (calls t).program t ttl thread
  state := ((.unleased clock runStatus checkpoints, { rows := [], nextCommand, closed := [] }), [])

/-- The history is only a record: without it the run is that of the calls themselves. -/
theorem commandPool_run (ttl clock : Time) (thread : WorkflowThread) (calls : τ → CommandCall)
    (runStatus : RunStatus) (checkpoints : List Checkpoint) (nextCommand : UUID)
    (sched : List (τ × WorkflowInput)) :
    ((commandPool ttl clock thread calls runStatus checkpoints nextCommand).run sched).state.1 =
      (Pool.run ⟨fun t => (calls t).toWorkflowCall.program t ttl thread,
        (.unleased clock runStatus checkpoints, { rows := [], nextCommand, closed := [] })⟩
        sched).state :=
  Pool.run_erases (fun _ => commandCall_erases) rfl sched

end PersonalOS
