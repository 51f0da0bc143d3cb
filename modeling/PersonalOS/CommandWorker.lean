import PersonalOS.DurableRunner
import PersonalOS.ToolExecutor

/-! # The command queue, its worker and the checkpoint monitor

What runs one thread of a workflow: requests queue commands, workers claim and run them, and
the monitor of pending checkpoints starts the follow-up path without a command.

* **State.** The runner's state and the workflow's rows of the queue.  A row is named by its
  command's id, which is drawn fresh.  When a row may be claimed depends on clocks of the
  queue; here any unfinished row may be, which the input of the step picks.
* **Requests.** A request reads the thread, then the queue, and queues its command in a later
  transaction.  `queue` is any request that looks at nothing.
* **Deaths.** The process of a call may die before any of its steps. -/

namespace PersonalOS

open Concurrent

inductive WorkflowStatus where
  | queued
  | running
  | waiting
  | completed
  | failed
  | pending
deriving DecidableEq, Repr

/-- The statuses in which a transition is already in flight. -/
def WorkflowStatus.isInFlight : WorkflowStatus → Bool
  | queued | running | waiting => true
  | _ => false

/-- The thread as it was read, and the unfinished commands as they were read next. -/
structure WorkflowSnapshot where
  runStatus : RunStatus
  interrupt : Option ParkedInterrupt
  queued : List CommandRow

namespace WorkflowSnapshot

/-- The interrupt, when it waits on an answer nobody has queued. -/
def pendingInterrupt (s : WorkflowSnapshot) : Option ParkedInterrupt :=
  s.interrupt.filter (·.isWaiting s.queued)

/-- The workflow's status.  Precedence is the whole rule. -/
def status (s : WorkflowSnapshot) : WorkflowStatus :=
  if s.pendingInterrupt.isSome then .waiting
  else if s.runStatus = .running ∧ s.interrupt.isNone then .running
  else if !s.queued.isEmpty then .queued
  else match s.runStatus with
    | .failed => .failed
    | .completed => .completed
    | _ => .pending

end WorkflowSnapshot

/-! ### The queue -/

namespace CommandRow

/-- A worker owns the row now. -/
def claim (row : CommandRow) : CommandRow :=
  if row.unfinished then { row with status := .inProgress, attempts := row.attempts + 1 } else row

/-- Back in line, if it is still claimed. -/
def release (row : CommandRow) : CommandRow :=
  if row.status = .inProgress then { row with status := .pending } else row

def settle (status : CommandStatus) (row : CommandRow) : CommandRow := { row with status }

/-- The update neither changes a command nor takes up a row some worker has finished with. -/
def Keeps (f : CommandRow → CommandRow) : Prop :=
  ∀ row, (f row).command = row.command ∧ ((f row).unfinished = true → row.unfinished = true)

theorem claim_keeps : Keeps claim := by
  intro row
  unfold claim
  split
  · exact ⟨rfl, fun _ => ‹_›⟩
  · exact ⟨rfl, id⟩

theorem release_keeps : Keeps release := by
  intro row
  unfold release
  split
  · rename_i h
    exact ⟨rfl, fun _ => by simp [unfinished, h]⟩
  · exact ⟨rfl, id⟩

theorem settle_keeps {status : CommandStatus} (h : status = .dispatched ∨ status = .failed) :
    Keeps (settle status) := by
  intro row
  refine ⟨rfl, fun hu => ?_⟩
  rcases h with rfl | rfl <;> cases hu

/-- An update of the rows of one command. -/
theorem Keeps.only {f : CommandRow → CommandRow} (h : Keeps f) (commandId : UUID) :
    Keeps fun row => if row.command.commandId = commandId then f row else row := by
  intro row
  dsimp only
  split
  · exact h row
  · exact ⟨rfl, id⟩

end CommandRow

structure CommandTable where
  rows : List CommandRow
  /-- The next command id. -/
  nextCommand : UUID
  /-- The pending checkpoints a monitor has closed. -/
  closed : List UUID

namespace CommandTable

/-- Queue a command under the next id, unless an equivalent one was queued before. -/
def enqueue (command : UUID → WorkflowCommand) (dedupe : Option Dedupe) (table : CommandTable) :
    Bool × CommandTable :=
  let queued := PersonalOS.enqueue (command table.nextCommand) dedupe table.rows
  if queued.1 then (true, { table with rows := queued.2, nextCommand := table.nextCommand + 1 })
  else (false, table)

def update (commandId : UUID) (f : CommandRow → CommandRow) (table : CommandTable) : CommandTable :=
  { table with rows := table.rows.map fun row => if row.command.commandId = commandId then f row else row }

/-- Claim the row found claimable, if no worker has finished with it meanwhile. -/
def claimNext (candidate : ℕ) (table : CommandTable) : Option CommandRow × CommandTable :=
  match table.rows[candidate]? with
  | none => (none, table)
  | some row =>
      if row.unfinished then (some row.claim, table.update row.command.commandId .claim)
      else (none, table)

/-- Close a pending checkpoint: whether this caller did. -/
def close (checkpointId : UUID) (table : CommandTable) : Bool × CommandTable :=
  if checkpointId ∈ table.closed then (false, table)
  else (true, { table with closed := checkpointId :: table.closed })

end CommandTable

/-! ### Programs -/

/-- What the surroundings decide about one step of a call. -/
structure WorkflowInput extends RunnerInput where
  /-- The row a claim finds. -/
  candidate : ℕ

inductive WorkflowError where
  /-- A transition is already in flight. -/
  | inFlight (status : WorkflowStatus)
  /-- The conversation waits on an approval. -/
  | waitingOnApproval
  | policyDenied
  | duplicateCommand
  | runner (error : RunnerError)
deriving DecidableEq, Repr

abbrev WorkflowState (τ : Type) := RunnerState τ × CommandTable

abbrev WorkflowProgram (τ : Type) := Prog WorkflowInput (WorkflowState τ) WorkflowError

structure WorkflowThread where
  workflowId : UUID
  threadId : String

section programs

open Concurrent.Prog (act read raise)
open DurableWorkflowRunner (onThread inspect start resume enter)

variable {τ : Type}

/-- A transaction on the queue. -/
def onTable {β : Type} (f : WorkflowInput → CommandTable → β × CommandTable) : WorkflowProgram τ β :=
  act fun i s => ((f i s.2).1, s.1, (f i s.2).2)

/-- A program of the runner. -/
def onRunner {β : Type} (p : RunnerProgram τ β) : WorkflowProgram τ β :=
  p.onFst WorkflowInput.toRunnerInput WorkflowError.runner

/-! Requests. -/

/-- The workflow as the database has it. -/
def readWorkflow : WorkflowProgram τ WorkflowSnapshot := do
  let thread ← read fun s => s.1.2
  let queued ← read fun s => s.2.rows.filter (·.unfinished)
  return { runStatus := thread.runStatus, interrupt := thread.interrupt, queued }

def enqueueCommand (command : UUID → WorkflowCommand) (dedupe : Option Dedupe) :
    WorkflowProgram τ Unit := do
  if ← onTable fun _ => CommandTable.enqueue command dedupe then return ()
  else raise .duplicateCommand

/-- What a caller asks a thread to be run with. -/
structure StartRequest where
  actorId : String
  graphInput : ResumeValue

def StartRequest.command (thread : WorkflowThread) (request : StartRequest) (commandId : UUID) :
    WorkflowCommand where
  commandId := commandId
  kind := .start
  workflowId := thread.workflowId
  threadId := thread.threadId
  actorId := request.actorId
  graphInput := request.graphInput
  interruptIds := []

/-- Policy-check a move's effect and hand it to the worker. -/
def queueEffectfulTransition (thread : WorkflowThread) (request : StartRequest) (verdict : Decision) :
    WorkflowProgram τ Unit := do
  let snapshot ← readWorkflow
  if snapshot.status.isInFlight then raise (.inFlight snapshot.status)
  else if verdict = .deny then raise .policyDenied
  else enqueueCommand (request.command thread) none

/-- Continue a conversation by queueing a run of it. -/
def chat (thread : WorkflowThread) (request : StartRequest) : WorkflowProgram τ Unit := do
  let snapshot ← readWorkflow
  if snapshot.pendingInterrupt.isSome then raise .waitingOnApproval
  else enqueueCommand (request.command thread) none

/-- Any command of the thread, as whoever queues it makes it. -/
structure CommandRequest where
  kind : WorkflowCommandKind
  actorId : String
  graphInput : ResumeValue
  interruptIds : List String
  dedupe : Option Dedupe

def CommandRequest.command (thread : WorkflowThread) (request : CommandRequest) (commandId : UUID) :
    WorkflowCommand where
  commandId := commandId
  kind := request.kind
  workflowId := thread.workflowId
  threadId := thread.threadId
  actorId := request.actorId
  graphInput := request.graphInput
  interruptIds := request.interruptIds

/-! The worker and the monitor. -/

variable [DecidableEq τ] (t : τ) (ttl : Time)

/-- The thread's latest checkpoint was written by this command's own run. -/
def alreadyUnderWay (command : WorkflowCommand) : RunnerProgram τ Bool :=
  onThread fun s => (s.newest.bind (·.commandId) == some command.commandId, s)

/-- Carry out one command as it was queued. -/
def runAsQueued (owner : String) (command : WorkflowCommand) (run : StreamedRun) :
    RunnerProgram τ Unit :=
  match command.kind with
  | .start => start t ttl owner (some command.threadId) (some command.commandId) run
  | .retry => resume t ttl owner (some command.threadId) .none (some command.commandId) run
  | .resume =>
      resume t ttl owner (some command.threadId) (.resume command.graphInput)
        (some command.commandId) run

/-- Carry out one command; a redelivered one continues. -/
def runWorkflowCommand (owner : String) (claimed : CommandRow) (run : StreamedRun) :
    RunnerProgram τ Unit := do
  let command := claimed.command
  let underWay ← if 1 < claimed.attempts then alreadyUnderWay command else pure false
  if underWay then
    resume t ttl owner (some command.threadId) .none (some command.commandId) run
  else runAsQueued t ttl owner command run

/-- Claim and run a queued command; `false` when there was none. -/
def processNext (owner : String) (run : StreamedRun) : WorkflowProgram τ Bool := do
  match ← onTable fun i => CommandTable.claimNext i.candidate with
  | none => return false
  | some claimed =>
      let commandId := claimed.command.commandId
      match ← (onRunner (runWorkflowCommand t ttl owner claimed run)).attempt with
      | .ok () => do
          onTable fun _ table => ((), table.update commandId (.settle .dispatched))
          return true
      | .error (.runner (.lease (.unavailable _ _))) => do
          onTable fun _ table => ((), table.update commandId .release)
          return true
      | .error error => do
          onTable fun _ table => ((), table.update commandId (.settle .failed))
          raise error

/-- How the firing of a pending checkpoint ends. -/
inductive FireOutcome where
  | cancelled
  | deferred
  | fired
  | failed
deriving DecidableEq, Repr

/-- Start the graph path a pending checkpoint names, having first claimed it. -/
def fire (thread : WorkflowThread) (owner : String) (checkpointId : UUID) (run : StreamedRun) :
    WorkflowProgram τ FireOutcome := do
  match ← onRunner inspect with
  | none => do
      let _ ← onTable fun _ => CommandTable.close checkpointId
      return .cancelled
  | some checkpoint =>
      if checkpoint.position.next ≠ [] then return .deferred
      else if ← onTable fun _ => CommandTable.close checkpointId then
        match ← (onRunner (start t ttl owner (some thread.threadId) none run)).attempt with
        | .ok () => return .fired
        | .error _ => return .failed
      else return .deferred

end programs

/-! ### Calls -/

/-- What one process does with the thread. -/
inductive WorkflowCall where
  | transition (request : StartRequest) (verdict : Decision)
  | chat (request : StartRequest)
  | queue (request : CommandRequest)
  | worker (owner : String) (run : StreamedRun)
  | monitor (owner : String) (checkpointId : UUID) (run : StreamedRun)

section call

variable {τ : Type} [DecidableEq τ] (t : τ) (ttl : Time) (thread : WorkflowThread)

def WorkflowCall.body : WorkflowCall → WorkflowProgram τ Unit
  | .transition request verdict => queueEffectfulTransition thread request verdict
  | .chat request => PersonalOS.chat thread request
  | .queue request => enqueueCommand (request.command thread) request.dedupe
  | .worker owner run => do let _ ← processNext t ttl owner run
  | .monitor owner checkpointId run => do let _ ← fire t ttl thread owner checkpointId run

/-- The call, up to its end or the death of its process. -/
def WorkflowCall.program (call : WorkflowCall) : WorkflowProgram τ (Option Unit) :=
  (call.body t ttl thread).mortal (·.dies) fun i s =>
    ((s.1.1.tick i.elapsed, DurableWorkflowRunner.enter t .over s.1.2), s.2)

end call

end PersonalOS
