import PersonalOS.CommandWorker
import PersonalOS.ResumePaths

/-! # The event router

`EventRouter` with its wait lookup and its starter, next to the workers and requests that change
what it looks at.

* **State.** The registered threads, oldest first, with the interrupts at the newest checkpoint of
  each, and the queue.  `answers` remembers what the lookup told each delivery that has got to the
  queue; no table stores it.
* **Same event.** Deliveries are of the same event when its type and dedupe key hash alike
  (`digest`): the dedupe part of its command and the thread id of a run it starts are both made
  from that hash.
* **Workers.** What a graph leaves its thread waiting for is arbitrary, and so is how the run
  ends. -/

namespace PersonalOS

open Concurrent

/-- One row of `workflow_runs`, with the ids of the interrupts its thread is stopped at. -/
structure ThreadRow where
  workflowId : UUID
  threadId : String
  actorId : String
  correlationId : Option UUID
  interrupts : List (Option String)
deriving DecidableEq, Repr

/-- An event, as the router reads it. -/
structure DeliveredEvent where
  type : String
  source : String
  eventId : UUID
  correlationId : Option UUID
  /-- The hash of its type and its dedupe key. -/
  digest : String
  /-- Its fields as a mapping. -/
  fields : List ResumeValue

/-- A thread parked on an interrupt that an event can answer. -/
structure WaitingThread where
  workflowId : UUID
  threadId : String
  /-- The interrupts on that thread a resume would answer. -/
  interruptIds : List String
  actorId : String
deriving DecidableEq, Repr

structure RoutingState where
  table : CommandTable
  threads : List ThreadRow
  /-- The id of the next workflow. -/
  nextWorkflow : UUID
  /-- The digest of each routed event, and the workflow found waiting on it. -/
  answers : List (String × Option UUID)

/-- What a worker does with the row of a command it has run. -/
inductive Settlement where
  | done
  | failed
  | released
deriving DecidableEq, Repr

def Settlement.apply : Settlement → CommandRow → CommandRow
  | done => .settle .dispatched
  | failed => .settle .failed
  | released => .release

/-- What the surroundings decide about one step of a worker. -/
structure RoutingInput where
  /-- The row a claim finds. -/
  candidate : ℕ
  /-- What a super-step leaves the thread stopped at. -/
  interrupts : List (Option String)
  settlement : Settlement

abbrev RoutingProgram := Prog RoutingInput RoutingState Empty

/-! ### The wait lookup -/

/-- The interrupts of these threads that nothing queued answers, each with its thread. -/
def pendingInterrupts (threads : List ThreadRow) (queued : List CommandRow) :
    List (ThreadRow × Option String) :=
  let resumes := (queued.map (·.command)).filter (·.kind == .resume)
  let answered := resumes.flatMap (·.interruptIds)
  let resumedThreads := (resumes.filter (·.interruptIds.isEmpty)).map (·.threadId)
  (threads.filter (!resumedThreads.contains ·.threadId)).flatMap fun thread =>
    (thread.interrupts.filter (·.all (!answered.contains ·))).map (thread, ·)

/-- The waiting thread of a workflow, if it has one. -/
def waitingThread (threads : List ThreadRow) (queued : List CommandRow) : Option WaitingThread :=
  let pending := pendingInterrupts threads queued
  pending.head?.map fun first =>
    { workflowId := first.1.workflowId
      threadId := first.1.threadId
      interruptIds := (pending.filter (·.1.threadId == first.1.threadId)).filterMap
        (·.2.filter (· != ""))
      actorId := if first.1.actorId = "" then "system" else first.1.actorId }

section programs

open Concurrent.Prog (act read)

/-- The first of these workflows with an unanswered interrupt; its threads are read before its
commands. -/
def firstWaiting : List UUID → RoutingProgram (Option WaitingThread)
  | [] => return none
  | workflowId :: rest => do
      let threads ← read fun s => s.threads.filter (·.workflowId == workflowId)
      let queued ← read fun s => s.table.rows.filter fun row =>
        row.command.workflowId == workflowId && row.unfinished
      match waitingThread threads queued with
      | some waiting => return some waiting
      | none => firstWaiting rest

/-- The oldest workflow under the correlation id with an unanswered interrupt. -/
def waitingFor (correlationId : UUID) : RoutingProgram (Option WaitingThread) := do
  let workflowIds ← read fun s =>
    ((s.threads.filter (·.correlationId == some correlationId)).map (·.workflowId)).eraseDups
  firstWaiting workflowIds

/-! ### The starter -/

/-- The thread an event no waiting workflow claimed is handled on. -/
def eventHandlerThreadId (digest : String) : String := "event_handler:" ++ digest

/-- The workflow a thread is bound to. -/
def RoutingState.boundTo (s : RoutingState) (threadId : String) : Option UUID :=
  (s.threads.find? (·.threadId == threadId)).map (·.workflowId)

/-- Bind the thread to a workflow run, unless it is bound: the workflow it is bound to. -/
def register (row : ThreadRow) (s : RoutingState) : UUID × RoutingState :=
  match s.boundTo row.threadId with
  | some workflowId => (workflowId, s)
  | none => (row.workflowId, { s with threads := s.threads ++ [row] })

/-- Mint a new workflow. -/
def createWorkflow (s : RoutingState) : UUID × RoutingState :=
  (s.nextWorkflow, { s with nextWorkflow := s.nextWorkflow + 1 })

/-- Derive and register the thread a new run for the event goes on: its workflow. -/
def registerEventHandlerThread (event : DeliveredEvent) : RoutingProgram UUID := do
  match ← read (·.boundTo (eventHandlerThreadId event.digest)) with
  | some workflowId => return workflowId
  | none => do
      let workflowId ← act fun _ s => createWorkflow s
      act fun _ s => register
        { workflowId
          threadId := eventHandlerThreadId event.digest
          actorId := "event:" ++ event.source
          correlationId := some (event.correlationId.getD event.eventId)
          interrupts := [] } s

/-! ### The router -/

/-- What a graph receives for an event. -/
def DeliveredEvent.resumeValue (event : DeliveredEvent) : ResumeValue :=
  .mapping [.mapping event.fields]

/-- The command that resumes what waits. -/
def WaitingThread.command (waiting : WaitingThread) (event : DeliveredEvent) (commandId : UUID) :
    WorkflowCommand where
  commandId := commandId
  kind := .resume
  workflowId := waiting.workflowId
  threadId := waiting.threadId
  actorId := waiting.actorId
  graphInput := event.resumeValue
  interruptIds := waiting.interruptIds

/-- The command that starts a run for the event. -/
def DeliveredEvent.command (event : DeliveredEvent) (workflowId commandId : UUID) :
    WorkflowCommand where
  commandId := commandId
  kind := .start
  workflowId := workflowId
  threadId := eventHandlerThreadId event.digest
  actorId := "event:" ++ event.source
  graphInput := event.resumeValue
  interruptIds := []

/-- Queue the command of an event whose lookup gave this answer: whether it was new. -/
def RoutingState.route (event : DeliveredEvent) (answer : Option UUID)
    (command : UUID → WorkflowCommand) (s : RoutingState) : Bool × RoutingState :=
  let queued := CommandTable.enqueue command (some (.event event.digest)) s.table
  (queued.1, { s with table := queued.2, answers := (event.digest, answer) :: s.answers })

/-- Queue the command an event routes to, unless an earlier delivery did. -/
def enqueueRouted (event : DeliveredEvent) (answer : Option UUID)
    (command : UUID → WorkflowCommand) (kind : RouteKind) : RoutingProgram RouteKind := do
  if ← act fun _ => RoutingState.route event answer command then return kind
  else return .alreadyRouted

/-- What waits on the event. -/
def DeliveredEvent.waiting (event : DeliveredEvent) : RoutingProgram (Option WaitingThread) :=
  match event.correlationId with
  | some correlationId => waitingFor correlationId
  | none => return none

/-- Route one event; `startTypes` are the types that start runs, `none` is all of them. -/
def routeDelivery (event : DeliveredEvent) (startTypes : Option (List String)) :
    RoutingProgram RouteKind := do
  match ← event.waiting with
  | some waiting =>
      enqueueRouted event (some waiting.workflowId) (waiting.command event) .resumed
  | none =>
      if startTypes.all (·.contains event.type) then do
        let workflowId ← registerEventHandlerThread event
        enqueueRouted event none (event.command workflowId) .started
      else return .unrouted

/-! ### What else happens -/

/-- A super-step leaves its thread stopped at these interrupts. -/
def RoutingState.stopAt (threadId : String) (interrupts : List (Option String)) (s : RoutingState) :
    RoutingState :=
  { s with threads := s.threads.map fun row =>
      if row.threadId = threadId then { row with interrupts } else row }

/-- The super-steps of a run. -/
def runSteps (threadId : String) : ℕ → RoutingProgram Unit
  | 0 => return ()
  | n + 1 => do
      act fun i s => ((), s.stopAt threadId i.interrupts)
      runSteps threadId n

/-- Claim a queued command, run its graph for some super-steps, and settle or release it. -/
def processCommand (steps : ℕ) : RoutingProgram Unit := do
  match ← act fun i s =>
      let claimed := s.table.claimNext i.candidate
      (claimed.1, { s with table := claimed.2 }) with
  | none => return ()
  | some row => do
      runSteps row.command.threadId steps
      act fun i s =>
        ((), { s with table := s.table.update row.command.commandId i.settlement.apply })

end programs

/-- What one process does. -/
inductive RoutingCall where
  | deliver (event : DeliveredEvent) (startTypes : Option (List String))
  /-- A worker runs a command. -/
  | work (steps : ℕ)
  /-- A request queues a command, under the checkpoint it answers or under its own id. -/
  | queue (thread : WorkflowThread) (request : StartRequest) (kind : WorkflowCommandKind)
      (interruptIds : List String) (checkpointId : Option UUID)
  /-- Another process registers a thread. -/
  | register (row : ThreadRow)

def RoutingCall.program : RoutingCall → RoutingProgram Unit
  | .deliver event startTypes => do let _ ← routeDelivery event startTypes
  | .work steps => processCommand steps
  | .queue thread request kind interruptIds checkpointId => do
      let _ ← Prog.act fun _ s =>
        let queued := CommandTable.enqueue
          (fun id => { request.command thread id with kind, interruptIds })
          (checkpointId.map .checkpoint) s.table
        (queued.1, { s with table := queued.2 })
  | .register row => do let _ ← Prog.act fun _ s => PersonalOS.register row s

/-- Processes on one store. -/
def routingPool {τ : Type} (calls : τ → RoutingCall) (start : RoutingState) :
    Pool τ RoutingInput RoutingState Empty Unit where
  procs t := (calls t).program
  state := start

/-- The commands queued for an event. -/
def RoutingState.commandsFor (s : RoutingState) (digest : String) : List CommandRow :=
  s.table.rows.filter (·.dedupe == .event digest)

end PersonalOS
