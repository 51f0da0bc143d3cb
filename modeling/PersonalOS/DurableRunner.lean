import PersonalOS.LeaseStore
import PersonalOS.WorkflowCommands

/-! # The durable runner

`DurableWorkflowRunner.start` and `resume` on one thread of a workflow, under its lease.

* **State.** The lease, and what a run reads and writes of the thread: its row in
  `workflow_runs` and its checkpoints, newest first.  A checkpoint is stamped with the command
  whose run wrote it.  `phase` says how far each call of type `τ` has come with the graph,
  which no table stores.
* **The graph.** What the graph of a call does is arbitrary: the checkpoints it writes, one
  super-step after another, and how it ends (`StreamedRun`).  New input writes a checkpoint of
  its own.  A run given no input at an interrupt nobody answered stops there again; one that
  answers it writes its next checkpoint after the interrupted step.
* **Deaths.** A call's worker may die before any of its steps. -/

namespace PersonalOS

open Concurrent

inductive RunStatus where
  | pending
  | running
  | completed
  | failed
deriving DecidableEq, Repr

/-- Where a checkpoint says its thread stands. -/
inductive Position where
  | finished
  /-- These nodes run next. -/
  | ready (step : String) (others : List String)
  /-- The first of them raised this interrupt. -/
  | parked (step : String) (others : List String) (interrupt : ParkedInterrupt)

namespace Position

/-- The nodes that run next. -/
def next : Position → List String
  | finished => []
  | ready step others => step :: others
  | parked step others _ => step :: others

/-- The position before these nodes. -/
def before : List String → Position
  | [] => finished
  | step :: others => ready step others

def interrupt : Position → Option ParkedInterrupt
  | parked _ _ interrupt => some interrupt
  | _ => none

/-- The next node raises an interrupt. -/
def park (interrupt : ParkedInterrupt) : Position → Position
  | finished => finished
  | ready step others => parked step others interrupt
  | parked step others _ => parked step others interrupt

end Position

structure Checkpoint where
  /-- The command in the `configurable` of the run that wrote it. -/
  commandId : Option UUID
  position : Position

/-- What a run does to the thread from where it stands. -/
inductive RunMode where
  /-- It stops again at the interrupt the thread is parked at. -/
  | reparking
  /-- It answers that interrupt, and has not written a checkpoint yet. -/
  | answering
  | advancing
deriving DecidableEq, Repr

/-- How far a call has come with the graph. -/
inductive RunPhase where
  | waiting
  | executing (commandId : Option UUID) (mode : RunMode)
  /-- The graph has stopped, is not entered, or the worker has died. -/
  | over
deriving DecidableEq, Repr

def RunPhase.isExecuting : RunPhase → Bool
  | executing _ _ => true
  | _ => false

structure ThreadState (τ : Type) where
  runStatus : RunStatus
  checkpoints : List Checkpoint
  phase : τ → RunPhase

namespace ThreadState

variable {τ : Type}

def newest (s : ThreadState τ) : Option Checkpoint := s.checkpoints.head?

/-- The commands whose runs wrote the checkpoints. -/
def stamps (s : ThreadState τ) : List (Option UUID) := s.checkpoints.map (·.commandId)

/-- The interrupt the thread is parked at. -/
def interrupt (s : ThreadState τ) : Option ParkedInterrupt := s.newest.bind (·.position.interrupt)

end ThreadState

/-- What a graph is invoked with. -/
inductive GraphInput where
  /-- New input. -/
  | initial
  /-- `None`: carry on from the newest checkpoint. -/
  | none
  /-- `Command(resume=...)`. -/
  | resume (value : ResumeValue)

/-- How a run of the graph ends. -/
inductive RunOutcome where
  | returned
  | interrupted (interrupt : ParkedInterrupt)
  | raised

/-- The nodes each super-step leaves to run next, and the end. -/
structure StreamedRun where
  superSteps : List (List String)
  outcome : RunOutcome

inductive RunnerError where
  | lease (error : LeaseError)
  | nothingToResume
  /-- The exception the graph raised. -/
  | graph
deriving DecidableEq, Repr

/-- What the surroundings decide about one step of a call. -/
structure RunnerInput extends LeaseInput where
  dies : Bool

abbrev RunnerState (τ : Type) := LeaseStore τ × ThreadState τ

/-- A thread that stands where it stands, of a workflow that was never leased. -/
def RunnerState.unleased {τ : Type} (clock : Time) (runStatus : RunStatus)
    (checkpoints : List Checkpoint) : RunnerState τ :=
  ({ clock, minted := 0, row := none, held := fun _ => none },
    { runStatus, checkpoints, phase := fun _ => .waiting })

abbrev RunnerProgram (τ : Type) := Prog RunnerInput (RunnerState τ) RunnerError

namespace DurableWorkflowRunner

open Concurrent.Prog (act raise)

variable {τ : Type} [DecidableEq τ]

/-! ### The graph -/

section graph

variable (t : τ) (commandId : Option UUID)

def enter (phase : RunPhase) (s : ThreadState τ) : ThreadState τ :=
  { s with phase := Function.update s.phase t phase }

/-- A checkpoint of the run. -/
def put (position : Position) (s : ThreadState τ) : ThreadState τ :=
  { s with checkpoints := { commandId, position } :: s.checkpoints }

/-- The next node of the newest checkpoint raises an interrupt. -/
def park (interrupt : ParkedInterrupt) (s : ThreadState τ) : ThreadState τ :=
  match s.checkpoints with
  | [] => s
  | newest :: older =>
      { s with checkpoints :=
          { newest with position := newest.position.park interrupt } :: older }

/-- What the run will do to the thread. -/
def modeOf (input : GraphInput) (s : ThreadState τ) : RunMode :=
  match input, s.interrupt with
  | .none, some _ => .reparking
  | .resume _, some _ => .answering
  | _, _ => .advancing

/-- The graph loads the thread; new input is written as a checkpoint. -/
def begin (input : GraphInput) (s : ThreadState τ) : RunMode × ThreadState τ :=
  let mode := modeOf input s
  let entered := enter t (.executing commandId mode) s
  match input with
  | .initial => (mode, put commandId (.ready "__start__" []) entered)
  | _ => (mode, entered)

/-- A super-step writes its checkpoint. -/
def advance (next : List String) (s : ThreadState τ) : ThreadState τ :=
  enter t (.executing commandId .advancing) (put commandId (.before next) s)

/-- The graph stops. -/
def stop (outcome : RunOutcome) (s : ThreadState τ) : ThreadState τ :=
  match outcome with
  | .interrupted interrupt => enter t .over (park interrupt s)
  | _ => enter t .over s

@[simp] theorem enter_phase_self (phase : RunPhase) (s : ThreadState τ) :
    (enter t phase s).phase t = phase := Function.update_self ..

theorem enter_phase_ne {u : τ} (h : u ≠ t) (phase : RunPhase) (s : ThreadState τ) :
    (enter t phase s).phase u = s.phase u := Function.update_of_ne h ..

omit [DecidableEq τ] in
@[simp] theorem park_phase (interrupt : ParkedInterrupt) (s : ThreadState τ) :
    (park interrupt s).phase = s.phase := by
  unfold park
  split <;> rfl

omit [DecidableEq τ] in
@[simp] theorem park_stamps (interrupt : ParkedInterrupt) (s : ThreadState τ) :
    (park interrupt s).stamps = s.stamps := by
  unfold park
  split
  · rfl
  · rename_i newest older h
    simp [ThreadState.stamps, h]

theorem begin_phase_self (input : GraphInput) (s : ThreadState τ) :
    (begin t commandId input s).2.phase t = .executing commandId (begin t commandId input s).1 := by
  cases input <;> exact Function.update_self ..

theorem begin_phase_ne {u : τ} (h : u ≠ t) (input : GraphInput) (s : ThreadState τ) :
    (begin t commandId input s).2.phase u = s.phase u := by
  cases input <;> exact Function.update_of_ne h ..

/-- New input is stamped; nothing else writes a checkpoint before the first super-step. -/
theorem begin_stamps (input : GraphInput) (s : ThreadState τ) :
    (begin t commandId input s).2.stamps =
      (match input with | .initial => [commandId] | _ => []) ++ s.stamps := by
  cases input <;> rfl

/-- New input replaces what the thread is parked at; nothing else does before the first super-step. -/
theorem begin_interrupt (input : GraphInput) (s : ThreadState τ) :
    (begin t commandId input s).2.interrupt =
      match input with | .initial => none | _ => s.interrupt := by
  cases input <;> rfl

theorem advance_interrupt (next : List String) (s : ThreadState τ) :
    (advance t commandId next s).interrupt = none := by
  cases next <;> rfl

theorem stop_stamps (outcome : RunOutcome) (s : ThreadState τ) :
    (stop t outcome s).stamps = s.stamps := by
  cases outcome with
  | interrupted interrupt => exact park_stamps interrupt s
  | returned => rfl
  | raised => rfl

@[simp] theorem stop_phase_self (outcome : RunOutcome) (s : ThreadState τ) :
    (stop t outcome s).phase t = .over := by
  cases outcome <;> exact enter_phase_self ..

theorem stop_phase_ne {u : τ} (h : u ≠ t) (outcome : RunOutcome) (s : ThreadState τ) :
    (stop t outcome s).phase u = s.phase u := by
  cases outcome with
  | interrupted interrupt =>
      rw [stop, enter_phase_ne t h, park_phase]
  | returned => exact enter_phase_ne t h ..
  | raised => exact enter_phase_ne t h ..

end graph

/-! ### The calls -/

/-- A step on the thread; time passes before it. -/
def onThread {β : Type} (f : ThreadState τ → β × ThreadState τ) : RunnerProgram τ β :=
  act fun i s => ((f s.2).1, s.1.tick i.elapsed, (f s.2).2)

def markStatus (status : RunStatus) : RunnerProgram τ Unit :=
  onThread fun s => ((), { s with runStatus := status })

/-- Where the thread stopped. -/
def inspect : RunnerProgram τ (Option Checkpoint) := onThread fun s => (s.newest, s)

variable (t : τ) (ttl : Time)

/-- The super-steps of a run, one checkpoint each. -/
def superSteps (commandId : Option UUID) : List (List String) → RunnerProgram τ Unit
  | [] => return ()
  | next :: rest => do
      onThread fun s => ((), advance t commandId next s)
      superSteps commandId rest

/-- Run the graph. -/
def stream (input : GraphInput) (commandId : Option UUID) (run : StreamedRun) :
    RunnerProgram τ Unit := do
  if (← onThread (begin t commandId input)) = .reparking then
    onThread fun s => ((), enter t .over s)
  else
    superSteps t commandId run.superSteps
    onThread fun s => ((), stop t run.outcome s)
    match run.outcome with
    | .raised => raise .graph
    | _ => return ()

/-- Invoke the graph, keeping the run's status honest. -/
def invoke (input : GraphInput) (commandId : Option UUID) (run : StreamedRun) :
    RunnerProgram τ Unit := do
  markStatus .running
  match ← (stream t input commandId run).attempt with
  | .error error => do
      markStatus .failed
      raise error
  | .ok () =>
      match ← inspect with
      | some checkpoint => if checkpoint.position.next = [] then markStatus .completed else return ()
      | none => markStatus .completed

/-- Hold the lease for the duration of a block, releasing on the way out. -/
def hold (owner : String) (threadId : Option String) (body : RunnerProgram τ Unit) :
    RunnerProgram τ Unit := do
  let lease ← (WorkflowLeaseStore.acquire t ttl owner threadId).onFst RunnerInput.toLeaseInput
    RunnerError.lease
  body.tryFinally ((WorkflowLeaseStore.release t lease).onFst RunnerInput.toLeaseInput
    RunnerError.lease)

/-- Where the thread stopped, as a call reads it that carries on only from an unfinished one. -/
def inspectToResume : RunnerProgram τ (Option Checkpoint) :=
  onThread fun s =>
    (s.newest, if s.newest.all (·.position.next = []) then enter t .over s else s)

/-- Run the thread from its beginning. -/
def start (owner : String) (threadId : Option String) (commandId : Option UUID) (run : StreamedRun) :
    RunnerProgram τ Unit :=
  hold t ttl owner threadId (invoke t .initial commandId run)

/-- Continue the thread from its last checkpoint. -/
def resume (owner : String) (threadId : Option String) (input : GraphInput)
    (commandId : Option UUID) (run : StreamedRun) : RunnerProgram τ Unit :=
  hold t ttl owner threadId do
    match ← inspectToResume t with
    | none => raise .nothingToResume
    | some checkpoint =>
        if checkpoint.position.next = [] then markStatus .completed
        else invoke t input commandId run

end DurableWorkflowRunner

/-- A call of the runner. -/
inductive RunnerCall where
  | start (owner : String) (threadId : Option String) (commandId : Option UUID) (run : StreamedRun)
  | resume (owner : String) (threadId : Option String) (input : GraphInput)
      (commandId : Option UUID) (run : StreamedRun)

/-- The call, up to its end or the death of its worker. -/
def RunnerCall.program {τ : Type} [DecidableEq τ] (t : τ) (ttl : Time) (call : RunnerCall) :
    RunnerProgram τ (Option Unit) :=
  (match call with
    | .start owner threadId commandId run =>
        DurableWorkflowRunner.start t ttl owner threadId commandId run
    | .resume owner threadId input commandId run =>
        DurableWorkflowRunner.resume t ttl owner threadId input commandId run).mortal
    RunnerInput.dies fun i s => (s.1.tick i.elapsed, DurableWorkflowRunner.enter t .over s.2)

end PersonalOS
