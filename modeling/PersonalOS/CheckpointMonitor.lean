import PersonalOS.PendingCheckpoints

/-! # The checkpoint monitor

`PendingCheckpointMonitor.sweep` as a program over the table of pending checkpoints, and the
processes that share the table with it.

* **Sweeps.** A sweep reads the clock and the due checkpoints once and handles them one after
  another: ask the condition, decide, and close or fire.  It returns its report, or raises.
* **Firing.** The guarded close comes first, and only the process that won it starts the graph
  path; starting it is one step, recorded before the graph can fail.
* **Exceptions.** An exception of the evaluator is the sweep's; one of the started graph is
  caught, and so is a refused lease. -/

namespace PersonalOS

open Concurrent

/-- What one sweep did, by outcome. -/
structure SweepReport where
  resolved : List UUID
  fired : List UUID
  expired : List UUID
  deferred : List UUID
  cancelled : List UUID
  failed : List UUID
  waiting : List UUID
deriving DecidableEq, Repr

def SweepReport.empty : SweepReport := ⟨[], [], [], [], [], [], []⟩

/-- The part of the report a checkpoint ends up in. -/
inductive Bucket where
  | resolved
  | fired
  | expired
  | deferred
  | cancelled
  | failed
  | waiting
deriving DecidableEq, Repr

def SweepReport.add (checkpointId : UUID) (report : SweepReport) : Bucket → SweepReport
  | .resolved => { report with resolved := report.resolved ++ [checkpointId] }
  | .fired => { report with fired := report.fired ++ [checkpointId] }
  | .expired => { report with expired := report.expired ++ [checkpointId] }
  | .deferred => { report with deferred := report.deferred ++ [checkpointId] }
  | .cancelled => { report with cancelled := report.cancelled ++ [checkpointId] }
  | .failed => { report with failed := report.failed ++ [checkpointId] }
  | .waiting => { report with waiting := report.waiting ++ [checkpointId] }

namespace PendingCheckpointMonitor

open Concurrent.Prog (act read raise input)
open PendingCheckpointStore (close nowOr)

variable {τ : Type} (t : τ)

/-- Ask the evaluator; its exception is passed on. -/
def isMet (checkpoint : PendingCheckpoint) : CheckpointProgram τ Bool := do
  match ← act fun i s => (i.isMet checkpoint.condition,
      s.record (.asked t checkpoint.checkpointId (i.isMet checkpoint.condition).toOption)) with
  | .ok met => return met
  | .error message => raise (.evaluator message)

/-- Start the graph path the checkpoint names. -/
def startGraph (checkpoint : PendingCheckpoint) : CheckpointProgram τ GraphStart :=
  act fun i s => (i.start checkpoint, s.record (.started t checkpoint.checkpointId))

/-- Start the graph path this checkpoint names, having first claimed it. -/
def fire (checkpoint : PendingCheckpoint) (now : Time) : CheckpointProgram τ Bucket := do
  if ← input (·.registered checkpoint.threadId) then
    let state ← input (·.inspect checkpoint.threadId)
    if state.checkpointId = none then
      let _ ← close t checkpoint.checkpointId .cancelled
        s!"thread '{checkpoint.threadId}' has no stored state to follow up on" (some now)
      return .cancelled
    else if state.next ≠ [] then return .deferred
    else if ← close t checkpoint.checkpointId .fired
        (s!"trigger {checkpoint.triggerAt} reached with " ++
          s!"{checkpoint.condition.describe} still unmet") (some now) then
      match ← startGraph t checkpoint with
      | .started => return .fired
      | .leaseUnavailable => return .failed
      | .raised _ => return .failed
    else return .deferred
  else
    let _ ← close t checkpoint.checkpointId .cancelled
      (s!"thread '{checkpoint.threadId}' is not registered to any workflow; " ++
        "there is nothing to resume") (some now)
    return .cancelled

/-- Re-evaluate one checkpoint's condition and apply the outcome. -/
def handle (checkpoint : PendingCheckpoint) (now : Time) : CheckpointProgram τ Bucket := do
  let conditionMet ← isMet t checkpoint
  match decideCheckpoint checkpoint conditionMet now with
  | .error error => raise error
  | .ok .wait => return .waiting
  | .ok .resolve =>
      if ← close t checkpoint.checkpointId .resolved
          s!"condition met before the trigger fired: {checkpoint.condition.describe}" (some now) then
        return .resolved
      else return .deferred
  | .ok .expire =>
      if ← close t checkpoint.checkpointId .expired
          (s!"expiry {checkpoint.expiresAt} passed without firing; " ++
            "a follow-up this late is not worth sending") (some now) then
        return .expired
      else return .deferred
  | .ok .fire => fire t checkpoint now

/-- Handle the checkpoints in turn. -/
def handleAll (now : Time) : List PendingCheckpoint → SweepReport → CheckpointProgram τ SweepReport
  | [], report => return report
  | checkpoint :: rest, report => do
      let bucket ← handle t checkpoint now
      handleAll now rest (report.add checkpoint.checkpointId bucket)

/-- Decide about every actionable checkpoint, and act on each decision. -/
def sweep (now : Option Time) (limit : ℕ) : CheckpointProgram τ SweepReport := do
  let now ← nowOr now
  let checkpoints ← read fun s => s.table.due now limit
  handleAll t now checkpoints .empty

end PendingCheckpointMonitor

/-! ### The processes on the table -/

/-- What one process does with the table. -/
inductive CheckpointTask where
  | sweep (now : Option Time) (limit : ℕ)
  | cancel (checkpointId : UUID) (reason : String) (now : Option Time)
  | schedule (checkpoint : PendingCheckpoint)
  | reschedule (checkpoint : PendingCheckpoint) (reason : String)
  | resolveMatching (conditionKind : ConditionKind) (subjectId : UUID) (reason : String)
      (occurredAt now : Option Time)

section tasks

variable {τ : Type}

def CheckpointTask.program (t : τ) : CheckpointTask → CheckpointProgram τ Unit
  | .sweep now limit => do let _ ← PendingCheckpointMonitor.sweep t now limit
  | .cancel checkpointId reason now => do
      let _ ← PendingCheckpointStore.close t checkpointId .cancelled reason now
  | .schedule checkpoint => do let _ ← PendingCheckpointStore.schedule checkpoint
  | .reschedule checkpoint reason => do
      let _ ← PendingCheckpointStore.supersede t checkpoint reason none
  | .resolveMatching conditionKind subjectId reason occurredAt now => do
      let _ ← PendingCheckpointStore.resolveMatching t conditionKind subjectId reason occurredAt now

/-- Any number of processes on a table no process has touched yet. -/
def checkpointPool (tasks : τ → CheckpointTask) (table : CheckpointTable) :
    Pool τ CheckpointInput (CheckpointState τ) CheckpointError Unit where
  procs t := (tasks t).program t
  state := ⟨table, []⟩

end tasks

end PersonalOS
