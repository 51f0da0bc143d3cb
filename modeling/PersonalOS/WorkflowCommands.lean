import PersonalOS.JobSearchGraph
import Mathlib.Data.List.Infix

/-! # Workflow commands and parked interrupts

The rows of `outbox_events` that carry commands to the worker, in the order they were queued,
and what a parked thread looks like to the processes that would answer it.

* **Dedupe keys.** A row's key is its workflow, its kind and its `Dedupe`.  The three sources
  of the last part are kept apart: a checkpoint id and a command id are UUIDs, and the key of
  an event starts with `event:`.
* **Waiting.** `ParkedInterrupt` is one interrupt of a thread, with the approval requests its
  payload carries; `isWaiting` is `WorkflowSnapshot.pending_interrupts` for it: nothing queued
  and unfinished answers it. -/

namespace PersonalOS

inductive WorkflowCommandKind where
  | start
  | resume
  | retry
deriving DecidableEq, Repr

/-- One unit of work the API hands to the worker. -/
structure WorkflowCommand where
  commandId : UUID
  kind : WorkflowCommandKind
  workflowId : UUID
  threadId : String
  actorId : String
  graphInput : ResumeValue
  interruptIds : List String

/-- What makes two commands of one kind for one workflow the same. -/
inductive Dedupe where
  | checkpoint (checkpointId : UUID)
  | event (digest : String)
  | command (commandId : UUID)
deriving DecidableEq, Repr

inductive CommandStatus where
  | pending
  | inProgress
  | dispatched
  | failed
deriving DecidableEq, Repr

/-- One row of the queue. -/
structure CommandRow where
  command : WorkflowCommand
  dedupe : Dedupe
  status : CommandStatus
  attempts : ℕ

namespace CommandRow

/-- No worker has finished with it. -/
def unfinished (row : CommandRow) : Bool := row.status == .pending || row.status == .inProgress

/-- The unique key of the row. -/
def key (row : CommandRow) : UUID × WorkflowCommandKind × Dedupe :=
  (row.command.workflowId, row.command.kind, row.dedupe)

/-- The row a command is queued as; with no `dedupe`, every command is its own. -/
def queued (command : WorkflowCommand) (dedupe : Option Dedupe) : CommandRow where
  command := command
  dedupe := dedupe.getD (.command command.commandId)
  status := .pending
  attempts := 0

end CommandRow

/-- Queue a command; `false` when an equivalent one was queued before. -/
def enqueue (command : WorkflowCommand) (dedupe : Option Dedupe) (rows : List CommandRow) :
    Bool × List CommandRow :=
  if rows.any (·.key == (CommandRow.queued command dedupe).key) then (false, rows)
  else (true, rows ++ [CommandRow.queued command dedupe])

/-- One interrupt of a parked thread, and the approval requests it carries. -/
structure ParkedInterrupt where
  workflowId : UUID
  threadId : String
  checkpointId : UUID
  interruptId : Option String
  requests : List ApprovalRequest
  /-- Request ids are drawn fresh. -/
  nodup : (requests.map (·.requestId)).Nodup

namespace ParkedInterrupt

/-- The interrupt ids a resume of this stop names. -/
def interruptIds (p : ParkedInterrupt) : List String := p.interruptId.toList

/-- The row is a resume naming the interrupt, or of its whole thread. -/
def namedBy (p : ParkedInterrupt) (row : CommandRow) : Bool :=
  row.command.workflowId == p.workflowId && row.command.kind == .resume &&
    ((match p.interruptId with
      | some id => row.command.interruptIds.contains id
      | none => false) ||
      (row.command.threadId == p.threadId && row.command.interruptIds.isEmpty))

/-- The row is an unfinished answer to the interrupt. -/
def answeredBy (p : ParkedInterrupt) (row : CommandRow) : Bool := row.unfinished && p.namedBy row

/-- The interrupt waits on an answer nobody has queued. -/
def isWaiting (p : ParkedInterrupt) (rows : List CommandRow) : Bool := !rows.any p.answeredBy

/-- The row is a resume queued under the checkpoint. -/
def resumedBy (p : ParkedInterrupt) (row : CommandRow) : Bool :=
  row.key == (p.workflowId, .resume, .checkpoint p.checkpointId)

/-- A resume is queued under the checkpoint. -/
def isResumed (p : ParkedInterrupt) (rows : List CommandRow) : Bool := rows.any p.resumedBy

end ParkedInterrupt

/-! ### What queueing does -/

section enqueue

variable {command : WorkflowCommand} {dedupe : Option Dedupe} {rows : List CommandRow}

theorem enqueue_cases : enqueue command dedupe rows = (false, rows) ∨
    enqueue command dedupe rows = (true, rows ++ [.queued command dedupe]) ∧
      ∀ row ∈ rows, row.key ≠ (CommandRow.queued command dedupe).key := by
  unfold enqueue
  split
  · exact Or.inl rfl
  · rename_i h
    refine Or.inr ⟨rfl, fun row hrow hkey => h ?_⟩
    exact List.any_eq_true.mpr ⟨row, hrow, by simp [hkey]⟩

theorem enqueue_any :
    (enqueue command dedupe rows).2.any (·.key == (CommandRow.queued command dedupe).key) = true := by
  unfold enqueue
  split
  · assumption
  · simp

end enqueue

theorem ParkedInterrupt.isResumed_mono {p : ParkedInterrupt} {rows rows' : List CommandRow}
    (h : rows <+: rows') (hr : p.isResumed rows = true) : p.isResumed rows' = true := by
  obtain ⟨later, rfl⟩ := h
  simp [isResumed] at hr ⊢
  exact Or.inl hr

/-- A thread parked on the approval of the submission. -/
def parkedSubmission : ParkedInterrupt where
  workflowId := 7
  threadId := "job_search:7"
  checkpointId := 70
  interruptId := some "interrupt-70"
  requests := [submissionRequest]
  nodup := by decide

end PersonalOS
