import PersonalOS.JobSearch
import PersonalOS.Keyed
import Mathlib.Data.List.Sort
import Mathlib.Data.Prod.Lex
import Mathlib.Data.String.Basic

/-! # The durable checkpoint saver

`SqlAlchemyCheckpointSaver` of `personalos.persistence.checkpointer` over the tables `checkpoints` and
`checkpoint_writes`, called by one process after the other.

* **Writing.** `put` stores a checkpoint of a thread that is bound to a workflow run, or overwrites what
  is under its id; `putWrites` records what a task wrote.  A write to a reserved channel has a negative
  index and is overwritten; any other keeps the place it has in the task's writes.
* **Reading.** `getTuple` reads one checkpoint with the writes against it, `listTuples` any number of
  them, newest first.

Values of type `δ` are what the serializer brings back unchanged; `μ` is the metadata.  The redactor
learns of secrets as it runs, so that each call is given its own `redact`. -/

namespace PersonalOS

/-- What a checkpoint is stored under. -/
@[ext] structure CheckpointKey where
  threadId : String
  checkpointNs : String
  checkpointId : String
deriving DecidableEq, Repr

/-- What a task's write is stored under. -/
@[ext] structure WriteKey where
  checkpoint : CheckpointKey
  taskId : String
  idx : ℤ
deriving DecidableEq, Repr

/-- The run that a thread is bound to, with the workflow it is part of. -/
structure WorkflowRunRow where
  threadId : String
  workflowId : UUID
  workflowRunId : UUID
deriving DecidableEq, Repr

structure CheckpointRow (δ μ : Type) where
  key : CheckpointKey
  workflowId : UUID
  workflowRunId : UUID
  parentCheckpointId : Option String
  checkpoint : δ
  metadata : μ
deriving DecidableEq, Repr

structure CheckpointWriteRow (δ : Type) where
  key : WriteKey
  channel : String
  value : δ
  taskPath : String
deriving DecidableEq, Repr

structure CheckpointTables (δ μ : Type) where
  threads : List WorkflowRunRow
  checkpoints : List (CheckpointRow δ μ)
  writes : List (CheckpointWriteRow δ)

/-- `WRITES_IDX_MAP`: the index of each reserved channel. -/
structure ReservedChannels where
  idx : String → Option ℤ
  negative : ∀ channel n, idx channel = some n → n < 0

/-- What the redactor makes of a value and of metadata. -/
structure SaverRedaction (δ μ : Type) where
  value : δ → δ
  metadata : μ → μ

/-- A checkpoint as a run is resumed from it. -/
structure CheckpointTuple (δ μ : Type) where
  key : CheckpointKey
  checkpoint : δ
  metadata : μ
  parentConfig : Option CheckpointKey
  pendingWrites : List (String × String × δ)
deriving DecidableEq, Repr

namespace CheckpointTables

variable {δ μ : Type}

def empty : CheckpointTables δ μ := ⟨[], [], []⟩

/-! ### Threads -/

/-- The binding of a thread, if it was ever registered. -/
def resolve (tables : CheckpointTables δ μ) (threadId : String) : Option WorkflowRunRow :=
  Keyed.lookup (·.threadId) threadId tables.threads

/-- Bind a thread that is not bound yet. -/
def register (thread : WorkflowRunRow) (tables : CheckpointTables δ μ) : CheckpointTables δ μ :=
  match tables.resolve thread.threadId with
  | some _ => tables
  | none => { tables with threads := tables.threads ++ [thread] }

def unregisteredMessage (threadId : String) : String :=
  "thread '" ++ threadId ++ "' is not bound to a workflow run; call " ++
    "WorkflowThreadRegistry.register before running or resuming it"

/-- Resolve a thread, or say that it is unbound. -/
def require (tables : CheckpointTables δ μ) (threadId : String) : Except String WorkflowRunRow :=
  match tables.resolve threadId with
  | some thread => .ok thread
  | none => .error (unregisteredMessage threadId)

/-! ### Writing -/

/-- Persist one checkpoint; one that has the id is overwritten. -/
def put (redact : SaverRedaction δ μ) (key : CheckpointKey) (parentCheckpointId : Option String)
    (checkpoint : δ) (metadata : μ) (tables : CheckpointTables δ μ) :
    Except String (CheckpointTables δ μ) := do
  let thread ← tables.require key.threadId
  match Keyed.lookup (·.key) key tables.checkpoints with
  | none =>
      let row : CheckpointRow δ μ :=
        { key, workflowId := thread.workflowId, workflowRunId := thread.workflowRunId, parentCheckpointId,
          checkpoint := redact.value checkpoint, metadata := redact.metadata metadata }
      return { tables with checkpoints := tables.checkpoints ++ [row] }
  | some row =>
      let row := { row with
        parentCheckpointId, checkpoint := redact.value checkpoint, metadata := redact.metadata metadata }
      return { tables with checkpoints := Keyed.put (·.key) row tables.checkpoints }

/-- Record one write; an ordinary one that is stored already is kept.  The session looks at what is
`stored`, not at what it has added itself. -/
def putWrite (stored writes : List (CheckpointWriteRow δ)) (row : CheckpointWriteRow δ) :
    List (CheckpointWriteRow δ) :=
  match Keyed.lookup (·.key) row.key stored with
  | none => writes ++ [row]
  | some _ => if 0 ≤ row.key.idx then writes else Keyed.put (·.key) row writes

/-- The rows of a task's writes. -/
def writeRows (reserved : ReservedChannels) (redact : SaverRedaction δ μ) (key : CheckpointKey)
    (taskId taskPath : String) (writes : List (String × δ)) : List (CheckpointWriteRow δ) :=
  writes.zipIdx.map fun ((channel, value), position) =>
    { key := ⟨key, taskId, (reserved.idx channel).getD position⟩, channel, value := redact.value value,
      taskPath }

/-- Record what one task wrote against a checkpoint; the unique index refuses the writes as a whole when
one is added twice. -/
def putWrites (reserved : ReservedChannels) (redact : SaverRedaction δ μ) (key : CheckpointKey)
    (taskId taskPath : String) (writes : List (String × δ)) (tables : CheckpointTables δ μ) :
    CheckpointTables δ μ :=
  let written := (writeRows reserved redact key taskId taskPath writes).foldl (putWrite tables.writes)
    tables.writes
  if (written.map (·.key)).Nodup then { tables with writes := written } else tables

/-- Delete every checkpoint and write belonging to a thread. -/
def deleteThread (threadId : String) (tables : CheckpointTables δ μ) : CheckpointTables δ μ :=
  { tables with
    checkpoints := tables.checkpoints.filter fun row => row.key.threadId ≠ threadId
    writes := tables.writes.filter fun row => row.key.checkpoint.threadId ≠ threadId }

/-! ### Reading -/

/-- What the writes against a checkpoint are ordered by. -/
def writeRank (row : CheckpointWriteRow δ) : String ×ₗ ℤ := toLex (row.key.taskId, row.key.idx)

/-- The writes against a checkpoint, in the order in which they are read. -/
def writesOf (tables : CheckpointTables δ μ) (key : CheckpointKey) : List (CheckpointWriteRow δ) :=
  (tables.writes.filter fun row => row.key.checkpoint = key).insertionSort
    fun row row' => writeRank row ≤ writeRank row'

/-- Rebuild what a run is resumed from. -/
def tupleOf (tables : CheckpointTables δ μ) (row : CheckpointRow δ μ) : CheckpointTuple δ μ where
  key := row.key
  checkpoint := row.checkpoint
  metadata := row.metadata
  -- an empty id names no parent
  parentConfig := (row.parentCheckpointId.filter (· ≠ "")).map fun id => { row.key with checkpointId := id }
  pendingWrites := (tables.writesOf row.key).map fun row => (row.key.taskId, row.channel, row.value)

/-- The checkpoints of a thread and namespace. -/
def rowsOf (tables : CheckpointTables δ μ) (threadId checkpointNs : String) : List (CheckpointRow δ μ) :=
  tables.checkpoints.filter fun row => row.key.threadId = threadId ∧ row.key.checkpointNs = checkpointNs

/-- The named checkpoint, or the newest one. -/
def row (tables : CheckpointTables δ μ) (threadId checkpointNs : String) :
    Option String → Option (CheckpointRow δ μ)
  | some checkpointId => Keyed.lookup (·.key) ⟨threadId, checkpointNs, checkpointId⟩ tables.checkpoints
  | none => (tables.rowsOf threadId checkpointNs).argmax (·.key.checkpointId)

/-- Load one checkpoint: the one that is named, else the latest. -/
def getTuple (tables : CheckpointTables δ μ) (threadId checkpointNs : String)
    (checkpointId : Option String) : Option (CheckpointTuple δ μ) :=
  (tables.row threadId checkpointNs checkpointId).map tables.tupleOf

/-- What a listing is narrowed by. -/
structure Listing (μ : Type) where
  threadId : Option String
  checkpointNs : Option String
  checkpointId : Option String
  /-- Only what is older than this one. -/
  before : Option String
  /-- What is asked of the metadata. -/
  filter : μ → Bool
  limit : Option ℕ

/-- The listing takes the row. -/
def Listing.takes (listing : Listing μ) (row : CheckpointRow δ μ) : Bool :=
  listing.threadId.all (· == row.key.threadId) && listing.checkpointNs.all (· == row.key.checkpointNs) &&
    listing.checkpointId.all (· == row.key.checkpointId) &&
    listing.before.all (fun id => decide (row.key.checkpointId < id))

/-- List checkpoints newest first; the limit is looked at after a checkpoint was taken. -/
def listTuples (tables : CheckpointTables δ μ) (listing : Listing μ) : List (CheckpointTuple δ μ) :=
  let rows := ((tables.checkpoints.filter listing.takes).insertionSort
    fun row row' => row'.key.checkpointId ≤ row.key.checkpointId).filter fun row => listing.filter row.metadata
  (match listing.limit with
    | none => rows
    | some limit => rows.take (max limit 1)).map tables.tupleOf

end CheckpointTables

end PersonalOS
