import PersonalOS.CheckpointSaver

/-! # What a saver reads back

The tables of the checkpoint saver after any calls, told from the calls alone.

* **Calls.** `after` runs calls of the saver and registrations of threads, the last call first in the list.
* **History.** `lastPut` is the last checkpoint put under a key since its thread was deleted, and
  `recordedWrite` the write that counts under an index: the first one of an ordinary channel, the last
  one of a reserved channel.
* **Reading.** A checkpoint is read back as it was put last, with the writes that count
  (`getTuple_reads_history`), and the checkpoints of a thread are listed page by page without a gap,
  newest first (`listTuples_pages`). -/

namespace PersonalOS

open CheckpointTables

variable {δ μ : Type}

/-- A call of the saver, or a registration beside it. -/
inductive SaverCall (δ μ : Type) where
  | register (thread : WorkflowRunRow)
  | put (redact : SaverRedaction δ μ) (key : CheckpointKey) (parentCheckpointId : Option String)
      (checkpoint : δ) (metadata : μ)
  | putWrites (redact : SaverRedaction δ μ) (key : CheckpointKey) (taskId taskPath : String)
      (writes : List (String × δ))
  | deleteThread (threadId : String)

section after

variable (reserved : ReservedChannels)

/-- The tables after a call; one that raises changes nothing. -/
def SaverCall.apply (tables : CheckpointTables δ μ) : SaverCall δ μ → CheckpointTables δ μ
  | .register thread => tables.register thread
  | .put redact key parentCheckpointId checkpoint metadata =>
      match tables.put redact key parentCheckpointId checkpoint metadata with
      | .ok tables' => tables'
      | .error _ => tables
  | .putWrites redact key taskId taskPath writes =>
      tables.putWrites reserved redact key taskId taskPath writes
  | .deleteThread threadId => tables.deleteThread threadId

/-- The tables after these calls, the last of which comes first. -/
def after : List (SaverCall δ μ) → CheckpointTables δ μ
  | [] => .empty
  | call :: earlier => call.apply reserved (after earlier)

/-- The binding of a thread is the first one that was made. -/
def boundTo (threadId : String) : List (SaverCall δ μ) → Option WorkflowRunRow
  | [] => none
  | .register thread :: earlier =>
      (boundTo threadId earlier).or (if thread.threadId = threadId then some thread else none)
  | _ :: earlier => boundTo threadId earlier

/-- The last checkpoint put under a key since its thread was deleted. -/
def lastPut (key : CheckpointKey) : List (SaverCall δ μ) → Option (CheckpointRow δ μ)
  | [] => none
  | .put redact key' parentCheckpointId checkpoint metadata :: earlier =>
      if key' = key then
        (boundTo key.threadId earlier).map fun thread =>
          { key, workflowId := thread.workflowId, workflowRunId := thread.workflowRunId, parentCheckpointId,
            checkpoint := redact.value checkpoint, metadata := redact.metadata metadata }
      else lastPut key earlier
  | .deleteThread threadId :: earlier => if threadId = key.threadId then none else lastPut key earlier
  | _ :: earlier => lastPut key earlier

/-- The write that counts under an index since its thread was deleted. -/
def recordedWrite (key : WriteKey) : List (SaverCall δ μ) → Option (CheckpointWriteRow δ)
  | [] => none
  | .putWrites redact key' taskId taskPath writes :: earlier =>
      let rows := writeRows reserved redact key' taskId taskPath writes
      let added := rows.filter fun row => (recordedWrite row.key earlier).isNone
      -- an index that is added twice loses all that the task wrote
      if (added.map (·.key)).Nodup then
        match recordedWrite key earlier with
        | none => Keyed.lookup (·.key) key rows
        | some row => some (if 0 ≤ key.idx then row else (Keyed.lookup (·.key) key rows.reverse).getD row)
      else recordedWrite key earlier
  | .deleteThread threadId :: earlier =>
      if threadId = key.checkpoint.threadId then none else recordedWrite key earlier
  | _ :: earlier => recordedWrite key earlier

end after

/-! ### The tables tell the history -/

section tables

variable {reserved : ReservedChannels}

theorem lookup_filter_key {α κ : Type} [DecidableEq κ] (key : α → κ) (keep : κ → Bool) (k : κ) (l : List α) :
    Keyed.lookup key k (l.filter fun x => keep (key x)) = if keep k then Keyed.lookup key k l else none := by
  unfold Keyed.lookup
  rw [List.find?_filter]
  by_cases hk : keep k = true
  · rw [if_pos hk]
    refine congrArg (List.find? · l) (funext fun x => ?_)
    by_cases hx : key x = k
    · simp [hx, hk]
    · simp [hx]
  · rw [if_neg hk]
    refine List.find?_eq_none.mpr fun x _ hx => hk ?_
    obtain ⟨hkeep, hkey⟩ := of_decide_eq_true hx
    rw [← of_decide_eq_true hkey]
    exact hkeep

theorem resolve_register (thread : WorkflowRunRow) (tables : CheckpointTables δ μ) (threadId : String) :
    (tables.register thread).resolve threadId =
      (tables.resolve threadId).or (if thread.threadId = threadId then some thread else none) := by
  unfold register
  split
  · rename_i bound hbound
    by_cases hthread : thread.threadId = threadId
    · subst hthread
      rw [hbound]
      rfl
    · rw [if_neg hthread, Option.or_none]
  · rename_i hnone
    refine (Keyed.lookup_concat hnone).trans ?_
    by_cases hthread : thread.threadId = threadId
    · subst hthread
      rw [if_pos rfl, if_pos rfl, hnone]
      rfl
    · rw [if_neg (Ne.symm hthread), if_neg hthread, Option.or_none]
      rfl

/-- The row that a thread's checkpoint is stored as. -/
def CheckpointTables.stored (redact : SaverRedaction δ μ) (key : CheckpointKey) (parent : Option String)
    (checkpoint : δ) (metadata : μ) (tables : CheckpointTables δ μ) (thread : WorkflowRunRow) :
    CheckpointRow δ μ :=
  (Keyed.lookup (·.key) key tables.checkpoints).elim
    ⟨key, thread.workflowId, thread.workflowRunId, parent, redact.value checkpoint, redact.metadata metadata⟩
    fun row => { row with
      parentCheckpointId := parent, checkpoint := redact.value checkpoint,
      metadata := redact.metadata metadata }

theorem stored_key (redact : SaverRedaction δ μ) (key : CheckpointKey) (parent : Option String)
    (checkpoint : δ) (metadata : μ) (tables : CheckpointTables δ μ) (thread : WorkflowRunRow) :
    (tables.stored redact key parent checkpoint metadata thread).key = key := by
  unfold CheckpointTables.stored
  cases h : Keyed.lookup (·.key) key tables.checkpoints with
  | none => rfl
  | some row => exact (Keyed.lookup_eq_some h).2

theorem put_eq (redact : SaverRedaction δ μ) (key : CheckpointKey) (parent : Option String) (checkpoint : δ)
    (metadata : μ) (tables : CheckpointTables δ μ) :
    (SaverCall.put redact key parent checkpoint metadata).apply reserved tables =
      match tables.resolve key.threadId with
      | none => tables
      | some thread => { tables with
          checkpoints := Keyed.upsert (·.key) (tables.stored redact key parent checkpoint metadata thread)
            tables.checkpoints } := by
  cases hthread : tables.resolve key.threadId with
  | none =>
      have hput : tables.put redact key parent checkpoint metadata =
          .error (unregisteredMessage key.threadId) := by
        simp only [CheckpointTables.put, require, hthread]
        rfl
      show (match tables.put redact key parent checkpoint metadata with
        | .ok tables' => tables'
        | .error _ => tables) = tables
      rw [hput]
  | some thread =>
      have hput : tables.put redact key parent checkpoint metadata = .ok { tables with
          checkpoints := Keyed.upsert (·.key) (tables.stored redact key parent checkpoint metadata thread)
            tables.checkpoints } := by
        simp only [Keyed.upsert, stored_key]
        cases hlookup : Keyed.lookup (·.key) key tables.checkpoints with
        | none =>
            simp only [CheckpointTables.put, require, hthread, CheckpointTables.stored, hlookup]
            rfl
        | some row =>
            simp only [CheckpointTables.put, require, hthread, CheckpointTables.stored, hlookup]
            rfl
      show (match tables.put redact key parent checkpoint metadata with
        | .ok tables' => tables'
        | .error _ => tables) = _
      rw [hput]

/-! Recording the writes of a task. -/

theorem keys_written (stored rows writes : List (CheckpointWriteRow δ)) :
    (rows.foldl (putWrite stored) writes).map (·.key) = writes.map (·.key) ++
      (rows.filter fun row => (Keyed.lookup (·.key) row.key stored).isNone).map (·.key) := by
  induction rows generalizing writes with
  | nil => exact (List.append_nil _).symm
  | cons row rows ih =>
      rw [List.foldl_cons, ih, List.filter_cons]
      unfold putWrite
      cases Keyed.lookup (·.key) row.key stored with
      | none => simp
      | some old =>
          have hmap : (if 0 ≤ row.key.idx then writes else Keyed.put (·.key) row writes).map (·.key) =
              writes.map (·.key) := by
            split
            · rfl
            · exact Keyed.map_put_key
          show List.map _ (if 0 ≤ row.key.idx then writes else Keyed.put (·.key) row writes) ++ _ = _
          rw [hmap]
          rfl

theorem nodup_written {stored : List (CheckpointWriteRow δ)} (hstored : (stored.map (·.key)).Nodup)
    (rows : List (CheckpointWriteRow δ)) :
    ((rows.foldl (putWrite stored) stored).map (·.key)).Nodup ↔
      ((rows.filter fun row => (Keyed.lookup (·.key) row.key stored).isNone).map (·.key)).Nodup := by
  rw [keys_written, List.nodup_append]
  refine ⟨fun h => h.2.1, fun h => ⟨hstored, h, fun key hkey key' hkey' => ?_⟩⟩
  obtain ⟨old, hold, rfl⟩ := List.mem_map.mp hkey
  obtain ⟨row, hrow, rfl⟩ := List.mem_map.mp hkey'
  have hnone := Option.isNone_iff_eq_none.mp (List.mem_filter.mp hrow).2
  exact Keyed.lookup_eq_none.mp hnone old hold

theorem lookup_written_new {stored writes : List (CheckpointWriteRow δ)} {k : WriteKey}
    (h : Keyed.lookup (·.key) k stored = none) (rows : List (CheckpointWriteRow δ)) :
    Keyed.lookup (·.key) k (rows.foldl (putWrite stored) writes) =
      (Keyed.lookup (·.key) k writes).or (Keyed.lookup (·.key) k rows) := by
  induction rows generalizing writes with
  | nil => exact (Option.or_none).symm
  | cons row rows ih =>
      rw [List.foldl_cons, ih]
      by_cases hk : row.key = k
      · have hput : putWrite stored writes row = writes ++ [row] := by
          unfold putWrite
          rw [hk, h]
        rw [hput]
        simp only [Keyed.lookup, List.find?_append, List.find?_cons, hk, decide_true]
        cases List.find? (fun row => decide (row.key = k)) writes with
        | none => rfl
        | some old => rfl
      · have hput : Keyed.lookup (·.key) k (putWrite stored writes row) = Keyed.lookup (·.key) k writes := by
          unfold putWrite
          split
          · simp only [Keyed.lookup, List.find?_append, List.find?_cons, hk, decide_false, List.find?_nil,
              Option.or_none]
          · split
            · rfl
            · exact Keyed.lookup_put_of_ne (Ne.symm hk)
        rw [hput]
        simp only [Keyed.lookup, List.find?_cons, hk, decide_false]

theorem lookup_written_old {stored writes : List (CheckpointWriteRow δ)} {k : WriteKey}
    {row : CheckpointWriteRow δ} (h : Keyed.lookup (·.key) k stored ≠ none)
    (hrow : Keyed.lookup (·.key) k writes = some row) (rows : List (CheckpointWriteRow δ)) :
    Keyed.lookup (·.key) k (rows.foldl (putWrite stored) writes) =
      some (if 0 ≤ k.idx then row else (Keyed.lookup (·.key) k rows.reverse).getD row) := by
  induction rows generalizing writes row with
  | nil => exact hrow.trans (congrArg some (ite_self row).symm)
  | cons new rows ih =>
      have hsnoc : Keyed.lookup (·.key) k (new :: rows).reverse =
          (Keyed.lookup (·.key) k rows.reverse).or (if new.key = k then some new else none) := by
        simp only [Keyed.lookup, List.reverse_cons, List.find?_append, List.find?_singleton,
          decide_eq_true_eq]
      rw [List.foldl_cons, hsnoc]
      by_cases hk : new.key = k
      · obtain ⟨old, hold⟩ := Option.ne_none_iff_exists'.mp h
        have hput : putWrite stored writes new =
            if 0 ≤ k.idx then writes else Keyed.put (·.key) new writes := by
          unfold putWrite
          rw [hk, hold]
        rw [hput, if_pos hk]
        by_cases hidx : 0 ≤ k.idx
        · rw [if_pos hidx, ih hrow, if_pos hidx, if_pos hidx]
        · have hnew : Keyed.lookup (·.key) k (Keyed.put (·.key) new writes) = some new := by
            rw [Keyed.lookup_put (by rw [hk, hrow]; exact Option.some_ne_none row), if_pos hk.symm]
          rw [if_neg hidx, ih hnew, if_neg hidx, if_neg hidx]
          cases Keyed.lookup (·.key) k rows.reverse with
          | none => rfl
          | some last => rfl
      · have hput : Keyed.lookup (·.key) k (putWrite stored writes new) = some row := by
          unfold putWrite
          split
          · simp only [Keyed.lookup, List.find?_append] at hrow ⊢
            rw [hrow]
            rfl
          · split
            · exact hrow
            · rw [Keyed.lookup_put_of_ne (Ne.symm hk)]
              exact hrow
        rw [ih hput, if_neg hk, Option.or_none]

theorem putWrites_frame (redact : SaverRedaction δ μ) (key : CheckpointKey) (taskId taskPath : String)
    (writes : List (String × δ)) (tables : CheckpointTables δ μ) :
    (tables.putWrites reserved redact key taskId taskPath writes).threads = tables.threads ∧
      (tables.putWrites reserved redact key taskId taskPath writes).checkpoints = tables.checkpoints := by
  simp only [CheckpointTables.putWrites]
  split
  · exact ⟨rfl, rfl⟩
  · exact ⟨rfl, rfl⟩

/-! ### After any calls -/

variable (reserved)

theorem resolve_after (calls : List (SaverCall δ μ)) (threadId : String) :
    (after reserved calls).resolve threadId = boundTo threadId calls := by
  induction calls with
  | nil => rfl
  | cons call earlier ih =>
      cases call with
      | register thread =>
          show ((after reserved earlier).register thread).resolve threadId = _
          rw [resolve_register, ih]
          rfl
      | put redact key parent checkpoint metadata =>
          show ((SaverCall.put redact key parent checkpoint metadata).apply reserved
            (after reserved earlier)).resolve threadId = boundTo threadId earlier
          rw [put_eq, ← ih]
          split
          · rfl
          · rfl
      | putWrites redact key taskId taskPath writes =>
          show Keyed.lookup _ threadId ((after reserved earlier).putWrites reserved redact key taskId taskPath
            writes).threads = boundTo threadId earlier
          rw [(putWrites_frame redact key taskId taskPath writes _).1]
          exact ih
      | deleteThread deleted => exact ih

theorem lastPut_bound {calls : List (SaverCall δ μ)} {key : CheckpointKey} {row : CheckpointRow δ μ}
    (h : lastPut key calls = some row) : row.key = key ∧ ∃ thread, boundTo key.threadId calls = some thread ∧
      row.workflowId = thread.workflowId ∧ row.workflowRunId = thread.workflowRunId := by
  induction calls with
  | nil => cases h
  | cons call earlier ih =>
      cases call with
      | register thread =>
          obtain ⟨hkey, bound, hbound, hrest⟩ := ih h
          refine ⟨hkey, bound, ?_, hrest⟩
          rw [boundTo, hbound]
          rfl
      | put redact key' parent checkpoint metadata =>
          rw [lastPut] at h
          split at h
          · obtain ⟨thread, hthread, rfl⟩ := Option.map_eq_some_iff.mp h
            exact ⟨rfl, thread, hthread, rfl, rfl⟩
          · exact ih h
      | putWrites redact key' taskId taskPath writes => exact ih h
      | deleteThread threadId =>
          rw [lastPut] at h
          split at h
          · cases h
          · exact ih h

theorem lookup_checkpoints_after (calls : List (SaverCall δ μ)) (key : CheckpointKey) :
    Keyed.lookup (·.key) key (after reserved calls).checkpoints = lastPut key calls := by
  induction calls with
  | nil => rfl
  | cons call earlier ih =>
      cases call with
      | register thread =>
          show Keyed.lookup _ key ((after reserved earlier).register thread).checkpoints = lastPut key earlier
          rw [← ih]
          unfold CheckpointTables.register
          split
          · rfl
          · rfl
      | put redact key' parent checkpoint metadata =>
          show Keyed.lookup _ key ((SaverCall.put redact key' parent checkpoint metadata).apply reserved
            (after reserved earlier)).checkpoints = _
          rw [put_eq, resolve_after, lastPut]
          by_cases hkey : key' = key
          · subst hkey
            rw [if_pos rfl]
            cases hthread : boundTo key'.threadId earlier with
            | none =>
                cases hput : lastPut key' earlier with
                | none => exact ih.trans hput
                | some row =>
                    obtain ⟨-, thread, hbound, -⟩ := lastPut_bound hput
                    exact absurd (hbound.symm.trans hthread) (Option.some_ne_none thread)
            | some thread =>
                show Keyed.lookup _ key' (Keyed.upsert _ _ _) = some _
                rw [Keyed.lookup_upsert, if_pos (stored_key ..).symm]
                unfold CheckpointTables.stored
                rw [ih]
                cases hput : lastPut key' earlier with
                | none => rfl
                | some row =>
                    obtain ⟨hrow, bound, hbound, hworkflow, hrun⟩ := lastPut_bound hput
                    obtain rfl : bound = thread := Option.some.inj (hbound.symm.trans hthread)
                    show some { row with parentCheckpointId := _, checkpoint := _, metadata := _ } = _
                    rw [hrow, hworkflow, hrun]
          · rw [if_neg hkey]
            split
            · exact ih
            · show Keyed.lookup _ key (Keyed.upsert _ _ _) = _
              rw [Keyed.lookup_upsert, stored_key, if_neg (Ne.symm hkey), ih]
      | putWrites redact key' taskId taskPath writes =>
          show Keyed.lookup _ key ((after reserved earlier).putWrites reserved redact key' taskId taskPath
            writes).checkpoints = lastPut key earlier
          rw [(putWrites_frame redact key' taskId taskPath writes _).2]
          exact ih
      | deleteThread threadId =>
          show Keyed.lookup _ key ((after reserved earlier).checkpoints.filter _) = _
          have hfilter := lookup_filter_key (fun row : CheckpointRow δ μ => row.key)
            (fun key => decide (key.threadId ≠ threadId)) key (after reserved earlier).checkpoints
          rw [hfilter, ih, lastPut]
          by_cases hthread : threadId = key.threadId
          · rw [if_pos hthread, if_neg (by simp [hthread])]
          · rw [if_neg hthread, if_pos (by simpa using Ne.symm hthread)]

theorem keys_after (calls : List (SaverCall δ μ)) :
    ((after reserved calls).checkpoints.map (·.key)).Nodup ∧
      ((after reserved calls).writes.map (·.key)).Nodup := by
  induction calls with
  | nil => exact ⟨List.nodup_nil, List.nodup_nil⟩
  | cons call earlier ih =>
      obtain ⟨hcheckpoints, hwrites⟩ := ih
      cases call with
      | register thread =>
          show (((after reserved earlier).register thread).checkpoints.map _).Nodup ∧
            (((after reserved earlier).register thread).writes.map _).Nodup
          unfold CheckpointTables.register
          split
          · exact ⟨hcheckpoints, hwrites⟩
          · exact ⟨hcheckpoints, hwrites⟩
      | put redact key parent checkpoint metadata =>
          show (((SaverCall.put redact key parent checkpoint metadata).apply reserved
              (after reserved earlier)).checkpoints.map _).Nodup ∧
            (((SaverCall.put redact key parent checkpoint metadata).apply reserved
              (after reserved earlier)).writes.map _).Nodup
          rw [put_eq]
          split
          · exact ⟨hcheckpoints, hwrites⟩
          · exact ⟨Keyed.nodup_upsert hcheckpoints, hwrites⟩
      | putWrites redact key taskId taskPath writes =>
          show (((after reserved earlier).putWrites reserved redact key taskId taskPath
              writes).checkpoints.map _).Nodup ∧
            (((after reserved earlier).putWrites reserved redact key taskId taskPath
              writes).writes.map _).Nodup
          simp only [CheckpointTables.putWrites]
          split
          case isTrue hnodup => exact ⟨hcheckpoints, hnodup⟩
          case isFalse => exact ⟨hcheckpoints, hwrites⟩
      | deleteThread threadId =>
          exact ⟨hcheckpoints.sublist (List.filter_sublist.map _), hwrites.sublist (List.filter_sublist.map _)⟩

theorem lookup_writes_after (calls : List (SaverCall δ μ)) (key : WriteKey) :
    Keyed.lookup (·.key) key (after reserved calls).writes = recordedWrite reserved key calls := by
  induction calls generalizing key with
  | nil => rfl
  | cons call earlier ih =>
      cases call with
      | register thread =>
          show Keyed.lookup _ key ((after reserved earlier).register thread).writes =
            recordedWrite reserved key earlier
          rw [← ih]
          unfold CheckpointTables.register
          split
          · rfl
          · rfl
      | put redact key' parent checkpoint metadata =>
          show Keyed.lookup _ key ((SaverCall.put redact key' parent checkpoint metadata).apply reserved
            (after reserved earlier)).writes = recordedWrite reserved key earlier
          rw [put_eq, ← ih]
          split
          · rfl
          · rfl
      | putWrites redact key' taskId taskPath writes =>
          show Keyed.lookup _ key ((after reserved earlier).putWrites reserved redact key' taskId taskPath
            writes).writes = _
          rw [recordedWrite]
          simp only [CheckpointTables.putWrites, nodup_written (keys_after reserved earlier).2, ← ih]
          split
          · cases hlookup : Keyed.lookup (·.key) key (after reserved earlier).writes with
            | none =>
                show Keyed.lookup _ key (List.foldl _ _ _) = _
                rw [lookup_written_new hlookup, hlookup]
                rfl
            | some row => exact lookup_written_old (hlookup ▸ Option.some_ne_none row) hlookup _
          · rfl
      | deleteThread threadId =>
          show Keyed.lookup _ key ((after reserved earlier).writes.filter _) = _
          have hfilter := lookup_filter_key (fun row : CheckpointWriteRow δ => row.key)
            (fun key => decide (key.checkpoint.threadId ≠ threadId)) key (after reserved earlier).writes
          rw [hfilter, ih, recordedWrite]
          by_cases hthread : threadId = key.checkpoint.threadId
          · rw [if_pos hthread, if_neg (by simp [hthread])]
          · rw [if_neg hthread, if_pos (by simpa using Ne.symm hthread)]

end tables

/-! ### Reading -/

section reading

variable (reserved : ReservedChannels)

theorem mem_checkpoints_after {calls : List (SaverCall δ μ)} {row : CheckpointRow δ μ} :
    row ∈ (after reserved calls).checkpoints ↔ lastPut row.key calls = some row := by
  rw [← lookup_checkpoints_after reserved]
  refine ⟨fun hrow => Keyed.lookup_of_mem (keys_after reserved calls).1 hrow, fun h => ?_⟩
  exact (Keyed.lookup_eq_some h).1

theorem mem_writes_after {calls : List (SaverCall δ μ)} {row : CheckpointWriteRow δ} :
    row ∈ (after reserved calls).writes ↔ recordedWrite reserved row.key calls = some row := by
  rw [← lookup_writes_after reserved]
  refine ⟨fun hrow => Keyed.lookup_of_mem (keys_after reserved calls).2 hrow, fun h => ?_⟩
  exact (Keyed.lookup_eq_some h).1

theorem pairwise_lt_insertionSort {α κ : Type} [LinearOrder κ] (key : α → κ) {l : List α}
    (h : (l.map key).Nodup) :
    (l.insertionSort fun x y => key x ≤ key y).Pairwise fun x y => key x < key y := by
  have hsorted := List.pairwise_insertionSort (fun x y => key x ≤ key y) l
  have hnodup : ((l.insertionSort fun x y => key x ≤ key y).map key).Nodup :=
    ((List.perm_insertionSort (fun x y => key x ≤ key y) l).map key).nodup_iff.mpr h
  refine (hsorted.and (List.pairwise_map.mp hnodup)).imp fun hxy => ?_
  exact lt_of_le_of_ne hxy.1 hxy.2

theorem writesOf_after (calls : List (SaverCall δ μ)) (key : CheckpointKey) :
    ((after reserved calls).writesOf key).Pairwise (fun row row' => writeRank row < writeRank row') ∧
      ∀ row, row ∈ (after reserved calls).writesOf key ↔
        row.key.checkpoint = key ∧ recordedWrite reserved row.key calls = some row := by
  have hkeys := (keys_after reserved calls).2
  have hmem : ∀ row, row ∈ (after reserved calls).writesOf key ↔
      row.key.checkpoint = key ∧ recordedWrite reserved row.key calls = some row := by
    intro row
    unfold writesOf
    rw [List.mem_insertionSort, List.mem_filter, mem_writes_after reserved, decide_eq_true_iff, and_comm]
  refine ⟨pairwise_lt_insertionSort writeRank ?_, hmem⟩
  rw [List.nodup_map_iff_inj_on ((List.Nodup.of_map _ hkeys).filter _)]
  intro row hrow row' hrow' hrank
  refine Keyed.eq_of_key hkeys (List.mem_of_mem_filter hrow) (List.mem_of_mem_filter hrow') ?_
  have hkey : row.key.checkpoint = key := of_decide_eq_true (List.mem_filter.mp hrow).2
  have hkey' : row'.key.checkpoint = key := of_decide_eq_true (List.mem_filter.mp hrow').2
  have hpair := congrArg ofLex hrank
  have htask : row.key.taskId = row'.key.taskId := congrArg Prod.fst hpair
  have hidx : row.key.idx = row'.key.idx := congrArg Prod.snd hpair
  exact WriteKey.ext (hkey.trans hkey'.symm) htask hidx

theorem mem_rowsOf_after {calls : List (SaverCall δ μ)} {threadId checkpointNs : String}
    {row : CheckpointRow δ μ} : row ∈ (after reserved calls).rowsOf threadId checkpointNs ↔
      lastPut row.key calls = some row ∧ row.key.threadId = threadId ∧ row.key.checkpointNs = checkpointNs := by
  unfold rowsOf
  rw [List.mem_filter, mem_checkpoints_after reserved, decide_eq_true_iff]

/-- The checkpoint that is meant: the named one, or the greatest of the thread and namespace. -/
def Meant (calls : List (SaverCall δ μ)) (threadId checkpointNs : String) (checkpointId : Option String)
    (row : CheckpointRow δ μ) : Prop :=
  lastPut row.key calls = some row ∧ row.key.threadId = threadId ∧ row.key.checkpointNs = checkpointNs ∧
    (∀ id, checkpointId = some id → row.key.checkpointId = id) ∧
    (checkpointId = none → ∀ id, (lastPut ⟨threadId, checkpointNs, id⟩ calls).isSome →
      id ≤ row.key.checkpointId)

theorem Meant.eq {calls : List (SaverCall δ μ)} {threadId checkpointNs : String}
    {checkpointId : Option String} {row row' : CheckpointRow δ μ}
    (h : Meant calls threadId checkpointNs checkpointId row)
    (h' : Meant calls threadId checkpointNs checkpointId row') : row = row' := by
  obtain ⟨hput, hthread, hns, hnamed, hgreatest⟩ := h
  obtain ⟨hput', hthread', hns', hnamed', hgreatest'⟩ := h'
  have hid : row.key.checkpointId = row'.key.checkpointId := by
    cases checkpointId with
    | some id => rw [hnamed id rfl, hnamed' id rfl]
    | none =>
        have hkey : row.key = ⟨threadId, checkpointNs, row.key.checkpointId⟩ :=
          CheckpointKey.ext hthread hns rfl
        have hkey' : row'.key = ⟨threadId, checkpointNs, row'.key.checkpointId⟩ :=
          CheckpointKey.ext hthread' hns' rfl
        refine le_antisymm (hgreatest' rfl _ ?_) (hgreatest rfl _ ?_)
        · rw [← hkey, hput]
          rfl
        · rw [← hkey', hput']
          rfl
  have hkey : row.key = row'.key :=
    CheckpointKey.ext (hthread.trans hthread'.symm) (hns.trans hns'.symm) hid
  rw [hkey] at hput
  exact Option.some.inj (hput.symm.trans hput')

theorem meant_of_row {calls : List (SaverCall δ μ)} {threadId checkpointNs : String}
    {checkpointId : Option String} {row : CheckpointRow δ μ}
    (h : (after reserved calls).row threadId checkpointNs checkpointId = some row) :
    Meant calls threadId checkpointNs checkpointId row := by
  cases checkpointId with
  | some id =>
      have hlookup : lastPut ⟨threadId, checkpointNs, id⟩ calls = some row :=
        (lookup_checkpoints_after reserved calls _).symm.trans h
      have hkey := (lastPut_bound hlookup).1
      refine ⟨hkey ▸ hlookup, ?_, ?_, ?_, ?_⟩
      · rw [hkey]
      · rw [hkey]
      · intro id' hid
        rw [hkey, ← Option.some.inj hid]
      · exact fun hnone => absurd hnone (Option.some_ne_none id)
  | none =>
      obtain ⟨hput, hthread, hns⟩ := (mem_rowsOf_after reserved).mp (List.argmax_mem h)
      refine ⟨hput, hthread, hns, fun id hid => absurd hid.symm (Option.some_ne_none id), ?_⟩
      intro _ id hid
      obtain ⟨row', hrow'⟩ := Option.isSome_iff_exists.mp hid
      have hkey' := (lastPut_bound hrow').1
      have hmem : row' ∈ (after reserved calls).rowsOf threadId checkpointNs := by
        refine (mem_rowsOf_after reserved).mpr ⟨hkey' ▸ hrow', ?_, ?_⟩
        · rw [hkey']
        · rw [hkey']
      have hle : row'.key.checkpointId ≤ row.key.checkpointId :=
        List.le_of_mem_argmax (f := fun row : CheckpointRow δ μ => row.key.checkpointId) hmem h
      rwa [hkey'] at hle

theorem row_after (calls : List (SaverCall δ μ)) (threadId checkpointNs : String)
    (checkpointId : Option String) (row : CheckpointRow δ μ) :
    (after reserved calls).row threadId checkpointNs checkpointId = some row ↔
      Meant calls threadId checkpointNs checkpointId row := by
  refine ⟨meant_of_row reserved, fun h => ?_⟩
  obtain ⟨row', hrow'⟩ : ∃ row', (after reserved calls).row threadId checkpointNs checkpointId = some row' := by
    obtain ⟨hput, hthread, hns, hnamed, -⟩ := h
    cases checkpointId with
    | some id =>
        have hkey : row.key = ⟨threadId, checkpointNs, id⟩ := CheckpointKey.ext hthread hns (hnamed id rfl)
        exact ⟨row, (lookup_checkpoints_after reserved calls _).trans (hkey ▸ hput)⟩
    | none =>
        refine Option.ne_none_iff_exists'.mp fun hnone => ?_
        have hmem : row ∈ (after reserved calls).rowsOf threadId checkpointNs :=
          (mem_rowsOf_after reserved).mpr ⟨hput, hthread, hns⟩
        rw [List.argmax_eq_none.mp hnone] at hmem
        exact absurd hmem List.not_mem_nil
  rw [hrow', (meant_of_row reserved hrow').eq h]

/-- After any calls a checkpoint is read as it was put last since its thread was deleted, of the run that its
thread was bound to first, with each write against it that counts once, in the order of tasks and places. -/
theorem getTuple_reads_history (calls : List (SaverCall δ μ)) (threadId checkpointNs : String)
    (checkpointId : Option String) :
    ((after reserved calls).getTuple threadId checkpointNs checkpointId = none ↔
      ∀ row, ¬ Meant calls threadId checkpointNs checkpointId row) ∧
    ∀ tuple, (after reserved calls).getTuple threadId checkpointNs checkpointId = some tuple →
      ∃ row thread, ∃ writes : List (CheckpointWriteRow δ), Meant calls threadId checkpointNs checkpointId row ∧
        boundTo threadId calls = some thread ∧ row.workflowId = thread.workflowId ∧
        row.workflowRunId = thread.workflowRunId ∧
        (writes.Pairwise fun write write' => writeRank write < writeRank write') ∧
        (∀ write, write ∈ writes ↔
          write.key.checkpoint = row.key ∧ recordedWrite reserved write.key calls = some write) ∧
        tuple = { key := row.key, checkpoint := row.checkpoint, metadata := row.metadata,
                  parentConfig := (row.parentCheckpointId.filter (· ≠ "")).map fun id =>
                    ⟨threadId, checkpointNs, id⟩,
                  pendingWrites := writes.map fun write => (write.key.taskId, write.channel, write.value) } := by
  constructor
  · unfold getTuple
    rw [Option.map_eq_none_iff, Option.eq_none_iff_forall_ne_some]
    exact forall_congr' fun row => not_congr (row_after reserved ..)
  · intro tuple htuple
    obtain ⟨row, hrow, rfl⟩ := Option.map_eq_some_iff.mp htuple
    have hmeant := meant_of_row reserved hrow
    obtain ⟨hput, hthread, hns, -⟩ := id hmeant
    obtain ⟨-, thread, hbound, hworkflow, hrun⟩ := lastPut_bound hput
    obtain ⟨hsorted, hmem⟩ := writesOf_after reserved calls row.key
    refine ⟨row, thread, _, hmeant, hthread ▸ hbound, hworkflow, hrun, hsorted, hmem, ?_⟩
    simp only [tupleOf, hthread, hns]

/-! ### Pages -/

/-- What a page of the checkpoints of a thread and namespace asks for. -/
def pageQuery (threadId checkpointNs : String) (filter : μ → Bool) (before : Option String) (limit : Option ℕ) :
    Listing μ where
  threadId := some threadId
  checkpointNs := some checkpointNs
  checkpointId := none
  before := before
  filter := filter
  limit := limit

/-- The checkpoints of a thread and namespace, newest first. -/
def newestFirst (tables : CheckpointTables δ μ) (threadId checkpointNs : String) : List (CheckpointRow δ μ) :=
  (tables.rowsOf threadId checkpointNs).insertionSort fun row row' => row'.key.checkpointId ≤ row.key.checkpointId

theorem nodup_ids (calls : List (SaverCall δ μ)) (threadId checkpointNs : String) :
    (((after reserved calls).rowsOf threadId checkpointNs).map
      fun row => OrderDual.toDual row.key.checkpointId).Nodup := by
  have hnodup : ((after reserved calls).rowsOf threadId checkpointNs).Nodup :=
    (List.Nodup.of_map _ (keys_after reserved calls).1).filter _
  rw [List.nodup_map_iff_inj_on hnodup]
  intro row hrow row' hrow' hid
  obtain ⟨hput, hthread, hns⟩ := (mem_rowsOf_after reserved).mp hrow
  obtain ⟨hput', hthread', hns'⟩ := (mem_rowsOf_after reserved).mp hrow'
  have hkey : row.key = row'.key :=
    CheckpointKey.ext (hthread.trans hthread'.symm) (hns.trans hns'.symm) (OrderDual.toDual_inj.mp hid)
  rw [hkey] at hput
  exact Option.some.inj (hput.symm.trans hput')

theorem newestFirst_sorted (calls : List (SaverCall δ μ)) (threadId checkpointNs : String) :
    (newestFirst (after reserved calls) threadId checkpointNs).Pairwise
      fun row row' => row'.key.checkpointId < row.key.checkpointId :=
  pairwise_lt_insertionSort (fun row : CheckpointRow δ μ => OrderDual.toDual row.key.checkpointId)
    (nodup_ids reserved calls threadId checkpointNs)

theorem insertionSort_filter_newest (calls : List (SaverCall δ μ)) (threadId checkpointNs : String)
    (keep : CheckpointRow δ μ → Bool) :
    (((after reserved calls).rowsOf threadId checkpointNs).filter keep).insertionSort
        (fun row row' => row'.key.checkpointId ≤ row.key.checkpointId) =
      (newestFirst (after reserved calls) threadId checkpointNs).filter keep := by
  refine List.Perm.eq_of_pairwise ?_ ?_
    ((newestFirst_sorted reserved calls threadId checkpointNs).filter keep) ?_
  · exact fun row row' _ _ hlt hlt' => absurd hlt' (lt_asymm hlt)
  · refine pairwise_lt_insertionSort (fun row : CheckpointRow δ μ => OrderDual.toDual row.key.checkpointId) ?_
    exact (nodup_ids reserved calls threadId checkpointNs).sublist (List.filter_sublist.map _)
  · exact (List.perm_insertionSort _ _).trans ((List.perm_insertionSort _ _).symm.filter keep)

theorem listTuples_page (calls : List (SaverCall δ μ)) (threadId checkpointNs : String) (filter : μ → Bool)
    (before : Option String) (limit : Option ℕ) :
    (after reserved calls).listTuples (pageQuery threadId checkpointNs filter before limit) =
      (limit.elim id (fun limit => List.take (max limit 1))
        (((newestFirst (after reserved calls) threadId checkpointNs).filter fun row => filter row.metadata).filter
          fun row => before.all fun id => decide (row.key.checkpointId < id))).map
        (after reserved calls).tupleOf := by
  have htakes : (after reserved calls).checkpoints.filter
      (pageQuery threadId checkpointNs filter before limit).takes =
      ((after reserved calls).rowsOf threadId checkpointNs).filter
        fun row => before.all fun id => decide (row.key.checkpointId < id) := by
    unfold rowsOf
    rw [List.filter_filter]
    refine List.filter_congr fun row _ => ?_
    show ((threadId == row.key.threadId && checkpointNs == row.key.checkpointNs && true) &&
      before.all fun id => decide (row.key.checkpointId < id)) = _
    rw [Bool.and_true, Bool.and_comm]
    refine congrArg _ (Bool.eq_iff_iff.mpr ?_)
    rw [Bool.and_eq_true, beq_iff_eq, beq_iff_eq, decide_eq_true_iff]
    exact and_congr eq_comm eq_comm
  simp only [listTuples, htakes, insertionSort_filter_newest]
  rw [List.filter_comm]
  cases limit with
  | none => rfl
  | some limit => rfl

/-- After any calls a listing has each checkpoint of the thread and namespace that the filter takes once,
newest first and as it is read by its id; a limited listing is its start, and what is listed before any
checkpoint of it goes on right behind that one. -/
theorem listTuples_pages (calls : List (SaverCall δ μ)) (threadId checkpointNs : String) (filter : μ → Bool) :
    ∃ all, (after reserved calls).listTuples (pageQuery threadId checkpointNs filter none none) = all ∧
      (all.Pairwise fun tuple tuple' => tuple'.key.checkpointId < tuple.key.checkpointId) ∧
      (∀ tuple, tuple ∈ all ↔
        (after reserved calls).getTuple threadId checkpointNs (some tuple.key.checkpointId) = some tuple ∧
          filter tuple.metadata = true) ∧
      (∀ limit, (after reserved calls).listTuples (pageQuery threadId checkpointNs filter none (some limit)) =
        all.take (max limit 1)) ∧
      ∀ n, ∀ hn : n < all.length, ∀ limit,
        (after reserved calls).listTuples
          (pageQuery threadId checkpointNs filter (some all[n].key.checkpointId) (some limit)) =
        (all.drop (n + 1)).take (max limit 1) := by
  have hsorted := (newestFirst_sorted reserved calls threadId checkpointNs).filter fun row => filter row.metadata
  have hall := listTuples_page reserved calls threadId checkpointNs filter none
  simp only [Option.all_none, List.filter_true] at hall
  refine ⟨_, rfl, ?_, ?_, fun limit => ?_, fun n hn limit => ?_⟩
  · rw [hall]
    exact List.pairwise_map.mpr hsorted
  · intro tuple
    rw [hall]
    constructor
    · intro htuple
      obtain ⟨row, hrow, rfl⟩ := List.mem_map.mp htuple
      obtain ⟨hrow, hfilter⟩ := List.mem_filter.mp hrow
      obtain ⟨hput, hthread, hns⟩ := (mem_rowsOf_after reserved).mp ((List.mem_insertionSort _).mp hrow)
      refine ⟨?_, hfilter⟩
      have hread : (after reserved calls).row threadId checkpointNs (some row.key.checkpointId) = some row := by
        refine (row_after reserved ..).mpr ⟨hput, hthread, hns, fun id hid => Option.some.inj hid, ?_⟩
        exact fun hnone => absurd hnone (Option.some_ne_none _)
      exact congrArg (Option.map (after reserved calls).tupleOf) hread
    · rintro ⟨hread, hfilter⟩
      obtain ⟨row, hrow, rfl⟩ := Option.map_eq_some_iff.mp hread
      obtain ⟨hput, hthread, hns, -⟩ := meant_of_row reserved hrow
      refine List.mem_map.mpr ⟨row, List.mem_filter.mpr ⟨(List.mem_insertionSort _).mpr ?_, hfilter⟩, rfl⟩
      exact (mem_rowsOf_after reserved).mpr ⟨hput, hthread, hns⟩
  · rw [listTuples_page, hall]
    simp only [Option.all_none, List.filter_true]
    exact List.map_take
  · rw [listTuples_page]
    simp only [hall, Option.elim_none, id_eq, List.length_map, List.getElem_map] at hn ⊢
    let older : CheckpointRow δ μ → CheckpointRow δ μ → Bool :=
      fun row row' => decide (row'.key.checkpointId < row.key.checkpointId)
    have hirrefl : ∀ row, ¬ older row row = true := fun row hrow => lt_irrefl _ (of_decide_eq_true hrow)
    have hdrop := Keyed.filter_after_eq_drop hirrefl
      (hsorted.imp fun h => ⟨decide_eq_true h, fun h' => lt_asymm h (of_decide_eq_true h')⟩) hn
    show List.map _ (List.take _ (List.filter _ _)) = _
    rw [← List.map_drop, ← List.map_take]
    exact congrArg (fun rows => (List.take (max limit 1) rows).map (after reserved calls).tupleOf) hdrop

end reading

end PersonalOS
