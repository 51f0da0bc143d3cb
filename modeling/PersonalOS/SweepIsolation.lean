import PersonalOS.CheckpointMonitor

/-! # Which failures a sweep survives

One sweep over a table of pending checkpoints, with nobody else on it.  Each condition, each thread and
each started graph has its answer, and a started graph may leave its thread with steps to do.

* **Handling.** What becomes of a checkpoint's row is settled by the checkpoint, the answers and, where it is
  to be fired, by where its thread stands (`handle_row`); no other row is touched.
* **Threads.** A thread stands where the last path started on it has left it (`SweepSurroundings.advance`).
* **Isolation.** An evaluator that raises ends the sweep: whatever is behind its checkpoint is not considered.
  A started graph that raises is caught, but where it leaves its thread with steps to do the later checkpoints
  of the thread are deferred.  `sweep_isolated_iff` says that this is all that breaks the isolation. -/

namespace PersonalOS

open Concurrent Concurrent.Prog PendingCheckpointStore PendingCheckpointMonitor

/-! ### The sweep and its failures -/

namespace CheckpointTable

/-- The row of an id. -/
def rowFor (checkpointId : UUID) (table : CheckpointTable) : Option PendingCheckpoint :=
  table.rows.find? (·.checkpointId == checkpointId)

/-- The table without the row of an id. -/
def without (checkpointId : UUID) (table : CheckpointTable) : CheckpointTable where
  rows := table.rows.filter (·.checkpointId != checkpointId)
  ids_nodup := List.Nodup.sublist (List.filter_sublist.map _) table.ids_nodup
  keys_nodup := List.Nodup.sublist (List.filter_sublist.map _) table.keys_nodup

theorem rowFor_eq_some {table : CheckpointTable} {row : PendingCheckpoint} (h : row ∈ table.rows) :
    table.rowFor row.checkpointId = some row := by
  unfold rowFor
  cases hfind : table.rows.find? (·.checkpointId == row.checkpointId) with
  | none =>
      have := List.find?_eq_none.mp hfind row h
      simp at this
  | some other =>
      have hid := List.find?_some hfind
      rw [beq_iff_eq] at hid
      rw [eq_of_id (List.mem_of_find?_eq_some hfind) h hid]

theorem rowFor_close {checkpointId id : UUID} {status : PendingCheckpointStatus} {reason : String} {now : Time}
    {table : CheckpointTable} : (table.close checkpointId status reason now).rowFor id =
      (table.rowFor id).map (closeRow checkpointId status reason now) := by
  have hid : ((·.checkpointId == id) ∘ closeRow checkpointId status reason now) =
      (·.checkpointId == id : PendingCheckpoint → Bool) := by
    funext row
    exact congrArg (· == id) (PendingCheckpoint.checkpointId_of_wait (closeRow_wait ..))
  unfold rowFor close
  rw [List.find?_map, hid]

end CheckpointTable

/-- The thread can be started on: it has been checkpointed, and no step of it is left to do. -/
def WorkflowResumeState.Free (state : WorkflowResumeState) : Prop := state.checkpointId ≠ none ∧ state.next = []

instance (state : WorkflowResumeState) : Decidable state.Free := inferInstanceAs (Decidable (_ ∧ _))

/-- The surroundings of a sweep: what they answer at first, and where the paths that it starts leave their
threads. -/
structure SweepSurroundings extends CheckpointInput where
  /-- The last checkpoint that the path of a wait writes on its thread, with the steps that are then left to
  do; none when it writes none, as when its lease is refused. -/
  leaves : UUID → Option (UUID × List String)

namespace SweepSurroundings

variable {τ : Type} (w : SweepSurroundings)

/-- Where the path of a wait leaves a thread that stands at `state`. -/
def after (checkpointId : UUID) (state : WorkflowResumeState) : WorkflowResumeState :=
  (w.leaves checkpointId).elim state fun left => ⟨some left.1, left.2⟩

/-- Where an event leaves the thread, if it is a start that moves it. -/
def leftBy (table : CheckpointTable) (threadId : String) : CheckpointEvent τ → Option WorkflowResumeState
  | .started _ checkpointId =>
      if (table.rowFor checkpointId).any (·.threadId == threadId) then
        (w.leaves checkpointId).map fun left => ⟨some left.1, left.2⟩
      else none
  | _ => none

/-- Where a thread stands: where the last path started on it has left it. -/
def standing (s : CheckpointState τ) (threadId : String) : WorkflowResumeState :=
  (s.events.findSome? (w.leftBy s.table threadId)).getD (w.inspect threadId)

/-- What the surroundings answer in a state. -/
def answers (s : CheckpointState τ) : CheckpointInput := { w.toCheckpointInput with inspect := w.standing s }

/-- The checkpoint is to be fired: its time has come, its condition is unmet and its thread is known. -/
def toFire (now : Time) (checkpoint : PendingCheckpoint) : Bool :=
  (w.isMet checkpoint.condition).toOption == some false && checkpoint.isDue now &&
    !checkpoint.hasExpired now && w.registered checkpoint.threadId

/-- Where the threads stand once the checkpoint has been handled. -/
def advance (now : Time) (stands : String → WorkflowResumeState) (checkpoint : PendingCheckpoint) :
    String → WorkflowResumeState :=
  if w.toFire now checkpoint ∧ (stands checkpoint.threadId).Free then
    Function.update stands checkpoint.threadId (w.after checkpoint.checkpointId (stands checkpoint.threadId))
  else stands

end SweepSurroundings

/-- One sweep by itself: its report or exception, and the state it leaves. -/
def sweepAlone (w : SweepSurroundings) (now : Time) (limit : ℕ) (table : CheckpointTable) :
    Except CheckpointError SweepReport × CheckpointState Unit :=
  (sweep () (some now) limit).finishIn w.answers ⟨table, []⟩

/-- The evaluator raises when it is asked about the checkpoint. -/
def EvaluatorRaises (w : SweepSurroundings) (checkpoint : PendingCheckpoint) : Prop :=
  (w.isMet checkpoint.condition).toOption = none

/-- The start of the graph path the checkpoint names raises. -/
def GraphRaises (w : SweepSurroundings) (checkpoint : PendingCheckpoint) : Prop :=
  w.start checkpoint ≠ .started

/-- The path leaves its thread with steps to do. -/
def Parks (w : SweepSurroundings) (checkpoint : PendingCheckpoint) : Prop :=
  ∃ left, w.leaves checkpoint.checkpointId = some left ∧ left.2 ≠ []

/-- The path is started on a free thread, raises and leaves the thread with steps to do. -/
structure RaisesMidway (w : SweepSurroundings) (now : Time) (before : List PendingCheckpoint)
    (failing : PendingCheckpoint) : Prop where
  fires : w.toFire now failing = true
  free : (w.inspect failing.threadId).Free
  unparked : ∀ c ∈ before, c.threadId = failing.threadId → w.toFire now c = true → ¬ Parks w c
  raises : GraphRaises w failing
  parks : Parks w failing

/-- The condition of the checkpoint was asked. -/
def Considered {τ : Type} (checkpointId : UUID) (s : CheckpointState τ) : Prop :=
  ∃ t met, .asked t checkpointId met ∈ s.events

/-- A failing checkpoint keeps no other one of the sweep from being considered, and every other
one ends the sweep as it would have without it. -/
def Isolated (w : SweepSurroundings) (now : Time) (limit : ℕ) (table : CheckpointTable) : Prop :=
  ∀ failing ∈ table.due now limit,
    EvaluatorRaises w failing ∨ GraphRaises w failing →
    ∀ other ∈ table.due now limit, other.checkpointId ≠ failing.checkpointId →
      Considered other.checkpointId (sweepAlone w now limit table).2 ∧
        (sweepAlone w now limit table).2.table.rowFor other.checkpointId =
          (sweepAlone w now limit (table.without failing.checkpointId)).2.table.rowFor
            other.checkpointId

/-! ### Where the threads stand -/

section threads

variable {τ : Type} {t : τ} {w : SweepSurroundings} {now : Time} {s : CheckpointState τ}
variable {checkpoint : PendingCheckpoint} {stands stands' : String → WorkflowResumeState} {threadId : String}

theorem standing_closed {checkpointId : UUID} {status : PendingCheckpointStatus} {reason : String} :
    w.standing { table := s.table.close checkpointId status reason now
                 events := .closed t checkpointId status now :: s.events } = w.standing s := by
  have hleft : ∀ threadId, w.leftBy (τ := τ) (s.table.close checkpointId status reason now) threadId =
      w.leftBy s.table threadId := by
    intro threadId
    funext event
    cases event with
    | started process id =>
        have hthread : ∀ row : PendingCheckpoint,
            (CheckpointTable.closeRow checkpointId status reason now row).threadId = row.threadId := by
          intro row
          unfold CheckpointTable.closeRow
          split <;> rfl
        simp only [SweepSurroundings.leftBy, CheckpointTable.rowFor_close, Option.any_map, hthread]
    | asked process id met => rfl
    | closed process id status now => rfl
  funext threadId
  show (List.findSome? _ s.events).getD _ = _
  rw [hleft]
  rfl

theorem standing_started {row : PendingCheckpoint}
    (hrow : s.table.rowFor checkpoint.checkpointId = some row) (hthread : row.threadId = checkpoint.threadId) :
    w.standing (s.record (.started t checkpoint.checkpointId)) =
      Function.update (w.standing s) checkpoint.threadId
        (w.after checkpoint.checkpointId (w.standing s checkpoint.threadId)) := by
  funext threadId
  have hleft : w.leftBy (τ := τ) s.table threadId (.started t checkpoint.checkpointId) =
      if checkpoint.threadId = threadId then
        (w.leaves checkpoint.checkpointId).map fun left => ⟨some left.1, left.2⟩
      else none := by
    simp only [SweepSurroundings.leftBy, hrow, Option.any_some, hthread, beq_iff_eq]
  have hevents : w.standing (s.record (.started t checkpoint.checkpointId)) threadId =
      ((w.leftBy s.table threadId (.started t checkpoint.checkpointId)).or
        (s.events.findSome? (w.leftBy s.table threadId))).getD (w.inspect threadId) := by
    show (List.findSome? (w.leftBy s.table threadId) (_ :: s.events)).getD _ = _
    rw [List.findSome?_cons]
    cases w.leftBy s.table threadId (.started t checkpoint.checkpointId) <;> rfl
  rw [hevents, hleft]
  by_cases h : checkpoint.threadId = threadId
  · subst h
    rw [if_pos rfl, Function.update_self]
    unfold SweepSurroundings.after
    cases w.leaves checkpoint.checkpointId <;> rfl
  · rw [if_neg h, Function.update_of_ne (Ne.symm h)]
    rfl

/-- Both standings let the same happen next: they are the same, or a path can be started in both. -/
def StandAlike (state state' : WorkflowResumeState) : Prop := state = state' ∨ state.Free ∧ state'.Free

theorem advance_of_ne (h : checkpoint.threadId ≠ threadId) :
    w.advance now stands checkpoint threadId = stands threadId := by
  unfold SweepSurroundings.advance
  split
  · exact Function.update_of_ne (Ne.symm h) _ _
  · rfl

theorem advance_of_not_toFire (h : w.toFire now checkpoint = false) :
    w.advance now stands checkpoint = stands := by
  unfold SweepSurroundings.advance
  rw [if_neg (by rw [h]; exact fun hc => Bool.false_ne_true hc.1)]

theorem advance_of_not_free (h : ¬ (stands checkpoint.threadId).Free) :
    w.advance now stands checkpoint = stands := if_neg fun hc => h hc.2

theorem advance_fired (h : w.toFire now checkpoint = true) (hfree : (stands checkpoint.threadId).Free) :
    w.advance now stands checkpoint checkpoint.threadId =
      w.after checkpoint.checkpointId (stands checkpoint.threadId) := by
  unfold SweepSurroundings.advance
  rw [if_pos ⟨h, hfree⟩, Function.update_self]

theorem after_free {state : WorkflowResumeState} (h : state.Free) :
    (w.after checkpoint.checkpointId state).Free ↔ ¬ Parks w checkpoint := by
  unfold SweepSurroundings.after Parks
  cases hleft : w.leaves checkpoint.checkpointId with
  | none => exact iff_of_true h (by rintro ⟨left, hsome, -⟩; cases hsome)
  | some left =>
      constructor
      · rintro hfree ⟨left', hsome, hnext⟩
        obtain rfl := Option.some.inj hsome
        exact hnext hfree.2
      · intro hparks
        exact ⟨Option.some_ne_none _, not_not.mp fun hnext => hparks ⟨left, rfl, hnext⟩⟩

theorem advance_free : (w.advance now stands checkpoint threadId).Free ↔
    (stands threadId).Free ∧
      (checkpoint.threadId = threadId → w.toFire now checkpoint = true → ¬ Parks w checkpoint) := by
  by_cases hthread : checkpoint.threadId = threadId
  · subst hthread
    cases hfire : w.toFire now checkpoint with
    | false =>
        rw [advance_of_not_toFire hfire]
        exact ⟨fun h => ⟨h, fun _ h => absurd h Bool.false_ne_true⟩, fun h => h.1⟩
    | true =>
        by_cases hfree : (stands checkpoint.threadId).Free
        · rw [advance_fired hfire hfree, after_free hfree]
          exact ⟨fun h => ⟨hfree, fun _ _ => h⟩, fun h => h.2 rfl rfl⟩
        · rw [advance_of_not_free hfree]
          exact iff_of_false hfree fun h => hfree h.1
  · rw [advance_of_ne hthread]
    exact ⟨fun h => ⟨h, fun heq => absurd heq hthread⟩, fun h => h.1⟩

theorem advance_alike (h : StandAlike (stands threadId) (stands' threadId)) :
    StandAlike (w.advance now stands checkpoint threadId) (w.advance now stands' checkpoint threadId) := by
  by_cases hthread : checkpoint.threadId = threadId
  · subst hthread
    cases hfire : w.toFire now checkpoint with
    | false => rwa [advance_of_not_toFire hfire, advance_of_not_toFire hfire]
    | true =>
        by_cases hfree : (stands checkpoint.threadId).Free
        · have hfree' : (stands' checkpoint.threadId).Free := h.elim (fun heq => heq ▸ hfree) And.right
          rw [advance_fired hfire hfree, advance_fired hfire hfree']
          unfold SweepSurroundings.after
          cases w.leaves checkpoint.checkpointId with
          | none => exact h
          | some left => exact Or.inl rfl
        · have heq : stands checkpoint.threadId = stands' checkpoint.threadId :=
            h.resolve_right fun hc => hfree hc.1
          rw [advance_of_not_free hfree, advance_of_not_free (heq ▸ hfree)]
          exact h
  · rwa [advance_of_ne hthread, advance_of_ne hthread]

theorem foldl_advance_free {before : List PendingCheckpoint} :
    (before.foldl (w.advance now) stands threadId).Free ↔
      (stands threadId).Free ∧
        ∀ c ∈ before, c.threadId = threadId → w.toFire now c = true → ¬ Parks w c := by
  induction before generalizing stands with
  | nil => exact ⟨fun h => ⟨h, fun _ hc => absurd hc List.not_mem_nil⟩, fun h => h.1⟩
  | cons c before ih =>
      rw [List.foldl_cons, ih, advance_free, List.forall_mem_cons, and_assoc]

theorem foldl_advance_alike {before : List PendingCheckpoint}
    (h : StandAlike (stands threadId) (stands' threadId)) :
    StandAlike (before.foldl (w.advance now) stands threadId) (before.foldl (w.advance now) stands' threadId) := by
  induction before generalizing stands stands' with
  | nil => exact h
  | cons c before ih => exact ih (advance_alike h)

theorem foldl_advance_of_quiet {before : List PendingCheckpoint}
    (h : ∀ c ∈ before, c.threadId = threadId → w.toFire now c = false) :
    before.foldl (w.advance now) stands threadId = stands threadId := by
  induction before generalizing stands with
  | nil => rfl
  | cons c before ih =>
      rw [List.foldl_cons, ih fun c' hc' => h c' (List.mem_cons_of_mem _ hc')]
      by_cases hthread : c.threadId = threadId
      · rw [advance_of_not_toFire (h c List.mem_cons_self hthread)]
      · exact advance_of_ne hthread

end threads

/-! ### Handling one checkpoint -/

section handling

variable {τ : Type} {t : τ} {w : SweepSurroundings} {now : Time} {s : CheckpointState τ}
variable {checkpoint : PendingCheckpoint}

theorem considered_asked {id : UUID} {checkpointId : UUID} {met : Option Bool} :
    Considered id (s.record (.asked t checkpointId met)) ↔ id = checkpointId ∨ Considered id s := by
  constructor
  · rintro ⟨u, met', hmem⟩
    rcases List.mem_cons.mp hmem with he | hmem
    · cases he
      exact Or.inl rfl
    · exact Or.inr ⟨u, met', hmem⟩
  · rintro (rfl | ⟨u, met', hmem⟩)
    · exact ⟨t, met, List.mem_cons_self⟩
    · exact ⟨u, met', List.mem_cons_of_mem _ hmem⟩

theorem considered_cons {id : UUID} {table : CheckpointTable} {e : CheckpointEvent τ}
    (hne : ∀ t id met, e ≠ .asked t id met) :
    Considered id { table, events := e :: s.events } ↔ Considered id s := by
  constructor
  · rintro ⟨u, met, hmem⟩
    rcases List.mem_cons.mp hmem with he | hmem
    · exact absurd he.symm (hne u id met)
    · exact ⟨u, met, hmem⟩
  · rintro ⟨u, met, hmem⟩
    exact ⟨u, met, List.mem_cons_of_mem _ hmem⟩

theorem finish_close {status : PendingCheckpointStatus} {reason : String}
    (hrow : checkpoint ∈ s.table.rows) (hpending : checkpoint.status = .pending)
    (hstatus : status ≠ .pending) :
    (close t checkpoint.checkpointId status reason (some now)).finishIn w.answers s =
      (.ok true, { table := s.table.close checkpoint.checkpointId status reason now
                   events := .closed t checkpoint.checkpointId status now :: s.events }) := by
  have hisPending : s.table.isPending checkpoint.checkpointId = true :=
    CheckpointTable.isPending_iff.mpr ⟨checkpoint, hrow, rfl, hpending⟩
  have hclose : s.close t checkpoint.checkpointId status reason now =
      (true, { table := s.table.close checkpoint.checkpointId status reason now
               events := .closed t checkpoint.checkpointId status now :: s.events }) := by
    rw [CheckpointState.close, if_pos hisPending]
  unfold close
  rw [if_neg hstatus]
  show (Except.ok (s.close t checkpoint.checkpointId status reason now).1,
    (s.close t checkpoint.checkpointId status reason now).2) = _
  rw [hclose]

/-- What `p` does with a checkpoint in state `s`: its row is closed so, the threads stand as `advance` states
afterwards, and nobody else is considered. -/
def SettledAt (w : SweepSurroundings) (checkpoint : PendingCheckpoint) (now : Time) (s : CheckpointState τ)
    (closing : Option (PendingCheckpointStatus × String)) (p : CheckpointProgram τ Bucket) : Prop :=
  ∃ bucket s', p.finishIn w.answers s = (.ok bucket, s') ∧
    s'.table = closing.elim s.table (fun x => s.table.close checkpoint.checkpointId x.1 x.2 now) ∧
    w.standing s' = w.advance now (w.standing s) checkpoint ∧ ∀ id, Considered id s' ↔ Considered id s

/-- How the row of a checkpoint is closed when its thread stands at a state. -/
structure ClosedBy (w : SweepSurroundings) (now : Time) (checkpoint : PendingCheckpoint)
    (closing : WorkflowResumeState → Option (PendingCheckpointStatus × String)) : Prop where
  steady : w.toFire now checkpoint = false → ∀ state state', closing state = closing state'
  fired : w.toFire now checkpoint = true → ∃ reason, ∀ state, state.Free → closing state = some (.fired, reason)
  parked : w.toFire now checkpoint = true → ∀ state, state.checkpointId ≠ none → state.next ≠ [] →
    closing state = none

/-- It is settled, however its thread stands, by one function of that. -/
def Settles (w : SweepSurroundings) (checkpoint : PendingCheckpoint) (now : Time)
    (p : CheckpointProgram τ Bucket) : Prop :=
  ∃ closing, ClosedBy w now checkpoint closing ∧ ∀ s, checkpoint ∈ s.table.rows →
    SettledAt w checkpoint now s (closing (w.standing s checkpoint.threadId)) p

theorem closedBy_const {closing : Option (PendingCheckpointStatus × String)}
    (hquiet : w.toFire now checkpoint = false) : ClosedBy w now checkpoint fun _ => closing :=
  ⟨fun _ _ _ => rfl, fun h => absurd (hquiet.symm.trans h) Bool.false_ne_true,
    fun h => absurd (hquiet.symm.trans h) Bool.false_ne_true⟩

theorem settledAt_input {β : Type} {f : CheckpointInput → β} {k : β → CheckpointProgram τ Bucket}
    {closing : Option (PendingCheckpointStatus × String)}
    (h : SettledAt w checkpoint now s closing (k (f (w.answers s)))) :
    SettledAt w checkpoint now s closing (input f >>= k) := h

theorem settledAt_ret {bucket : Bucket} (h : w.advance now (w.standing s) checkpoint = w.standing s) :
    SettledAt w checkpoint now s none (ret bucket) := ⟨bucket, s, rfl, rfl, h.symm, fun _ => Iff.rfl⟩

theorem settledAt_close {status : PendingCheckpointStatus} {reason : String} {bucket : Bucket}
    {k : Bool → CheckpointProgram τ Bucket} (hrow : checkpoint ∈ s.table.rows)
    (hpending : checkpoint.status = .pending) (hstatus : status ≠ .pending) (hk : k true = ret bucket)
    (h : w.advance now (w.standing s) checkpoint = w.standing s) :
    SettledAt w checkpoint now s (some (status, reason))
      (close t checkpoint.checkpointId status reason (some now) >>= k) := by
  have hdone : (close t checkpoint.checkpointId status reason (some now) >>= k).finishIn w.answers s =
      (.ok bucket, { table := s.table.close checkpoint.checkpointId status reason now
                     events := .closed t checkpoint.checkpointId status now :: s.events }) := by
    rw [finishIn_bind_ok (finish_close hrow hpending hstatus), hk]
    rfl
  exact ⟨bucket, _, hdone, rfl, standing_closed.trans h.symm, fun id => considered_cons (by simp)⟩

theorem settledAt_start {reason : String} {k : GraphStart → CheckpointProgram τ Bucket}
    {other : CheckpointProgram τ Bucket} (hrow : checkpoint ∈ s.table.rows)
    (hpending : checkpoint.status = .pending) (hk : ∀ outcome, ∃ bucket, k outcome = ret bucket)
    (hfire : w.toFire now checkpoint = true) (hfree : (w.standing s checkpoint.threadId).Free) :
    SettledAt w checkpoint now s (some (.fired, reason))
      (close t checkpoint.checkpointId .fired reason (some now) >>= fun won =>
        if won then startGraph t checkpoint >>= k else other) := by
  let s₁ : CheckpointState τ :=
    { table := s.table.close checkpoint.checkpointId .fired reason now
      events := .closed t checkpoint.checkpointId .fired now :: s.events }
  obtain ⟨bucket, hbucket⟩ := hk ((w.answers s₁).start checkpoint)
  refine ⟨bucket, s₁.record (.started t checkpoint.checkpointId), ?_, rfl, ?_, fun id => ?_⟩
  · rw [finishIn_bind_ok (finish_close hrow hpending (by decide)), if_pos rfl]
    show (k ((w.answers s₁).start checkpoint)).finishIn w.answers _ = _
    rw [hbucket]
    rfl
  · have hfound : s₁.table.rowFor checkpoint.checkpointId =
        some (CheckpointTable.closeRow checkpoint.checkpointId .fired reason now checkpoint) := by
      rw [CheckpointTable.rowFor_close, CheckpointTable.rowFor_eq_some hrow]
      rfl
    have hthread : (CheckpointTable.closeRow checkpoint.checkpointId .fired reason now checkpoint).threadId =
        checkpoint.threadId := by
      unfold CheckpointTable.closeRow
      split <;> rfl
    rw [standing_started hfound hthread, standing_closed]
    exact (if_pos ⟨hfire, hfree⟩).symm
  · exact (considered_cons (s := s₁) (by simp)).trans (considered_cons (by simp))

theorem toFire_eq {met : Bool} (hmet : w.isMet checkpoint.condition = .ok met) :
    w.toFire now checkpoint = (!met && checkpoint.isDue now && !checkpoint.hasExpired now &&
      w.registered checkpoint.threadId) := by
  unfold SweepSurroundings.toFire
  rw [hmet]
  cases met <;> rfl

theorem settles_fire (t : τ) (hpending : checkpoint.status = .pending)
    (hfire : w.toFire now checkpoint = w.registered checkpoint.threadId) :
    Settles w checkpoint now (fire t checkpoint now) := by
  cases hreg : w.registered checkpoint.threadId with
  | false =>
      have hquiet := hfire.trans hreg
      refine ⟨fun _ => some (.cancelled, s!"thread '{checkpoint.threadId}' is not registered to any workflow; " ++
        "there is nothing to resume"), closedBy_const hquiet, fun s hrow => ?_⟩
      unfold fire
      refine settledAt_input ?_
      split
      · rename_i hknown
        exact absurd (hreg.symm.trans hknown) Bool.false_ne_true
      · exact settledAt_close hrow hpending (by decide) rfl (advance_of_not_toFire hquiet)
  | true =>
      have hdue := hfire.trans hreg
      refine ⟨fun state =>
        if state.checkpointId = none then
          some (.cancelled, s!"thread '{checkpoint.threadId}' has no stored state to follow up on")
        else if state.next ≠ [] then none
        else some (.fired, s!"trigger {checkpoint.triggerAt} reached with " ++
          s!"{checkpoint.condition.describe} still unmet"), ⟨?_, ?_, ?_⟩, fun s hrow => ?_⟩
      · exact fun hquiet => absurd (hquiet.symm.trans hdue) Bool.false_ne_true
      · exact fun _ => ⟨_, fun state hfree => by rw [if_neg hfree.1, if_neg (not_not_intro hfree.2)]⟩
      · exact fun _ state hid hnext => by rw [if_neg hid, if_pos hnext]
      · unfold fire
        refine settledAt_input ?_
        split
        · refine settledAt_input ?_
          rw [show (w.answers s).inspect checkpoint.threadId = w.standing s checkpoint.threadId from rfl]
          beta_reduce
          by_cases hid : (w.standing s checkpoint.threadId).checkpointId = none
          · rw [if_pos hid, if_pos hid]
            exact settledAt_close hrow hpending (by decide) rfl
              (advance_of_not_free fun hfree => hfree.1 hid)
          · rw [if_neg hid, if_neg hid]
            by_cases hnext : (w.standing s checkpoint.threadId).next = []
            · rw [if_neg (not_not_intro hnext), if_neg (not_not_intro hnext)]
              exact settledAt_start hrow hpending (fun outcome => by cases outcome <;> exact ⟨_, rfl⟩) hdue
                ⟨hid, hnext⟩
            · rw [if_pos hnext, if_pos hnext]
              exact settledAt_ret (advance_of_not_free fun hfree => hnext hfree.2)
        · rename_i hunknown
          exact absurd hreg hunknown

theorem handle_raises (t : τ) (now : Time) (h : EvaluatorRaises w checkpoint) (s : CheckpointState τ) :
    ∃ error, (handle t checkpoint now).finishIn w.answers s =
      (.error error, s.record (.asked t checkpoint.checkpointId none)) := by
  unfold EvaluatorRaises at h
  cases hmet : w.isMet checkpoint.condition with
  | ok met =>
      rw [hmet] at h
      cases h
  | error message =>
      have hasked : (isMet t checkpoint).finishIn w.answers s =
          (.error (.evaluator message), s.record (.asked t checkpoint.checkpointId none)) := by
        simp [isMet, finishIn, SweepSurroundings.answers, hmet, Except.toOption]
      exact ⟨_, finishIn_bind_error hasked⟩

theorem handle_settles (t : τ) (now : Time) (h : ¬ EvaluatorRaises w checkpoint)
    (hpending : checkpoint.status = .pending) :
    ∃ closing, ClosedBy w now checkpoint closing ∧ ∀ s : CheckpointState τ, checkpoint ∈ s.table.rows →
      ∃ bucket s', (handle t checkpoint now).finishIn w.answers s = (.ok bucket, s') ∧
        s'.table = (closing (w.standing s checkpoint.threadId)).elim s.table
          (fun x => s.table.close checkpoint.checkpointId x.1 x.2 now) ∧
        w.standing s' = w.advance now (w.standing s) checkpoint ∧
        ∀ id, Considered id s' ↔ id = checkpoint.checkpointId ∨ Considered id s := by
  unfold EvaluatorRaises at h
  cases hmet : w.isMet checkpoint.condition with
  | error message =>
      rw [hmet] at h
      exact absurd rfl h
  | ok met =>
      -- What is done once the condition has been asked.
      have hsettles : ∀ k : Bool → CheckpointProgram τ Bucket, Settles w checkpoint now (k met) →
          ∃ closing, ClosedBy w now checkpoint closing ∧ ∀ s : CheckpointState τ, checkpoint ∈ s.table.rows →
            ∃ bucket s', (isMet t checkpoint >>= k).finishIn w.answers s = (.ok bucket, s') ∧
              s'.table = (closing (w.standing s checkpoint.threadId)).elim s.table
                (fun x => s.table.close checkpoint.checkpointId x.1 x.2 now) ∧
              w.standing s' = w.advance now (w.standing s) checkpoint ∧
              ∀ id, Considered id s' ↔ id = checkpoint.checkpointId ∨ Considered id s := by
        rintro k ⟨closing, hclosed, hk⟩
        refine ⟨closing, hclosed, fun s hrow => ?_⟩
        have hasked : (isMet t checkpoint).finishIn w.answers s =
            (.ok met, s.record (.asked t checkpoint.checkpointId (some met))) := by
          simp [isMet, finishIn, SweepSurroundings.answers, hmet, Except.toOption]
        obtain ⟨bucket, s', hfinish, htable, hstanding, hconsidered⟩ :=
          hk (s.record (.asked t checkpoint.checkpointId (some met))) hrow
        exact ⟨bucket, s', (finishIn_bind_ok hasked).trans hfinish, htable, hstanding,
          fun id => (hconsidered id).trans considered_asked⟩
      have hfire : w.toFire now checkpoint = _ := toFire_eq hmet
      unfold handle
      refine hsettles _ ?_
      unfold decideCheckpoint
      have hopen : checkpoint.isOpen = true := beq_iff_eq.mpr hpending
      rw [hopen]
      simp only [Bool.not_true, Bool.false_eq_true, if_false]
      -- Resolved, expired, fired or left waiting, as the code decides.
      cases met with
      | true => exact ⟨_, closedBy_const hfire, fun s hrow =>
          settledAt_close hrow hpending (by decide) rfl (advance_of_not_toFire hfire)⟩
      | false =>
          cases hexpired : checkpoint.hasExpired now with
          | true =>
              rw [hexpired, Bool.not_true, Bool.and_false, Bool.false_and] at hfire
              exact ⟨_, closedBy_const hfire, fun s hrow =>
                settledAt_close hrow hpending (by decide) rfl (advance_of_not_toFire hfire)⟩
          | false =>
              cases hdue : checkpoint.isDue now with
              | true =>
                  rw [hexpired, hdue] at hfire
                  exact settles_fire t hpending (hfire.trans (by simp))
              | false =>
                  rw [hdue, Bool.and_false, Bool.false_and, Bool.false_and] at hfire
                  exact ⟨_, closedBy_const hfire, fun s _ => settledAt_ret (advance_of_not_toFire hfire)⟩

theorem handle_frame (t : τ) (w : SweepSurroundings) (now : Time)
    (hrow : checkpoint ∈ s.table.rows) (hpending : checkpoint.status = .pending) :
    (∀ row ∈ s.table.rows, row.checkpointId ≠ checkpoint.checkpointId →
      row ∈ ((handle t checkpoint now).finishIn w.answers s).2.table.rows) ∧
    ∀ id, Considered id ((handle t checkpoint now).finishIn w.answers s).2 ↔
      id = checkpoint.checkpointId ∨ Considered id s := by
  by_cases hraises : EvaluatorRaises w checkpoint
  · obtain ⟨error, hfinish⟩ := handle_raises t now hraises s
    rw [hfinish]
    exact ⟨fun row hmem _ => hmem, fun id => considered_asked⟩
  · obtain ⟨closing, -, hsettles⟩ := handle_settles t now hraises hpending
    obtain ⟨bucket, s', hfinish, htable, -, hconsidered⟩ := hsettles s hrow
    rw [hfinish]
    refine ⟨fun row hmem hne => ?_, hconsidered⟩
    rw [htable]
    cases closing (w.standing s checkpoint.threadId) with
    | none => exact hmem
    | some x =>
        exact CheckpointTable.mem_close.mpr ⟨row, hmem, CheckpointTable.closeRow_of_ne hne x.1 x.2 now⟩

/-- What becomes of the row of a checkpoint whose thread stands at a state. -/
structure Becomes (w : SweepSurroundings) (now : Time) (checkpoint : PendingCheckpoint)
    (row : WorkflowResumeState → PendingCheckpoint) : Prop where
  id : ∀ state, (row state).checkpointId = checkpoint.checkpointId
  steady : w.toFire now checkpoint = false → ∀ state state', row state = row state'
  alike : ∀ state state', StandAlike state state' → row state = row state'
  fired : w.toFire now checkpoint = true → ∀ state, state.Free → (row state).status = .fired
  parked : w.toFire now checkpoint = true → ∀ state, state.checkpointId ≠ none → state.next ≠ [] →
    row state = checkpoint

/-- What becomes of a checkpoint's own row is settled by where its thread stands when it is handled. -/
theorem handle_row (t : τ) (w : SweepSurroundings) (now : Time) (hpending : checkpoint.status = .pending) :
    ∃ row, Becomes w now checkpoint row ∧ ∀ s : CheckpointState τ, checkpoint ∈ s.table.rows →
      row (w.standing s checkpoint.threadId) ∈
        ((handle t checkpoint now).finishIn w.answers s).2.table.rows := by
  by_cases hraises : EvaluatorRaises w checkpoint
  · have hquiet : w.toFire now checkpoint = false := by
      unfold SweepSurroundings.toFire
      rw [show (w.isMet checkpoint.condition).toOption = none from hraises]
      rfl
    refine ⟨fun _ => checkpoint, ⟨fun _ => rfl, fun _ _ _ => rfl, fun _ _ _ => rfl,
      fun h => absurd (hquiet.symm.trans h) Bool.false_ne_true, fun _ _ _ _ => rfl⟩, fun s hrow => ?_⟩
    obtain ⟨error, hfinish⟩ := handle_raises t now hraises s
    rw [hfinish]
    exact hrow
  · obtain ⟨closing, hclosed, hsettles⟩ := handle_settles t now hraises hpending
    have hrowOf : ∀ x : Option (PendingCheckpointStatus × String),
        (x.elim checkpoint fun x => checkpoint.closed x.1 x.2 now).checkpointId = checkpoint.checkpointId := by
      rintro (_ | x) <;> rfl
    refine ⟨fun state => (closing state).elim checkpoint fun x => checkpoint.closed x.1 x.2 now,
      ⟨fun state => hrowOf _, fun hquiet state state' => ?_, ?_, fun hfire state hfree => ?_,
        fun hfire state hid hnext => ?_⟩, fun s hrow => ?_⟩
    · rw [hclosed.steady hquiet state state']
    · rintro state state' (rfl | ⟨hfree, hfree'⟩)
      · rfl
      · cases hfire : w.toFire now checkpoint with
        | false => rw [hclosed.steady hfire state state']
        | true =>
            obtain ⟨reason, hreason⟩ := hclosed.fired hfire
            rw [hreason state hfree, hreason state' hfree']
    · obtain ⟨reason, hreason⟩ := hclosed.fired hfire
      rw [hreason state hfree]
      rfl
    · rw [hclosed.parked hfire state hid hnext]
      rfl
    · obtain ⟨bucket, s', hfinish, htable, -, -⟩ := hsettles s hrow
      rw [hfinish, htable]
      dsimp only
      cases closing (w.standing s checkpoint.threadId) with
      | none => exact hrow
      | some x =>
          refine CheckpointTable.mem_close.mpr ⟨checkpoint, hrow, ?_⟩
          rw [CheckpointTable.closeRow, if_pos ⟨rfl, hpending⟩]
          rfl

/-! ### Handling one after another -/

/-- The checkpoints are pending rows of the table, each there once. -/
structure Batch (checkpoints : List PendingCheckpoint) (s : CheckpointState τ) : Prop where
  rows : ∀ c ∈ checkpoints, c ∈ s.table.rows
  pending : ∀ c ∈ checkpoints, c.status = .pending
  nodup : (checkpoints.map (·.checkpointId)).Nodup

variable {rest : List PendingCheckpoint}

theorem Batch.ne (h : Batch (checkpoint :: rest) s) {c : PendingCheckpoint} (hc : c ∈ rest) :
    c.checkpointId ≠ checkpoint.checkpointId := by
  have hnodup := h.nodup
  rw [List.map_cons, List.nodup_cons] at hnodup
  exact fun hid => hnodup.1 (hid ▸ List.mem_map_of_mem hc)

theorem Batch.filter {before : List PendingCheckpoint} (h : Batch (before ++ checkpoint :: rest) s) :
    (before ++ checkpoint :: rest).filter (·.checkpointId != checkpoint.checkpointId) = before ++ rest := by
  have hnodup := h.nodup
  rw [List.map_append, List.map_cons, List.nodup_append, List.nodup_cons] at hnodup
  have hne : ∀ c ∈ before ++ rest, (c.checkpointId != checkpoint.checkpointId) = true := by
    intro c hc
    rw [bne_iff_ne]
    intro hid
    rcases List.mem_append.mp hc with hc | hc
    · exact hnodup.2.2 _ (List.mem_map_of_mem hc) _ List.mem_cons_self hid
    · exact hnodup.2.1.1 (hid ▸ List.mem_map_of_mem hc)
  rw [List.filter_append, List.filter_cons_of_neg (by simp), ← List.filter_append,
    List.filter_eq_self.mpr hne]

theorem Batch.tail (h : Batch (checkpoint :: rest) s) (t : τ) (w : SweepSurroundings) (now : Time) :
    Batch rest ((handle t checkpoint now).finishIn w.answers s).2 := by
  have hnodup := h.nodup
  rw [List.map_cons, List.nodup_cons] at hnodup
  refine ⟨fun c hc => ?_, fun c hc => h.pending c (List.mem_cons_of_mem _ hc), hnodup.2⟩
  exact (handle_frame t w now (h.rows _ List.mem_cons_self) (h.pending _ List.mem_cons_self)).1 c
    (h.rows c (List.mem_cons_of_mem _ hc)) (h.ne hc)

theorem handleAll_cons (t : τ) (now : Time) (h : ¬ EvaluatorRaises w checkpoint)
    (hb : Batch (checkpoint :: rest) s) (report : SweepReport) :
    w.standing ((handle t checkpoint now).finishIn w.answers s).2 = w.advance now (w.standing s) checkpoint ∧
      ∃ report', (handleAll t now (checkpoint :: rest) report).finishIn w.answers s =
        (handleAll t now rest report').finishIn w.answers
          ((handle t checkpoint now).finishIn w.answers s).2 := by
  obtain ⟨closing, -, hsettles⟩ := handle_settles t now h (hb.pending _ List.mem_cons_self)
  obtain ⟨bucket, s', hfinish, -, hstanding, -⟩ := hsettles s (hb.rows _ List.mem_cons_self)
  rw [hfinish]
  refine ⟨hstanding, report.add checkpoint.checkpointId bucket, ?_⟩
  rw [handleAll, finishIn_bind_ok hfinish]

theorem handleAll_raises (h : EvaluatorRaises w checkpoint) (report : SweepReport) :
    ((handleAll t now (checkpoint :: rest) report).finishIn w.answers s).2 =
      s.record (.asked t checkpoint.checkpointId none) := by
  obtain ⟨error, hfinish⟩ := handle_raises t now h s
  rw [handleAll, finishIn_bind_error hfinish]

theorem handleAll_frame (t : τ) (w : SweepSurroundings) (now : Time) (hb : Batch rest s) (report : SweepReport) :
    (∀ row ∈ s.table.rows, (∀ c ∈ rest, row.checkpointId ≠ c.checkpointId) →
      row ∈ ((handleAll t now rest report).finishIn w.answers s).2.table.rows) ∧
    ∀ id, Considered id s → Considered id ((handleAll t now rest report).finishIn w.answers s).2 := by
  induction rest generalizing s report with
  | nil => exact ⟨fun row hrow _ => hrow, fun id h => h⟩
  | cons c rest ih =>
      by_cases hraises : EvaluatorRaises w c
      · rw [handleAll_raises hraises]
        exact ⟨fun row hrow _ => hrow, fun id h => considered_asked.mpr (Or.inr h)⟩
      · obtain ⟨-, report', hfinish⟩ := handleAll_cons t now hraises hb report
        obtain ⟨hrows, hconsidered⟩ := handle_frame t w now
          (hb.rows c List.mem_cons_self) (hb.pending c List.mem_cons_self)
        obtain ⟨hrows', hconsidered'⟩ := ih (hb.tail t w now) report'
        rw [hfinish]
        refine ⟨fun row hrow hne => hrows' row (hrows row hrow (hne c List.mem_cons_self)) ?_, ?_⟩
        · exact fun c' hc' => hne c' (List.mem_cons_of_mem _ hc')
        · exact fun id h => hconsidered' id ((hconsidered id).mpr (Or.inr h))

/-- A checkpoint behind evaluators that answer is considered, and its row becomes what where its thread then
stands makes of it. -/
theorem handleAll_row (t : τ) (w : SweepSurroundings) (now : Time) (hpending : checkpoint.status = .pending) :
    ∃ row, Becomes w now checkpoint row ∧
      ∀ (before rest : List PendingCheckpoint) (s : CheckpointState τ) (report : SweepReport),
        Batch (before ++ checkpoint :: rest) s → (∀ c ∈ before, ¬ EvaluatorRaises w c) →
        row (before.foldl (w.advance now) (w.standing s) checkpoint.threadId) ∈
            ((handleAll t now (before ++ checkpoint :: rest) report).finishIn w.answers s).2.table.rows ∧
          Considered checkpoint.checkpointId
            ((handleAll t now (before ++ checkpoint :: rest) report).finishIn w.answers s).2 := by
  obtain ⟨row, hbecomes, hhandle⟩ := handle_row t w now hpending
  refine ⟨row, hbecomes, fun before => ?_⟩
  induction before with
  | nil =>
      intro rest s report hb _
      have hframe := handle_frame t w now (hb.rows checkpoint List.mem_cons_self) hpending
      have hrow := hhandle s (hb.rows checkpoint List.mem_cons_self)
      have hconsidered := (hframe.2 checkpoint.checkpointId).mpr (Or.inl rfl)
      by_cases hraises : EvaluatorRaises w checkpoint
      · obtain ⟨error, hfinish⟩ := handle_raises t now hraises s
        rw [hfinish] at hrow hconsidered
        rw [List.nil_append, handleAll_raises hraises]
        exact ⟨hrow, hconsidered⟩
      · obtain ⟨-, report', hfinish⟩ := handleAll_cons t now hraises hb report
        obtain ⟨hrows', hconsidered'⟩ := handleAll_frame t w now (hb.tail t w now) report'
        rw [List.nil_append, hfinish]
        refine ⟨hrows' _ hrow fun c hc heq => ?_, hconsidered' _ hconsidered⟩
        exact hb.ne hc (heq.symm.trans (hbecomes.id _))
  | cons c before ih =>
      intro rest s report hb hanswers
      rw [List.cons_append] at hb ⊢
      obtain ⟨hstanding, report', hfinish⟩ := handleAll_cons t now (hanswers c List.mem_cons_self) hb report
      rw [hfinish, List.foldl_cons, ← hstanding]
      exact ih rest _ report' (hb.tail t w now) fun c' hc' => hanswers c' (List.mem_cons_of_mem _ hc')

theorem handleAll_abandons {other : PendingCheckpoint} (hraises : EvaluatorRaises w checkpoint)
    (hother : other ∈ rest) (before : List PendingCheckpoint) (s : CheckpointState τ)
    (report : SweepReport) (hb : Batch (before ++ checkpoint :: rest) s)
    (hnot : ¬ Considered other.checkpointId s) :
    ¬ Considered other.checkpointId
      ((handleAll t now (before ++ checkpoint :: rest) report).finishIn w.answers s).2 := by
  induction before generalizing s report with
  | nil =>
      rw [List.nil_append, handleAll_raises hraises, considered_asked]
      exact fun h => h.elim (hb.ne hother) hnot
  | cons c before ih =>
      rw [List.cons_append] at hb ⊢
      have hne : other.checkpointId ≠ c.checkpointId :=
        hb.ne (List.mem_append_right _ (List.mem_cons_of_mem _ hother))
      by_cases hc : EvaluatorRaises w c
      · rw [handleAll_raises hc, considered_asked]
        exact fun h => h.elim hne hnot
      · obtain ⟨-, report', hfinish⟩ := handleAll_cons t now hc hb report
        rw [hfinish]
        refine ih _ report' (hb.tail t w now) ?_
        rw [(handle_frame t w now (hb.rows c List.mem_cons_self) (hb.pending c List.mem_cons_self)).2]
        exact fun h => h.elim hne hnot

end handling

/-! ### The batch of a sweep -/

theorem due_batch (now : Time) (limit : ℕ) (table : CheckpointTable) :
    Batch (table.due now limit) (⟨table, []⟩ : CheckpointState Unit) :=
  ⟨fun _ hc => (CheckpointTable.mem_due hc).1, fun _ hc => (CheckpointTable.mem_due hc).2,
    CheckpointTable.due_nodup now limit table⟩

theorem sweepAlone_eq (w : SweepSurroundings) (now : Time) (limit : ℕ) (table : CheckpointTable) :
    sweepAlone w now limit table =
      (handleAll () now (table.due now limit) .empty).finishIn w.answers ⟨table, []⟩ := rfl

theorem sorted_without (p : PendingCheckpoint → Bool) (table : CheckpointTable) (id : UUID) :
    ((table.without id).rows.filter p).mergeSort CheckpointTable.soonerFirst =
      ((table.rows.filter p).mergeSort CheckpointTable.soonerFirst).filter
        (·.checkpointId != id) := by
  have hperm : (((table.without id).rows.filter p).mergeSort CheckpointTable.soonerFirst).Perm
      (((table.rows.filter p).mergeSort CheckpointTable.soonerFirst).filter
        (·.checkpointId != id)) := by
    refine (List.mergeSort_perm _ _).trans ?_
    refine List.Perm.trans (List.Perm.of_eq ?_) ((List.mergeSort_perm _ _).filter _).symm
    simp only [CheckpointTable.without, List.filter_filter, Bool.and_comm]
  have hrows : ∀ row ∈ ((table.rows.filter p).mergeSort CheckpointTable.soonerFirst).filter
      (·.checkpointId != id), row ∈ table.rows := by
    intro row hrow
    have hmem := (List.mem_filter.mp hrow).1
    rw [List.mem_mergeSort] at hmem
    exact (List.mem_filter.mp hmem).1
  refine hperm.eq_of_pairwise ?_ (List.pairwise_mergeSort CheckpointTable.soonerFirst_trans
    CheckpointTable.soonerFirst_total _) (List.Pairwise.sublist List.filter_sublist
      (List.pairwise_mergeSort CheckpointTable.soonerFirst_trans
        CheckpointTable.soonerFirst_total _))
  intro a b ha hb hab hba
  exact CheckpointTable.eq_of_id (hrows a (hperm.subset ha)) (hrows b hb)
    (CheckpointTable.soonerFirst_antisymm hab hba)

theorem due_without {now : Time} {limit : ℕ} {table : CheckpointTable} {id : UUID}
    {before after : List PendingCheckpoint} {checkpoint : PendingCheckpoint}
    (h : table.due now limit = before ++ checkpoint :: after) (hid : checkpoint.checkpointId ≠ id) :
    ∃ after', (table.without id).due now limit =
      before.filter (·.checkpointId != id) ++ checkpoint :: after' := by
  unfold CheckpointTable.due at h ⊢
  rw [sorted_without]
  generalize (table.rows.filter _).mergeSort CheckpointTable.soonerFirst = sorted at h ⊢
  have hsorted : sorted = before ++ checkpoint :: (after ++ sorted.drop limit) := by
    rw [← List.cons_append, ← List.append_assoc, ← h, List.take_append_drop]
  have hlength : before.length < limit := by
    have hle := List.length_take_le limit sorted
    rw [h, List.length_append, List.length_cons] at hle
    omega
  have hfilter := List.length_filter_le (fun row : PendingCheckpoint => row.checkpointId != id) before
  obtain ⟨k, hk⟩ : ∃ k, limit =
      (before.filter fun row => row.checkpointId != id).length + (k + 1) :=
    ⟨limit - (before.filter fun row => row.checkpointId != id).length - 1, by omega⟩
  rw [hsorted, List.filter_append, List.filter_cons_of_pos (by simpa using hid), hk,
    List.take_length_add_append]
  exact ⟨_, rfl⟩

/-! ### Isolation -/

theorem not_considered_first (id : UUID) (table : CheckpointTable) :
    ¬ Considered id (⟨table, []⟩ : CheckpointState Unit) := by
  rintro ⟨t, met, hmem⟩
  exact absurd hmem List.not_mem_nil

section isolation

variable {w : SweepSurroundings} {now : Time} {limit : ℕ} {table : CheckpointTable}
variable {checkpoint : PendingCheckpoint}

theorem sweep_row (w : SweepSurroundings) (now : Time) (limit : ℕ) (table : CheckpointTable)
    (hpending : checkpoint.status = .pending) :
    ∃ row, Becomes w now checkpoint row ∧ ∀ before rest,
      table.due now limit = before ++ checkpoint :: rest → (∀ c ∈ before, ¬ EvaluatorRaises w c) →
      Considered checkpoint.checkpointId (sweepAlone w now limit table).2 ∧
        (sweepAlone w now limit table).2.table.rowFor checkpoint.checkpointId =
          some (row (before.foldl (w.advance now) w.inspect checkpoint.threadId)) ∧
        ∀ id, checkpoint.checkpointId ≠ id →
          (sweepAlone w now limit (table.without id)).2.table.rowFor checkpoint.checkpointId =
            some (row ((before.filter (·.checkpointId != id)).foldl (w.advance now) w.inspect
              checkpoint.threadId)) := by
  obtain ⟨row, hbecomes, hsettled⟩ := handleAll_row () w now hpending
  refine ⟨row, hbecomes, fun before rest hdue hanswers => ?_⟩
  have hbatch := due_batch now limit table
  rw [hdue] at hbatch
  have hwith := hsettled before rest _ .empty hbatch hanswers
  refine ⟨?_, ?_, fun id hne => ?_⟩
  · rw [sweepAlone_eq, hdue]
    exact hwith.2
  · rw [sweepAlone_eq, hdue, ← hbecomes.id (before.foldl (w.advance now) w.inspect checkpoint.threadId)]
    exact CheckpointTable.rowFor_eq_some hwith.1
  · obtain ⟨rest', hwithout⟩ := due_without hdue hne
    have hbatch' := due_batch now limit (table.without id)
    rw [hwithout] at hbatch'
    have hwithout' := hsettled _ rest' _ .empty hbatch' fun c hc => hanswers c (List.mem_filter.mp hc).1
    rw [sweepAlone_eq, hwithout, ← hbecomes.id ((before.filter (·.checkpointId != id)).foldl (w.advance now)
      w.inspect checkpoint.threadId)]
    exact CheckpointTable.rowFor_eq_some hwithout'.1

theorem Isolated.last {before after : List PendingCheckpoint} (h : Isolated w now limit table)
    (hdue : table.due now limit = before ++ checkpoint :: after) (hraises : EvaluatorRaises w checkpoint) :
    after = [] := by
  cases after with
  | nil => rfl
  | cons other after =>
      have hbatch := due_batch now limit table
      rw [hdue] at hbatch
      have hne : other.checkpointId ≠ checkpoint.checkpointId := by
        have hnodup := hbatch.nodup
        rw [List.map_append, List.map_cons, List.map_cons] at hnodup
        have hfirst := (List.nodup_cons.mp (List.nodup_append.mp hnodup).2.1).1
        exact fun heq => hfirst (heq ▸ List.mem_cons_self)
      have hconsidered := (h checkpoint (by simp [hdue]) (Or.inl hraises) other (by simp [hdue]) hne).1
      rw [sweepAlone_eq, hdue] at hconsidered
      exact absurd hconsidered (handleAll_abandons hraises List.mem_cons_self before _ _ hbatch
        (not_considered_first _ _))

/-- Behind a path that parks its thread and raises, the first checkpoint that would have fired there is
deferred. -/
theorem Isolated.unfired {before after : List PendingCheckpoint} {failing other : PendingCheckpoint}
    (h : Isolated w now limit table) (hdue : table.due now limit = before ++ failing :: after)
    (hmidway : RaisesMidway w now before failing) (hother : other ∈ after)
    (hthread : other.threadId = failing.threadId) : w.toFire now other = false := by
  by_contra hfire
  rw [Bool.not_eq_false] at hfire
  -- The first such checkpoint stands for the others.
  let fires : PendingCheckpoint → Bool := fun c => c.threadId == failing.threadId && w.toFire now c
  have hsome : (after.find? fires).isSome = true :=
    List.find?_isSome.mpr ⟨other, hother, by simp [fires, hthread, hfire]⟩
  obtain ⟨first, hfirst⟩ := Option.isSome_iff_exists.mp hsome
  obtain ⟨hfires, before', after', rfl, hquiet⟩ := List.find?_eq_some_iff_append.mp hfirst
  have hfires' : first.threadId = failing.threadId ∧ w.toFire now first = true := by
    simpa [fires] using hfires
  have hquiet' : ∀ c ∈ before', c.threadId = first.threadId → w.toFire now c = false := by
    intro c hc hthread
    have hnot := hquiet c hc
    simp only [fires, hthread, hfires'.1, beq_self_eq_true, Bool.true_and, Bool.not_eq_true'] at hnot
    exact hnot
  have hdue' : table.due now limit = (before ++ failing :: before') ++ first :: after' := by
    rw [hdue, List.append_assoc, List.cons_append]
  have hbatch := due_batch now limit table
  rw [hdue'] at hbatch
  have hanswers : ∀ c ∈ before ++ failing :: before', ¬ EvaluatorRaises w c := by
    intro c hc hraises
    obtain ⟨before₁, before₂, hsplit⟩ := List.append_of_mem hc
    have hall : table.due now limit = before₁ ++ c :: (before₂ ++ first :: after') := by
      rw [hdue', hsplit, List.append_assoc, List.cons_append]
    have hlast : before₂ ++ first :: after' = [] := h.last hall hraises
    simp at hlast
  have hbatch' : Batch (before ++ failing :: before') (⟨table, []⟩ : CheckpointState Unit) :=
    ⟨fun c hc => hbatch.rows c (List.mem_append_left _ hc),
      fun c hc => hbatch.pending c (List.mem_append_left _ hc),
      (List.nodup_append.mp (List.map_append ▸ hbatch.nodup)).1⟩
  have hne : first.checkpointId ≠ failing.checkpointId := by
    have hnodup := hbatch.nodup
    rw [List.map_append, List.nodup_append] at hnodup
    exact fun heq => hnodup.2.2 _ (List.mem_map_of_mem (by simp)) _ List.mem_cons_self heq.symm
  obtain ⟨row, hbecomes, hrow⟩ := sweep_row w now limit table (hbatch.pending first (by simp))
  obtain ⟨-, hwith, hwithout⟩ := hrow _ after' hdue' hanswers
  -- With the failing checkpoint the thread is parked, without it it is free.
  have hfree : (before.foldl (w.advance now) w.inspect first.threadId).Free := by
    rw [hfires'.1]
    exact foldl_advance_free.mpr ⟨hmidway.free, hmidway.unparked⟩
  have hparked : (before ++ failing :: before').foldl (w.advance now) w.inspect first.threadId =
      w.after failing.checkpointId (before.foldl (w.advance now) w.inspect first.threadId) := by
    rw [List.foldl_append, List.foldl_cons, foldl_advance_of_quiet hquiet', hfires'.1]
    exact advance_fired hmidway.fires (hfires'.1 ▸ hfree)
  have hfree' : (before ++ before').foldl (w.advance now) w.inspect first.threadId =
      before.foldl (w.advance now) w.inspect first.threadId := by
    rw [List.foldl_append, foldl_advance_of_quiet hquiet']
  have hsame := (h failing (by simp [hdue']) (Or.inr hmidway.raises) first (by simp [hdue']) hne).2
  rw [hwith, hwithout _ hne, hbatch'.filter, hparked, hfree'] at hsame
  obtain ⟨left, hleft, hnext⟩ := hmidway.parks
  have hafter : w.after failing.checkpointId (before.foldl (w.advance now) w.inspect first.threadId) =
      ⟨some left.1, left.2⟩ := by
    unfold SweepSurroundings.after
    rw [hleft]
    rfl
  rw [hafter, hbecomes.parked hfires'.2 _ (Option.some_ne_none _) hnext] at hsame
  have hstatus := hbecomes.fired hfires'.2 _ hfree
  rw [← Option.some.inj hsame, hbatch.pending first (by simp)] at hstatus
  cases hstatus

/-- A failing checkpoint that keeps to the condition makes no difference to where the thread of a later one
to be fired stands. -/
theorem advance_failing {before after : List PendingCheckpoint} {failing other : PendingCheckpoint}
    (hraises : ¬ EvaluatorRaises w failing) (hfails : EvaluatorRaises w failing ∨ GraphRaises w failing)
    (hmidway : RaisesMidway w now before failing → ∀ other ∈ after, other.threadId = failing.threadId →
      w.toFire now other = false)
    (hother : other ∈ after) (hfire : w.toFire now other = true) :
    StandAlike (w.advance now (before.foldl (w.advance now) w.inspect) failing other.threadId)
      (before.foldl (w.advance now) w.inspect other.threadId) := by
  by_cases hthread : failing.threadId = other.threadId
  · cases hfires : w.toFire now failing with
    | false => exact Or.inl (congrFun (advance_of_not_toFire hfires) _)
    | true =>
        by_cases hfree : (before.foldl (w.advance now) w.inspect failing.threadId).Free
        · have hparks : ¬ Parks w failing := by
            intro hparks
            have hbefore := foldl_advance_free.mp hfree
            have hquiet := hmidway ⟨hfires, hbefore.1, hbefore.2, hfails.resolve_left hraises, hparks⟩
              other hother hthread.symm
            exact absurd (hquiet.symm.trans hfire) Bool.false_ne_true
          rw [← hthread, advance_fired hfires hfree]
          exact Or.inr ⟨(after_free hfree).mpr hparks, hfree⟩
        · exact Or.inl (congrFun (advance_of_not_free hfree) _)
  · exact Or.inl (advance_of_ne hthread)

end isolation

/-- **The isolation of a sweep**: a failing checkpoint leaves the others of its sweep alone if
and only if no checkpoint but the last of the sweep has an evaluator that raises, and behind a graph path that
raises midway no checkpoint of its thread is to be fired. -/
theorem sweep_isolated_iff (w : SweepSurroundings) (now : Time) (limit : ℕ) (table : CheckpointTable) :
    Isolated w now limit table ↔
      ∀ before failing after, table.due now limit = before ++ failing :: after →
        (EvaluatorRaises w failing → after = []) ∧
          (RaisesMidway w now before failing → ∀ other ∈ after, other.threadId = failing.threadId →
            w.toFire now other = false) := by
  constructor
  · exact fun h before failing after hdue =>
      ⟨h.last hdue, fun hmidway other hother hthread => h.unfired hdue hmidway hother hthread⟩
  · intro h failing hfailing hfails other hother hne
    obtain ⟨before, after, hdue⟩ := List.append_of_mem hother
    have hbatch := due_batch now limit table
    -- Whatever is before `other` is not the last, so its evaluator answers.
    have hanswers : ∀ c ∈ before, ¬ EvaluatorRaises w c := by
      intro c hc hraises
      obtain ⟨before₁, before₂, rfl⟩ := List.append_of_mem hc
      have hlast := (h before₁ c (before₂ ++ other :: after) (by simp [hdue])).1 hraises
      simp at hlast
    obtain ⟨row, hbecomes, hrow⟩ := sweep_row w now limit table (hbatch.pending other hother)
    obtain ⟨hconsidered, hwith, hwithout⟩ := hrow before after hdue hanswers
    refine ⟨hconsidered, ?_⟩
    rw [hwith, hwithout _ hne]
    rw [hdue] at hfailing hbatch
    rcases List.mem_append.mp hfailing with hbefore | hafter
    · obtain ⟨before₁, before₂, rfl⟩ := List.append_of_mem hbefore
      have hbatch' : Batch (before₁ ++ failing :: before₂) (⟨table, []⟩ : CheckpointState Unit) :=
        ⟨fun c hc => hbatch.rows c (List.mem_append_left _ hc),
          fun c hc => hbatch.pending c (List.mem_append_left _ hc),
          (List.nodup_append.mp (List.map_append ▸ hbatch.nodup)).1⟩
      rw [hbatch'.filter]
      cases hfire : w.toFire now other with
      | false => rw [hbecomes.steady hfire _ _]
      | true =>
          have hcondition := (h before₁ failing (before₂ ++ other :: after) (by simp [hdue])).2
          rw [List.foldl_append, List.foldl_cons, List.foldl_append]
          exact congrArg some (hbecomes.alike _ _ (foldl_advance_alike
            (advance_failing (hanswers failing (by simp)) hfails hcondition (by simp) hfire)))
    · have hids : ∀ c ∈ before, (c.checkpointId != failing.checkpointId) = true := by
        intro c hc
        have hnodup := hbatch.nodup
        rw [List.map_append, List.nodup_append] at hnodup
        exact bne_iff_ne.mpr (hnodup.2.2 _ (List.mem_map_of_mem hc) _ (List.mem_map_of_mem hafter))
      rw [List.filter_eq_self.mpr hids]

/-- A wait of one application on a recruiter's response, or on the end of the application. -/
def quietWait (id : UUID) (kind : ConditionKind) : PendingCheckpoint where
  checkpointId := id
  applicationId := 1
  kind := .noResponse
  condition := ⟨kind, 1, none, []⟩
  reason := "no answer yet"
  threadId := "job_search:7"
  workflowId := none
  createdAt := 0
  triggerAt := 10
  expiresAt := 20
  status := .pending
  dedupeKey := if id = 1 then "follow_up:1" else "follow_up:2"
  closedAt := none
  closedReason := none
  trigger_after_creation := by decide
  expiry_after_trigger := by decide

def twoWaits : CheckpointTable where
  rows := [quietWait 1 .recruiterResponseReceived, quietWait 2 .applicationClosed]
  ids_nodup := by decide
  keys_nodup := by decide

/-- The inbox cannot be reached, so nobody knows whether a recruiter has answered. -/
def inboxDown : SweepSurroundings where
  clock := 10
  isMet condition :=
    if condition.kind = .recruiterResponseReceived then .error "inbox unreachable" else .ok false
  registered _ := true
  inspect _ := ⟨some 70, []⟩
  start _ := .started
  leaves _ := none

theorem twoWaits_due : twoWaits.due 10 100 =
    [quietWait 1 .recruiterResponseReceived, quietWait 2 .applicationClosed] := by
  unfold CheckpointTable.due
  have hfilter : twoWaits.rows.filter (fun row => row.isOpen && (row.isDue 10 || row.hasExpired 10)) =
      twoWaits.rows := List.filter_eq_self.mpr (by decide)
  rw [hfilter, List.mergeSort_of_pairwise (by decide)]
  rfl

/-- The second wait is due and is not considered: the sweep ends at the first one. -/
theorem raising_evaluator_ends_sweep :
    ¬ ∀ (w : SweepSurroundings) (now : Time) (limit : ℕ) (table : CheckpointTable),
      Isolated w now limit table := by
  intro h
  have hraises : EvaluatorRaises inboxDown (quietWait 1 .recruiterResponseReceived) := rfl
  have hconsidered := (h inboxDown 10 100 twoWaits (quietWait 1 .recruiterResponseReceived)
    (by simp [twoWaits_due]) (Or.inl hraises) (quietWait 2 .applicationClosed)
    (by simp [twoWaits_due]) (by decide)).1
  have hbatch := due_batch 10 100 twoWaits
  rw [twoWaits_due] at hbatch
  rw [sweepAlone_eq, twoWaits_due] at hconsidered
  exact handleAll_abandons hraises List.mem_cons_self [] ⟨twoWaits, []⟩ .empty hbatch
    (not_considered_first _ _) hconsidered

end PersonalOS
