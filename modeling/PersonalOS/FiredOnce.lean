import PersonalOS.CheckpointMonitor

/-! # A pending checkpoint fires at most once

Any number of sweeps, cancellations, reschedules and early resolutions over one table of
pending checkpoints, interleaved step by step.

* **Steps.** `CheckpointStep` says what one step of a process can do: a close takes a row that
  is still pending, and a start follows the process's own close.
* **History.** `Lawful` is what the history shows of every checkpoint: at most one close, and a
  start only after the close that fired it, by the same process and at most once.
* **Run.** `checkpoint_firesOnce` reads the claims off the history of any interleaving. -/

namespace PersonalOS

open Concurrent Concurrent.Prog PendingCheckpointStore PendingCheckpointMonitor

variable {τ : Type}

/-- The process an event is about. -/
def CheckpointEvent.process : CheckpointEvent τ → τ
  | asked t _ _ => t
  | closed t _ _ _ => t
  | started t _ => t

/-! ### What a step does -/

/-- Process `t` was told that the condition is unmet, and `now` is in the firing window. -/
def Fireable (t : τ) (checkpointId : UUID) (now : Time) (s : CheckpointState τ) : Prop :=
  .asked t checkpointId (some false) ∈ s.events ∧
    ∀ row ∈ s.table.rows, row.checkpointId = checkpointId → row.triggerAt ≤ now ∧ now < row.expiresAt

/-- What one step of process `t` does. -/
inductive CheckpointStep (t : τ) (s : CheckpointState τ) : CheckpointState τ → Prop where
  | quiet : CheckpointStep t s s
  | asked (checkpointId : UUID) (met : Option Bool) :
      CheckpointStep t s (s.record (.asked t checkpointId met))
  | inserted (checkpoint : PendingCheckpoint) (table : CheckpointTable) :
      s.table.insert checkpoint = some table → CheckpointStep t s { s with table }
  | closed (checkpointId : UUID) (status : PendingCheckpointStatus) (reason : String) (now : Time) :
      status ≠ .pending → s.table.isPending checkpointId = true →
      (status = .fired → Fireable t checkpointId now s) →
      CheckpointStep t s { table := s.table.close checkpointId status reason now
                           events := .closed t checkpointId status now :: s.events }
  | started (checkpointId : UUID) (now : Time) :
      .closed t checkpointId .fired now ∈ s.events → .started t checkpointId ∉ s.events →
      CheckpointStep t s (s.record (.started t checkpointId))

/-- Every wait is still there, closed or not. -/
def WaitsKept (s s' : CheckpointState τ) : Prop :=
  ∀ row ∈ s.table.rows, ∃ row' ∈ s'.table.rows, row'.wait = row.wait

theorem WaitsKept.trans {s₁ s₂ s₃ : CheckpointState τ} (h₁ : WaitsKept s₁ s₂) (h₂ : WaitsKept s₂ s₃) :
    WaitsKept s₁ s₃ := by
  intro row hrow
  obtain ⟨row₂, hrow₂, hw₂⟩ := h₁ row hrow
  obtain ⟨row₃, hrow₃, hw₃⟩ := h₂ row₂ hrow₂
  exact ⟨row₃, hrow₃, hw₃.trans hw₂⟩

theorem CheckpointStep.waitsKept {t : τ} {s s' : CheckpointState τ} (h : CheckpointStep t s s') :
    WaitsKept s s' := by
  intro row hrow
  cases h with
  | quiet => exact ⟨row, hrow, rfl⟩
  | asked checkpointId met => exact ⟨row, hrow, rfl⟩
  | inserted checkpoint table hinsert =>
      refine ⟨row, ?_, rfl⟩
      rw [(CheckpointTable.insert_eq_some hinsert).1]
      exact List.mem_append_left _ hrow
  | closed checkpointId status reason now _ _ _ =>
      exact ⟨_, CheckpointTable.mem_close.mpr ⟨row, hrow, rfl⟩, CheckpointTable.closeRow_wait ..⟩
  | started checkpointId now _ _ => exact ⟨row, hrow, rfl⟩

/-- What the other processes leave alone. -/
structure SameProcess (t : τ) (s s' : CheckpointState τ) : Prop where
  events : ∀ e : CheckpointEvent τ, e.process = t → (e ∈ s'.events ↔ e ∈ s.events)
  waits : WaitsKept s s'

theorem CheckpointStep.sameProcess {t u : τ} {s s' : CheckpointState τ} (h : CheckpointStep u s s')
    (ht : t ≠ u) : SameProcess t s s' := by
  refine ⟨fun e he => ?_, h.waitsKept⟩
  cases h with
  | quiet => rfl
  | inserted checkpoint table _ => rfl
  | asked checkpointId met =>
      refine ⟨fun hmem => ?_, List.mem_cons_of_mem _⟩
      rcases List.mem_cons.mp hmem with rfl | hmem
      · exact absurd he.symm ht
      · exact hmem
  | closed checkpointId status reason now _ _ _ =>
      refine ⟨fun hmem => ?_, List.mem_cons_of_mem _⟩
      rcases List.mem_cons.mp hmem with rfl | hmem
      · exact absurd he.symm ht
      · exact hmem
  | started checkpointId now _ _ =>
      refine ⟨fun hmem => ?_, List.mem_cons_of_mem _⟩
      rcases List.mem_cons.mp hmem with rfl | hmem
      · exact absurd he.symm ht
      · exact hmem

/-- The contract of process `t`: the others leave alone what it did, and take no wait away. -/
def checkpointContract (t : τ) : Contract (CheckpointState τ) where
  rely := SameProcess t
  guar := CheckpointStep t
  assume _ _ := True
  rely_refl _ := ⟨fun _ _ => Iff.rfl, fun row hrow => ⟨row, hrow, rfl⟩⟩
  rely_trans h₁ h₂ :=
    ⟨fun e he => (h₂.events e he).trans (h₁.events e he), h₁.waits.trans h₂.waits⟩

/-- From `s` to `s'` process `t` has forgotten nothing and has started only these checkpoints. -/
structure Since (t : τ) (ids : List UUID) (s s' : CheckpointState τ) : Prop where
  events : ∀ e ∈ s.events, e.process = t → e ∈ s'.events
  waits : WaitsKept s s'
  starts : ∀ id ∉ ids, .started t id ∈ s'.events → .started t id ∈ s.events

theorem SameProcess.since {t : τ} {s s' : CheckpointState τ} (h : SameProcess t s s')
    (ids : List UUID) : Since t ids s s' :=
  ⟨fun e hmem he => (h.events e he).mpr hmem, h.waits, fun _ _ hmem => (h.events _ rfl).mp hmem⟩

theorem Since.trans {t : τ} {ids : List UUID} {s₁ s₂ s₃ : CheckpointState τ} (h₁ : Since t ids s₁ s₂)
    (h₂ : Since t ids s₂ s₃) : Since t ids s₁ s₃ :=
  ⟨fun e hmem he => h₂.events e (h₁.events e hmem he) he, h₁.waits.trans h₂.waits,
    fun id hid hmem => h₁.starts id hid (h₂.starts id hid hmem)⟩

/-- The wait the snapshot was read from is in the table. -/
def Known (checkpoint : PendingCheckpoint) (s : CheckpointState τ) : Prop :=
  ∃ row ∈ s.table.rows, row.wait = checkpoint.wait

theorem Known.kept {checkpoint : PendingCheckpoint} {s s' : CheckpointState τ}
    (h : Known checkpoint s) (hs : WaitsKept s s') : Known checkpoint s' := by
  obtain ⟨row, hrow, hw⟩ := h
  obtain ⟨row', hrow', hw'⟩ := hs row hrow
  exact ⟨row', hrow', hw'.trans hw⟩

/-- A snapshot in its firing window, unmet, may be fired. -/
theorem Known.fireable {t : τ} {checkpoint : PendingCheckpoint} {now : Time} {s : CheckpointState τ}
    (h : Known checkpoint s) (hasked : .asked t checkpoint.checkpointId (some false) ∈ s.events)
    (htrigger : checkpoint.triggerAt ≤ now) (hexpiry : now < checkpoint.expiresAt) :
    Fireable t checkpoint.checkpointId now s := by
  obtain ⟨row, hrow, hw⟩ := h
  refine ⟨hasked, fun row' hrow' hid => ?_⟩
  have hrows : row' = row :=
    CheckpointTable.eq_of_id hrow' hrow (hid.trans (PendingCheckpoint.checkpointId_of_wait hw).symm)
  rw [hrows, PendingCheckpoint.triggerAt_of_wait hw, PendingCheckpoint.expiresAt_of_wait hw]
  exact ⟨htrigger, hexpiry⟩

/-! ### The programs keep the contract -/

section programs

variable {t : τ} {s : CheckpointState τ} {α β : Type}

/-- A step that only looks. -/
theorem wp_look {f : CheckpointInput → CheckpointState τ → β} {k : β → CheckpointProgram τ α}
    {Q : α → CheckpointState τ → Prop} {E : CheckpointError → CheckpointState τ → Prop}
    (h : ∀ i s', SameProcess t s s' → (k (f i s')).wp (checkpointContract t) Q E s') :
    ((act fun i s => (f i s, s)) >>= k).wp (checkpointContract t) Q E s :=
  fun s' hr i _ => ⟨.quiet, h i s' hr⟩

theorem wp_nowOr {now : Option Time} {k : Time → CheckpointProgram τ α}
    {Q : α → CheckpointState τ → Prop} {E : CheckpointError → CheckpointState τ → Prop}
    (h : ∀ now s', SameProcess t s s' → (k now).wp (checkpointContract t) Q E s') :
    (nowOr now >>= k).wp (checkpointContract t) Q E s := by
  cases now with
  | some now => exact h now s ((checkpointContract t).rely_refl s)
  | none => exact wp_look fun i s' hr => h i.clock s' hr

theorem wp_done {a : α} :
    (ret a : CheckpointProgram τ α).wp (checkpointContract t) (fun _ _ => True) (fun _ _ => True) s :=
  fun _ _ => trivial

theorem wp_since {ids : List UUID} {a : α} {s₀ : CheckpointState τ} (h : Since t ids s₀ s) :
    (ret a : CheckpointProgram τ α).wp (checkpointContract t) (fun _ => Since t ids s₀)
      (fun _ _ => True) s := fun _ hr => h.trans (hr.since ids)

/-- The guarded `UPDATE` closes a pending row, or does nothing. -/
theorem closeWait_spec {checkpointId : UUID} {status : PendingCheckpointStatus} {reason : String}
    {now : Time} (hstatus : status ≠ .pending)
    (hfire : ∀ s', SameProcess t s s' → status = .fired → Fireable t checkpointId now s') :
    (close t checkpointId status reason (some now)).wp (checkpointContract t)
      (fun ok s' => Since t [] s s' ∧
        (ok = true → .closed t checkpointId status now ∈ s'.events)) (fun _ _ => True) s := by
  unfold close
  rw [if_neg hstatus]
  intro s₁ hr₁ i _
  have h₁ : Since t [] s s₁ := SameProcess.since hr₁ []
  dsimp only [CheckpointState.close]
  split
  · rename_i hpending
    refine ⟨.closed checkpointId status reason now hstatus hpending (hfire s₁ hr₁), fun s₂ hr₂ => ?_⟩
    have hstep := CheckpointStep.closed (t := t) checkpointId status reason now hstatus hpending
      (hfire s₁ hr₁)
    have h₂ : Since t [] s₁ s₂ := by
      refine Since.trans ⟨fun e hmem _ => List.mem_cons_of_mem _ hmem, hstep.waitsKept, ?_⟩
        (SameProcess.since hr₂ [])
      intro id _ hmem
      rcases List.mem_cons.mp hmem with he | hmem
      · cases he
      · exact hmem
    exact ⟨h₁.trans h₂, fun _ => (hr₂.events _ rfl).mpr List.mem_cons_self⟩
  · exact ⟨.quiet, fun s₂ hr₂ => ⟨h₁.trans (hr₂.since []), fun h => (by cases h)⟩⟩

/-- A close that fires nothing, and whose answer nobody needs. -/
theorem close_done {checkpointId : UUID} {status : PendingCheckpointStatus} {reason : String}
    {now : Time} (hstatus : status ≠ .pending) (hfired : status ≠ .fired) :
    (close t checkpointId status reason (some now)).wp (checkpointContract t)
      (fun _ s' => Since t [] s s') (fun _ _ => True) s :=
  wp_mono (closeWait_spec hstatus fun _ _ h => absurd h hfired) (fun _ _ h => h.1) fun _ _ h => h

theorem schedule_spec {checkpoint : PendingCheckpoint} :
    (schedule checkpoint).wp (checkpointContract t) (fun _ _ => True) (fun _ _ => True) s := by
  unfold schedule
  refine wp_look fun _ s₁ _ => ?_
  split
  · exact wp_done
  intro s₂ _ i _
  dsimp only [CheckpointState.insert]
  split
  · rename_i table hinsert
    exact ⟨.inserted checkpoint table hinsert, wp_done⟩
  · refine ⟨.quiet, wp_look fun _ s₃ _ => ?_⟩
    split
    · exact wp_done
    · exact fun _ _ => trivial

theorem closeAll_spec {status : PendingCheckpointStatus} {reason : String} {now : Time}
    {ids : List UUID} (hstatus : status ≠ .pending) (hfired : status ≠ .fired) :
    (closeAll t status reason now ids).wp (checkpointContract t) (fun _ _ => True)
      (fun _ _ => True) s := by
  induction ids generalizing s with
  | nil => exact wp_done
  | cons checkpointId ids ih =>
      refine wp_bind (wp_mono (close_done hstatus hfired) (fun _ s₁ _ => ?_) fun _ _ h => h)
      exact wp_bind (wp_mono ih (fun _ _ _ => wp_done) fun _ _ h => h)

theorem isMet_spec {checkpoint : PendingCheckpoint} :
    (isMet t checkpoint).wp (checkpointContract t)
      (fun met s' => Since t [] s s' ∧ .asked t checkpoint.checkpointId (some met) ∈ s'.events)
      (fun _ _ => True) s := by
  unfold isMet
  intro s₁ hr₁ i _
  refine ⟨.asked checkpoint.checkpointId _, ?_⟩
  have h₁ : Since t [] s s₁ := SameProcess.since hr₁ []
  have h₂ : ∀ e : CheckpointEvent τ, (∀ id, e ≠ .started t id) → Since t [] s₁ (s₁.record e) := by
    refine fun e hne => ⟨fun _ hmem _ => List.mem_cons_of_mem _ hmem, fun row hrow => ⟨row, hrow, rfl⟩, ?_⟩
    intro id _ hmem
    rcases List.mem_cons.mp hmem with he | hmem
    · exact absurd he.symm (hne id)
    · exact hmem
  dsimp only
  cases hmet : i.isMet checkpoint.condition with
  | error message => exact fun _ _ => trivial
  | ok met =>
      refine fun s₂ hr₂ => ⟨?_, (hr₂.events _ rfl).mpr List.mem_cons_self⟩
      exact h₁.trans ((h₂ _ (by simp)).trans (hr₂.since []))

theorem startGraph_spec {checkpoint : PendingCheckpoint} {now : Time}
    (hclosed : .closed t checkpoint.checkpointId .fired now ∈ s.events)
    (hstarted : .started t checkpoint.checkpointId ∉ s.events) :
    (startGraph t checkpoint).wp (checkpointContract t)
      (fun _ s' => Since t [checkpoint.checkpointId] s s') (fun _ _ => True) s := by
  unfold startGraph
  intro s₁ hr₁ i _
  refine ⟨.started checkpoint.checkpointId now ((hr₁.events _ rfl).mpr hclosed)
    (fun hmem => hstarted ((hr₁.events _ rfl).mp hmem)), fun s₂ hr₂ => ?_⟩
  have h₂ : Since t [checkpoint.checkpointId] s₁ (s₁.record (.started t checkpoint.checkpointId)) := by
    refine ⟨fun _ hmem _ => List.mem_cons_of_mem _ hmem, fun row hrow => ⟨row, hrow, rfl⟩, ?_⟩
    intro id hid hmem
    rcases List.mem_cons.mp hmem with he | hmem
    · cases he
      exact absurd List.mem_cons_self hid
    · exact hmem
  exact (SameProcess.since hr₁ _).trans (h₂.trans (SameProcess.since hr₂ _))

theorem Since.weaken {ids : List UUID} {s s' : CheckpointState τ} (h : Since t [] s s') :
    Since t ids s s' := ⟨h.events, h.waits, fun id _ hmem => h.starts id List.not_mem_nil hmem⟩

/-- A snapshot that is to be fired is fired at most once, by its own close. -/
theorem fireWait_spec {checkpoint : PendingCheckpoint} {now : Time} (hknown : Known checkpoint s)
    (hasked : .asked t checkpoint.checkpointId (some false) ∈ s.events)
    (htrigger : checkpoint.triggerAt ≤ now) (hexpiry : now < checkpoint.expiresAt)
    (hstarted : .started t checkpoint.checkpointId ∉ s.events) :
    (fire t checkpoint now).wp (checkpointContract t)
      (fun _ s' => Since t [checkpoint.checkpointId] s s') (fun _ _ => True) s := by
  have hcancel : ∀ (reason : String) (s' : CheckpointState τ), Since t [checkpoint.checkpointId] s s' →
      (close t checkpoint.checkpointId .cancelled reason (some now) >>= fun _ =>
        (ret .cancelled : CheckpointProgram τ Bucket)).wp (checkpointContract t)
        (fun _ s' => Since t [checkpoint.checkpointId] s s') (fun _ _ => True) s' := by
    intro reason s' hs'
    refine wp_bind (wp_mono (close_done (by decide) (by decide)) (fun _ s₁ hs₁ => ?_) fun _ _ h => h)
    exact wp_since (hs'.trans hs₁.weaken)
  unfold fire
  refine wp_look fun i s₁ hr₁ => ?_
  split
  · refine wp_look fun i s₂ hr₂ => ?_
    have h₂ : SameProcess t s s₂ := (checkpointContract t).rely_trans hr₁ hr₂
    split
    · exact hcancel _ s₂ (h₂.since _)
    split
    · exact wp_since (h₂.since _)
    have hfireable : ∀ s', SameProcess t s₂ s' → PendingCheckpointStatus.fired = .fired →
        Fireable t checkpoint.checkpointId now s' := by
      intro s' hs' _
      have hsame : SameProcess t s s' := (checkpointContract t).rely_trans h₂ hs'
      exact (hknown.kept hsame.waits).fireable ((hsame.events _ rfl).mpr hasked) htrigger hexpiry
    refine wp_bind (wp_mono (closeWait_spec (by decide) hfireable) ?_ fun _ _ h => h)
    rintro ok s₃ ⟨h₃, hclosed⟩
    have hs₃ : Since t [] s s₃ := (h₂.since []).trans h₃
    cases ok with
    | false => exact wp_since hs₃.weaken
    | true =>
        have hnot : .started t checkpoint.checkpointId ∉ s₃.events := fun hmem =>
          hstarted (hs₃.starts _ List.not_mem_nil hmem)
        simp only [if_true]
        refine wp_bind (wp_mono (startGraph_spec (hclosed rfl) hnot) (fun outcome s₄ h₄ => ?_)
          fun _ _ h => h)
        have hs₄ := hs₃.weaken.trans h₄
        cases outcome with
        | started => exact wp_since hs₄
        | leaseUnavailable => exact wp_since hs₄
        | raised message => exact wp_since hs₄
  · exact hcancel _ s₁ (hr₁.since _)

theorem handleWait_spec {checkpoint : PendingCheckpoint} {now : Time} (hknown : Known checkpoint s)
    (hstarted : .started t checkpoint.checkpointId ∉ s.events) :
    (handle t checkpoint now).wp (checkpointContract t)
      (fun _ s' => Since t [checkpoint.checkpointId] s s') (fun _ _ => True) s := by
  unfold handle
  refine wp_bind (wp_mono isMet_spec ?_ fun _ _ h => h)
  rintro met s₁ ⟨h₁, hasked⟩
  have hclose : ∀ (status : PendingCheckpointStatus) (reason : String) (won lost : Bucket),
      status ≠ .pending → status ≠ .fired →
      (close t checkpoint.checkpointId status reason (some now) >>= fun ok =>
        if ok = true then (ret won : CheckpointProgram τ Bucket) else ret lost).wp (checkpointContract t)
        (fun _ s' => Since t [checkpoint.checkpointId] s s') (fun _ _ => True) s₁ := by
    intro status reason won lost hstatus hfired
    refine wp_bind (wp_mono (close_done hstatus hfired) (fun ok s₂ h₂ => ?_) fun _ _ h => h)
    cases ok <;> exact wp_since (h₁.trans h₂).weaken
  cases hdecide : decideCheckpoint checkpoint met now with
  | error error => exact fun _ _ => trivial
  | ok outcome =>
      cases outcome with
      | wait => exact wp_since h₁.weaken
      | resolve => exact hclose _ _ _ _ (by decide) (by decide)
      | expire => exact hclose _ _ _ _ (by decide) (by decide)
      | fire =>
          obtain ⟨-, rfl, htrigger, hexpiry⟩ := decideCheckpoint_fire.mp hdecide
          refine wp_mono (fireWait_spec (hknown.kept h₁.waits) hasked htrigger hexpiry ?_)
            (fun _ s₂ h₂ => h₁.weaken.trans h₂) fun _ _ h => h
          exact fun hmem => hstarted (h₁.starts _ List.not_mem_nil hmem)

/-- A sweep handles each of its checkpoints once. -/
theorem handleAll_spec {now : Time} {checkpoints : List PendingCheckpoint} {report : SweepReport}
    (hnodup : (checkpoints.map (·.checkpointId)).Nodup)
    (hknown : ∀ c ∈ checkpoints, Known c s)
    (hstarted : ∀ c ∈ checkpoints, .started t c.checkpointId ∉ s.events) :
    (handleAll t now checkpoints report).wp (checkpointContract t) (fun _ _ => True)
      (fun _ _ => True) s := by
  induction checkpoints generalizing s report with
  | nil => exact wp_done
  | cons checkpoint rest ih =>
      rw [List.map_cons, List.nodup_cons] at hnodup
      refine wp_bind (wp_mono (handleWait_spec (hknown _ List.mem_cons_self)
        (hstarted _ List.mem_cons_self)) (fun bucket s₁ h₁ => ?_) fun _ _ h => h)
      refine ih hnodup.2 (fun c hc => (hknown c (List.mem_cons_of_mem _ hc)).kept h₁.waits) ?_
      intro c hc hmem
      refine hstarted c (List.mem_cons_of_mem _ hc) (h₁.starts _ ?_ hmem)
      rw [List.mem_singleton]
      intro hid
      exact hnodup.1 (hid ▸ List.mem_map_of_mem hc)

theorem monitorSweep_spec {now : Option Time} {limit : ℕ} (h : ∀ id, .started t id ∉ s.events) :
    (PendingCheckpointMonitor.sweep t now limit).wp (checkpointContract t) (fun _ _ => True)
      (fun _ _ => True) s := by
  refine wp_nowOr fun now s₁ hr₁ => wp_look fun _ s₂ hr₂ => ?_
  refine handleAll_spec (CheckpointTable.due_nodup now limit s₂.table) ?_ ?_
  · exact fun c hc => ⟨c, (CheckpointTable.mem_due hc).1, rfl⟩
  · exact fun c _ hmem => h _ ((hr₁.events _ rfl).mp ((hr₂.events _ rfl).mp hmem))

theorem task_spec {task : CheckpointTask} (h : ∀ id, .started t id ∉ s.events) :
    (task.program t).wp (checkpointContract t) (fun _ _ => True) (fun _ _ => True) s := by
  have hdone : ∀ {β : Type} {p : CheckpointProgram τ β},
      p.wp (checkpointContract t) (fun _ _ => True) (fun _ _ => True) s →
      (p >>= fun _ => (ret () : CheckpointProgram τ Unit)).wp (checkpointContract t)
        (fun _ _ => True) (fun _ _ => True) s :=
    fun hp => wp_bind (wp_mono hp (fun _ _ _ => wp_done) fun _ _ h => h)
  cases task with
  | sweep now limit => exact hdone (monitorSweep_spec h)
  | cancel checkpointId reason now =>
      refine hdone ?_
      unfold close
      rw [if_neg (by decide)]
      refine wp_nowOr fun now s₁ _ => ?_
      have hclose : (close t checkpointId .cancelled reason (some now)).wp (checkpointContract t)
          (fun _ s' => Since t [] s₁ s') (fun _ _ => True) s₁ := close_done (by decide) (by decide)
      exact wp_mono hclose (fun _ _ _ => trivial) fun _ _ h => h
  | schedule checkpoint => exact hdone schedule_spec
  | reschedule checkpoint reason =>
      refine hdone (wp_nowOr fun now s₁ _ => ?_)
      refine wp_bind (wp_mono schedule_spec (fun stored s₂ _ => ?_) fun _ _ h => h)
      refine wp_look fun _ s₃ _ => ?_
      refine wp_bind (wp_mono (closeAll_spec (by decide) (by decide)) (fun _ _ _ => wp_done)
        fun _ _ h => h)
  | resolveMatching conditionKind subjectId reason occurredAt now =>
      refine hdone (wp_nowOr fun now s₁ _ => wp_look fun _ s₂ _ => ?_)
      exact closeAll_spec (by decide) (by decide)

end programs

/-! ### The history -/

/-- What the history shows of every checkpoint. -/
def Lawful : List (CheckpointEvent τ) → Prop
  | [] => True
  | .asked _ _ _ :: earlier => Lawful earlier
  | .closed t id status _ :: earlier =>
      (∀ u status now, .closed u id status now ∉ earlier) ∧
        (status = .fired → .asked t id (some false) ∈ earlier) ∧ Lawful earlier
  | .started t id :: earlier =>
      (∃ now, .closed t id .fired now ∈ earlier) ∧ (∀ u, .started u id ∉ earlier) ∧ Lawful earlier

theorem Lawful.of_append {later earlier : List (CheckpointEvent τ)} (h : Lawful (later ++ earlier)) :
    Lawful earlier := by
  induction later with
  | nil => exact h
  | cons e later ih =>
      cases e with
      | asked t id met => exact ih h
      | closed t id status now => exact ih h.2.2
      | started t id => exact ih h.2.2

theorem Lawful.tail {e : CheckpointEvent τ} {earlier : List (CheckpointEvent τ)}
    (h : Lawful (e :: earlier)) : Lawful earlier := by
  rw [← List.singleton_append] at h
  exact h.of_append

/-- A checkpoint is closed once. -/
theorem Lawful.closed_unique {events : List (CheckpointEvent τ)} (h : Lawful events) {t u : τ}
    {id : UUID} {status status' : PendingCheckpointStatus} {now now' : Time}
    (ht : .closed t id status now ∈ events) (hu : .closed u id status' now' ∈ events) : t = u := by
  induction events with
  | nil => cases ht
  | cons e earlier ih =>
      rcases List.mem_cons.mp ht with rfl | ht'
      · rcases List.mem_cons.mp hu with he | hu'
        · cases he
          rfl
        · exact absurd hu' (h.1 u status' now')
      · rcases List.mem_cons.mp hu with rfl | hu'
        · exact absurd ht' (h.1 t status now)
        · exact ih h.tail ht' hu'

theorem Lawful.started {events : List (CheckpointEvent τ)} (h : Lawful events) {t : τ} {id : UUID}
    (ht : .started t id ∈ events) : ∃ now, .closed t id .fired now ∈ events := by
  obtain ⟨later, earlier, rfl⟩ := List.append_of_mem ht
  obtain ⟨now, hclosed⟩ := h.of_append.1
  exact ⟨now, List.mem_append_right _ (List.mem_cons_of_mem _ hclosed)⟩

/-- The event closes the checkpoint. -/
def CheckpointEvent.closes (id : UUID) : CheckpointEvent τ → Bool
  | asked _ _ _ => false
  | closed _ id' _ _ => id' == id
  | started _ _ => false

/-- The event starts the graph path of the checkpoint. -/
def CheckpointEvent.starts (id : UUID) : CheckpointEvent τ → Bool
  | asked _ _ _ => false
  | closed _ _ _ _ => false
  | started _ id' => id' == id

/-- What a lawful history shows at most once. -/
theorem Lawful.length_le_one {p : CheckpointEvent τ → Bool}
    (hp : ∀ e earlier, Lawful (e :: earlier) → p e = true → ∀ e' ∈ earlier, p e' = false)
    {events : List (CheckpointEvent τ)} (h : Lawful events) : (events.filter p).length ≤ 1 := by
  induction events with
  | nil => exact Nat.zero_le 1
  | cons e earlier ih =>
      cases hpe : p e with
      | false =>
          rw [List.filter_cons_of_neg (by simp [hpe])]
          exact ih h.tail
      | true =>
          have hnone : earlier.filter p = [] := by
            rw [List.filter_eq_nil_iff]
            intro e' he'
            simp [hp e earlier h hpe e' he']
          rw [List.filter_cons_of_pos hpe, hnone]
          rfl

theorem Lawful.length_closes {events : List (CheckpointEvent τ)} (h : Lawful events) (id : UUID) :
    (events.filter (·.closes id)).length ≤ 1 := by
  refine Lawful.length_le_one (fun e earlier he hpe e' he' => ?_) h
  cases e with
  | asked t id' met => cases hpe
  | started t id' => cases hpe
  | closed t id' status now =>
      obtain rfl : id' = id := by simpa [CheckpointEvent.closes] using hpe
      cases e' with
      | asked u id met => rfl
      | started u id => rfl
      | closed u id status now =>
          refine beq_eq_false_iff_ne.mpr ?_
          rintro rfl
          exact he.1 u status now he'

theorem Lawful.length_starts {events : List (CheckpointEvent τ)} (h : Lawful events) (id : UUID) :
    (events.filter (·.starts id)).length ≤ 1 := by
  refine Lawful.length_le_one (fun e earlier he hpe e' he' => ?_) h
  cases e with
  | asked t id' met => cases hpe
  | closed t id' status now => cases hpe
  | started t id' =>
      obtain rfl : id' = id := by simpa [CheckpointEvent.starts] using hpe
      cases e' with
      | asked u id met => rfl
      | closed u id status now => rfl
      | started u id =>
          refine beq_eq_false_iff_ne.mpr ?_
          rintro rfl
          exact he.2.1 u he'

/-! ### The invariant -/

/-- The history, and what the table shows of it. -/
structure FiringInv (s : CheckpointState τ) : Prop where
  lawful : Lawful s.events
  closed : ∀ t id status now, .closed t id status now ∈ s.events →
    status ≠ .pending ∧ ∃ row ∈ s.table.rows, row.checkpointId = id ∧ row.status = status
  window : ∀ t id now, .closed t id .fired now ∈ s.events →
    ∀ row ∈ s.table.rows, row.checkpointId = id → row.triggerAt ≤ now ∧ now < row.expiresAt

/-- A row that is still pending has no close in the history. -/
theorem FiringInv.unclosed {s : CheckpointState τ} (h : FiringInv s) {id : UUID}
    (hp : s.table.isPending id = true) (t : τ) (status : PendingCheckpointStatus) (now : Time) :
    .closed t id status now ∉ s.events := by
  intro hmem
  obtain ⟨hstatus, row, hrow, hid, hs⟩ := h.closed t id status now hmem
  obtain ⟨row', hrow', hid', hs'⟩ := CheckpointTable.isPending_iff.mp hp
  have : row = row' := CheckpointTable.eq_of_id hrow hrow' (hid.trans hid'.symm)
  exact hstatus (hs.symm.trans (this ▸ hs'))

/-- An event that closes nothing leaves what the table shows. -/
theorem FiringInv.record {s : CheckpointState τ} (h : FiringInv s) {e : CheckpointEvent τ}
    (hne : ∀ t id status now, e ≠ .closed t id status now) (hlawful : Lawful (e :: s.events)) :
    FiringInv (s.record e) := by
  refine ⟨hlawful, fun t id status now hmem => ?_, fun t id now hmem => ?_⟩
  · rcases List.mem_cons.mp hmem with he | hmem
    · exact absurd he.symm (hne t id status now)
    · exact h.closed t id status now hmem
  · rcases List.mem_cons.mp hmem with he | hmem
    · exact absurd he.symm (hne t id .fired now)
    · exact h.window t id now hmem

theorem FiringInv.step {t : τ} {s s' : CheckpointState τ} (h : FiringInv s)
    (hs : CheckpointStep t s s') : FiringInv s' := by
  cases hs with
  | quiet => exact h
  | asked id met => exact h.record (by simp) h.lawful
  | started id now hclosed hnot =>
      refine h.record (by simp) ⟨⟨now, hclosed⟩, fun u hmem => hnot ?_, h.lawful⟩
      -- Whoever started it had closed it.
      obtain ⟨now', hclosed'⟩ := h.lawful.started hmem
      obtain rfl := h.lawful.closed_unique hclosed hclosed'
      exact hmem
  | inserted checkpoint table hinsert =>
      obtain ⟨hrows, hfresh⟩ := CheckpointTable.insert_eq_some hinsert
      refine ⟨h.lawful, fun u id status now hmem => ?_, fun u id now hmem row hrow hid => ?_⟩
      · obtain ⟨hstatus, row, hrow, hid⟩ := h.closed u id status now hmem
        refine ⟨hstatus, row, ?_, hid⟩
        rw [hrows]
        exact List.mem_append_left _ hrow
      · rw [hrows] at hrow
        rcases List.mem_append.mp hrow with hrow | hrow
        · exact h.window u id now hmem row hrow hid
        · obtain rfl := List.mem_singleton.mp hrow
          obtain ⟨-, old, hold, hid', -⟩ := h.closed u id .fired now hmem
          exact absurd (hid'.trans hid.symm) (hfresh old hold)
  | closed id status reason now hstatus hpending hfire =>
      have hnone := h.unclosed hpending
      refine ⟨⟨hnone, fun hf => (hfire hf).1, h.lawful⟩, ?_, ?_⟩
      · intro u id' status' now' hmem
        rcases List.mem_cons.mp hmem with he | hmem
        · cases he
          obtain ⟨row, hrow, hid, hs⟩ := CheckpointTable.isPending_iff.mp hpending
          refine ⟨hstatus, _, CheckpointTable.mem_close.mpr ⟨row, hrow, rfl⟩, ?_⟩
          rw [CheckpointTable.closeRow, if_pos ⟨hid, hs⟩]
          exact ⟨hid, rfl⟩
        · obtain ⟨hstatus', row, hrow, hid, hs⟩ := h.closed u id' status' now' hmem
          refine ⟨hstatus', row, CheckpointTable.mem_close.mpr ⟨row, hrow, ?_⟩, hid, hs⟩
          exact CheckpointTable.closeRow_of_closed (hs ▸ hstatus') ..
      · intro u id' now' hmem row hrow hid
        obtain ⟨old, hold, rfl⟩ := CheckpointTable.mem_close.mp hrow
        have hwait := CheckpointTable.closeRow_wait id status reason now old
        rw [PendingCheckpoint.checkpointId_of_wait hwait] at hid
        rw [PendingCheckpoint.triggerAt_of_wait hwait, PendingCheckpoint.expiresAt_of_wait hwait]
        rcases List.mem_cons.mp hmem with he | hmem
        · cases he
          exact (hfire rfl).2 old hold hid
        · exact h.window u id' now' hmem old hold hid

/-- A closed row stays as it was closed. -/
theorem CheckpointStep.closed_kept {t : τ} {s s' : CheckpointState τ} (h : CheckpointStep t s s')
    {row : PendingCheckpoint} (hrow : row ∈ s.table.rows) (hstatus : row.status ≠ .pending) :
    row ∈ s'.table.rows := by
  cases h with
  | quiet => exact hrow
  | asked id met => exact hrow
  | started id now _ _ => exact hrow
  | inserted checkpoint table hinsert =>
      rw [(CheckpointTable.insert_eq_some hinsert).1]
      exact List.mem_append_left _ hrow
  | closed id status reason now _ _ _ =>
      exact CheckpointTable.mem_close.mpr
        ⟨row, hrow, CheckpointTable.closeRow_of_closed hstatus id status reason now⟩

/-- The wait `checkpoint` is still pending, or the history says who closed it. -/
def Traced (checkpoint : PendingCheckpoint) (s : CheckpointState τ) : Prop :=
  ∃ row ∈ s.table.rows, row.wait = checkpoint.wait ∧
    (row.status = .pending ∨ ∃ t now, .closed t checkpoint.checkpointId row.status now ∈ s.events)

theorem Traced.record {checkpoint : PendingCheckpoint} {s : CheckpointState τ}
    (h : Traced checkpoint s) (e : CheckpointEvent τ) : Traced checkpoint (s.record e) := by
  obtain ⟨row, hrow, hwait, hstatus⟩ := h
  refine ⟨row, hrow, hwait, hstatus.imp_right ?_⟩
  rintro ⟨u, now, hmem⟩
  exact ⟨u, now, List.mem_cons_of_mem _ hmem⟩

theorem Traced.close {checkpoint : PendingCheckpoint} {s : CheckpointState τ}
    (h : Traced checkpoint s) (t : τ) (id : UUID) (status : PendingCheckpointStatus) (reason : String)
    (now : Time) : Traced checkpoint
      { table := s.table.close id status reason now
        events := .closed t id status now :: s.events } := by
  obtain ⟨row, hrow, hwait, hstatus⟩ := h
  refine ⟨_, CheckpointTable.mem_close.mpr ⟨row, hrow, rfl⟩,
    (CheckpointTable.closeRow_wait ..).trans hwait, ?_⟩
  by_cases hc : row.checkpointId = id ∧ row.status = .pending
  · rw [CheckpointTable.closeRow, if_pos hc]
    refine Or.inr ⟨t, now, ?_⟩
    rw [← PendingCheckpoint.checkpointId_of_wait hwait, hc.1]
    exact List.mem_cons_self
  · rw [CheckpointTable.closeRow, if_neg hc]
    refine hstatus.imp_right ?_
    rintro ⟨u, now', hmem⟩
    exact ⟨u, now', List.mem_cons_of_mem _ hmem⟩

theorem Traced.step {checkpoint : PendingCheckpoint} {t : τ} {s s' : CheckpointState τ}
    (h : Traced checkpoint s) (hs : CheckpointStep t s s') : Traced checkpoint s' := by
  cases hs with
  | quiet => exact h
  | asked id met => exact h.record _
  | started id now _ _ => exact h.record _
  | inserted c table hinsert =>
      obtain ⟨row, hrow, hwait, hstatus⟩ := h
      refine ⟨row, ?_, hwait, hstatus⟩
      rw [(CheckpointTable.insert_eq_some hinsert).1]
      exact List.mem_append_left _ hrow
  | closed id status reason now _ _ _ => exact h.close t id status reason now

/-! ### Interleavings -/

section run

variable [DecidableEq τ]

omit [DecidableEq τ] in
theorem checkpointContract_rely (t u : τ) (htu : t ≠ u) (s s' : CheckpointState τ)
    (h : (checkpointContract u).guar s s') : (checkpointContract t).rely s s' :=
  CheckpointStep.sameProcess h htu

omit [DecidableEq τ] in
theorem checkpointPool_sound (tasks : τ → CheckpointTask) (table : CheckpointTable) :
    Pool.Sound checkpointContract (fun _ _ _ => True) (fun _ _ _ => True)
      (checkpointPool tasks table) :=
  fun _ => task_spec fun _ => List.not_mem_nil

/-- The invariant rule for these runs. -/
theorem checkpointPool_inv {tasks : τ → CheckpointTask} {table : CheckpointTable}
    {J : CheckpointState τ → Prop} (hJ : ∀ t s s', CheckpointStep t s s' → J s → J s')
    (h0 : J ⟨table, []⟩) (sched : List (τ × CheckpointInput)) :
    J ((checkpointPool tasks table).run sched).state :=
  Pool.run_inv (checkpointPool_sound tasks table) (fun _ => rfl) checkpointContract_rely
    (fun e _ s s' _ hs h => hJ e.1 s s' hs h) (Pool.meets_true _ _) h0

/-- **Fired at most once**: in every interleaving of sweeps, cancellations, reschedules and
resolutions, a checkpoint that is not pending any more stays as it was closed; it is closed at
most once, by the process the history names; its graph path is started at most once, by the
process whose close fired it; and it is fired only in its window, by a sweep that was told its
condition is unmet. -/
theorem checkpoint_firesOnce (tasks : τ → CheckpointTask) (table : CheckpointTable)
    (sched later : List (τ × CheckpointInput)) (id : UUID) :
    (∀ row ∈ ((checkpointPool tasks table).run sched).state.table.rows, row.checkpointId = id →
      row.status ≠ .pending →
        row ∈ ((checkpointPool tasks table).run (sched ++ later)).state.table.rows) ∧
    (∀ checkpoint ∈ table.rows, checkpoint.checkpointId = id → checkpoint.status = .pending →
      ∀ row ∈ ((checkpointPool tasks table).run sched).state.table.rows, row.checkpointId = id →
        row.status ≠ .pending → ∃ t now, .closed t id row.status now ∈
          ((checkpointPool tasks table).run sched).state.events) ∧
    (((checkpointPool tasks table).run sched).state.events.filter (·.closes id)).length ≤ 1 ∧
    (((checkpointPool tasks table).run sched).state.events.filter (·.starts id)).length ≤ 1 ∧
    (∀ t after before, ((checkpointPool tasks table).run sched).state.events =
      after ++ .started t id :: before → ∃ now, .closed t id .fired now ∈ before) ∧
    (∀ t now after before, ((checkpointPool tasks table).run sched).state.events =
      after ++ .closed t id .fired now :: before → .asked t id (some false) ∈ before ∧
        ∀ row ∈ ((checkpointPool tasks table).run sched).state.table.rows, row.checkpointId = id →
          row.triggerAt ≤ now ∧ now < row.expiresAt) := by
  have hinv : FiringInv ((checkpointPool tasks table).run sched).state := by
    refine checkpointPool_inv (fun t s s' hs h => h.step hs) ⟨trivial, ?_, ?_⟩ sched
    · exact fun _ _ _ _ h => absurd h List.not_mem_nil
    · exact fun _ _ _ h => absurd h List.not_mem_nil
  have hlawful := hinv.lawful
  refine ⟨?_, ?_, hlawful.length_closes id, hlawful.length_starts id, ?_, ?_⟩
  · intro row hrow _ hstatus
    exact Pool.run_inv_append (checkpointPool_sound tasks table) (fun _ => rfl)
      checkpointContract_rely (J := fun s => row ∈ s.table.rows)
      (fun e _ s s' _ hs h => CheckpointStep.closed_kept hs h hstatus) (Pool.meets_true _ _) hrow
  · rintro checkpoint hmem rfl hpending row hrow hid hstatus
    have htraced : Traced checkpoint ((checkpointPool tasks table).run sched).state :=
      checkpointPool_inv (fun t s s' hs h => h.step hs) ⟨checkpoint, hmem, rfl, Or.inl hpending⟩ sched
    obtain ⟨row', hrow', hwait, hclosed⟩ := htraced
    obtain rfl := CheckpointTable.eq_of_id hrow hrow'
      (hid.trans (PendingCheckpoint.checkpointId_of_wait hwait).symm)
    exact hclosed.resolve_left hstatus
  · intro t after before hevents
    rw [hevents] at hlawful
    exact hlawful.of_append.1
  · intro t now after before hevents
    have hmem : .closed t id .fired now ∈ ((checkpointPool tasks table).run sched).state.events := by
      rw [hevents]
      exact List.mem_append_right _ List.mem_cons_self
    rw [hevents] at hlawful
    exact ⟨hlawful.of_append.2.1 rfl, hinv.window t id now hmem⟩

end run

end PersonalOS
