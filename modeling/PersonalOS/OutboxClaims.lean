import PersonalOS.EventOutbox
import PersonalOS.Pool

/-! # Claims of outbox rows, step by step

`claim_next` reads a row and then claims it by a compare-and-set on what it read; between the two
anything may happen.

* **Steps.** `claimNextSteps` is the loop of `claim_next` with its reads and updates as steps of
  their own; a transport's claim reads what `EventOutbox` reads (`isClaimableBy_transport`).
* **History.** A `ClaimWin` is a row that an update claimed: as it was read, and as it was found.
* **One winner.** A row that is claimed was pending, or its last claim had lapsed
  (`OneWinner`), whatever the interleaving.
* **Backoff.** The update does not look at `available_at`.  As long as it finds there what was
  read, no row is claimed before its backoff is over. -/

namespace PersonalOS

open Concurrent

/-- What a claim asks for. -/
structure ClaimQuery where
  type : Option String
  excludeTypes : List String
  reclaimAfter : Option ℤ
deriving DecidableEq, Repr

/-- The claims of an event transport. -/
def TransportConfig.query (config : TransportConfig) : ClaimQuery where
  type := none
  excludeTypes := config.excludeTypes
  reclaimAfter := some config.visibilityTimeout

namespace OutboxRow

/-- The filter of `claim_next`. -/
def isClaimableBy (query : ClaimQuery) (now : Instant) (row : OutboxRow) : Bool :=
  query.type.all (fun type => row.type == type) && !query.excludeTypes.contains row.type &&
    ((row.status == .pending && row.availableAt.all fun available => decide (available ≤ now)) ||
      query.reclaimAfter.any fun after => row.status == .inProgress &&
        row.claimedAt.all fun claimed => decide (claimed ≤ now - after))

/-- The row still has the status and the stamp that were read. -/
def isAsRead (candidate row : OutboxRow) : Bool :=
  row.id == candidate.id && row.status == candidate.status && row.claimedAt == candidate.claimedAt

theorem isClaimableBy_transport (config : TransportConfig) (now : Instant) (row : OutboxRow) :
    row.isClaimableBy config.query now = row.isClaimable config now := by
  unfold isClaimableBy isClaimable TransportConfig.query
  rw [Option.all_none, Bool.true_and, Option.any_some]

end OutboxRow

/-- The row a claim reads. -/
def OutboxTable.candidateBy (query : ClaimQuery) (now : Instant) (t : OutboxTable) :
    Option OutboxRow :=
  (t.rows.filter (OutboxRow.isClaimableBy query now)).argmin OutboxRow.age

/-! ### The steps -/

/-- A row that an update of `claim_next` claimed. -/
structure ClaimWin (τ : Type) where
  process : τ
  query : ClaimQuery
  /-- The time of the claim. -/
  now : Instant
  /-- The row as it was read, and as the update found it. -/
  read : OutboxRow
  row : OutboxRow

/-- The outbox and what was claimed of it, newest first. -/
structure ClaimsState (τ : Type) where
  table : OutboxTable
  wins : List (ClaimWin τ)

/-- What a process does with the outbox. -/
inductive OutboxTask where
  | claim (query : ClaimQuery)
  | ack (claimed : ClaimedEvent)
  | nack (claimed : ClaimedEvent) (error : DeliveryError) (rand : ℚ)
  | deadLetter (claimed : ClaimedEvent) (reason : DeadLetterReason)
  | requeue (outboxId : UUID)

section steps

open Concurrent.Prog (act read input)

variable {τ : Type} (config : TransportConfig) (redactText : RedactText) (t : τ)

abbrev OutboxProgram (τ : Type) := Prog Instant (ClaimsState τ) Empty

/-- The compare-and-set of a claim. -/
def claimRow (query : ClaimQuery) (now : Instant) (candidate : OutboxRow) (s : ClaimsState τ) :
    ℕ × ClaimsState τ :=
  let updated := s.table.claimCandidate candidate now
  let won := (s.table.rows.filter candidate.isAsRead).map fun row =>
    { process := t, query, now, read := candidate, row : ClaimWin τ }
  (updated.1, { table := updated.2, wins := won ++ s.wins })

/-- The loop of `claim_next`. -/
def claimNextSteps (query : ClaimQuery) (now : Instant) : ℕ → OutboxProgram τ (Option OutboxRow)
  | 0 => return none
  | tries + 1 => do
      match ← read fun s => s.table.candidateBy query now with
      | none => return none
      | some candidate =>
          let updated ← act fun _ s => claimRow t query now candidate s
          if updated = 1 then read fun s => s.table.get candidate.id
          else claimNextSteps query now tries

/-- One statement on the table, at the time it is made. -/
def onOutbox {β : Type} (f : Instant → OutboxTable → β × OutboxTable) : OutboxProgram τ β :=
  act fun now s => ((f now s.table).1, { s with table := (f now s.table).2 })

/-- One call; a claim is made at the time its first step is. -/
def OutboxTask.program (task : OutboxTask) : OutboxProgram τ Unit :=
  match task with
  | .claim query => do
      let now ← input id
      let _ ← claimNextSteps t query now (EventOutbox.claimRaceRetries + 1)
      return ()
  | .ack claimed => do
      let _ ← onOutbox fun now => EventOutbox.ack claimed now
      return ()
  | .nack claimed error rand => do
      let _ ← onOutbox fun now => EventOutbox.nack config redactText claimed error now rand
      return ()
  | .deadLetter claimed reason => do
      let _ ← onOutbox fun now => EventOutbox.deadLetter redactText claimed reason now
      return ()
  | .requeue outboxId => do
      let _ ← onOutbox fun _ => EventOutbox.requeue outboxId
      return ()

/-- Any number of calls on one outbox. -/
def outboxPool (tasks : τ → OutboxTask) (table : OutboxTable) :
    Pool τ Instant (ClaimsState τ) Empty Unit where
  procs t := (tasks t).program config redactText t
  state := ⟨table, []⟩

end steps

/-! ### What a step does -/

section guarantee

variable {τ : Type} {s s' : ClaimsState τ}

/-- What one step of any call does. -/
inductive ClaimsStep (s : ClaimsState τ) : ClaimsState τ → Prop where
  /-- It claims nothing, and what is being delivered afterwards is as before. -/
  | settled (table : OutboxTable) :
      table.rows.map (·.id) = s.table.rows.map (·.id) →
      (∀ row ∈ table.rows, row.status = .inProgress → row ∈ s.table.rows) →
      ClaimsStep s { s with table }
  /-- It claims what is as it was when it was claimable. -/
  | claimed (t : τ) (query : ClaimQuery) (now : Instant) (candidate : OutboxRow) :
      candidate.isClaimableBy query now = true →
      ClaimsStep s (claimRow t query now candidate s).2

theorem ClaimsStep.refl (s : ClaimsState τ) : ClaimsStep s s :=
  .settled s.table rfl fun _ hrow _ => hrow

theorem ClaimsStep.update {p : OutboxRow → Bool} {f : OutboxRow → OutboxRow}
    (hid : ∀ row, (f row).id = row.id) (hstatus : ∀ row, (f row).status ≠ .inProgress) :
    ClaimsStep s { s with table := (s.table.updateWhere p f).2 } := by
  refine .settled _ ?_ ?_
  · unfold OutboxTable.updateWhere
    dsimp only
    rw [List.map_map]
    refine List.map_congr_left fun row _ => ?_
    dsimp only [Function.comp]
    split
    · exact hid row
    · rfl
  · intro row hrow hprogress
    obtain ⟨old, hold, rfl⟩ := List.mem_map.mp hrow
    split at hprogress
    · exact absurd hprogress (hstatus old)
    · rename_i hp
      rw [if_neg hp]
      exact hold

theorem claimRow_cases (t : τ) (query : ClaimQuery) (now : Instant) (candidate : OutboxRow)
    (hids : (s.table.rows.map (·.id)).Nodup) :
    (claimRow t query now candidate s).2 = s ∨
      ∃ row ∈ s.table.rows, candidate.isAsRead row = true ∧
        (claimRow t query now candidate s).2.wins = ⟨t, query, now, candidate, row⟩ :: s.wins ∧
        (claimRow t query now candidate s).2.table.rows = s.table.rows.map fun other =>
          if candidate.isAsRead other then other.claimed now else other := by
  by_cases hfound : ∃ row ∈ s.table.rows, candidate.isAsRead row = true
  · obtain ⟨row, hrow, hread⟩ := hfound
    refine Or.inr ⟨row, hrow, hread, ?_, rfl⟩
    have hone : s.table.rows.filter candidate.isAsRead = [row] := by
      refine Keyed.filter_eq_singleton hids hrow fun other hother => ⟨fun h => ?_, fun h => ?_⟩
      · simp only [OutboxRow.isAsRead, Bool.and_eq_true, beq_iff_eq] at h hread
        exact h.1.1.trans hread.1.1.symm
      · rw [Keyed.eq_of_key hids hother hrow h]
        exact hread
    unfold claimRow
    dsimp only
    rw [hone]
    rfl
  · left
    have hnone : s.table.rows.filter candidate.isAsRead = [] := by
      rw [List.filter_eq_nil_iff]
      exact fun row hrow hread => hfound ⟨row, hrow, hread⟩
    have hsame : ∀ row ∈ s.table.rows,
        (if candidate.isAsRead row then row.claimed now else row) = row :=
      fun row hrow => if_neg fun hread => hfound ⟨row, hrow, hread⟩
    have htable : (s.table.claimCandidate candidate now).2 = s.table := by
      have hrows := List.map_congr_left hsame
      rw [List.map_id'] at hrows
      exact congrArg OutboxTable.mk hrows
    unfold claimRow
    dsimp only
    rw [hnone, htable]
    rfl

end guarantee

/-! ### One winner -/

section oneWinner

variable {τ : Type} {s s' : ClaimsState τ}

/-- The claim under which a row is being delivered: the last that was won of it. -/
def lastWin (id : UUID) (wins : List (ClaimWin τ)) : Option (ClaimWin τ) :=
  wins.find? fun win => win.row.id == id

/-- The row was free to be claimed: pending, or its last claim had lapsed. -/
def ClaimWin.Free (earlier : List (ClaimWin τ)) (win : ClaimWin τ) : Prop :=
  win.row.status = .pending ∨
    win.row.status = .inProgress ∧ ∃ last after, lastWin win.row.id earlier = some last ∧
      win.query.reclaimAfter = some after ∧ last.now ≤ win.now - after

/-- Nobody wins a row while it is being delivered under an earlier claim. -/
def OneWinner : List (ClaimWin τ) → Prop
  | [] => True
  | win :: earlier => win.Free earlier ∧ OneWinner earlier

/-- A row in progress is held under the claim that was last won of it. -/
structure Held (s : ClaimsState τ) : Prop where
  ids_nodup : (s.table.rows.map (·.id)).Nodup
  held : ∀ row ∈ s.table.rows, row.status = .inProgress →
    ∃ win, lastWin row.id s.wins = some win ∧ row.claimedAt = some win.now
  oneWinner : OneWinner s.wins

theorem Held.free {query : ClaimQuery} {now : Instant} {candidate row : OutboxRow} (h : Held s)
    (hclaimable : candidate.isClaimableBy query now = true) (hrow : row ∈ s.table.rows)
    (hread : candidate.isAsRead row = true) :
    row.status = .pending ∧ candidate.availableAt.all (fun available => decide (available ≤ now)) = true ∨
      row.status = .inProgress ∧ ∃ last after, lastWin row.id s.wins = some last ∧
        row.claimedAt = some last.now ∧ query.reclaimAfter = some after ∧ last.now ≤ now - after := by
  simp only [OutboxRow.isAsRead, Bool.and_eq_true, beq_iff_eq] at hread
  simp only [OutboxRow.isClaimableBy, Bool.and_eq_true, Bool.or_eq_true, beq_iff_eq,
    Option.any_eq_true] at hclaimable
  rcases hclaimable.2 with ⟨hpending, havailable⟩ | ⟨after, hafter, hprogress, hlapsed⟩
  · exact Or.inl ⟨hread.1.2.trans hpending, havailable⟩
  · have hstatus : row.status = .inProgress := hread.1.2.trans hprogress
    obtain ⟨last, hlast, hclaimed⟩ := h.held row hrow hstatus
    rw [← hread.2, hclaimed, Option.all_some, decide_eq_true_eq] at hlapsed
    exact Or.inr ⟨hstatus, last, after, hlast, hclaimed, hafter, hlapsed⟩

theorem Held.step (h : Held s) (hstep : ClaimsStep s s') : Held s' := by
  cases hstep with
  | settled table hids hprogress =>
      refine ⟨?_, fun row hrow hstatus => ?_, h.oneWinner⟩
      · dsimp only
        rw [hids]
        exact h.ids_nodup
      · exact h.held row (hprogress row hrow hstatus) hstatus
  | claimed t query now candidate hclaimable =>
      rcases claimRow_cases t query now candidate h.ids_nodup with hsame | ⟨row, hrow, hread, hwins, hrows⟩
      · rw [hsame]
        exact h
      · have hids : ∀ other : OutboxRow,
            (if candidate.isAsRead other then other.claimed now else other).id = other.id := by
          intro other
          split
          · rfl
          · rfl
        refine ⟨?_, ?_, ?_⟩
        · rw [hrows, List.map_map]
          have hsame : (s.table.rows.map ((fun row : OutboxRow => row.id) ∘ fun other =>
              if candidate.isAsRead other then other.claimed now else other)) =
                s.table.rows.map (·.id) := List.map_congr_left fun other _ => hids other
          rw [hsame]
          exact h.ids_nodup
        · rw [hrows, hwins]
          intro new hnew hstatus
          obtain ⟨other, hother, rfl⟩ := List.mem_map.mp hnew
          rw [hids]
          by_cases hthis : candidate.isAsRead other = true
          · rw [if_pos hthis]
            have hsameId : row.id = other.id := by
              simp only [OutboxRow.isAsRead, Bool.and_eq_true, beq_iff_eq] at hthis hread
              exact hread.1.1.trans hthis.1.1.symm
            refine ⟨_, List.find?_cons_of_pos (beq_iff_eq.mpr hsameId), rfl⟩
          · rw [if_neg hthis] at hstatus ⊢
            have hne : row.id ≠ other.id := by
              intro hid
              apply hthis
              rw [← Keyed.eq_of_key h.ids_nodup hrow hother hid]
              exact hread
            obtain ⟨win, hlast, hclaimed⟩ := h.held other hother hstatus
            refine ⟨win, ?_, hclaimed⟩
            unfold lastWin
            rw [List.find?_cons_of_neg (by simpa using hne)]
            exact hlast
        · rw [hwins]
          refine ⟨?_, h.oneWinner⟩
          rcases h.free hclaimable hrow hread with ⟨hpending, -⟩ | ⟨hprogress, last, after, hlast, -, hlapsed⟩
          · exact Or.inl hpending
          · exact Or.inr ⟨hprogress, last, after, hlast, hlapsed⟩

end oneWinner

/-! ### Backoff -/

section backoff

variable {τ : Type} {s s' : ClaimsState τ}

/-- The backoff of the row was over when it was claimed. -/
def ClaimWin.InTime (win : ClaimWin τ) : Prop :=
  win.row.availableAt.all (fun available => decide (available ≤ win.now)) = true

instance (win : ClaimWin τ) : Decidable win.InTime := inferInstanceAs (Decidable (_ = true))

/-- The update found the `available_at` that was read, and a claim lapses no earlier than it is
made. -/
def ClaimWin.Undelayed (win : ClaimWin τ) : Prop :=
  win.row.availableAt = win.read.availableAt ∧
    win.query.reclaimAfter.all (fun after => decide (0 ≤ after)) = true

instance (win : ClaimWin τ) : Decidable win.Undelayed := inferInstanceAs (Decidable (_ ∧ _))

/-- What a step claims is undelayed. -/
def UndelayedStep (s s' : ClaimsState τ) : Prop :=
  ∀ win ∈ s'.wins.take (s'.wins.length - s.wins.length), win.Undelayed

instance : Decidable (UndelayedStep s s') := List.decidableBAll ..

/-- Nothing was claimed before its backoff was over, and what is being delivered was not. -/
structure BackedOff (s : ClaimsState τ) : Prop extends Held s where
  delivering : ∀ row ∈ s.table.rows, row.status = .inProgress → ∀ available claimed,
    row.availableAt = some available → row.claimedAt = some claimed → available ≤ claimed
  inTime : ∀ win ∈ s.wins, win.InTime

theorem BackedOff.inTime_of_undelayed {win : ClaimWin τ} (h : BackedOff s)
    (hclaimable : win.read.isClaimableBy win.query win.now = true) (hrow : win.row ∈ s.table.rows)
    (hread : win.read.isAsRead win.row = true) (hundelayed : win.Undelayed) : win.InTime := by
  unfold ClaimWin.InTime
  obtain ⟨hsame, hafterAll⟩ := hundelayed
  rcases h.free hclaimable hrow hread with ⟨-, havailable⟩ |
    ⟨hprogress, last, after, -, hclaimed, hafter, hlapsed⟩
  · rw [hsame]
    exact havailable
  · rw [hafter, Option.all_some, decide_eq_true_eq] at hafterAll
    rw [Option.all_eq_true]
    intro available havailable
    have hle := h.delivering win.row hrow hprogress available last.now havailable hclaimed
    unfold Instant at *
    exact decide_eq_true (by omega)

theorem BackedOff.step (h : BackedOff s) (hundelayed : UndelayedStep s s') (hstep : ClaimsStep s s') :
    BackedOff s' := by
  have hheld : Held s' := h.toHeld.step hstep
  cases hstep with
  | settled table hids hprogress =>
      refine ⟨hheld, fun row hrow hstatus => ?_, h.inTime⟩
      exact h.delivering row (hprogress row hrow hstatus) hstatus
  | claimed t query now candidate hclaimable =>
      rcases claimRow_cases t query now candidate h.ids_nodup with
        hsame | ⟨row, hrow, hread, hwins, hrows⟩
      · rw [hsame]
        exact h
      · have hmem : (⟨t, query, now, candidate, row⟩ : ClaimWin τ) ∈
            (claimRow t query now candidate s).2.wins.take
              ((claimRow t query now candidate s).2.wins.length - s.wins.length) := by
          rw [hwins, List.length_cons, Nat.add_sub_cancel_left, List.take_succ_cons]
          exact List.mem_cons_self
        have hwin : (⟨t, query, now, candidate, row⟩ : ClaimWin τ).InTime :=
          h.inTime_of_undelayed hclaimable hrow hread (hundelayed _ hmem)
        refine ⟨hheld, ?_, ?_⟩
        · rw [hrows]
          intro new hnew hstatus available claimed havailable hclaimed
          obtain ⟨other, hother, rfl⟩ := List.mem_map.mp hnew
          by_cases hthis : candidate.isAsRead other = true
          · rw [if_pos hthis] at havailable hclaimed
            have hid : other.id = row.id := by
              simp only [OutboxRow.isAsRead, Bool.and_eq_true, beq_iff_eq] at hthis hread
              exact hthis.1.1.trans hread.1.1.symm
            have hsame : other = row := Keyed.eq_of_key h.ids_nodup hother hrow hid
            have hnow : now = claimed := Option.some.inj hclaimed
            have havail : row.availableAt = some available := by
              rw [← hsame]
              exact havailable
            unfold ClaimWin.InTime at hwin
            dsimp only at hwin
            rw [havail, Option.all_some, decide_eq_true_eq] at hwin
            rw [← hnow]
            exact hwin
          · rw [if_neg hthis] at hstatus havailable hclaimed
            exact h.delivering other hother hstatus available claimed havailable hclaimed
        · rw [hwins]
          exact List.forall_mem_cons.mpr ⟨hwin, h.inTime⟩

end backoff

/-! ### Runs -/

section runs

variable {τ : Type} (config : TransportConfig) (redactText : RedactText)

/-- A call owes `ClaimsStep`s, and counts on nothing. -/
def outboxContract (assume : ClaimsState τ → ClaimsState τ → Prop) : Contract (ClaimsState τ) where
  rely _ _ := True
  guar := ClaimsStep
  assume := assume
  rely_refl _ := trivial
  rely_trans _ _ := trivial

variable {assume : ClaimsState τ → ClaimsState τ → Prop} {s : ClaimsState τ}

theorem claimNextSteps_spec (t : τ) (query : ClaimQuery) (now : Instant) (tries : ℕ) :
    (claimNextSteps t query now tries).wp (outboxContract assume) (fun _ _ => True)
      (fun _ _ => True) s := by
  induction tries generalizing s with
  | zero => exact fun _ _ => trivial
  | succ tries ih =>
      unfold claimNextSteps
      rw [Prog.read_bind, Prog.wp_call]
      intro s₁ _ clock _
      refine ⟨.refl s₁, ?_⟩
      cases hcandidate : s₁.table.candidateBy query now with
      | none => exact fun _ _ => trivial
      | some candidate =>
          have hclaimable : candidate.isClaimableBy query now = true :=
            (List.mem_filter.mp (List.argmin_mem hcandidate)).2
          dsimp only
          rw [Prog.act_bind, Prog.wp_call]
          intro s₂ _ clock' _
          refine ⟨.claimed t query now candidate hclaimable, ?_⟩
          split
          · intro s₃ _ clock'' _
            exact ⟨.refl s₃, fun _ _ => trivial⟩
          · exact ih

theorem onOutbox_spec {β : Type} {f : Instant → OutboxTable → β × OutboxTable}
    (hf : ∀ now (s : ClaimsState τ), ClaimsStep s { s with table := (f now s.table).2 }) :
    (onOutbox f >>= fun _ => .ret ()).wp (outboxContract assume) (fun _ _ => True)
      (fun _ _ => True) s :=
  fun s' _ now _ => ⟨hf now s', fun _ _ => trivial⟩

theorem updateClaim_settles {outboxId : UUID} {claimedAt : Option Instant}
    {values : OutboxRow → OutboxRow} (hid : ∀ row, (values row).id = row.id)
    (hstatus : ∀ row, (values row).status ≠ .inProgress) :
    ClaimsStep s { s with table := (EventOutbox.updateClaim outboxId claimedAt values s.table).2 } :=
  .update hid hstatus

theorem park_settles {outboxId : UUID} {claimedAt : Option Instant} {status : OutboxEventStatus}
    {error : String} {now : Instant} (hstatus : status ≠ .inProgress) :
    ClaimsStep s { s with table :=
      (EventOutbox.park redactText outboxId claimedAt status error now s.table).2 } :=
  updateClaim_settles (fun _ => rfl) fun _ => hstatus

theorem nack_settles {claimed : ClaimedEvent} {error : DeliveryError} {now : Instant} {rand : ℚ} :
    ClaimsStep s { s with table :=
      (EventOutbox.nack config redactText claimed error now rand s.table).2 } := by
  unfold EventOutbox.nack
  dsimp only
  split
  · exact park_settles redactText (by decide)
  · exact park_settles redactText (by decide)
  · split
    · exact .refl s
    · exact updateClaim_settles (fun _ => rfl) fun _ => by simp

theorem outboxPool_sound (tasks : τ → OutboxTask) (table : OutboxTable) :
    (outboxPool config redactText tasks table).Sound (fun _ => outboxContract assume)
      (fun _ _ _ => True) fun _ _ _ => True := by
  intro t
  unfold outboxPool OutboxTask.program
  dsimp only
  cases tasks t with
  | claim query =>
      dsimp only
      rw [Prog.input_bind, Prog.wp_call]
      intro s _ now _
      refine ⟨.refl s, Prog.wp_bind ?_⟩
      exact Prog.wp_mono (claimNextSteps_spec t query now _) (fun _ _ _ _ _ => trivial)
        fun _ _ h => h
  | ack claimed =>
      exact onOutbox_spec fun _ _ => updateClaim_settles (fun _ => rfl) fun _ => by simp
  | nack claimed error rand => exact onOutbox_spec fun _ _ => nack_settles config redactText
  | deadLetter claimed reason => exact onOutbox_spec fun _ _ => park_settles redactText (by decide)
  | requeue outboxId => exact onOutbox_spec fun _ _ => .update (fun _ => rfl) fun _ => by simp

variable [DecidableEq τ]

theorem outboxPool_inv {J : ClaimsState τ → Prop} {tasks : τ → OutboxTask} {table : OutboxTable}
    {sched : List (τ × Instant)}
    (hJ : ∀ s s', assume s s' → ClaimsStep s s' → J s → J s')
    (hmeets : Pool.Meets (fun _ => assume) (outboxPool config redactText tasks table) sched)
    (h0 : J ⟨table, []⟩) : J ((outboxPool config redactText tasks table).run sched).state := by
  have hK : ∀ t : τ, (outboxContract assume).assume = (fun _ : τ => assume) t := fun _ => rfl
  exact Pool.run_inv (outboxPool_sound config redactText tasks table) hK
    (fun _ _ _ _ _ _ => trivial) (fun _ _ s s' hassume hstep h => hJ s s' hassume hstep h) hmeets h0

/-- **Claims and backoff.**  Whatever the interleaving, no row is won while it is being delivered
under an earlier claim that has not lapsed; and as long as every update finds the `available_at`
that was read, every row is claimed after its backoff is over. -/
theorem outbox_backoff_respected (tasks : τ → OutboxTask) (table : OutboxTable)
    (hids : (table.rows.map (·.id)).Nodup) (hidle : ∀ row ∈ table.rows, row.status ≠ .inProgress)
    (sched : List (τ × Instant)) :
    OneWinner ((outboxPool config redactText tasks table).run sched).state.wins ∧
      (Pool.Meets (fun _ => UndelayedStep) (outboxPool config redactText tasks table) sched →
        ∀ win ∈ ((outboxPool config redactText tasks table).run sched).state.wins, win.InTime) := by
  have hheld : Held (⟨table, []⟩ : ClaimsState τ) :=
    ⟨hids, fun row hrow hstatus => absurd hstatus (hidle row hrow), trivial⟩
  constructor
  · have hall := Pool.meets_true (outboxPool config redactText tasks table) sched
    exact (outboxPool_inv config redactText (fun _ _ _ hstep h => Held.step h hstep) hall hheld).oneWinner
  · intro hmeets
    have hbacked : BackedOff (⟨table, []⟩ : ClaimsState τ) :=
      ⟨hheld, fun row hrow hstatus => absurd hstatus (hidle row hrow), fun win hwin => by cases hwin⟩
    exact (outboxPool_inv config redactText
      (fun _ _ hundelayed hstep h => BackedOff.step h hundelayed hstep) hmeets hbacked).inTime

end runs

/-- Leases of five minutes; deliveries are retried after half a minute at first. -/
def halfMinuteBackoff : TransportConfig where
  excludeTypes := []
  visibilityTimeout := 300000000
  retryPolicy :=
    { toRetryPolicy := .read
      baseDelay := 60
      maxDelay := 3600
      base_nonneg := by decide
      base_le_max := by decide }

def noticeEnvelope : TransportEnvelope := ⟨1, "notice", "notice-1", ""⟩

/-- One event, staged at 0. -/
def stagedNotice : OutboxTable where
  rows := [{ id := 1, type := "notice", dedupeKey := "notice-1", payload := noticeEnvelope,
             createdAt := 0 }]

/-- Two workers claim, and the delivery of the second one fails. -/
def racingClaims : Fin 3 → OutboxTask
  | 2 => .nack ⟨1, noticeEnvelope, 1, some 1⟩ ⟨.unclassified, none, "down"⟩ 0
  | _ => .claim halfMinuteBackoff.query

theorem outbox_backoff_respected_raced :
    OneWinner ((outboxPool halfMinuteBackoff id racingClaims stagedNotice).run
        [(0, 0), (1, 1), (1, 1), (1, 1), (0, 2), (0, 2), (2, 2)]).state.wins ∧
      ∀ win ∈ ((outboxPool halfMinuteBackoff id racingClaims stagedNotice).run
        [(0, 0), (1, 1), (1, 1), (1, 1), (0, 2), (0, 2), (2, 2)]).state.wins, win.InTime := by
  obtain ⟨hone, hbackoff⟩ := outbox_backoff_respected halfMinuteBackoff id racingClaims stagedNotice
    (by decide) (by decide) [(0, 0), (1, 1), (1, 1), (1, 1), (0, 2), (0, 2), (2, 2)]
  exact ⟨hone, hbackoff (by decide +kernel)⟩

/-- A worker that read the row before the failed delivery claims it in the middle of its backoff. -/
theorem backoff_is_cut_short :
    ¬ ∀ (config : TransportConfig) (tasks : Fin 3 → OutboxTask) (table : OutboxTable)
        (sched : List (Fin 3 × Instant)),
        (table.rows.map (·.id)).Nodup → (∀ row ∈ table.rows, row.status = .pending) →
        0 ≤ config.visibilityTimeout → sched.Pairwise (fun e e' => e.2 ≤ e'.2) →
        ∀ win ∈ ((outboxPool config id tasks table).run sched).state.wins, win.InTime := by
  intro h
  have hall := h halfMinuteBackoff racingClaims stagedNotice
    [(0, 0), (0, 0), (1, 1), (1, 1), (1, 1), (2, 2), (0, 3)] (by decide) (by decide) (by decide)
    (by decide)
  revert hall
  decide +kernel

end PersonalOS
