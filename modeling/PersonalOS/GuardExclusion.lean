import PersonalOS.IdempotencyGuard
import PersonalOS.Pool

/-! # Handlers of one key never overlap

Calls of the guard on one key, interleaved step by step.

* **Steps.** `GuardStep` says what one step of a call does.  Only the call that claimed the key last,
  of an operation in progress, runs its handler and settles the row (`Owns`).
* **Contracts.** The other calls leave the row of an owner and a completed row alone
  (`LeavesAlone`), so what a call returns is recorded (`Returned`).
* **Runs.** `guard_exclusion` collects what holds after every interleaving. -/

namespace PersonalOS

open Concurrent Concurrent.Prog OperationRepository IdempotencyGuard

variable {τ μ ε : Type} {key : String}

/-! ### What a step does -/

/-- The call owns the execution of an operation with its fingerprint. -/
def Owns (calls : τ → GuardCall key) (t : τ) (s : GuardState τ μ) : Prop :=
  s.claimedBy = some t ∧ ∃ row, s.row = some row ∧ row.status = .inProgress ∧
    row.requestFingerprint = (calls t).fingerprint

/-- What one step of call `t` does. -/
inductive GuardStep [DecidableEq τ] (calls : τ → GuardCall key) (t : τ) (s : GuardState τ μ) :
    GuardState τ μ → Prop where
  | quiet : GuardStep calls t s s
  | inserted (row : OperationRow μ) : s.row = none → row.status = .inProgress →
      row.requestFingerprint = (calls t).fingerprint →
      GuardStep calls t s { s with row := some row, claimedBy := some t }
  | takenUp (old row : OperationRow μ) : s.row = some old → old.status = .failed →
      old.requestFingerprint = (calls t).fingerprint → row.status = .inProgress →
      row.requestFingerprint = (calls t).fingerprint →
      GuardStep calls t s { s with row := some row, claimedBy := some t }
  | started : Owns calls t s → s.running.count t = 0 → GuardStep calls t s (start t s)
  | stopped : Owns calls t s → GuardStep calls t s (stop t s)
  | completed (row : OperationRow μ) : Owns calls t s → s.running.count t = 0 →
      row.status = .completed → row.requestFingerprint = (calls t).fingerprint →
      GuardStep calls t s { s with row := some row, completions := t :: s.completions }
  | failed (row : OperationRow μ) : Owns calls t s → s.running.count t = 0 →
      row.status = .failed → row.requestFingerprint = (calls t).fingerprint →
      GuardStep calls t s { s with row := some row }

section steps

variable [DecidableEq τ] {calls : τ → GuardCall key} {t u : τ} {s s' s'' : GuardState τ μ}

/-- What the other calls do to what call `t` counts on. -/
structure LeavesAlone (calls : τ → GuardCall key) (t : τ) (s s' : GuardState τ μ) : Prop where
  owned : Owns calls t s → s'.row = s.row ∧ s'.claimedBy = s.claimedBy
  completed : ∀ row, s.row = some row → row.status = .completed → s'.row = s.row
  running : s'.running.count t = s.running.count t
  completions : t ∈ s.completions → t ∈ s'.completions

theorem LeavesAlone.refl (s : GuardState τ μ) : LeavesAlone calls t s s where
  owned := fun _ => ⟨rfl, rfl⟩
  completed := fun _ _ _ => rfl
  running := rfl
  completions := id

theorem LeavesAlone.owns (h : LeavesAlone calls t s s') (howns : Owns calls t s) :
    Owns calls t s' := by
  obtain ⟨hrow, hclaimed⟩ := h.owned howns
  obtain ⟨hby, row, hr, hstatus⟩ := howns
  exact ⟨hclaimed.trans hby, row, hrow.trans hr, hstatus⟩

theorem LeavesAlone.trans (h : LeavesAlone calls t s s') (h' : LeavesAlone calls t s' s'') :
    LeavesAlone calls t s s'' where
  owned := by
    intro howns
    obtain ⟨hrow, hclaimed⟩ := h.owned howns
    obtain ⟨hrow', hclaimed'⟩ := h'.owned (h.owns howns)
    exact ⟨hrow'.trans hrow, hclaimed'.trans hclaimed⟩
  completed := by
    intro row hrow hstatus
    have hsame := h.completed row hrow hstatus
    exact (h'.completed row (hsame.trans hrow) hstatus).trans hsame
  running := h'.running.trans h.running
  completions := fun ht => h'.completions (h.completions ht)

omit [DecidableEq τ] in
theorem Owns.unique (h : Owns calls t s) (h' : Owns calls u s) : t = u :=
  Option.some.inj (h.1.symm.trans h'.1)

omit [DecidableEq τ] in
theorem Owns.row_eq {row : OperationRow μ} (h : Owns calls t s) (hrow : s.row = some row) :
    row.status = .inProgress ∧ row.requestFingerprint = (calls t).fingerprint := by
  obtain ⟨-, row', hrow', hstatus⟩ := h
  obtain rfl : row = row' := Option.some.inj (hrow.symm.trans hrow')
  exact hstatus

theorem GuardStep.leavesAlone (h : GuardStep calls u s s') (hne : t ≠ u) :
    LeavesAlone calls t s s' := by
  cases h with
  | quiet => exact .refl s
  | inserted row hnone hstatus hfingerprint =>
      refine ⟨fun howns => ?_, fun row' hrow' => ?_, rfl, id⟩
      · obtain ⟨-, row', hrow', -⟩ := howns
        rw [hnone] at hrow'
        cases hrow'
      · rw [hnone] at hrow'
        cases hrow'
  | takenUp old row hold hfailed holdfp hstatus hfingerprint =>
      refine ⟨fun howns => ?_, fun row' hrow' hcompleted => ?_, rfl, id⟩
      · have := (howns.row_eq hold).1
        rw [hfailed] at this
        cases this
      · obtain rfl : old = row' := Option.some.inj (hold.symm.trans hrow')
        rw [hfailed] at hcompleted
        cases hcompleted
  | started howner hcount =>
      exact ⟨fun _ => ⟨rfl, rfl⟩, fun _ _ _ => rfl, List.count_cons_of_ne hne.symm, id⟩
  | stopped howner =>
      exact ⟨fun _ => ⟨rfl, rfl⟩, fun _ _ _ => rfl, List.count_erase_of_ne hne, id⟩
  | completed row howner hcount hstatus hfingerprint =>
      refine ⟨fun howns => absurd (howns.unique howner) hne, fun row' hrow' hcompleted => ?_, rfl,
        List.mem_cons_of_mem u⟩
      have := (howner.row_eq hrow').1
      rw [hcompleted] at this
      cases this
  | failed row howner hcount hstatus hfingerprint =>
      refine ⟨fun howns => absurd (howns.unique howner) hne, fun row' hrow' hcompleted => ?_, rfl,
        id⟩
      have := (howner.row_eq hrow').1
      rw [hcompleted] at this
      cases this

theorem GuardStep.fingerprint (h : GuardStep calls t s s') {row : OperationRow μ}
    (hrow : s.row = some row) :
    ∃ row', s'.row = some row' ∧ row'.requestFingerprint = row.requestFingerprint := by
  cases h with
  | quiet => exact ⟨row, hrow, rfl⟩
  | inserted new hnone hstatus hfingerprint =>
      rw [hnone] at hrow
      cases hrow
  | takenUp old new hold hfailed holdfp hstatus hfingerprint =>
      obtain rfl : old = row := Option.some.inj (hold.symm.trans hrow)
      exact ⟨new, rfl, hfingerprint.trans holdfp.symm⟩
  | started howner hcount => exact ⟨row, hrow, rfl⟩
  | stopped howner => exact ⟨row, hrow, rfl⟩
  | completed new howner hcount hstatus hfingerprint =>
      exact ⟨new, rfl, hfingerprint.trans (howner.row_eq hrow).2.symm⟩
  | failed new howner hcount hstatus hfingerprint =>
      exact ⟨new, rfl, hfingerprint.trans (howner.row_eq hrow).2.symm⟩

theorem GuardStep.changes (h : GuardStep calls t s s') :
    s' = s ∨ ∃ row, s'.row = some row ∧ row.requestFingerprint = (calls t).fingerprint := by
  cases h with
  | quiet => exact .inl rfl
  | inserted row hnone hstatus hfingerprint => exact .inr ⟨row, rfl, hfingerprint⟩
  | takenUp old row hold hfailed holdfp hstatus hfingerprint =>
      exact .inr ⟨row, rfl, hfingerprint⟩
  | started howner hcount =>
      obtain ⟨-, row, hrow, -, hfingerprint⟩ := howner
      exact .inr ⟨row, hrow, hfingerprint⟩
  | stopped howner =>
      obtain ⟨-, row, hrow, -, hfingerprint⟩ := howner
      exact .inr ⟨row, hrow, hfingerprint⟩
  | completed row howner hcount hstatus hfingerprint => exact .inr ⟨row, rfl, hfingerprint⟩
  | failed row howner hcount hstatus hfingerprint => exact .inr ⟨row, rfl, hfingerprint⟩

theorem GuardStep.completed_row (h : GuardStep calls t s s') {row : OperationRow μ}
    (hrow : s.row = some row) (hcompleted : row.status = .completed) : s'.row = some row := by
  have hno : ¬ Owns calls t s := by
    intro howns
    have := (howns.row_eq hrow).1
    rw [hcompleted] at this
    cases this
  cases h with
  | quiet => exact hrow
  | inserted new hnone hstatus hfingerprint =>
      rw [hnone] at hrow
      cases hrow
  | takenUp old new hold hfailed holdfp hstatus hfingerprint =>
      obtain rfl : old = row := Option.some.inj (hold.symm.trans hrow)
      rw [hfailed] at hcompleted
      cases hcompleted
  | started howner hcount => exact absurd howner hno
  | stopped howner => exact absurd howner hno
  | completed new howner hcount hstatus hfingerprint => exact absurd howner hno
  | failed new howner hcount hstatus hfingerprint => exact absurd howner hno

end steps

/-! ### The programs keep the contract -/

section programs

variable [DecidableEq τ] {calls : τ → GuardCall key} {redact : Redaction μ} {t : τ}
variable {α β : Type} {s : GuardState τ μ}

def guardContract (calls : τ → GuardCall key) (t : τ) : Contract (GuardState τ μ) where
  rely := LeavesAlone calls t
  guar := GuardStep calls t
  assume _ _ := True
  rely_refl := LeavesAlone.refl
  rely_trans := LeavesAlone.trans

/-- What a call has returned is recorded: a replay has the recorded result, and what was executed
was recorded as the call's completion. -/
def Returned (calls : τ → GuardCall key) (t : τ) (answer : JsonResult μ × Bool)
    (s : GuardState τ μ) : Prop :=
  (∃ row, s.row = some row ∧ row.status = .completed ∧
    row.requestFingerprint = (calls t).fingerprint ∧ (answer.2 = true → row.result = answer.1)) ∧
  (answer.2 = false → t ∈ s.completions)

theorem Returned.leavesAlone {answer : JsonResult μ × Bool} {s' : GuardState τ μ}
    (h : Returned calls t answer s) (hs : LeavesAlone calls t s s') : Returned calls t answer s' := by
  obtain ⟨⟨row, hrow, hstatus, hrest⟩, hmine⟩ := h
  exact ⟨⟨row, (hs.completed row hrow hstatus).trans hrow, hstatus, hrest⟩,
    fun ha => hs.completions (hmine ha)⟩

variable {Q : α → GuardState τ μ → Prop}

theorem wp_raise_guard {error : GuardError ε} :
    (raise error : GuardProgram τ μ ε α).wp (guardContract calls t) Q (fun _ _ => True) s :=
  fun _ _ => trivial

theorem wp_transaction {f : GuardState τ μ → β × GuardState τ μ} {k : β → GuardProgram τ μ ε α}
    (h : ∀ s', LeavesAlone calls t s s' → GuardStep calls t s' (f s').2 ∧
      (k (f s').1).wp (guardContract calls t) Q (fun _ _ => True) (f s').2) :
    (transaction f >>= k).wp (guardContract calls t) Q (fun _ _ => True) s := by
  intro s' hr i _
  obtain ⟨hstep, hk⟩ := h s' hr
  cases hfailure : i.failure with
  | none =>
      simp only [hfailure]
      exact ⟨hstep, hk⟩
  | some failed =>
      obtain ⟨error, committed⟩ := failed
      cases committed with
      | false =>
          simp only [hfailure]
          exact ⟨.quiet, wp_raise_guard⟩
      | true =>
          simp only [hfailure]
          exact ⟨hstep, wp_raise_guard⟩

theorem wp_rowForKey {k : Option (OperationRow μ) → GuardProgram τ μ ε α}
    (h : ∀ s', LeavesAlone calls t s s' →
      (k s'.row).wp (guardContract calls t) Q (fun _ _ => True) s') :
    (rowForKey >>= k).wp (guardContract calls t) Q (fun _ _ => True) s :=
  wp_transaction fun s' hr => ⟨.quiet, h s' hr⟩

/-- What a call knows of the claim it made: it owns what it claimed, and a completed record is the
row. -/
structure Claimed (calls : τ → GuardCall key) (t : τ) (answer : OperationRow μ × Bool)
    (s : GuardState τ μ) : Prop where
  idle : s.running.count t = 0
  owns : answer.2 = true → Owns calls t s
  completed : answer.1.status = .completed → s.row = some answer.1

theorem Claimed.leavesAlone {answer : OperationRow μ × Bool} {s' : GuardState τ μ}
    (h : Claimed calls t answer s) (hs : LeavesAlone calls t s s') : Claimed calls t answer s' where
  idle := hs.running.trans h.idle
  owns := fun ha => hs.owns (h.owns ha)
  completed := fun ha => (hs.completed _ (h.completed ha) ha).trans (h.completed ha)

theorem wp_toDomain {row : OperationRow μ} {Q : OperationRow μ → GuardState τ μ → Prop}
    (h : ∀ s', LeavesAlone calls t s s' → Q row s') :
    (toDomain row : GuardProgram τ μ ε (OperationRow μ)).wp (guardContract calls t) Q
      (fun _ _ => True) s := by
  unfold toDomain
  split
  · exact h
  · exact wp_raise_guard

theorem wp_answer {row : OperationRow μ} {claimed : Bool} (h : Claimed calls t (row, claimed) s) :
    (do let record ← toDomain row
        return (record, claimed) : GuardProgram τ μ ε (OperationRow μ × Bool)).wp
      (guardContract calls t) (Claimed calls t) (fun _ _ => True) s := by
  refine wp_bind (wp_toDomain fun s₁ hr₁ => ?_)
  exact fun s₂ hr₂ => (h.leavesAlone hr₁).leavesAlone hr₂

theorem wp_readBack {claimed : Bool} (hcount : s.running.count t = 0)
    (howns : claimed = true → Owns calls t s) :
    (do match ← rowForKey with
        | none => raise (.notFound "operation row")
        | some row =>
            let record ← toDomain row
            return (record, claimed) : GuardProgram τ μ ε (OperationRow μ × Bool)).wp
      (guardContract calls t) (Claimed calls t) (fun _ _ => True) s := by
  refine wp_rowForKey fun s₁ hr₁ => ?_
  cases hrow : s₁.row with
  | none => exact wp_raise_guard
  | some row =>
      exact wp_answer ⟨hr₁.running.trans hcount, fun h => hr₁.owns (howns h), fun _ => hrow⟩

theorem insert_step (hcount : s.running.count t = 0) (operation : String) :
    GuardStep calls t s (OperationRepository.insert t operation (calls t).fingerprint s).2 ∧
    (OperationRepository.insert t operation (calls t).fingerprint s).2.running.count t = 0 ∧
    ((OperationRepository.insert t operation (calls t).fingerprint s).1 = true →
      Owns calls t (OperationRepository.insert t operation (calls t).fingerprint s).2) := by
  unfold OperationRepository.insert
  cases hrow : s.row with
  | some row => exact ⟨.quiet, hcount, fun h => by cases h⟩
  | none =>
      exact ⟨.inserted _ hrow rfl rfl, hcount, fun _ => ⟨rfl, _, rfl, rfl, rfl⟩⟩

theorem takeUp_step (hcount : s.running.count t = 0) :
    GuardStep calls t s (takeUp t (calls t).fingerprint s).2 ∧
    (takeUp t (calls t).fingerprint s).2.running.count t = 0 ∧
    ((takeUp t (calls t).fingerprint s).1 = true →
      Owns calls t (takeUp t (calls t).fingerprint s).2) := by
  unfold takeUp
  cases hrow : s.row with
  | none => exact ⟨.quiet, hcount, fun h => by cases h⟩
  | some row =>
      dsimp only
      split
      case isTrue hfailed =>
        exact ⟨.takenUp row _ hrow hfailed.1 hfailed.2 rfl hfailed.2, hcount,
          fun _ => ⟨rfl, _, rfl, rfl, hfailed.2⟩⟩
      case isFalse => exact ⟨.quiet, hcount, fun h => by cases h⟩

theorem claim_claimed (hcount : s.running.count t = 0) (operation : String) :
    (claim t operation (calls t).fingerprint : GuardProgram τ μ ε (OperationRow μ × Bool)).wp
      (guardContract calls t) (Claimed calls t) (fun _ _ => True) s := by
  refine wp_rowForKey fun s₁ hr₁ => ?_
  have hcount₁ : s₁.running.count t = 0 := hr₁.running.trans hcount
  cases hrow : s₁.row with
  | none =>
      refine wp_transaction fun s₂ hr₂ => ?_
      obtain ⟨hstep, hzero, howns⟩ :=
        insert_step (hr₂.running.trans hcount₁) operation
      exact ⟨hstep, wp_readBack hzero howns⟩
  | some existing =>
      dsimp only
      split
      case isTrue hfailed =>
        refine wp_transaction fun s₂ hr₂ => ?_
        obtain ⟨hstep, hzero, howns⟩ := takeUp_step (hr₂.running.trans hcount₁)
        exact ⟨hstep, wp_readBack hzero howns⟩
      case isFalse =>
        exact wp_answer ⟨hcount₁, fun h => absurd h Bool.false_ne_true, fun _ => hrow⟩

omit [DecidableEq τ] in
theorem settle_owned (f : OperationRow μ → OperationRow μ) (completions : List τ → List τ)
    (howns : Owns calls t s) : ∃ row, s.row = some row ∧
      row.requestFingerprint = (calls t).fingerprint ∧
      settle f completions s =
        (some (f row), { s with row := some (f row), completions := completions s.completions }) := by
  obtain ⟨-, row, hrow, -, hfingerprint⟩ := howns
  refine ⟨row, hrow, hfingerprint, ?_⟩
  unfold settle
  rw [hrow]

theorem fail_wp (hcount : s.running.count t = 0) (howns : Owns calls t s) (error : String) :
    (fail redact key error : GuardProgram τ μ ε (OperationRow μ)).wp (guardContract calls t)
      (fun _ _ => True) (fun _ _ => True) s := by
  refine wp_transaction fun s₁ hr₁ => ?_
  obtain ⟨row, hrow, hfingerprint, heq⟩ := settle_owned _ id (hr₁.owns howns)
  rw [heq]
  refine ⟨.failed _ (hr₁.owns howns) (hr₁.running.trans hcount) rfl hfingerprint, ?_⟩
  exact wp_toDomain fun _ _ => trivial

theorem complete_wp (hcount : s.running.count t = 0) (howns : Owns calls t s)
    (result : JsonResult μ) :
    (complete redact t key result : GuardProgram τ μ ε (OperationRow μ)).wp (guardContract calls t)
      (fun _ => Returned calls t (result, false)) (fun _ _ => True) s := by
  refine wp_transaction fun s₁ hr₁ => ?_
  obtain ⟨row, hrow, hfingerprint, heq⟩ := settle_owned _ (t :: ·) (hr₁.owns howns)
  rw [heq]
  refine ⟨.completed _ (hr₁.owns howns) (hr₁.running.trans hcount) rfl hfingerprint, ?_⟩
  refine wp_toDomain fun s₂ hr₂ => Returned.leavesAlone ?_ hr₂
  refine ⟨⟨_, rfl, rfl, hfingerprint, ?_⟩, ?_⟩
  · exact fun h => absurd h Bool.false_ne_true
  · exact fun _ => List.mem_cons_self

theorem execute_returned (hcount : s.running.count t = 0) (howns : Owns calls t s) :
    (execute redact t key : GuardProgram τ μ ε (JsonResult μ × Bool)).wp (guardContract calls t)
      (Returned calls t) (fun _ _ => True) s := by
  intro s₁ hr₁ _ _
  have howns₁ := hr₁.owns howns
  have hcount₁ : s₁.running.count t = 0 := hr₁.running.trans hcount
  refine ⟨.started howns₁ hcount₁, ?_⟩
  intro s₂ hr₂ i _
  have howns₂ : Owns calls t s₂ := hr₂.owns howns₁
  refine ⟨.stopped howns₂, ?_⟩
  have hcount₂ : (stop t s₂).running.count t = 0 := by
    have hone : s₂.running.count t = 1 := by
      rw [hr₂.running]
      show (t :: s₁.running).count t = 1
      rw [List.count_cons_self, hcount₁]
    show (s₂.running.erase t).count t = 0
    rw [List.count_erase_self, hone]
  dsimp only
  cases i.outcome with
  | cancelled => exact wp_raise_guard
  | raised error =>
      show (fail redact key error >>= fun _ => raise (.handler error)).wp _ _ _ _
      exact wp_bind (wp_mono (fail_wp hcount₂ howns₂ error) (fun _ _ _ => wp_raise_guard)
        fun _ _ h => h)
  | returned result =>
      show (complete redact t key result >>= fun _ => ret (result, false)).wp _ _ _ _
      refine wp_bind (wp_mono (complete_wp hcount₂ howns₂ result) (fun _ s₃ h₃ => ?_)
        fun _ _ h => h)
      exact fun s₄ hr₄ => h₃.leavesAlone hr₄

theorem run_returned (hcount : s.running.count t = 0) :
    (run redact t (calls t).operation (calls t).idempotencyKey (calls t).fingerprint :
      GuardProgram τ μ ε (JsonResult μ × Bool)).wp (guardContract calls t) (Returned calls t)
      (fun _ _ => True) s := by
  unfold run
  rw [(calls t).names_key]
  refine wp_bind (wp_mono (claim_claimed hcount _) (fun answer s₁ h₁ => ?_) fun _ _ h => h)
  obtain ⟨record, claimed⟩ := answer
  dsimp only
  split
  case isTrue => exact wp_raise_guard
  case isFalse hsame =>
    split
    case isTrue htrue => exact execute_returned h₁.idle (h₁.owns htrue)
    case isFalse =>
      split
      case isTrue hcompleted =>
        intro s₂ hr₂
        refine Returned.leavesAlone ⟨⟨record, h₁.completed hcompleted, hcompleted, ?_, fun _ => rfl⟩,
          fun h => by cases h⟩ hr₂
        exact not_not.mp hsame
      case isFalse => exact wp_raise_guard

end programs

/-! ### Interleavings -/

/-- What holds of the key after every interleaving. -/
structure GuardInv (calls : τ → GuardCall key) (s : GuardState τ μ) : Prop where
  running : s.running = [] ∨ ∃ t, s.running = [t] ∧ Owns calls t s
  completions : s.completions = [] ∨ ∃ t row, s.completions = [t] ∧ s.row = some row ∧
    row.status = .completed
  started : ∀ t ∈ s.started, ∃ row, s.row = some row ∧
    row.requestFingerprint = (calls t).fingerprint

section invariant

variable [DecidableEq τ] {calls : τ → GuardCall key} {t : τ} {s s' : GuardState τ μ}

omit [DecidableEq τ] in
theorem GuardInv.idle (h : GuardInv calls s) (hno : ∀ u, ¬ Owns calls u s) : s.running = [] := by
  obtain hnone | ⟨u, -, howns⟩ := h.running
  · exact hnone
  · exact absurd howns (hno u)

theorem GuardInv.idle_of_owns (h : GuardInv calls s) (howns : Owns calls t s)
    (hcount : s.running.count t = 0) : s.running = [] := by
  obtain hnone | ⟨u, hu, howner⟩ := h.running
  · exact hnone
  · obtain rfl := howns.unique howner
    rw [hu, List.count_singleton_self] at hcount
    cases hcount

omit [DecidableEq τ] in
theorem GuardInv.incomplete (h : GuardInv calls s)
    (hrow : ∀ row, s.row = some row → row.status ≠ .completed) : s.completions = [] := by
  obtain hnone | ⟨u, row, -, hsome, hstatus⟩ := h.completions
  · exact hnone
  · exact absurd hstatus (hrow row hsome)

omit [DecidableEq τ] in
theorem GuardInv.incomplete_of_owns (h : GuardInv calls s) (howns : Owns calls t s) :
    s.completions = [] := by
  refine h.incomplete fun row hrow hstatus => ?_
  have := (howns.row_eq hrow).1
  rw [hstatus] at this
  cases this

theorem GuardInv.started_step (h : GuardInv calls s) (hs : GuardStep calls t s s')
    (hstarted : ∀ u ∈ s'.started, u ∈ s.started ∨ u = t ∧ Owns calls t s') :
    ∀ u ∈ s'.started, ∃ row, s'.row = some row ∧
      row.requestFingerprint = (calls u).fingerprint := by
  intro u hu
  rcases hstarted u hu with hold | ⟨rfl, -, row, hrow, -, hfingerprint⟩
  · obtain ⟨row, hrow, hfingerprint⟩ := h.started u hold
    obtain ⟨row', hrow', hsame⟩ := hs.fingerprint hrow
    exact ⟨row', hrow', hsame.trans hfingerprint⟩
  · exact ⟨row, hrow, hfingerprint⟩

theorem GuardInv.step (h : GuardInv calls s) (hs : GuardStep calls t s s') : GuardInv calls s' := by
  cases hs with
  | quiet => exact h
  | inserted row hnone hstatus hfingerprint =>
      have hidle : s.running = [] := by
        refine h.idle fun u howns => ?_
        obtain ⟨-, row', hrow', -⟩ := howns
        rw [hnone] at hrow'
        cases hrow'
      have hincomplete : s.completions = [] := h.incomplete fun row' hrow' => by
        rw [hnone] at hrow'
        cases hrow'
      refine ⟨.inl hidle, .inl hincomplete, ?_⟩
      exact h.started_step (.inserted row hnone hstatus hfingerprint) fun u hu => .inl hu
  | takenUp old row hold hfailed holdfp hstatus hfingerprint =>
      have hidle : s.running = [] := by
        refine h.idle fun u howns => ?_
        have := (howns.row_eq hold).1
        rw [hfailed] at this
        cases this
      have hincomplete : s.completions = [] := h.incomplete fun row' hrow' => by
        obtain rfl : old = row' := Option.some.inj (hold.symm.trans hrow')
        rw [hfailed]
        exact fun h => by cases h
      refine ⟨.inl hidle, .inl hincomplete, ?_⟩
      exact h.started_step (.takenUp old row hold hfailed holdfp hstatus hfingerprint)
        fun u hu => .inl hu
  | started howner hcount =>
      refine ⟨.inr ⟨t, ?_, howner⟩, .inl (h.incomplete_of_owns howner), ?_⟩
      · show t :: s.running = [t]
        rw [h.idle_of_owns howner hcount]
      · refine h.started_step (.started howner hcount) fun u hu => ?_
        rcases List.mem_cons.mp hu with rfl | hu
        · exact .inr ⟨rfl, howner⟩
        · exact .inl hu
  | stopped howner =>
      refine ⟨.inl ?_, .inl (h.incomplete_of_owns howner), ?_⟩
      · show s.running.erase t = []
        obtain hnone | ⟨u, hu, howns⟩ := h.running
        · rw [hnone]
          rfl
        · obtain rfl := howner.unique howns
          rw [hu, List.erase_cons_head]
      · exact h.started_step (.stopped howner) fun u hu => .inl hu
  | completed row howner hcount hstatus hfingerprint =>
      refine ⟨.inl (h.idle_of_owns howner hcount), .inr ⟨t, row, ?_, rfl, hstatus⟩, ?_⟩
      · show t :: s.completions = [t]
        rw [h.incomplete_of_owns howner]
      · exact h.started_step (.completed row howner hcount hstatus hfingerprint)
          fun u hu => .inl hu
  | failed row howner hcount hstatus hfingerprint =>
      refine ⟨.inl (h.idle_of_owns howner hcount), .inl (h.incomplete_of_owns howner), ?_⟩
      exact h.started_step (.failed row howner hcount hstatus hfingerprint) fun u hu => .inl hu

end invariant

/-- Calls on a key that has no row yet. -/
def guardPool [DecidableEq τ] (ε : Type) (redact : Redaction μ) (calls : τ → GuardCall key) :
    Pool τ (GuardInput μ ε) (GuardState τ μ) (GuardError ε) (JsonResult μ × Bool) where
  procs t := run redact t (calls t).operation (calls t).idempotencyKey (calls t).fingerprint
  state := { row := none, claimedBy := none, running := [], started := [], completions := [] }

section runs

variable [DecidableEq τ] {redact : Redaction μ} {calls : τ → GuardCall key}

theorem guardPool_sound : Pool.Sound (guardContract calls) (Returned calls) (fun _ _ _ => True)
    (guardPool ε redact calls) := by
  intro t
  have hcount : (guardPool ε redact calls).state.running.count t = 0 := List.count_nil
  exact run_returned hcount

theorem guardPool_rely (t u : τ) (htu : t ≠ u) (s s' : GuardState τ μ)
    (h : (guardContract calls u).guar s s') : (guardContract calls t).rely s s' :=
  GuardStep.leavesAlone h htu

theorem guardPool_keeps {J : GuardState τ μ → Prop} {sched : List (τ × GuardInput μ ε)}
    (hJ : ∀ t s s', GuardStep calls t s s' → J s → J s')
    (h : J ((guardPool ε redact calls).run sched).state) (later : List (τ × GuardInput μ ε)) :
    J ((guardPool ε redact calls).run (sched ++ later)).state :=
  Pool.run_inv_append guardPool_sound (fun _ => rfl) guardPool_rely
    (fun e _ s s' _ => hJ e.1 s s') (Pool.meets_true _ _) h

theorem guardPool_inv (sched : List (τ × GuardInput μ ε)) :
    GuardInv calls ((guardPool ε redact calls).run sched).state := by
  have h0 : GuardInv calls ((guardPool ε redact calls).run []).state :=
    ⟨.inl rfl, .inl rfl, by simp [guardPool]⟩
  exact guardPool_keeps (fun _ _ _ hs h => h.step hs) h0 sched

theorem guardPool_unchanged {sched later : List (τ × GuardInput μ ε)} {t : τ}
    {i : GuardInput μ ε} {row : OperationRow μ}
    (hrow : ((guardPool ε redact calls).run (sched ++ (t, i) :: later)).state.row = some row)
    (hdiffers : (calls t).fingerprint ≠ row.requestFingerprint) :
    ((guardPool ε redact calls).run (sched ++ [(t, i)])).state =
      ((guardPool ε redact calls).run sched).state := by
  obtain hstep | hsame := Pool.run_step guardPool_sound (fun _ => rfl) guardPool_rely
    (Pool.meets_true (guardPool ε redact calls) (sched ++ [(t, i)]))
  · obtain heq | ⟨row', hrow', hfingerprint⟩ := GuardStep.changes hstep
    · exact heq
    · have hkept : ∃ row'', ((guardPool ε redact calls).run
          (sched ++ [(t, i)] ++ later)).state.row = some row'' ∧
          row''.requestFingerprint = (calls t).fingerprint := by
        refine guardPool_keeps (J := fun s => ∃ row'', s.row = some row'' ∧
          row''.requestFingerprint = (calls t).fingerprint) ?_ ⟨row', hrow', hfingerprint⟩ later
        rintro u s s' hs ⟨row'', hrow'', hfp⟩
        obtain ⟨new, hnew, hsame⟩ := hs.fingerprint hrow''
        exact ⟨new, hnew, hsame.trans hfp⟩
      obtain ⟨row'', hrow'', hfp⟩ := hkept
      rw [List.append_assoc, List.singleton_append, hrow] at hrow''
      obtain rfl := Option.some.inj hrow''
      exact absurd hfp.symm hdiffers
  · rw [hsame]

variable (redact) in
theorem step_run_completed {t : τ} {i : GuardInput μ ε} {s : GuardState τ μ} {row : OperationRow μ}
    (hrow : s.row = some row) (hcompleted : row.status = .completed)
    (hsame : row.requestFingerprint = (calls t).fingerprint) (hanswers : i.failure = none) :
    (run redact t (calls t).operation (calls t).idempotencyKey (calls t).fingerprint :
      GuardProgram τ μ ε (JsonResult μ × Bool)).step i s =
    (if row.result.fitsRecord then .ret (row.result, true) else .raise .validationError, s) := by
  unfold run
  rw [(calls t).names_key]
  have hnot : ¬ (row.status = .failed ∧ row.requestFingerprint = (calls t).fingerprint) := by
    rw [hcompleted]
    exact fun h => by cases h.1
  simp only [claim, rowForKey, transaction, act_bind, call_bind, Prog.step, hanswers, hrow]
  simp only [ret_bind, pure_eq, if_neg hnot, toDomain]
  cases hfits : row.result.fitsRecord with
  | false => rfl
  | true =>
      simp only [if_true, ret_bind]
      rw [if_neg (not_not.mpr hsame)]
      simp only [Bool.false_eq_true, if_false, if_pos hcompleted]

end runs

/-- **One handler at a time, and replay.**  After every interleaving of calls on a key: at most one
handler runs, and at most one completion is recorded; a call whose fingerprint differs from the
record's has not run its handler and none of its steps has changed anything; and once a completion is
recorded, every call of the same request that begins later and reaches the database is answered with
the recorded result by its first step, which changes nothing, or is told that the result is not one a
record can have. -/
theorem guard_exclusion [DecidableEq τ] (redact : Redaction μ) (calls : τ → GuardCall key)
    (sched : List (τ × GuardInput μ ε)) :
    let c := (guardPool ε redact calls).run sched
    c.state.running.length ≤ 1 ∧
    c.state.completions.length ≤ 1 ∧
    ∀ row, c.state.row = some row →
      (∀ t, (calls t).fingerprint ≠ row.requestFingerprint →
        t ∉ c.state.started ∧
        ∀ earlier i later, sched = earlier ++ (t, i) :: later →
          ((guardPool ε redact calls).run (earlier ++ [(t, i)])).state =
            ((guardPool ε redact calls).run earlier).state) ∧
      (row.status = .completed → ∀ later t i, (calls t).fingerprint = row.requestFingerprint →
        (∀ e ∈ sched ++ later, e.1 ≠ t) → i.failure = none →
        ((c.run later).step (t, i)).procs t =
          (if row.result.fitsRecord then .ret (row.result, true) else .raise .validationError) ∧
        ((c.run later).step (t, i)).state = (c.run later).state) := by
  intro c
  have hinv : GuardInv calls c.state := guardPool_inv sched
  refine ⟨?_, ?_, fun row hrow => ⟨fun t hdiffers => ⟨fun ht => ?_, ?_⟩, ?_⟩⟩
  · obtain hnone | ⟨t, ht, -⟩ := hinv.running
    · rw [hnone]
      exact Nat.zero_le 1
    · rw [ht]
      exact Nat.le_refl 1
  · obtain hnone | ⟨t, row, ht, -⟩ := hinv.completions
    · rw [hnone]
      exact Nat.zero_le 1
    · rw [ht]
      exact Nat.le_refl 1
  · obtain ⟨row', hrow', hfingerprint⟩ := hinv.started t ht
    obtain rfl : row = row' := Option.some.inj (hrow.symm.trans hrow')
    exact hdiffers hfingerprint.symm
  · rintro earlier i later rfl
    exact guardPool_unchanged hrow hdiffers
  · intro hcompleted later t i hsame hnew hanswers
    have hkept : (c.run later).state.row = some row := by
      show (((guardPool ε redact calls).run sched).run later).state.row = some row
      rw [← Pool.run_append]
      exact guardPool_keeps (J := fun s => s.row = some row)
        (fun u s s' hs h => hs.completed_row h hcompleted) hrow later
    have hproc : (c.run later).procs t = run redact t (calls t).operation (calls t).idempotencyKey
        (calls t).fingerprint := by
      have hprocs := Pool.run_procs_of_ne (c := guardPool ε redact calls) hnew
      rw [Pool.run_append] at hprocs
      exact hprocs
    have hstep := step_run_completed redact hkept hcompleted hsame.symm hanswers
    constructor
    · rw [Pool.step_procs_self, hproc]
      exact congrArg Prod.fst hstep
    · show (((c.run later).procs t).step i (c.run later).state).2 = _
      rw [hproc]
      exact congrArg Prod.snd hstep

/-! ### A completion that is not replayed -/

/-- Two calls of one request. -/
def repeatedCall (_ : Bool) : GuardCall "save-job-1" where
  idempotencyKey := "save-job-1"
  names_key := by decide +kernel
  operation := "jobs.save"
  fingerprint := "f"

/-- The database answers, and the handler returns a text. -/
def textInput : GuardInput Unit Unit where
  failure := none
  outcome := .returned (.other "saved")

def plainRedaction : Redaction Unit := { result := id, text := id }

/-- The first call from its claim to its completion. -/
def textCompleted : List (Bool × GuardInput Unit Unit) := List.replicate 6 (false, textInput)

def textRow : OperationRow Unit where
  operation := "jobs.save"
  requestFingerprint := "f"
  status := .completed
  result := .other "saved"
  error := none
  attempts := 1

/-- A handler that returned a text has its completion recorded, and the next call of the same request
raises. -/
theorem completed_not_replayed :
    ¬ ∀ row t i,
      ((guardPool Unit plainRedaction repeatedCall).run textCompleted).state.row = some row →
      row.status = .completed → (repeatedCall t).fingerprint = row.requestFingerprint →
      (∀ e ∈ textCompleted, e.1 ≠ t) → i.failure = none →
      (((guardPool Unit plainRedaction repeatedCall).run textCompleted).step (t, i)).procs t =
        .ret (row.result, true) := by
  intro h
  have hrow : ((guardPool Unit plainRedaction repeatedCall).run textCompleted).state.row =
      some textRow := by decide +kernel
  have hnew : ∀ e ∈ textCompleted, e.1 ≠ true := by decide +kernel
  have hreplay := h textRow true textInput hrow rfl rfl hnew rfl
  have hproc := Pool.run_procs_of_ne (c := guardPool Unit plainRedaction repeatedCall) hnew
  have hstep : (run plainRedaction true (repeatedCall true).operation
      (repeatedCall true).idempotencyKey (repeatedCall true).fingerprint).step textInput _ = _ :=
    step_run_completed plainRedaction hrow rfl rfl rfl
  rw [Pool.step_procs_self, hproc] at hreplay
  have hraise := hreplay.symm.trans (congrArg Prod.fst hstep)
  cases hraise

end PersonalOS
