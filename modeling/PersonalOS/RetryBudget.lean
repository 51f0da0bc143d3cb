import PersonalOS.Pool
import PersonalOS.RetryRequests
import Mathlib.Data.List.Nodup

/-! # The budget of manual retries

Requests to retry and to dismiss, and workers, interleaved step by step.

* **Steps.** `RetryStep` says what one step does; each of them lets the queue and the history only
  grow, and takes up no row that some worker has finished with (`Advances`).
* **Counts.** What a request counted stays true in a weaker form: that many retries were queued, and
  those are finished (`Counted`).  The unique key of the next attempt is what makes it the exact
  count when the retry is queued.
* **Runs.** `retry_budget` collects what holds after every interleaving. -/

namespace PersonalOS

open Concurrent Concurrent.Prog

variable {τ : Type} {s s' s'' : RetryState τ} {t : τ} {w f : UUID}

/-! ### What the others do -/

/-- The update changes no retry but its status, and takes up none that some worker has finished
with. -/
def Moves (g : RetryRow τ → RetryRow τ) : Prop :=
  ∀ row, (g row).command = row.command ∧ (g row).failureId = row.failureId ∧
    (g row).attempt = row.attempt ∧ ((g row).unfinished = true → row.unfinished = true)

theorem Moves.isOf {g : RetryRow τ → RetryRow τ} (h : Moves g) (row : RetryRow τ) :
    (g row).isOf w f = row.isOf w f := by
  rw [RetryRow.isOf, RetryRow.isOf, (h row).1, (h row).2.1]

theorem moves_id : Moves (id : RetryRow τ → RetryRow τ) := fun _ => ⟨rfl, rfl, rfl, id⟩

theorem Moves.comp {g g' : RetryRow τ → RetryRow τ} (h : Moves g) (h' : Moves g') :
    Moves (g' ∘ g) := by
  intro row
  obtain ⟨hcommand, hfailure, hattempt, hunfinished⟩ := h row
  obtain ⟨hcommand', hfailure', hattempt', hunfinished'⟩ := h' (g row)
  exact ⟨hcommand'.trans hcommand, hfailure'.trans hfailure, hattempt'.trans hattempt,
    fun hu => hunfinished (hunfinished' hu)⟩

theorem onStatus_unfinished {action : WorkerAction} {row : RetryRow τ}
    (h : RetryRow.unfinished { row with status := action.onStatus row.status } = true) :
    row.unfinished = true := by
  unfold RetryRow.unfinished at *
  cases action <;> cases hstatus : row.status <;> simp_all [WorkerAction.onStatus]

/-- What a worker does to a command's rows. -/
theorem moves_work (commandId : UUID) (action : WorkerAction) :
    Moves fun row : RetryRow τ => if row.command.commandId = commandId
      then { row with status := action.onStatus row.status } else row := by
  intro row
  dsimp only
  split
  · exact ⟨rfl, rfl, rfl, onStatus_unfinished⟩
  · exact ⟨rfl, rfl, rfl, id⟩

theorem retriesOf_eq {g : RetryRow τ → RetryRow τ} {new : List (RetryRow τ)} (hg : Moves g)
    (hrows : s'.rows = s.rows.map g ++ new) :
    s'.retriesOf w f = (s.retriesOf w f).map g ++ new.filter (RetryRow.isOf w f) := by
  have hisOf : RetryRow.isOf w f ∘ g = RetryRow.isOf w f := funext hg.isOf
  rw [RetryState.retriesOf, hrows, List.filter_append, List.filter_map, hisOf]
  rfl

/-- Rows are moved and appended, and the history grows. -/
structure Advances (s s' : RetryState τ) : Prop where
  rows : ∃ g new, Moves g ∧ s'.rows = s.rows.map g ++ new
  history : s.history <+: s'.history

theorem Advances.of_rows_eq (hrows : s'.rows = s.rows) (hhistory : s.history <+: s'.history) :
    Advances s s' where
  rows := ⟨id, [], moves_id, by rw [hrows, List.map_id, List.append_nil]⟩
  history := hhistory

theorem Advances.refl (s : RetryState τ) : Advances s s := .of_rows_eq rfl List.prefix_rfl

theorem Advances.trans (h : Advances s s') (h' : Advances s' s'') : Advances s s'' where
  rows := by
    obtain ⟨g, new, hg, hrows⟩ := h.rows
    obtain ⟨g', new', hg', hrows'⟩ := h'.rows
    refine ⟨g' ∘ g, new.map g' ++ new', hg.comp hg', ?_⟩
    rw [hrows', hrows, List.map_append, List.map_map, List.append_assoc]
  history := h.history.trans h'.history

/-! ### What a request knows -/

/-- At least `q` retries were queued for the failure, and the first `q` are finished. -/
def Counted (w f : UUID) (q : ℕ) (s : RetryState τ) : Prop :=
  q ≤ (s.retriesOf w f).length ∧ ∀ row ∈ (s.retriesOf w f).take q, ¬ row.unfinished = true

theorem Counted.advances {q : ℕ} (h : Counted w f q s) (hs : Advances s s') : Counted w f q s' := by
  obtain ⟨g, new, hg, hrows⟩ := hs.rows
  obtain ⟨hle, hfinished⟩ := h
  have hretries := retriesOf_eq (w := w) (f := f) hg hrows
  constructor
  · rw [hretries, List.length_append, List.length_map]
    omega
  · intro row hrow
    have hle' : q ≤ ((s.retriesOf w f).map g).length := by rwa [List.length_map]
    rw [hretries, List.take_append_of_le_length hle', ← List.map_take] at hrow
    obtain ⟨old, hold, rfl⟩ := List.mem_map.mp hrow
    exact fun hu => hfinished old hold ((hg old).2.2.2 hu)

/-- A count of the rows there are. -/
theorem counted_of_countKeyed (h : (s.countKeyed w f).2 = 0) :
    Counted w f (s.countKeyed w f).1 s := by
  refine ⟨le_rfl, fun row hrow hu => ?_⟩
  exact List.countP_eq_zero.mp h row (List.mem_of_mem_take hrow) hu

/-- The call has read the workflow's dismissals without one of the failure. -/
def SawOpen (t : τ) (w f : UUID) (s : RetryState τ) : Prop :=
  ∃ seen, .read t w seen ∈ s.history ∧ f ∉ seen

theorem SawOpen.advances (h : SawOpen t w f s) (hs : Advances s s') : SawOpen t w f s' := by
  obtain ⟨seen, hread, hf⟩ := h
  exact ⟨seen, hs.history.subset hread, hf⟩

/-- A failure that may be retried is not dismissed, has no retry pending and has attempts left. -/
theorem disposition_retryable {failureClass : FailureClass} {attempts : ℕ} {pending dismissed : Bool}
    {provider : Option String}
    (h : (disposition failureClass attempts pending dismissed provider).retryable = true) :
    dismissed = false ∧ pending = false ∧ attempts < maxFailureAttempts := by
  unfold disposition at h
  split at h
  · cases h
  split at h
  · cases h
  split at h
  · cases h
  split at h
  · cases h
  split at h
  · cases h
  rename_i hdismissed _ _ hpending hattempts
  exact ⟨Bool.eq_false_iff.mpr hdismissed, Bool.eq_false_iff.mpr hpending, not_le.mp hattempts⟩

/-- What an assessment that allows a retry says of the rows. -/
def Assessed (w : UUID) (failure : WorkflowFailure) (s : RetryState τ) : Prop :=
  failure.disposition.retryable = true → ∃ q, failure.attempts = 1 + q ∧
    q + 1 < maxFailureAttempts ∧ Counted w failure.failureId q s

theorem Assessed.advances {failure : WorkflowFailure} (h : Assessed w failure s)
    (hs : Advances s s') : Assessed w failure s' := by
  intro hretryable
  obtain ⟨q, hattempts, hq, hcounted⟩ := h hretryable
  exact ⟨q, hattempts, hq, hcounted.advances hs⟩

/-- It says too that none of the dismissals is one of the failure. -/
def NotAmong (dismissals : List FailureAudit) (failure : WorkflowFailure) : Prop :=
  failure.disposition.retryable = true → failure.failureId ∉ dismissals.map (·.failureId)

theorem assessFailure_assessed {stored : StoredFailure} {dismissals : List FailureAudit} :
    let failure := assessFailure stored (s.countKeyed w stored.failureId).1
      (decide (0 < (s.countKeyed w stored.failureId).2))
      ((dismissals.find? fun a => a.failureId == stored.failureId).map (·.actor))
    Assessed w failure s ∧ NotAmong dismissals failure := by
  intro failure
  refine ⟨fun hretryable => ?_, fun hretryable hmem => ?_⟩
  · obtain ⟨-, hpending, hattempts⟩ := disposition_retryable hretryable
    have hzero : (s.countKeyed w stored.failureId).2 = 0 := by
      simpa using hpending
    exact ⟨_, rfl, by omega, counted_of_countKeyed hzero⟩
  · obtain ⟨hdismissed, -, -⟩ := disposition_retryable hretryable
    obtain ⟨a, ha, hid⟩ := List.mem_map.mp hmem
    have hnone : dismissals.find? (fun a => a.failureId == stored.failureId) = none := by
      simpa using hdismissed
    exact List.find?_eq_none.mp hnone a ha (beq_iff_eq.mpr hid)

/-! ### What a step does -/

/-- What one step of call `t` does. -/
inductive RetryStep (t : τ) (s : RetryState τ) : RetryState τ → Prop where
  | quiet : RetryStep t s s
  | read (w : UUID) : RetryStep t s (s.readDismissals t w).2
  | queued (row : RetryRow τ) (q : ℕ) : row.call = t → row.attempt = q + 2 →
      q + 1 < maxFailureAttempts → Counted row.command.workflowId row.failureId q s →
      SawOpen t row.command.workflowId row.failureId s → (∀ row' ∈ s.rows, row'.key ≠ row.key) →
      RetryStep t s { s with
        rows := s.rows ++ [row]
        history := s.history ++ [.queued t row.command.workflowId row.failureId row.attempt] }
  | audited (event : FailureAudit) : RetryStep t s (s.audit event)
  | worked (g : RetryRow τ → RetryRow τ) : Moves g → RetryStep t s { s with rows := s.rows.map g }

theorem RetryStep.advances (h : RetryStep t s s') : Advances s s' := by
  cases h with
  | quiet => exact .refl s
  | read w => exact .of_rows_eq rfl (List.prefix_append _ _)
  | queued row q hcall hattempt hq hcounted hsaw hkey =>
      refine ⟨⟨id, [row], moves_id, ?_⟩, List.prefix_append _ _⟩
      rw [List.map_id]
  | audited event => exact .of_rows_eq rfl (List.prefix_append _ _)
  | worked g hg =>
      refine ⟨⟨g, [], hg, ?_⟩, List.prefix_rfl⟩
      rw [List.append_nil]

def retryContract (t : τ) : Contract (RetryState τ) where
  rely := Advances
  guar := RetryStep t
  assume _ _ := True
  rely_refl := Advances.refl
  rely_trans := Advances.trans

/-! ### The programs keep the contract -/

section programs

open FailureRoutes

variable {α : Type} {Q : α → RetryState τ → Prop}

theorem wp_raise_retry {error : RetryError} :
    (raise error : RetryProgram τ α).wp (retryContract t) Q (fun _ _ => True) s :=
  fun _ _ => trivial

theorem wp_ret_retry {a : α} :
    (ret a : RetryProgram τ α).wp (retryContract t) (fun _ _ => True) (fun _ _ => True) s :=
  fun _ _ => trivial

/-- What only grows more true is kept by the whole call. -/
theorem wp_keeps {P : RetryState τ → Prop} {p : RetryProgram τ α}
    (hP : ∀ s s', Advances s s' → P s → P s')
    (h : p.wp (retryContract t) Q (fun _ _ => True) s) (hs : P s) :
    p.wp (retryContract t) (fun a s => Q a s ∧ P s) (fun _ _ => True) s :=
  wp_frame hP (fun s s' hguar => hP s s' (RetryStep.advances hguar)) h hs

/-- What is known of a list of assessed failures. -/
def AllAssessed (w : UUID) (dismissals : List FailureAudit) (failures : List WorkflowFailure)
    (s : RetryState τ) : Prop :=
  ∀ failure ∈ failures, Assessed w failure s ∧ NotAmong dismissals failure

theorem AllAssessed.advances {dismissals : List FailureAudit} {failures : List WorkflowFailure}
    (h : AllAssessed w dismissals failures s) (hs : Advances s s') :
    AllAssessed w dismissals failures s' :=
  fun failure hfailure => ⟨(h failure hfailure).1.advances hs, (h failure hfailure).2⟩

/-- Each failure is assessed against the rows of its own moment. -/
theorem assessAll_assessed (dismissals : List FailureAudit) (stored : List StoredFailure) :
    (assessAll w dismissals stored).wp (retryContract t) (AllAssessed w dismissals)
      (fun _ _ => True) s := by
  induction stored generalizing s with
  | nil =>
      intro s' _ failure hfailure
      cases hfailure
  | cons first rest ih =>
      intro s₁ hr₁ _ _
      refine ⟨.quiet, ?_⟩
      have hfirst := @assessFailure_assessed τ s₁ w first dismissals
      have hrest := wp_keeps (t := t) (P := Assessed w _) (fun _ _ hs h => h.advances hs)
        (ih (s := s₁)) hfirst.1
      show (assessAll w dismissals rest >>= fun failures => ret (_ :: failures)).wp _ _ _ _
      refine wp_bind (wp_mono hrest (fun failures s₂ h₂ => ?_) fun _ _ h => h)
      intro s₃ hr₃ failure hfailure
      rcases List.mem_cons.mp hfailure with rfl | hfailure
      · exact ⟨h₂.2.advances hr₃, hfirst.2⟩
      · exact (AllAssessed.advances h₂.1 hr₃) failure hfailure

theorem select_mem {status : String} {failures : List WorkflowFailure} {request : FailureRequest}
    {failure : WorkflowFailure} (h : select status failures request = .ok failure) :
    failure ∈ failures := by
  unfold select at h
  split at h
  · split at h
    · rename_i hfind
      cases h
      exact List.mem_of_find?_eq_some hfind
    · cases h
  · split at h
    · cases h
    · rename_i hfilter
      cases h
      have hmem : failure ∈ failures.filter (·.disposition.status ≠ .dismissed) := by
        rw [hfilter]
        exact List.mem_singleton.mpr rfl
      exact (List.mem_filter.mp hmem).1
    · cases h

/-- What a call knows of the failure it selected. -/
def Selected (t : τ) (w : UUID) (failure : WorkflowFailure) (s : RetryState τ) : Prop :=
  Assessed w failure s ∧
    (failure.disposition.retryable = true → SawOpen t w failure.failureId s)

theorem Selected.advances {failure : WorkflowFailure} (h : Selected t w failure s)
    (hs : Advances s s') : Selected t w failure s' :=
  ⟨h.1.advances hs, fun hretryable => (h.2 hretryable).advances hs⟩

theorem selected_wp (request : FailureRequest) :
    (selected t request).wp (retryContract t)
      (fun answer => Selected t request.workflowId answer.2) (fun _ _ => True) s := by
  intro s₁ hr₁ i _
  refine ⟨.quiet, ?_⟩
  dsimp only
  cases i.snapshot with
  | none => exact wp_raise_retry
  | some snapshot =>
      intro s₂ hr₂ _ _
      refine ⟨.read request.workflowId, ?_⟩
      have hread : ∀ failure : WorkflowFailure,
          NotAmong (s₂.dismissals request.workflowId) failure →
          failure.disposition.retryable = true → SawOpen t request.workflowId failure.failureId
            (s₂.readDismissals t request.workflowId).2 := by
        intro failure hnot hretryable
        exact ⟨_, List.mem_append_right _ (List.mem_singleton.mpr rfl), hnot hretryable⟩
      have hall := wp_keeps (t := t) (P := fun s => ∀ failure : WorkflowFailure,
          NotAmong (s₂.dismissals request.workflowId) failure →
          failure.disposition.retryable = true → SawOpen t request.workflowId failure.failureId s)
        (fun _ _ hs h failure hnot hretryable => (h failure hnot hretryable).advances hs)
        (assessAll_assessed (w := request.workflowId) (s₂.dismissals request.workflowId)
          snapshot.recoverableFailures) hread
      show (assessAll request.workflowId (s₂.dismissals request.workflowId)
        snapshot.recoverableFailures >>= _).wp _ _ _ _
      refine wp_bind (wp_mono hall (fun failures s₃ h₃ => ?_) fun _ _ h => h)
      cases hselect : select snapshot.status failures request with
      | error error => exact wp_raise_retry
      | ok failure =>
          obtain ⟨hassessed, hnot⟩ := h₃.1 failure (select_mem hselect)
          intro s₄ hr₄
          exact Selected.advances ⟨hassessed, h₃.2 failure hnot⟩ hr₄

theorem retryFailure_wp (request : FailureRequest) :
    (retryFailure t request).wp (retryContract t) (fun _ _ => True) (fun _ _ => True) s := by
  refine wp_bind (wp_mono (selected_wp request) (fun answer s₁ h₁ => ?_) fun _ _ h => h)
  obtain ⟨snapshot, failure⟩ := answer
  dsimp only
  split
  case isFalse => exact wp_raise_retry
  case isTrue hretryable =>
    intro s₂ hr₂ i _
    refine ⟨.quiet, ?_⟩
    intro s₃ hr₃ _ _
    obtain ⟨hassessed, hsaw⟩ := (h₁.advances hr₂).advances hr₃
    obtain ⟨q, hattempts, hq, hcounted⟩ := hassessed hretryable
    have hnext : failure.attempts + 1 = q + 2 := by
      rw [hattempts]
      omega
    dsimp only [RetryState.enqueue]
    split
    case isTrue => exact ⟨.quiet, wp_raise_retry⟩
    case isFalse hkey =>
      constructor
      · refine .queued _ q rfl hnext hq hcounted (hsaw hretryable) fun row' hrow' heq => hkey ?_
        exact List.any_eq_true.mpr ⟨row', hrow', beq_iff_eq.mpr heq⟩
      · intro s₄ hr₄ _ _
        exact ⟨.audited _, wp_ret_retry⟩

theorem dismissFailure_wp (request : FailureRequest) :
    (dismissFailure t request).wp (retryContract t) (fun _ _ => True) (fun _ _ => True) s := by
  refine wp_bind (wp_mono (selected_wp request) (fun answer s₁ _ => ?_) fun _ _ h => h)
  obtain ⟨snapshot, failure⟩ := answer
  dsimp only
  split
  case isTrue => exact wp_raise_retry
  case isFalse =>
    split
    case isTrue => exact wp_raise_retry
    case isFalse =>
      intro s₂ _ _ _
      refine ⟨.audited _, ?_⟩
      intro s₃ _ _ _
      refine ⟨.read _, ?_⟩
      show (assessAll request.workflowId (s₃.dismissals request.workflowId)
        snapshot.recoverableFailures >>= _).wp _ _ _ _
      refine wp_bind (wp_mono (assessAll_assessed _ _) (fun failures s₄ _ => ?_) fun _ _ h => h)
      split
      · exact wp_ret_retry
      · exact wp_raise_retry

theorem program_wp (call : RetryCall) :
    (call.program t).wp (retryContract t) (fun _ _ => True) (fun _ _ => True) s := by
  cases call with
  | retry request => exact retryFailure_wp request
  | dismiss request => exact dismissFailure_wp request
  | work commandId action =>
      intro s₁ _ _ _
      exact ⟨.worked _ (moves_work commandId action), wp_ret_retry⟩

end programs

/-! ### The invariant -/

/-- The attempt an event queued for the failure. -/
def RetryEvent.attemptOf (w f : UUID) : RetryEvent τ → Option ℕ
  | .queued _ workflowId failureId attempt =>
      if workflowId = w ∧ failureId = f then some attempt else none
  | _ => none

/-- The attempts of a failure's retries count on from 2, within the budget, and only the newest of
them is unfinished. -/
structure WithinBudget (rows : List (RetryRow τ)) : Prop where
  attempts : rows.map (·.attempt) = List.range' 2 rows.length
  bounded : rows.length + 1 ≤ maxFailureAttempts
  unfinished : rows.countP RetryRow.unfinished ≤ 1

/-- What was read and queued agrees with what had happened. -/
structure InOrder (history : List (RetryEvent τ)) : Prop where
  reads : ∀ earlier t w seen later, history = earlier ++ .read t w seen :: later →
    ∀ f, .dismissed w f ∈ earlier → f ∈ seen
  queued : ∀ earlier t w f attempt later, history = earlier ++ .queued t w f attempt :: later →
    ∃ seen, .read t w seen ∈ earlier ∧ f ∉ seen

structure RetryInv (s : RetryState τ) : Prop where
  budget : ∀ w f, WithinBudget (s.retriesOf w f)
  queued : ∀ w f, s.history.filterMap (RetryEvent.attemptOf w f) =
    (s.retriesOf w f).map (·.attempt)
  dismissed : ∀ w f, .dismissed w f ∈ s.history ↔ f ∈ (s.dismissals w).map (·.failureId)
  order : InOrder s.history

/-- An event of a list with one more at its end is that one, or an event of the list. -/
theorem split_concat {α : Type} {xs earlier later : List α} {x y : α}
    (h : xs ++ [x] = earlier ++ y :: later) :
    xs = earlier ∧ x = y ∨ ∃ later', xs = earlier ++ y :: later' := by
  rcases List.eq_nil_or_concat later with rfl | ⟨later', last, rfl⟩
  · obtain ⟨hxs, hx⟩ := List.append_inj' h rfl
    exact .inl ⟨hxs, List.singleton_inj.mp hx⟩
  · rw [List.concat_eq_append, ← List.cons_append, ← List.append_assoc] at h
    exact .inr ⟨later', (List.append_inj' h rfl).1⟩

theorem InOrder.concat {history : List (RetryEvent τ)} (h : InOrder history) {event : RetryEvent τ}
    (hread : ∀ t w seen, event = .read t w seen → ∀ f, .dismissed w f ∈ history → f ∈ seen)
    (hqueued : ∀ t w f attempt, event = .queued t w f attempt →
      ∃ seen, .read t w seen ∈ history ∧ f ∉ seen) : InOrder (history ++ [event]) where
  reads := by
    intro earlier t w seen later hsplit
    obtain ⟨rfl, hevent⟩ | ⟨later', hsplit'⟩ := split_concat hsplit
    · exact hread t w seen hevent
    · exact h.reads earlier t w seen later' hsplit'
  queued := by
    intro earlier t w f attempt later hsplit
    obtain ⟨rfl, hevent⟩ | ⟨later', hsplit'⟩ := split_concat hsplit
    · exact hqueued t w f attempt hevent
    · exact h.queued earlier t w f attempt later' hsplit'

theorem WithinBudget.map {rows : List (RetryRow τ)} (h : WithinBudget rows)
    {g : RetryRow τ → RetryRow τ} (hg : Moves g) : WithinBudget (rows.map g) where
  attempts := by
    have hattempt : (fun row : RetryRow τ => row.attempt) ∘ g = fun row => row.attempt :=
      funext fun row => (hg row).2.2.1
    rw [List.map_map, hattempt, List.length_map]
    exact h.attempts
  bounded := by
    rw [List.length_map]
    exact h.bounded
  unfinished := by
    rw [List.countP_map]
    exact (List.countP_mono_left fun row _ hu => (hg row).2.2.2 hu).trans h.unfinished

/-- A retry that is queued after what was counted is the next one. -/
theorem WithinBudget.concat {rows : List (RetryRow τ)} {row : RetryRow τ} {q : ℕ}
    (h : WithinBudget rows) (hattempt : row.attempt = q + 2) (hq : q + 1 < maxFailureAttempts)
    (hle : q ≤ rows.length) (hfinished : ∀ row' ∈ rows.take q, ¬ row'.unfinished = true)
    (hnew : row.attempt ∉ rows.map (·.attempt)) : WithinBudget (rows ++ [row]) := by
  have hlength : q = rows.length := by
    rw [h.attempts, List.mem_range'_1] at hnew
    omega
  subst hlength
  rw [List.take_length] at hfinished
  refine ⟨?_, ?_, ?_⟩
  · rw [List.map_append, h.attempts, List.map_singleton, hattempt, List.length_append,
      List.length_singleton, List.range'_concat, Nat.one_mul, Nat.add_comm rows.length 2]
  · rw [List.length_append, List.length_singleton]
    omega
  · have hold : rows.countP RetryRow.unfinished = 0 := List.countP_eq_zero.mpr hfinished
    rw [List.countP_append, hold, Nat.zero_add]
    exact List.countP_le_length

theorem RetryInv.initial : RetryInv (⟨[], [], []⟩ : RetryState τ) where
  budget := fun w f => ⟨rfl, Nat.le_add_left 1 4, Nat.zero_le 1⟩
  queued := fun w f => rfl
  dismissed := fun w f => by simp [RetryState.dismissals]
  order := ⟨by simp, by simp⟩

theorem retriesOf_concat (row : RetryRow τ) (history : List (RetryEvent τ)) :
    RetryState.retriesOf w f { s with rows := s.rows ++ [row], history } =
      s.retriesOf w f ++ if row.isOf w f then [row] else [] := by
  rw [RetryState.retriesOf, List.filter_append, List.filter_singleton]
  cases row.isOf w f <;> rfl

theorem isOf_iff {row : RetryRow τ} :
    row.isOf w f = true ↔ row.command.workflowId = w ∧ row.failureId = f := by
  simp [RetryRow.isOf]

theorem RetryInv.queued_step (h : RetryInv s) {row : RetryRow τ} {q : ℕ}
    (hattempt : row.attempt = q + 2) (hq : q + 1 < maxFailureAttempts)
    (hcounted : Counted row.command.workflowId row.failureId q s)
    (hsaw : SawOpen t row.command.workflowId row.failureId s)
    (hkey : ∀ row' ∈ s.rows, row'.key ≠ row.key) :
    RetryInv { s with
      rows := s.rows ++ [row]
      history := s.history ++ [.queued t row.command.workflowId row.failureId row.attempt] } where
  budget := by
    intro w f
    rw [retriesOf_concat]
    cases hof : row.isOf w f with
    | false =>
        simp only [Bool.false_eq_true, if_false, List.append_nil]
        exact h.budget w f
    | true =>
        obtain ⟨rfl, rfl⟩ := isOf_iff.mp hof
        refine (h.budget _ _).concat hattempt hq hcounted.1 hcounted.2 fun hmem => ?_
        obtain ⟨row', hrow', hsame⟩ := List.mem_map.mp hmem
        obtain ⟨hin, hof'⟩ := List.mem_filter.mp hrow'
        obtain ⟨hworkflow, hfailure⟩ := isOf_iff.mp hof'
        exact hkey row' hin (by rw [RetryRow.key, RetryRow.key, hworkflow, hfailure, hsame])
  queued := by
    intro w f
    rw [retriesOf_concat, List.filterMap_append, h.queued, List.map_append]
    congr 1
    cases hof : row.isOf w f with
    | false =>
        have hnot : ¬ (row.command.workflowId = w ∧ row.failureId = f) := fun hboth =>
          Bool.false_ne_true (hof.symm.trans (isOf_iff.mpr hboth))
        simp [RetryEvent.attemptOf, hnot]
    | true => simp [RetryEvent.attemptOf, isOf_iff.mp hof]
  dismissed := by
    intro w f
    rw [List.mem_append]
    simp only [List.mem_singleton, reduceCtorEq, or_false]
    exact h.dismissed w f
  order := by
    refine h.order.concat (fun t w seen heq => by cases heq) ?_
    intro t' w f attempt heq
    cases heq
    exact hsaw

theorem RetryInv.audited_step (h : RetryInv s) (event : FailureAudit) :
    RetryInv (s.audit event) where
  budget := h.budget
  queued := by
    intro w f
    show (s.history ++ _).filterMap _ = _
    rw [List.filterMap_append, h.queued]
    split <;> simp [RetryEvent.attemptOf, RetryState.retriesOf, RetryState.audit]
  dismissed := by
    intro w f
    show _ ∈ s.history ++ _ ↔ _ ∈ ((s.audits ++ [event]).filter _).map _
    rw [List.mem_append, h.dismissed, List.filter_append, List.map_append, List.mem_append]
    refine or_congr Iff.rfl ?_
    by_cases haction : event.action = .dismissed
    · by_cases hworkflow : event.workflowId = w
      · subst hworkflow
        simp [haction]
      · have hne : ¬ w = event.workflowId := fun heq => hworkflow heq.symm
        simp [haction, hworkflow, hne]
    · simp [haction]
  order := by
    show InOrder (s.history ++ _)
    split
    · refine h.order.concat (fun t w seen heq => by cases heq) fun t w f attempt heq => by cases heq
    · rw [List.append_nil]
      exact h.order

theorem RetryInv.read_step (h : RetryInv s) (t : τ) (w : UUID) :
    RetryInv (s.readDismissals t w).2 where
  budget := h.budget
  queued := by
    intro w' f
    show (s.history ++ _).filterMap _ = _
    rw [List.filterMap_append, h.queued]
    exact List.append_nil _
  dismissed := by
    intro w' f
    show _ ∈ s.history ++ _ ↔ _
    rw [List.mem_append]
    simp only [List.mem_singleton, reduceCtorEq, or_false]
    exact h.dismissed w' f
  order := by
    refine h.order.concat ?_ fun t w f attempt heq => by cases heq
    intro t' w' seen heq f hf
    cases heq
    exact (h.dismissed _ f).mp hf

theorem RetryInv.step (h : RetryInv s) (hs : RetryStep t s s') : RetryInv s' := by
  cases hs with
  | quiet => exact h
  | read w => exact h.read_step t w
  | queued row q hcall hattempt hq hcounted hsaw hkey =>
      exact h.queued_step hattempt hq hcounted hsaw hkey
  | audited event => exact h.audited_step event
  | worked g hg =>
      have hretries : ∀ w f, RetryState.retriesOf w f { s with rows := s.rows.map g } =
          (s.retriesOf w f).map g := by
        intro w f
        have heq : RetryState.retriesOf w f { s with rows := s.rows.map g } =
            (s.retriesOf w f).map g ++ List.filter (RetryRow.isOf w f) [] :=
          retriesOf_eq hg (List.append_nil _).symm
        rwa [List.filter_nil, List.append_nil] at heq
      refine ⟨fun w f => ?_, fun w f => ?_, h.dismissed, h.order⟩
      · rw [hretries]
        exact (h.budget w f).map hg
      · have hattempt : (fun row : RetryRow τ => row.attempt) ∘ g = fun row => row.attempt :=
          funext fun row => (hg row).2.2.1
        rw [hretries, List.map_map, hattempt]
        exact h.queued w f

/-! ### Interleavings -/

/-- Requests and workers on a queue without retries. -/
def retryPool (calls : τ → RetryCall) : Pool τ RetryInput (RetryState τ) RetryError RetryAnswer where
  procs t := (calls t).program t
  state := ⟨[], [], []⟩

theorem retryPool_inv [DecidableEq τ] (calls : τ → RetryCall) (sched : List (τ × RetryInput)) :
    RetryInv ((retryPool calls).run sched).state :=
  have hassume : ∀ t, (retryContract t : Contract (RetryState τ)).assume = fun _ _ => True :=
    fun _ => rfl
  Pool.run_inv (K := retryContract) (Q := fun _ _ _ => True) (E := fun _ _ _ => True)
    (fun t => program_wp (calls t)) hassume
    (fun _ _ _ _ _ h => RetryStep.advances h) (fun _ _ _ _ _ hs h => h.step hs)
    (Pool.meets_true _ _) .initial

/-- **The budget of manual retries.**  After every interleaving of requests and workers, for every
failure: the attempts of the retries that were ever queued are 2, 3, 4 and so on, fewer than the
attempts allowed, and at most one of them is unfinished; and a call that queued one after the failure
was dismissed had read the workflow's dismissals before. -/
theorem retry_budget [DecidableEq τ] (calls : τ → RetryCall) (sched : List (τ × RetryInput))
    (w f : UUID) :
    let s := ((retryPool calls).run sched).state
    (s.retriesOf w f).map (·.attempt) = List.range' 2 (s.retriesOf w f).length ∧
    (s.retriesOf w f).length ≤ maxFailureAttempts - 1 ∧
    (s.retriesOf w f).countP RetryRow.unfinished ≤ 1 ∧
    s.history.filterMap (RetryEvent.attemptOf w f) = (s.retriesOf w f).map (·.attempt) ∧
    (.dismissed w f ∈ s.history ↔ f ∈ (s.dismissals w).map (·.failureId)) ∧
    ∀ earlier t attempt later, s.history = earlier ++ .queued t w f attempt :: later →
      ∃ before seen between, earlier = before ++ .read t w seen :: between ∧
        .dismissed w f ∉ before := by
  intro s
  have hinv : RetryInv s := retryPool_inv calls sched
  have hbudget := hinv.budget w f
  refine ⟨hbudget.attempts, ?_, hbudget.unfinished, hinv.queued w f, hinv.dismissed w f, ?_⟩
  · have := hbudget.bounded
    omega
  · intro earlier t attempt later hsplit
    obtain ⟨seen, hread, hopen⟩ := hinv.order.queued earlier t w f attempt later hsplit
    obtain ⟨before, between, rfl⟩ := List.append_of_mem hread
    refine ⟨before, seen, between, rfl, fun hdismissed => hopen ?_⟩
    refine hinv.order.reads before t w seen (between ++ .queued t w f attempt :: later) ?_ f
      hdismissed
    rw [hsplit, List.append_assoc, List.cons_append]

end PersonalOS
