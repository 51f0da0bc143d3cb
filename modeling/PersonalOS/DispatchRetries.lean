import PersonalOS.EventTransport
import Mathlib.Algebra.Order.Field.Basic
import Mathlib.Tactic.Linarith
import Mathlib.Tactic.Positivity

/-! # Dispatching a tool with retries

`dispatch_with_retry`: a dispatch through the gateway is repeated while its failures are worth it.

* **Policies.** A call names its policy or takes the tool's own, and may override the attempts and
  the base delay.  The overrides are applied one after another, each to what the one before made
  (`DispatchCall.effectivePolicy`).
* **The loop.** `attemptsFrom` is total: it recurses on the retries the policy leaves.  The gateway is
  what it answers to each attempt, and `rand` the jitter drawn before each wait.
* **Waits.** `waits_getElem?` says which waits a run makes; `backoffLaw_iff` says when they only grow.

Delays are rational numbers of seconds; `sleep` always returns. -/

namespace PersonalOS

/-! ### Policies -/

namespace BackoffPolicy

def read : BackoffPolicy := ⟨.read, 1 / 5, 30, by norm_num, by norm_num⟩
def draft : BackoffPolicy := ⟨.draft, 1 / 5, 30, by norm_num, by norm_num⟩
def send : BackoffPolicy := ⟨.send, 1 / 5, 30, by norm_num, by norm_num⟩
def calendarWrite : BackoffPolicy := ⟨.calendarWrite, 1, 30, by norm_num, by norm_num⟩

/-- This policy with a different total attempt budget. -/
def withMaxAttempts (policy : BackoffPolicy) (maxAttempts : ℤ) : Except String BackoffPolicy :=
  if maxAttempts < 1 then .error "max_attempts must be at least 1"
  else .ok { policy with maxRetries := (maxAttempts - 1).toNat }

/-- A new policy that requires no reconciliation, if its delays are in order. -/
def create (operationClass : OperationClass) (maxRetries : ℕ) (baseDelay maxDelay : ℚ) :
    Except String BackoffPolicy :=
  if h : baseDelay < 0 ∨ maxDelay < baseDelay then
    .error "delays must satisfy 0 <= base_delay <= max_delay"
  else
    .ok
      { operationClass, maxRetries, requiresReconciliation := false, baseDelay, maxDelay
        base_nonneg := by simpa using (not_or.mp h).1
        base_le_max := by simpa using (not_or.mp h).2 }

end BackoffPolicy

def backoffByClass : PermissionClass → BackoffPolicy
  | .readLocal => .read
  | .readExternal => .read
  | .writeReversible => .draft
  | .writeExternal => .send
  | .destructive => .send
  | .sensitive => .send

/-- The tool's own policy, with its delays. -/
def backoffFor (toolRef : String) : BackoffPolicy :=
  if toolRef ∈ calendarWriteTools then .calendarWrite
  else match defaultToolPermissions.lookup toolRef with
    | none => .send
    | some permissionClass => backoffByClass permissionClass

theorem backoffFor_toRetryPolicy (toolRef : String) :
    (backoffFor toolRef).toRetryPolicy = retryPolicyFor toolRef := by
  unfold backoffFor retryPolicyFor
  split
  · rfl
  cases defaultToolPermissions.lookup toolRef with
  | none => rfl
  | some permissionClass => cases permissionClass <;> rfl

/-! ### Failures -/

/-- What a dispatch raised, with its `retry_after`, if that is a number. -/
structure ToolFailure where
  raised : RaisedError
  retryAfter : Option ℚ
deriving DecidableEq

namespace ToolFailure

def isRetryable (failure : ToolFailure) : Bool := failure.raised.isRetryable

def retryAfterSeconds (failure : ToolFailure) : Option ℚ :=
  failure.retryAfter.filter fun seconds => decide (0 ≤ seconds)

/-- The provider asked for longer than a call with this policy waits. -/
def asksTooMuch (policy : BackoffPolicy) (failure : ToolFailure) : Bool :=
  failure.retryAfterSeconds.any fun seconds => decide (policy.maxDelay < seconds)

end ToolFailure

/-! ### The loop -/

/-- How a call ended, what it dispatched and how long it waited between the attempts. -/
structure DispatchRun (ρ : Type) where
  outcome : Except ToolFailure ρ
  dispatches : ℕ
  waits : List ℚ

section loop

variable {ρ : Type} (policy : BackoffPolicy) (gateway : ℕ → Except ToolFailure ρ) (rand : ℕ → ℚ)

/-- The attempts from this one on. -/
def attemptsFrom (attempt : ℕ) : DispatchRun ρ :=
  match gateway attempt with
  | .ok result => ⟨.ok result, 1, []⟩
  | .error failure =>
      if _h : policy.allowsRetry attempt = true ∧ failure.isRetryable = true then
        if failure.asksTooMuch policy then ⟨.error failure, 1, []⟩
        else
          let rest := attemptsFrom (attempt + 1)
          ⟨rest.outcome, 1 + rest.dispatches,
            policy.delay attempt failure.retryAfterSeconds (rand attempt) :: rest.waits⟩
      else ⟨.error failure, 1, []⟩
termination_by policy.maxRetries + 1 - attempt
decreasing_by
  have := _h.1
  simp only [RetryPolicy.allowsRetry, decide_eq_true_eq] at this
  omega

end loop

/-- What the caller passes. -/
structure DispatchCall where
  toolRef : String
  policy : Option BackoffPolicy
  maxAttempts : Option ℤ
  baseDelay : Option ℚ

namespace DispatchCall

/-- The policy before any override. -/
def ownPolicy (call : DispatchCall) : BackoffPolicy := call.policy.getD (backoffFor call.toolRef)

/-- The policy the attempts are made under. -/
def effectivePolicy (call : DispatchCall) : Except String BackoffPolicy := do
  let policy := call.ownPolicy
  let policy ←
    if policy.requiresReconciliation then policy.withMaxAttempts 1 else .ok policy
  let policy ←
    match call.maxAttempts with
    | some maxAttempts => policy.withMaxAttempts maxAttempts
    | none => .ok policy
  match call.baseDelay with
  | some baseDelay =>
      BackoffPolicy.create policy.operationClass policy.maxRetries baseDelay (max policy.maxDelay baseDelay)
  | none => .ok policy

end DispatchCall

/-- Dispatch, retrying only failures that are safe to retry. -/
def dispatchWithRetry {ρ : Type} (call : DispatchCall) (gateway : ℕ → Except ToolFailure ρ)
    (rand : ℕ → ℚ) : Except String (DispatchRun ρ) := do
  let policy ← call.effectivePolicy
  return attemptsFrom policy gateway rand 1

/-! ### What the loop does -/

section attempts

variable {ρ : Type} {policy : BackoffPolicy} {gateway : ℕ → Except ToolFailure ρ} {rand : ℕ → ℚ}

/-- The failure of this attempt, if the loop goes on after it. -/
def retried (policy : BackoffPolicy) (gateway : ℕ → Except ToolFailure ρ) (attempt : ℕ) :
    Option ToolFailure :=
  match gateway attempt with
  | .ok _ => none
  | .error failure =>
      if policy.allowsRetry attempt = true ∧ failure.isRetryable = true ∧
        failure.asksTooMuch policy = false then some failure else none

theorem retried_eq_some {attempt : ℕ} {failure : ToolFailure} :
    retried policy gateway attempt = some failure ↔
      gateway attempt = .error failure ∧ policy.allowsRetry attempt = true ∧
        failure.isRetryable = true ∧ failure.asksTooMuch policy = false := by
  unfold retried
  cases hanswer : gateway attempt with
  | ok result => simp
  | error raised =>
      constructor
      · intro h
        obtain ⟨hif, heq⟩ := Option.ite_none_right_eq_some.mp h
        obtain rfl := Option.some.inj heq
        exact ⟨rfl, hif⟩
      · rintro ⟨hraised, hif⟩
        obtain rfl := Except.error.inj hraised
        exact if_pos hif

theorem attemptsFrom_of_last {attempt : ℕ} (h : retried policy gateway attempt = none) :
    (attemptsFrom policy gateway rand attempt).dispatches = 1 ∧
      (attemptsFrom policy gateway rand attempt).waits = [] := by
  unfold attemptsFrom
  unfold retried at h
  cases hanswer : gateway attempt with
  | ok result => exact ⟨rfl, rfl⟩
  | error failure =>
      rw [hanswer] at h
      dsimp only at h ⊢
      split
      · rename_i hallowed
        have hmuch : failure.asksTooMuch policy = true := by
          cases hmuch : failure.asksTooMuch policy with
          | true => rfl
          | false => rw [if_pos ⟨hallowed.1, hallowed.2, hmuch⟩] at h; cases h
        rw [if_pos hmuch]
        exact ⟨rfl, rfl⟩
      · exact ⟨rfl, rfl⟩

variable (rand) in
theorem attemptsFrom_of_retried {attempt : ℕ} {failure : ToolFailure}
    (h : retried policy gateway attempt = some failure) :
    (attemptsFrom policy gateway rand attempt).dispatches =
        1 + (attemptsFrom policy gateway rand (attempt + 1)).dispatches ∧
      (attemptsFrom policy gateway rand attempt).waits =
        policy.delay attempt failure.retryAfterSeconds (rand attempt) ::
          (attemptsFrom policy gateway rand (attempt + 1)).waits := by
  obtain ⟨hanswer, hallows, hretryable, hmuch⟩ := retried_eq_some.mp h
  rw [attemptsFrom, hanswer]
  dsimp only
  rw [dif_pos ⟨hallows, hretryable⟩, if_neg (by rw [hmuch]; exact Bool.false_ne_true)]
  exact ⟨rfl, rfl⟩

variable (policy gateway rand) in
theorem attemptsFrom_dispatches (attempt : ℕ) :
    (attemptsFrom policy gateway rand attempt).dispatches =
      (attemptsFrom policy gateway rand attempt).waits.length + 1 := by
  fun_induction attemptsFrom policy gateway rand attempt with
  | case1 => rfl
  | case2 => rfl
  | case3 attempt failure _ _ _ rest ih =>
      rw [List.length_cons, Nat.add_comm _ 1]
      exact congrArg (1 + ·) ih
  | case4 => rfl

variable (policy gateway rand) in
theorem attemptsFrom_waits_le (attempt : ℕ) :
    (attemptsFrom policy gateway rand attempt).waits.length ≤ policy.maxRetries + 1 - attempt := by
  fun_induction attemptsFrom policy gateway rand attempt with
  | case1 => exact Nat.zero_le _
  | case2 => exact Nat.zero_le _
  | case3 attempt failure _ hallowed _ rest ih =>
      have hle := hallowed.1
      simp only [RetryPolicy.allowsRetry, decide_eq_true_eq] at hle
      have hlater : rest.waits.length ≤ policy.maxRetries + 1 - (attempt + 1) := ih
      rw [List.length_cons]
      omega
  | case4 => exact Nat.zero_le _

variable (rand) in
/-- **The waits of a run**: there is an `n`-th one exactly when the loop goes on after that attempt
and all before it, and it is the delay after that attempt's failure. -/
theorem waits_getElem? {attempt n : ℕ} {wait : ℚ} :
    (attemptsFrom policy gateway rand attempt).waits[n]? = some wait ↔
      (∀ m < n, (retried policy gateway (attempt + m)).isSome) ∧
        ∃ failure, retried policy gateway (attempt + n) = some failure ∧
          wait = policy.delay (attempt + n) failure.retryAfterSeconds (rand (attempt + n)) := by
  induction n generalizing attempt with
  | zero =>
      cases hretried : retried policy gateway attempt with
      | none =>
          rw [(attemptsFrom_of_last hretried).2]
          simp
      | some failure =>
          rw [(attemptsFrom_of_retried rand hretried).2, List.getElem?_cons_zero, Option.some_inj, Nat.add_zero]
          constructor
          · rintro rfl
            exact ⟨fun m hm => absurd hm (Nat.not_lt_zero m), failure, rfl, rfl⟩
          · rintro ⟨-, failure', hfailure, rfl⟩
            rw [Option.some.inj hfailure]
  | succ n ih =>
      cases hretried : retried policy gateway attempt with
      | none =>
          rw [(attemptsFrom_of_last hretried).2]
          constructor
          · intro h
            cases h
          · intro h
            have hzero := h.1 0 (Nat.succ_pos n)
            rw [Nat.add_zero, hretried] at hzero
            cases hzero
      | some failure =>
          rw [(attemptsFrom_of_retried rand hretried).2, List.getElem?_cons_succ, ih,
            Nat.add_assoc attempt 1 n, Nat.add_comm 1 n]
          refine and_congr_left fun _ => ⟨fun h m hm => ?_, fun h m hm => ?_⟩
          · cases m with
            | zero =>
                rw [Nat.add_zero, hretried]
                rfl
            | succ m =>
                have := h m (Nat.lt_of_succ_lt_succ hm)
                rwa [Nat.add_assoc, Nat.add_comm 1 m] at this
          · have := h (m + 1) (Nat.succ_lt_succ hm)
            rwa [Nat.add_assoc, Nat.add_comm 1 m]

end attempts

/-! ### Overrides -/

namespace BackoffPolicy

theorem withMaxAttempts_of_le (policy : BackoffPolicy) {maxAttempts : ℤ} (h : 1 ≤ maxAttempts) :
    policy.withMaxAttempts maxAttempts = .ok { policy with maxRetries := (maxAttempts - 1).toNat } :=
  if_neg (not_lt.mpr h)

theorem withMaxAttempts_eq_ok {policy effective : BackoffPolicy} {maxAttempts : ℤ}
    (h : policy.withMaxAttempts maxAttempts = .ok effective) :
    1 ≤ maxAttempts ∧ effective = { policy with maxRetries := (maxAttempts - 1).toNat } := by
  unfold withMaxAttempts at h
  split at h
  · cases h
  · rename_i hle
    exact ⟨not_lt.mp hle, (Except.ok.inj h).symm⟩

theorem create_eq_ok {operationClass : OperationClass} {maxRetries : ℕ} {baseDelay maxDelay : ℚ}
    {effective : BackoffPolicy}
    (h : create operationClass maxRetries baseDelay maxDelay = .ok effective) :
    0 ≤ baseDelay ∧ effective.maxRetries = maxRetries ∧ effective.maxDelay = maxDelay := by
  unfold create at h
  split at h
  · cases h
  · rename_i hle
    obtain rfl := Except.ok.inj h
    exact ⟨not_lt.mp (not_or.mp hle).1, rfl, rfl⟩

theorem create_of_le {operationClass : OperationClass} {maxRetries : ℕ} {baseDelay maxDelay : ℚ}
    (h : 0 ≤ baseDelay) (h' : baseDelay ≤ maxDelay) :
    ∃ effective, create operationClass maxRetries baseDelay maxDelay = .ok effective := by
  have hle : ¬ (baseDelay < 0 ∨ maxDelay < baseDelay) := not_or.mpr ⟨not_lt.mpr h, not_lt.mpr h'⟩
  exact ⟨_, dif_neg hle⟩

theorem maxDelay_nonneg (policy : BackoffPolicy) : 0 ≤ policy.maxDelay :=
  policy.base_nonneg.trans policy.base_le_max

end BackoffPolicy

namespace DispatchCall

variable {call : DispatchCall} {policy : BackoffPolicy}

/-- The overrides are ones the policies accept. -/
def Accepted (call : DispatchCall) : Prop :=
  (∀ maxAttempts, call.maxAttempts = some maxAttempts → 1 ≤ maxAttempts) ∧
    ∀ baseDelay, call.baseDelay = some baseDelay → 0 ≤ baseDelay

/-- The longest `Retry-After` the call waits out. -/
def longestWait (call : DispatchCall) : ℚ := max call.ownPolicy.maxDelay (call.baseDelay.getD 0)

theorem attemptOverride_of_reconciled (h : call.ownPolicy.requiresReconciliation = true) :
    call.effectivePolicy = (do
      let policy ← call.ownPolicy.withMaxAttempts (call.maxAttempts.getD 1)
      match call.baseDelay with
      | some baseDelay =>
          BackoffPolicy.create policy.operationClass policy.maxRetries baseDelay
            (max policy.maxDelay baseDelay)
      | none => .ok policy) := by
  unfold effectivePolicy
  dsimp only
  rw [if_pos h, BackoffPolicy.withMaxAttempts_of_le _ (le_refl 1)]
  cases call.maxAttempts with
  | none =>
      rw [Option.getD_none, BackoffPolicy.withMaxAttempts_of_le _ (le_refl 1)]
      rfl
  | some maxAttempts => rfl

theorem effectivePolicy_of_reconciled (h : call.ownPolicy.requiresReconciliation = true)
    (hpolicy : call.effectivePolicy = .ok policy) :
    call.Accepted ∧ policy.maxRetries = (call.maxAttempts.getD 1 - 1).toNat ∧
      policy.maxDelay = call.longestWait := by
  rw [attemptOverride_of_reconciled h] at hpolicy
  cases hattempts : call.ownPolicy.withMaxAttempts (call.maxAttempts.getD 1) with
  | error message =>
      rw [hattempts] at hpolicy
      cases hpolicy
  | ok bounded =>
      rw [hattempts] at hpolicy
      obtain ⟨hle, rfl⟩ := BackoffPolicy.withMaxAttempts_eq_ok hattempts
      have haccepted : ∀ maxAttempts, call.maxAttempts = some maxAttempts → 1 ≤ maxAttempts := by
        intro maxAttempts hmax
        rwa [hmax] at hle
      unfold longestWait
      cases hbase : call.baseDelay with
      | none =>
          rw [hbase] at hpolicy
          obtain rfl := Except.ok.inj hpolicy
          refine ⟨⟨haccepted, fun seconds hseconds => ?_⟩, rfl, ?_⟩
          · rw [hbase] at hseconds
            cases hseconds
          · exact (max_eq_left call.ownPolicy.maxDelay_nonneg).symm
      | some seconds =>
          rw [hbase] at hpolicy
          obtain ⟨hseconds, hretries, hdelay⟩ := BackoffPolicy.create_eq_ok hpolicy
          refine ⟨⟨haccepted, fun seconds' hseconds' => ?_⟩, hretries, hdelay⟩
          rw [hbase] at hseconds'
          rwa [← Option.some.inj hseconds']

theorem Accepted.effectivePolicy (haccepted : call.Accepted)
    (h : call.ownPolicy.requiresReconciliation = true) : ∃ policy, call.effectivePolicy = .ok policy := by
  rw [attemptOverride_of_reconciled h]
  have hle : 1 ≤ call.maxAttempts.getD 1 := by
    cases hmax : call.maxAttempts with
    | none => exact le_refl 1
    | some maxAttempts => exact haccepted.1 _ hmax
  rw [BackoffPolicy.withMaxAttempts_of_le _ hle]
  cases hbase : call.baseDelay with
  | none => exact ⟨_, rfl⟩
  | some seconds => exact BackoffPolicy.create_of_le (haccepted.2 _ hbase) (le_max_right ..)

end DispatchCall

/-! ### Dispatched once -/

section once

variable {ρ : Type}

def dispatchCount : Except String (DispatchRun ρ) → ℕ
  | .ok run => run.dispatches
  | .error _ => 0

/-- The first dispatch succeeds, or fails in a way that no budget would let the call retry. -/
def FirstIsFinal (call : DispatchCall) (gateway : ℕ → Except ToolFailure ρ) : Prop :=
  ∀ failure, gateway 1 = .error failure → failure.isRetryable = true →
    ∃ seconds, failure.retryAfterSeconds = some seconds ∧ call.longestWait < seconds

theorem ToolFailure.asksTooMuch_iff {policy : BackoffPolicy} {failure : ToolFailure} :
    failure.asksTooMuch policy = true ↔
      ∃ seconds, failure.retryAfterSeconds = some seconds ∧ policy.maxDelay < seconds := by
  unfold asksTooMuch
  rw [Option.any_eq_true]
  simp only [decide_eq_true_eq]

theorem attemptsFrom_once_iff {policy : BackoffPolicy} {gateway : ℕ → Except ToolFailure ρ}
    {rand : ℕ → ℚ} {attempt : ℕ} :
    (attemptsFrom policy gateway rand attempt).dispatches = 1 ↔ retried policy gateway attempt = none := by
  constructor
  · intro h
    cases hretried : retried policy gateway attempt with
    | none => rfl
    | some failure =>
        have hmore := (attemptsFrom_of_retried rand hretried).1
        rw [attemptsFrom_dispatches policy gateway rand (attempt + 1)] at hmore
        omega
  · exact fun h => (attemptsFrom_of_last h).1

/-- **Reconciled writes**: a call whose policy requires reconciliation dispatches exactly once if and
only if its overrides are accepted and they leave the one attempt, or the first attempt is final
anyway. -/
theorem reconciled_dispatched_once_iff (call : DispatchCall) (gateway : ℕ → Except ToolFailure ρ)
    (rand : ℕ → ℚ) (h : call.ownPolicy.requiresReconciliation = true) :
    dispatchCount (dispatchWithRetry call gateway rand) = 1 ↔
      call.Accepted ∧ (call.maxAttempts.getD 1 = 1 ∨ FirstIsFinal call gateway) := by
  unfold dispatchWithRetry
  cases hpolicy : call.effectivePolicy with
  | error message =>
      constructor
      · intro hcount
        cases hcount
      · rintro ⟨haccepted, -⟩
        obtain ⟨policy, hok⟩ := haccepted.effectivePolicy h
        cases hok.symm.trans hpolicy
  | ok policy =>
      obtain ⟨haccepted, hretries, hlongest⟩ := DispatchCall.effectivePolicy_of_reconciled h hpolicy
      have hallows : policy.allowsRetry 1 = true ↔ ¬ call.maxAttempts.getD 1 = 1 := by
        have hle : 1 ≤ call.maxAttempts.getD 1 := by
          cases hmax : call.maxAttempts with
          | none => exact le_refl 1
          | some maxAttempts => exact haccepted.1 _ hmax
        rw [RetryPolicy.allowsRetry, decide_eq_true_eq, hretries]
        omega
      show (attemptsFrom policy gateway rand 1).dispatches = 1 ↔ _
      rw [attemptsFrom_once_iff, Option.eq_none_iff_forall_ne_some, and_iff_right haccepted]
      constructor
      · intro hnone
        by_cases hone : call.maxAttempts.getD 1 = 1
        · exact Or.inl hone
        refine Or.inr fun failure hanswer hretryable => ?_
        rw [← hlongest, ← ToolFailure.asksTooMuch_iff]
        cases hmuch : failure.asksTooMuch policy with
        | true => rfl
        | false =>
            exact absurd (retried_eq_some.mpr ⟨hanswer, hallows.mpr hone, hretryable, hmuch⟩)
              (hnone failure)
      · intro hfinal failure hretried
        obtain ⟨hanswer, hallowed, hretryable, hmuch⟩ := retried_eq_some.mp hretried
        have hmore := hfinal.resolve_left (hallows.mp hallowed) failure hanswer hretryable
        rw [← hlongest, ← ToolFailure.asksTooMuch_iff, hmuch] at hmore
        cases hmore

/-- A failure worth another attempt. -/
def transient : ToolFailure := ⟨⟨.personalOS true "retryable_failure" none, "down", "down"⟩, none⟩

/-- A calendar write that fails twice and then succeeds. -/
def failsTwice (attempt : ℕ) : Except ToolFailure Unit :=
  if attempt ≤ 2 then .error transient else .ok ()

theorem reconciled_dispatched_once_iff_plain :
    dispatchCount (dispatchWithRetry ⟨"google.calendar_create_event", none, none, none⟩ failsTwice
      fun _ => 0) = 1 := by
  refine (reconciled_dispatched_once_iff _ failsTwice _ (by decide)).mpr ⟨⟨?_, ?_⟩, Or.inl rfl⟩
  · exact fun _ h => by cases h
  · exact fun _ h => by cases h

/-- With an override of two attempts the write is dispatched a second time. -/
theorem override_retries_blindly :
    ¬ ∀ (call : DispatchCall) (gateway : ℕ → Except ToolFailure Unit) (rand : ℕ → ℚ),
      call.ownPolicy.requiresReconciliation = true →
        dispatchCount (dispatchWithRetry call gateway rand) = 1 := by
  intro h
  have hone := h ⟨"google.calendar_create_event", none, some 2, none⟩ failsTwice (fun _ => 0) (by decide)
  exact absurd hone (by decide +kernel)

end once

/-! ### The backoff -/

section backoff

variable {ρ : Type}

namespace BackoffPolicy

/-- The longest backoff before this retry. -/
def window (policy : BackoffPolicy) (retry : ℕ) : ℚ :=
  min policy.maxDelay (policy.baseDelay * 2 ^ (retry - 1))

theorem window_nonneg (policy : BackoffPolicy) (retry : ℕ) : 0 ≤ policy.window retry :=
  le_min policy.maxDelay_nonneg (mul_nonneg policy.base_nonneg (by positivity))

theorem window_le (policy : BackoffPolicy) (retry : ℕ) : policy.window retry ≤ policy.maxDelay :=
  min_le_left ..

theorem delay_eq (policy : BackoffPolicy) (retry : ℕ) (retryAfter : Option ℚ) {jitter : ℚ}
    (h : 0 ≤ jitter) :
    policy.delay retry retryAfter jitter =
      max (policy.window retry / 2 + jitter * policy.window retry / 2) (retryAfter.getD 0) := by
  have hwindow := policy.window_nonneg retry
  have hbackoff : 0 ≤ policy.window retry / 2 + jitter * policy.window retry / 2 := by positivity
  unfold delay
  cases retryAfter with
  | none => exact (max_eq_left hbackoff).symm
  | some seconds =>
      dsimp only
      rw [Option.getD_some]
      split
      · rename_i hlt
        exact (max_eq_right hlt.le).symm
      · rename_i hle
        exact (max_eq_left (not_lt.mp hle)).symm

end BackoffPolicy

/-- The jitter of `random.random`. -/
def InUnit (rand : ℕ → ℚ) : Prop := ∀ n, 0 ≤ rand n ∧ rand n < 1

/-- What every run keeps: the attempts stay in the budget, only what is worth another attempt is
followed by a wait, and the wait is at least the `Retry-After` and at most `max_delay`. -/
structure KeepsBudget (policy : BackoffPolicy) (gateway : ℕ → Except ToolFailure ρ)
    (run : DispatchRun ρ) : Prop where
  dispatches : run.dispatches ≤ policy.maxAttempts
  between : run.dispatches = run.waits.length + 1
  retried : ∀ n wait, run.waits[n]? = some wait → ∃ failure code failureClass,
    gateway (n + 1) = .error failure ∧ failure.raised.errorClass = .personalOS true code failureClass ∧
      (∀ seconds, failure.retryAfterSeconds = some seconds → seconds ≤ wait) ∧ wait ≤ policy.maxDelay

/-- No wait is shorter than the one before it. -/
def WaitsGrow (run : DispatchRun ρ) : Prop :=
  ∀ n wait wait', run.waits[n]? = some wait → run.waits[n + 1]? = some wait' → wait ≤ wait'

/-- Of two retries one after the other, the first may not wait longer than the second has to. -/
def WindowsCover (policy : BackoffPolicy) (gateway : ℕ → Except ToolFailure ρ) : Prop :=
  ∀ n failure failure', (∀ m < n, (PersonalOS.retried policy gateway (1 + m)).isSome) →
    PersonalOS.retried policy gateway (1 + n) = some failure →
    PersonalOS.retried policy gateway (1 + (n + 1)) = some failure' →
      max (policy.window (1 + n)) (failure.retryAfterSeconds.getD 0) ≤
        max (policy.window (1 + (n + 1)) / 2) (failure'.retryAfterSeconds.getD 0)

theorem ToolFailure.isRetryable_iff {failure : ToolFailure} :
    failure.isRetryable = true ↔
      ∃ code failureClass, failure.raised.errorClass = .personalOS true code failureClass := by
  unfold isRetryable RaisedError.isRetryable
  cases failure.raised.errorClass with
  | policy code failureClass => simp
  | personalOS retryable code failureClass => cases retryable <;> simp
  | other => simp

theorem ToolFailure.retryAfterSeconds_getD_nonneg (failure : ToolFailure) :
    0 ≤ failure.retryAfterSeconds.getD 0 := by
  unfold retryAfterSeconds
  cases hafter : failure.retryAfter.filter fun seconds => decide (0 ≤ seconds) with
  | none => exact le_refl 0
  | some seconds => exact of_decide_eq_true (Option.filter_eq_some_iff.mp hafter).2

theorem jittered_le {window jitter : ℚ} (hwindow : 0 ≤ window) (h : jitter < 1) :
    window / 2 + jitter * window / 2 ≤ window := by
  nlinarith

theorem attemptsFrom_keepsBudget (policy : BackoffPolicy) (gateway : ℕ → Except ToolFailure ρ)
    {rand : ℕ → ℚ} (hrand : InUnit rand) : KeepsBudget policy gateway (attemptsFrom policy gateway rand 1) := by
  have hdispatches := attemptsFrom_dispatches policy gateway rand 1
  have hwaits := attemptsFrom_waits_le policy gateway rand 1
  refine ⟨?_, hdispatches, fun n wait hwait => ?_⟩
  · rw [hdispatches, BackoffPolicy.maxAttempts]
    omega
  obtain ⟨-, failure, hretried, rfl⟩ := (waits_getElem? rand).mp hwait
  obtain ⟨hanswer, -, hretryable, hmuch⟩ := retried_eq_some.mp hretried
  obtain ⟨code, failureClass, hclass⟩ := ToolFailure.isRetryable_iff.mp hretryable
  rw [policy.delay_eq _ _ (hrand _).1]
  refine ⟨failure, code, failureClass, ?_, hclass, fun seconds hseconds => ?_, max_le ?_ ?_⟩
  · rwa [Nat.add_comm]
  · rw [hseconds]
    exact le_max_right ..
  · exact (jittered_le (policy.window_nonneg _) (hrand _).2).trans (policy.window_le _)
  · cases hseconds : failure.retryAfterSeconds with
    | none => exact policy.maxDelay_nonneg
    | some seconds =>
        by_contra hlt
        have hasks := ToolFailure.asksTooMuch_iff.mpr ⟨seconds, hseconds, not_le.mp hlt⟩
        rw [hmuch] at hasks
        cases hasks

theorem window_le_of_jittered {window bound : ℚ} (hbound : 0 ≤ bound)
    (h : ∀ jitter, 0 ≤ jitter → jitter < 1 → window / 2 + jitter * window / 2 ≤ bound) :
    window ≤ bound := by
  by_contra hlt
  have hpos : 0 < window := hbound.trans_lt (not_le.mp hlt)
  have hjitter := h (bound / window) (by positivity) ((div_lt_one hpos).mpr (not_le.mp hlt))
  rw [div_mul_cancel₀ _ hpos.ne'] at hjitter
  linarith

theorem waitsGrow_iff (policy : BackoffPolicy) (gateway : ℕ → Except ToolFailure ρ) :
    (∀ rand, InUnit rand → WaitsGrow (attemptsFrom policy gateway rand 1)) ↔
      WindowsCover policy gateway := by
  constructor
  · intro h n failure failure' hbefore hretried hretried'
    have hafter := failure'.retryAfterSeconds_getD_nonneg
    -- The second wait without jitter, and the first one with any.
    have hwaits : ∀ jitter, 0 ≤ jitter → jitter < 1 →
        max (policy.window (1 + n) / 2 + jitter * policy.window (1 + n) / 2)
            (failure.retryAfterSeconds.getD 0) ≤
          max (policy.window (1 + (n + 1)) / 2) (failure'.retryAfterSeconds.getD 0) := by
      intro jitter h0 h1
      let rand : ℕ → ℚ := fun attempt => if attempt = 1 + n then jitter else 0
      have hrand : InUnit rand := by
        intro attempt
        by_cases hattempt : attempt = 1 + n
        · exact ⟨by simpa [rand, hattempt] using h0, by simpa [rand, hattempt] using h1⟩
        · exact ⟨by simp [rand, hattempt], by simp [rand, hattempt]⟩
      have hfirst := (waits_getElem? rand).mpr ⟨hbefore, failure, hretried, rfl⟩
      have hsecond := (waits_getElem? rand).mpr ⟨fun m hm => ?_, failure', hretried', rfl⟩
      · have hle := h rand hrand n _ _ hfirst hsecond
        rw [policy.delay_eq _ _ (hrand _).1, policy.delay_eq _ _ (hrand _).1] at hle
        simpa [rand] using hle
      · rcases Nat.lt_succ_iff_lt_or_eq.mp hm with hlt | rfl
        · exact hbefore m hlt
        · rw [hretried]
          rfl
    have hbound : 0 ≤ max (policy.window (1 + (n + 1)) / 2) (failure'.retryAfterSeconds.getD 0) :=
      hafter.trans (le_max_right ..)
    refine max_le (window_le_of_jittered hbound fun jitter h0 h1 => ?_) ?_
    · exact (le_max_left ..).trans (hwaits jitter h0 h1)
    · exact (le_max_right ..).trans (hwaits 0 le_rfl one_pos)
  · intro h rand hrand n wait wait' hwait hwait'
    obtain ⟨hbefore, failure, hretried, rfl⟩ := (waits_getElem? rand).mp hwait
    obtain ⟨-, failure', hretried', rfl⟩ := (waits_getElem? rand).mp hwait'
    have hcover := h n failure failure' hbefore hretried hretried'
    have hwindow' := policy.window_nonneg (1 + (n + 1))
    have hjitter' := (hrand (1 + (n + 1))).1
    rw [policy.delay_eq _ _ (hrand _).1, policy.delay_eq _ _ hjitter']
    calc max (policy.window (1 + n) / 2 + rand (1 + n) * policy.window (1 + n) / 2)
          (failure.retryAfterSeconds.getD 0)
        ≤ max (policy.window (1 + n)) (failure.retryAfterSeconds.getD 0) :=
          max_le_max (jittered_le (policy.window_nonneg _) (hrand _).2) le_rfl
      _ ≤ max (policy.window (1 + (n + 1)) / 2) (failure'.retryAfterSeconds.getD 0) := hcover
      _ ≤ _ := max_le_max (le_add_of_nonneg_right (by positivity)) le_rfl

/-- **The backoff law**: every call ends within its budget, repeats only what is worth another
attempt, and waits at least the `Retry-After` and at most `max_delay`.  Its waits grow whatever the
jitter if and only if each retry has to wait at least what the one before it may have waited. -/
theorem backoff_law_iff (call : DispatchCall) (gateway : ℕ → Except ToolFailure ρ)
    (policy : BackoffPolicy) (h : call.effectivePolicy = .ok policy) :
    (∀ rand, InUnit rand → ∃ run, dispatchWithRetry call gateway rand = .ok run ∧
      KeepsBudget policy gateway run) ∧
    ((∀ rand, InUnit rand → ∃ run, dispatchWithRetry call gateway rand = .ok run ∧
      KeepsBudget policy gateway run ∧ WaitsGrow run) ↔ WindowsCover policy gateway) := by
  have hrun : ∀ rand, dispatchWithRetry call gateway rand = .ok (attemptsFrom policy gateway rand 1) := by
    intro rand
    rw [dispatchWithRetry, h]
    rfl
  refine ⟨fun rand hrand => ⟨_, hrun rand, attemptsFrom_keepsBudget policy gateway hrand⟩, ?_⟩
  rw [← waitsGrow_iff]
  constructor
  · intro hlaw rand hrand
    obtain ⟨run, hok, -, hgrow⟩ := hlaw rand hrand
    obtain rfl := Except.ok.inj ((hrun rand).symm.trans hok)
    exact hgrow
  · exact fun hgrow rand hrand => ⟨_, hrun rand, attemptsFrom_keepsBudget policy gateway hrand, hgrow rand hrand⟩

theorem backoff_law_iff_read : ∃ run : DispatchRun Unit,
    dispatchWithRetry ⟨"jobs.search_jobs", none, none, none⟩ failsTwice (fun _ => 0) = .ok run ∧
      KeepsBudget .read failsTwice run :=
  (backoff_law_iff ⟨"jobs.search_jobs", none, none, none⟩ failsTwice .read rfl).1
    (fun _ => 0) fun _ => ⟨le_rfl, one_pos⟩

/-- A window of 20 seconds and then one of 30, the cap. -/
def slowSearch : DispatchCall := ⟨"jobs.search_jobs", none, none, some 20⟩

/-- Much jitter first, and none after. -/
def highThenNone (attempt : ℕ) : ℚ := if attempt = 1 then 9 / 10 else 0

/-- A wait of 19 seconds is followed by one of 15. -/
theorem capped_wait_shrinks :
    ¬ ∀ (call : DispatchCall) (gateway : ℕ → Except ToolFailure Unit) (rand : ℕ → ℚ)
        (run : DispatchRun Unit), InUnit rand → dispatchWithRetry call gateway rand = .ok run →
      WaitsGrow run := by
  intro h
  have hrand : InUnit highThenNone := by
    intro attempt
    unfold highThenNone
    split <;> norm_num
  have hwaits : (dispatchWithRetry slowSearch failsTwice highThenNone).toOption.map (·.waits) =
      some [19, 15] := by
    decide +kernel
  cases hcall : dispatchWithRetry slowSearch failsTwice highThenNone with
  | error message =>
      rw [hcall] at hwaits
      cases hwaits
  | ok run =>
      rw [hcall] at hwaits
      have hlist : run.waits = [19, 15] := Option.some.inj hwaits
      have hgrow := h slowSearch failsTwice highThenNone run hrand hcall 0 19 15 (by rw [hlist]; rfl)
        (by rw [hlist]; rfl)
      norm_num at hgrow

end backoff

end PersonalOS
