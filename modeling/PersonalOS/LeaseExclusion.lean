import PersonalOS.LeaseStore

/-! # Lease exclusion

Any number of workers making any operations on the lease of one workflow, interleaved step by
step.

* **Steps.** `LeaseStep` says what one step of a worker can do to the store; the contract of a
  worker (`leaseContract`) is that the others leave alone what it holds.
* **Exclusion.** A takeover is guarded by the token it read, and a renewal keeps the token: one
  that lands between the read and the update of a taker is not noticed.  `Vacated` excludes
  exactly that, and `leases_exclusive` shows that nothing else breaks the exclusion;
  `renewed_lease_taken_over` is the run in which two workers hold the lease.
* **Fencing.** A lease that was taken over stays lost: to renew or release it changes no row. -/

namespace PersonalOS

open Concurrent Concurrent.Prog WorkflowLeaseStore

variable {τ : Type} [DecidableEq τ]

/-! ### What a step does -/

/-- What one step of worker `w` does. -/
inductive LeaseStep (w : τ) (s : LeaseStore τ) : LeaseStore τ → Prop where
  | waited (n : ℕ) : LeaseStep w s (s.tick n)
  | granted (n : ℕ) (owner : String) (threadId : Option String) (now expiresAt : Time) :
      LeaseStep w s ((s.tick n).grant w owner threadId now expiresAt).2
  | renewed (n : ℕ) (lease : WorkflowLease) (row : WorkflowLeaseRow) (expiresAt : Time) :
      s.held w = some lease → s.ownRow lease.token = some row →
      LeaseStep w s ({ s.tick n with row := some { row with expiresAt } }.hand w
        (some { lease with expiresAt }))
  | released (n : ℕ) (lease : WorkflowLease) (row : WorkflowLeaseRow) (now : Time) :
      s.held w = some lease → s.ownRow lease.token = some row →
      LeaseStep w s ({ s.tick n with row := some { row with releasedAt := some now } }.hand w none)
  | dropped (n : ℕ) (lease : WorkflowLease) :
      s.held w = some lease → s.ownRow lease.token = none → LeaseStep w s ((s.tick n).hand w none)

theorem LeaseStep.held_ne {w u : τ} {s s' : LeaseStore τ} (h : LeaseStep u s s') (hw : w ≠ u) :
    s'.held w = s.held w := by
  cases h <;> simp [LeaseStore.tick, LeaseStore.grant, LeaseStore.hand, hw]

/-- The contract of worker `w`: the others leave alone what it holds. -/
def leaseContract (assume : LeaseStore τ → LeaseStore τ → Prop) (w : τ) : Contract (LeaseStore τ) where
  rely s s' := s'.held w = s.held w
  guar := LeaseStep w
  assume := assume
  rely_refl _ := rfl
  rely_trans h₁ h₂ := h₂.trans h₁

/-! ### The operations keep the contract

What an operation leaves is said of what the worker holds, which only its own steps change. -/

section operations

variable {assume : LeaseStore τ → LeaseStore τ → Prop} {w : τ} {ttl : Time} {s : LeaseStore τ}
variable {α β : Type}

theorem wp_now {Q : α → LeaseStore τ → Prop} {E : LeaseError → LeaseStore τ → Prop}
    {k : Time → LeaseProgram τ α}
    (h : ∀ t s', s'.held w = s.held w → (k t).wp (leaseContract assume w) Q E s') :
    (now >>= k).wp (leaseContract assume w) Q E s :=
  fun _ hr i _ => ⟨.waited i.elapsed, h _ _ hr⟩

/-- A statement runs, or finds the database locked. -/
theorem wp_statement {f : LeaseStore τ → β × LeaseStore τ}
    {Q : β → Option WorkflowLease → Prop} {E : LeaseError → Option WorkflowLease → Prop}
    (hE : E .operational (s.held w))
    (hf : ∀ s' n, s'.held w = s.held w → LeaseStep w s' (f (s'.tick n)).2 ∧
      Q (f (s'.tick n)).1 ((f (s'.tick n)).2.held w)) :
    (statement f).wp (leaseContract assume w) (fun b s => Q b (s.held w))
      (fun e s => E e (s.held w)) s := by
  intro s₁ (hr : s₁.held w = s.held w) i _
  have hcases : execute f i s₁ = (none, s₁.tick i.elapsed) ∨
      execute f i s₁ = (some (f (s₁.tick i.elapsed)).1, (f (s₁.tick i.elapsed)).2) := by
    unfold execute
    split
    · exact Or.inl rfl
    · exact Or.inr rfl
  rcases hcases with he | he
  · rw [he]
    refine ⟨.waited i.elapsed, fun s₂ (hr' : s₂.held w = s₁.held w) => ?_⟩
    change E .operational (s₂.held w)
    rwa [hr', hr]
  · rw [he]
    obtain ⟨hstep, hQ⟩ := hf s₁ i.elapsed hr
    refine ⟨hstep, fun s₂ (hr' : s₂.held w = (f (s₁.tick i.elapsed)).2.held w) => ?_⟩
    change Q _ (s₂.held w)
    rwa [hr']

/-- A granted lease is held; a refused one leaves the worker what it had. -/
theorem takeLease_spec (owner : String) (threadId : Option String) (s : LeaseStore τ) :
    (takeLease w ttl owner threadId).wp (leaseContract assume w)
      (fun lease s' => s'.held w = some lease) (fun _ s' => s'.held w = s.held w) s := by
  unfold takeLease
  refine wp_now fun now s₁ h₁ => ?_
  refine wp_bind (wp_mono (wp_statement (Q := fun _ held => held = s.held w)
    (E := fun _ held => held = s.held w) h₁ ?_) (fun row s₂ h₂ => ?_) fun _ _ h => h)
  · exact fun s' n hs => ⟨.waited n, hs.trans h₁⟩
  -- Inserting and taking over both grant the lease, or change nothing.
  have hwrite : ∀ {f : LeaseStore τ → Option WorkflowLease × LeaseStore τ} {error : LeaseError}
      {k : Option WorkflowLease → LeaseProgram τ WorkflowLease}, k none = raise error →
      (∀ lease, k (some lease) = ret lease) →
      (∀ s', f s' = (none, s') ∨ f s' = (some (s'.grant w owner threadId now (now + ttl)).1,
        (s'.grant w owner threadId now (now + ttl)).2)) →
      (statement f >>= k).wp (leaseContract assume w)
        (fun lease s' => s'.held w = some lease) (fun _ s' => s'.held w = s.held w) s₂ := by
    intro f error k hnone hsome hf
    refine wp_bind (wp_mono (wp_statement
      (Q := fun answer held => held = answer.elim (s.held w) some)
      (E := fun _ held => held = s.held w) h₂ ?_) (fun answer s₃ h₃ => ?_) fun _ _ h => h)
    · intro s' n hs
      rcases hf (s'.tick n) with he | he
      · rw [he]
        exact ⟨.waited n, hs.trans h₂⟩
      · rw [he]
        exact ⟨.granted n owner threadId now (now + ttl), by simp [LeaseStore.grant, LeaseStore.hand]⟩
    · cases answer with
      | none =>
          rw [hnone]
          exact fun s₄ (hr : s₄.held w = s₃.held w) => hr.trans h₃
      | some lease =>
          rw [hsome]
          exact fun s₄ (hr : s₄.held w = s₃.held w) => hr.trans h₃
  cases row with
  | none =>
      refine hwrite rfl (fun _ => rfl) fun s' => ?_
      unfold LeaseStore.insertRow
      cases s'.row with
      | none => exact Or.inr rfl
      | some row => exact Or.inl rfl
  | some row =>
      dsimp only
      split
      · exact fun s₃ (hr : s₃.held w = s₂.held w) => hr.trans h₂
      refine hwrite rfl (fun _ => rfl) fun s' => ?_
      unfold LeaseStore.takeOver
      cases s'.row with
      | none => exact Or.inl rfl
      | some row' =>
          dsimp only
          split
          · exact Or.inr rfl
          · exact Or.inl rfl

theorem acquire_spec (owner : String) (threadId : Option String) (s : LeaseStore τ) :
    (acquire w ttl owner threadId).wp (leaseContract assume w)
      (fun lease s' => s'.held w = some lease) (fun _ s' => s'.held w = s.held w) s := by
  unfold acquire
  refine wp_bind (wp_attempt (wp_mono (takeLease_spec owner threadId s) (fun lease s₁ h₁ => ?_)
    fun error s₁ h₁ => ?_))
  · exact fun s₂ (hr : s₂.held w = s₁.held w) => hr.trans h₁
  · cases error <;> exact fun s₂ (hr : s₂.held w = s₁.held w) => hr.trans h₁

theorem renew_spec {lease : WorkflowLease} (hs : s.held w = some lease) :
    (renew w ttl lease).wp (leaseContract assume w) (fun renewed s' => s'.held w = some renewed)
      (fun _ s' => s'.held w = some lease) s := by
  unfold renew
  refine wp_now fun now s₁ h₁ => ?_
  have h₁ : s₁.held w = some lease := h₁.trans hs
  refine wp_bind (wp_mono (wp_statement
    (Q := fun answer held => held = some (answer.getD lease))
    (E := fun _ held => held = some lease) h₁ ?_) (fun answer s₂ h₂ => ?_) fun _ _ h => h)
  · intro s' n hs'
    have hs' : s'.held w = some lease := hs'.trans h₁
    unfold LeaseStore.renewRow
    cases hrow : (s'.tick n).ownRow lease.token with
    | none => exact ⟨.waited n, hs'⟩
    | some row => exact ⟨.renewed n lease row _ hs' hrow, by simp [LeaseStore.hand]⟩
  · cases answer with
    | none => exact fun s₃ (hr : s₃.held w = s₂.held w) => hr.trans h₂
    | some renewed => exact fun s₃ (hr : s₃.held w = s₂.held w) => hr.trans h₂

theorem release_spec {lease : WorkflowLease} (hs : s.held w = some lease) :
    (release w lease).wp (leaseContract assume w) (fun _ s' => s'.held w = none)
      (fun _ s' => s'.held w = some lease) s := by
  unfold release
  refine wp_now fun now s₁ h₁ => ?_
  have h₁ : s₁.held w = some lease := h₁.trans hs
  refine wp_statement (Q := fun _ held => held = none) (E := fun _ held => held = some lease) h₁ ?_
  intro s' n hs'
  have hs' : s'.held w = some lease := hs'.trans h₁
  unfold LeaseStore.releaseRow
  cases hrow : (s'.tick n).ownRow lease.token with
  | none => exact ⟨.dropped n lease hs' hrow, by simp [LeaseStore.hand]⟩
  | some row => exact ⟨.released n lease row now hs' hrow, by simp [LeaseStore.hand]⟩

/-- A worker that starts from what it holds keeps its contract. -/
theorem worker_spec {owner : String} {operations : List Operation} {lease : Option WorkflowLease}
    (hs : s.held w = lease) :
    (worker w ttl owner operations lease).wp (leaseContract assume w) (fun _ _ => True)
      (fun _ _ => True) s := by
  induction operations generalizing lease s with
  | nil => exact fun _ _ => trivial
  | cons operation operations ih =>
      cases operation with
      | acquire threadId =>
          refine wp_bind (wp_attempt (wp_mono (acquire_spec owner threadId s) ?_ ?_))
          · exact fun granted s₁ h₁ => ih h₁
          · exact fun _ s₁ h₁ => ih (h₁.trans hs)
      | renew =>
          cases lease with
          | none => exact ih hs
          | some lease =>
              refine wp_bind (wp_attempt (wp_mono (renew_spec hs) ?_ ?_))
              · exact fun renewed s₁ h₁ => ih h₁
              · exact fun _ s₁ h₁ => ih h₁
      | release =>
          cases lease with
          | none => exact ih hs
          | some lease =>
              refine wp_bind (wp_attempt (wp_mono (release_spec hs) ?_ ?_))
              · exact fun _ s₁ h₁ => ih h₁
              · exact fun _ s₁ h₁ => ih h₁

end operations

/-! ### Invariants -/

/-- No two workers hold leases that have not expired. -/
def Exclusive (s : LeaseStore τ) : Prop :=
  ∀ w u lease lease', s.held w = some lease → s.held u = some lease' →
    s.clock < lease.expiresAt → s.clock < lease'.expiresAt → w = u

/-- A row that gets a new token was released or had expired when it got it. -/
def Vacated (s s' : LeaseStore τ) : Prop :=
  ∀ row row', s.row = some row → s'.row = some row' → row'.leaseToken ≠ row.leaseToken →
    row.isHeld s'.clock = false

/-- Tokens are minted once, and one worker at most holds each. -/
structure TokenInv (s : LeaseStore τ) : Prop where
  row : ∀ row, s.row = some row → row.leaseToken < s.minted
  held : ∀ w lease, s.held w = some lease → lease.token < s.minted
  distinct : ∀ w u lease lease', s.held w = some lease → s.held u = some lease' →
    lease.token = lease'.token → w = u

/-- The row backs this lease, for as long as the lease says. -/
def Backs (s : LeaseStore τ) (lease : WorkflowLease) : Prop :=
  ∃ row, s.ownRow lease.token = some row ∧ lease.expiresAt ≤ row.expiresAt

/-- The row backs every lease that has not expired. -/
def LiveBacked (s : LeaseStore τ) : Prop :=
  ∀ w lease, s.held w = some lease → s.clock < lease.expiresAt → Backs s lease

omit [DecidableEq τ] in
/-- The row is the lease of one worker at most. -/
theorem TokenInv.eq_of_ownRow {s : LeaseStore τ} (h : TokenInv s) {w u : τ}
    {lease lease' : WorkflowLease} {row row' : WorkflowLeaseRow} (hw : s.held w = some lease)
    (hu : s.held u = some lease') (hrow : s.ownRow lease.token = some row)
    (hrow' : s.ownRow lease'.token = some row') : w = u := by
  obtain ⟨hrow, htoken, -⟩ := LeaseStore.ownRow_eq_some.mp hrow
  obtain ⟨hrow', htoken', -⟩ := LeaseStore.ownRow_eq_some.mp hrow'
  obtain rfl := Option.some.inj (hrow.symm.trans hrow')
  exact h.distinct w u lease lease' hw hu (htoken.symm.trans htoken')

theorem TokenInv.step {w : τ} {s s' : LeaseStore τ} (h : TokenInv s) (hs : LeaseStep w s s') :
    TokenInv s' := by
  -- What a step hands over decides, when tokens stay below the minted ones.
  have hhand : ∀ (s₁ : LeaseStore τ) (lease : Option WorkflowLease), s₁.held = s.held →
      s.minted ≤ s₁.minted → (∀ row, s₁.row = some row → row.leaseToken < s₁.minted) →
      (∀ l, lease = some l → l.token < s₁.minted ∧
        (l.token < s.minted → ∃ l', s.held w = some l' ∧ l'.token = l.token)) →
      TokenInv (s₁.hand w lease) := by
    intro s₁ lease hheld hle hrow hlease
    refine ⟨hrow, ?_, ?_⟩
    · intro u l hu
      by_cases hw : u = w
      · subst hw
        rw [LeaseStore.hand_held_self] at hu
        exact (hlease l hu).1
      · rw [LeaseStore.hand_held_ne _ hw, hheld] at hu
        exact Nat.lt_of_lt_of_le (h.held u l hu) hle
    · have hother : ∀ u l l', u ≠ w → lease = some l → s.held u = some l' → l.token ≠ l'.token := by
        intro u l l' hne hl hu he
        obtain ⟨l₀, hl₀, he₀⟩ := (hlease l hl).2 (he ▸ h.held u l' hu)
        exact hne (h.distinct u w l' l₀ hu hl₀ (by rw [he₀, he]))
      intro u v l l' hu hv he
      by_cases huw : u = w <;> by_cases hvw : v = w
      · rw [huw, hvw]
      · subst huw
        rw [LeaseStore.hand_held_self] at hu
        rw [LeaseStore.hand_held_ne _ hvw, hheld] at hv
        exact absurd he (hother v l l' hvw hu hv)
      · subst hvw
        rw [LeaseStore.hand_held_self] at hv
        rw [LeaseStore.hand_held_ne _ huw, hheld] at hu
        exact absurd he.symm (hother u l' l huw hv hu)
      · rw [LeaseStore.hand_held_ne _ huw, hheld] at hu
        rw [LeaseStore.hand_held_ne _ hvw, hheld] at hv
        exact h.distinct u v l l' hu hv he
  cases hs with
  | waited n => exact ⟨h.row, h.held, h.distinct⟩
  | granted n owner threadId now expiresAt =>
      refine hhand _ _ rfl (Nat.le_succ _) ?_ ?_
      · rintro row ⟨⟩
        exact Nat.lt_succ_self _
      · rintro l ⟨⟩
        exact ⟨Nat.lt_succ_self _, fun hlt => absurd hlt (Nat.lt_irrefl _)⟩
  | renewed n lease row expiresAt hheld hrow =>
      obtain ⟨hrow, htoken, -⟩ := LeaseStore.ownRow_eq_some.mp hrow
      refine hhand _ _ rfl (Nat.le_refl _) ?_ ?_
      · rintro row' ⟨⟩
        exact h.row row hrow
      · rintro l ⟨⟩
        exact ⟨h.held w lease hheld, fun _ => ⟨lease, hheld, rfl⟩⟩
  | released n lease row now hheld hrow =>
      obtain ⟨hrow, -, -⟩ := LeaseStore.ownRow_eq_some.mp hrow
      refine hhand _ _ rfl (Nat.le_refl _) ?_ (by simp)
      rintro row' ⟨⟩
      exact h.row row hrow
  | dropped n lease hheld hrow => exact hhand _ _ rfl (Nat.le_refl _) h.row (by simp)

theorem LiveBacked.step {w : τ} {s s' : LeaseStore τ} (ht : TokenInv s) (h : LiveBacked s)
    (hv : Vacated s s') (hs : LeaseStep w s s') : LiveBacked s' := by
  have hclock : ∀ {n : ℕ} {t : Time}, s.clock + n < t → s.clock < t :=
    fun hlt => Int.lt_of_le_of_lt (Int.le_add_of_nonneg_right (Int.natCast_nonneg _)) hlt
  cases hs with
  | waited n => exact fun u l hu hlive => h u l hu (hclock hlive)
  | granted n owner threadId now expiresAt =>
      intro u l hu hlive
      by_cases hw : u = w
      · subst hw
        simp only [LeaseStore.grant, LeaseStore.hand_held_self, Option.some.injEq] at hu
        subst hu
        exact ⟨_, LeaseStore.ownRow_eq_some.mpr ⟨rfl, rfl, rfl⟩, Int.le_refl _⟩
      · -- The row that backed another live lease was held, so it was not taken over.
        simp only [LeaseStore.grant] at hu
        rw [LeaseStore.hand_held_ne _ hw] at hu
        obtain ⟨row, hrow, hexp⟩ := h u l hu (hclock hlive)
        obtain ⟨hrow, htoken, hrel⟩ := LeaseStore.ownRow_eq_some.mp hrow
        have hne : s.minted ≠ row.leaseToken := Nat.ne_of_gt (ht.row row hrow)
        have hvac := hv row _ hrow rfl hne
        have hlive : s.clock + n < l.expiresAt := hlive
        simp only [WorkflowLeaseRow.isHeld, hrel, Option.isNone_none, Bool.true_and,
          decide_eq_false_iff_not] at hvac
        exact absurd (Int.lt_of_lt_of_le hlive hexp) hvac
  | renewed n lease row expiresAt hheld hrow =>
      intro u l hu hlive
      by_cases hw : u = w
      · subst hw
        obtain ⟨-, htoken, hrel⟩ := LeaseStore.ownRow_eq_some.mp hrow
        rw [LeaseStore.hand_held_self] at hu
        cases hu
        exact ⟨_, LeaseStore.ownRow_eq_some.mpr ⟨rfl, htoken, hrel⟩, Int.le_refl _⟩
      · rw [LeaseStore.hand_held_ne _ hw] at hu
        obtain ⟨row', hrow', -⟩ := h u l hu (hclock hlive)
        exact absurd (ht.eq_of_ownRow hu hheld hrow' hrow) hw
  | released n lease row now hheld hrow =>
      intro u l hu hlive
      by_cases hw : u = w
      · subst hw
        rw [LeaseStore.hand_held_self] at hu
        cases hu
      · rw [LeaseStore.hand_held_ne _ hw] at hu
        obtain ⟨row', hrow', -⟩ := h u l hu (hclock hlive)
        exact absurd (ht.eq_of_ownRow hu hheld hrow' hrow) hw
  | dropped n lease hheld hrow =>
      intro u l hu hlive
      by_cases hw : u = w
      · subst hw
        rw [LeaseStore.hand_held_self] at hu
        cases hu
      · rw [LeaseStore.hand_held_ne _ hw] at hu
        exact h u l hu (hclock hlive)

omit [DecidableEq τ] in
theorem LiveBacked.exclusive {s : LeaseStore τ} (ht : TokenInv s) (h : LiveBacked s) : Exclusive s := by
  intro w u lease lease' hw hu hlive hlive'
  obtain ⟨row, hrow, -⟩ := h w lease hw hlive
  obtain ⟨row', hrow', -⟩ := h u lease' hu hlive'
  exact ht.eq_of_ownRow hw hu hrow hrow'

/-- A lease the row has another token than. -/
def Lost (lease : WorkflowLease) (s : LeaseStore τ) : Prop :=
  lease.token < s.minted ∧ ∀ row, s.row = some row → row.leaseToken ≠ lease.token

/-- A takeover mints a new token, so a lost lease stays lost. -/
theorem Lost.step {w : τ} {lease : WorkflowLease} {s s' : LeaseStore τ} (h : Lost lease s)
    (hs : LeaseStep w s s') : Lost lease s' := by
  cases hs with
  | waited n => exact h
  | granted n owner threadId now expiresAt =>
      refine ⟨Nat.lt_succ_of_lt h.1, ?_⟩
      rintro row ⟨⟩
      exact Nat.ne_of_gt h.1
  | renewed n lease' row expiresAt hheld hrow =>
      refine ⟨h.1, ?_⟩
      rintro row' ⟨⟩
      exact h.2 row (LeaseStore.ownRow_eq_some.mp hrow).1
  | released n lease' row now hheld hrow =>
      refine ⟨h.1, ?_⟩
      rintro row' ⟨⟩
      exact h.2 row (LeaseStore.ownRow_eq_some.mp hrow).1
  | dropped n lease' hheld hrow => exact h

/-! ### Interleavings -/

/-- Workers on a workflow that was never leased. -/
def leasePool (ttl clock : Time) (owner : τ → String) (operations : τ → List Operation) :
    Pool τ LeaseInput (LeaseStore τ) LeaseError Unit where
  procs w := worker w ttl (owner w) (operations w) none
  state := { clock, minted := 0, row := none, held := fun _ => none }

section runs

variable {ttl clock : Time} {owner : τ → String} {operations : τ → List Operation}

theorem leasePool_sound (assume : LeaseStore τ → LeaseStore τ → Prop) :
    Pool.Sound (leaseContract assume) (fun _ _ _ => True) (fun _ _ _ => True)
      (leasePool ttl clock owner operations) := fun _ => worker_spec rfl

theorem leaseContract_rely (assume : LeaseStore τ → LeaseStore τ → Prop) (w u : τ) (hwu : w ≠ u)
    (s s' : LeaseStore τ) (h : (leaseContract assume u).guar s s') :
    (leaseContract assume w).rely s s' := LeaseStep.held_ne h hwu

/-- What every step of a considered run preserves holds after it. -/
theorem leasePool_inv {assume : LeaseStore τ → LeaseStore τ → Prop} {J : LeaseStore τ → Prop}
    (sched : List (τ × LeaseInput)) {sched' : List (τ × LeaseInput)}
    (hJ : ∀ w s s', assume s s' → LeaseStep w s s' → J s → J s')
    (hm : Pool.Meets (fun _ => assume) (leasePool ttl clock owner operations) (sched ++ sched'))
    (h0 : J ((leasePool ttl clock owner operations).run sched).state) :
    J ((leasePool ttl clock owner operations).run (sched ++ sched')).state :=
  Pool.run_inv_append (leasePool_sound assume) (fun _ => rfl) (leaseContract_rely assume)
    (fun e _ => hJ e.1) hm h0

theorem leasePool_tokenInv (sched : List (τ × LeaseInput)) :
    TokenInv ((leasePool ttl clock owner operations).run sched).state := by
  refine leasePool_inv [] (fun w s s' _ hs h => h.step hs) (Pool.meets_true _ _) ?_
  exact ⟨fun _ h => (by cases h), fun _ _ h => (by cases h), fun _ _ _ _ h => (by cases h)⟩

/-- **Lease exclusion**: in a run in which every lease is taken over released or expired, no two
workers ever hold leases that have not expired; and in every run a lease that was taken over
stays lost, and renewing or releasing it changes no row. -/
theorem leases_exclusive (ttl clock : Time) (owner : τ → String) (operations : τ → List Operation)
    (sched : List (τ × LeaseInput)) :
    let c := leasePool ttl clock owner operations
    (Pool.Meets (fun _ => Vacated) c sched → Exclusive (c.run sched).state) ∧
    ∀ w lease, (c.run sched).state.held w = some lease →
      (∀ row, (c.run sched).state.row = some row → row.leaseToken ≠ lease.token) →
      ∀ later u expiresAt now, let s := (c.run (sched ++ later)).state
        s.renewRow u lease expiresAt = (none, s) ∧
        s.releaseRow u lease now = (false, s.hand u none) := by
  intro c
  constructor
  · intro hm
    have hinv : LiveBacked (c.run sched).state ∧ TokenInv (c.run sched).state := by
      refine leasePool_inv (J := fun s => LiveBacked s ∧ TokenInv s) []
        (fun w s s' (hv : Vacated s s') hs h => ⟨LiveBacked.step h.2 h.1 hv hs, h.2.step hs⟩) hm ?_
      exact ⟨fun _ _ h => (by cases h), leasePool_tokenInv []⟩
    exact hinv.1.exclusive hinv.2
  · intro w lease hheld hrow later u expiresAt now s
    have hlost : Lost lease s :=
      leasePool_inv sched (fun w s s' _ hs h => h.step hs) (Pool.meets_true _ _)
        ⟨(leasePool_tokenInv sched).held w lease hheld, hrow⟩
    have hown : s.ownRow lease.token = none := LeaseStore.ownRow_eq_none hlost.2
    exact ⟨by rw [LeaseStore.renewRow, hown], by rw [LeaseStore.releaseRow, hown]⟩

end runs

/-- One worker leases the workflow and renews its lease, another one leases it. -/
def renewingWorkers : Bool → List Operation
  | true => [.acquire none, .renew]
  | false => [.acquire none]

/-- The second worker takes the lease over after it has expired. -/
def expiredTakeover : List (Bool × LeaseInput) :=
  [(true, ⟨0, false⟩), (true, ⟨0, false⟩), (true, ⟨0, false⟩),
   (false, ⟨300, false⟩), (false, ⟨0, false⟩), (false, ⟨0, false⟩)]

theorem leases_exclusive_expiredTakeover :
    let c := leasePool defaultLeaseTtlSeconds 0 (fun _ => "host:1") renewingWorkers
    Exclusive (c.run expiredTakeover).state ∧
    ∀ later, let s := (c.run (expiredTakeover ++ later)).state
      s.renewRow true ⟨"host:1", 0, 0, 300, none⟩ 900 = (none, s) ∧
      s.releaseRow true ⟨"host:1", 0, 0, 300, none⟩ 600 = (false, s.hand true none) := by
  intro c
  have h := leases_exclusive defaultLeaseTtlSeconds 0 (fun _ => "host:1") renewingWorkers
    expiredTakeover
  refine ⟨h.1 ?_, fun later => h.2 true ⟨"host:1", 0, 0, 300, none⟩ rfl ?_ later true 900 600⟩
  · simp only [expiredTakeover, Pool.Meets, and_true]
    refine ⟨fun _ _ h => (by cases h), fun _ _ h => (by cases h), fun _ _ h => (by cases h),
      ?_, ?_, ?_⟩
    · rintro row row' ⟨⟩ ⟨⟩ hne
      exact absurd rfl hne
    · rintro row row' ⟨⟩ ⟨⟩ hne
      exact absurd rfl hne
    · rintro row row' ⟨⟩ ⟨⟩ -
      rfl
  · rintro row ⟨⟩ h
    cases h

/-- The renewal lands between the read and the guarded update of the takeover. -/
def renewedTakeover : List (Bool × LeaseInput) :=
  [(true, ⟨0, false⟩), (true, ⟨0, false⟩), (true, ⟨0, false⟩),
   (false, ⟨300, false⟩), (false, ⟨0, false⟩),
   (true, ⟨0, false⟩), (true, ⟨0, false⟩),
   (false, ⟨0, false⟩)]

theorem renewed_lease_taken_over :
    ¬ ∀ (τ : Type) [DecidableEq τ] (ttl clock : Time) (owner : τ → String)
      (operations : τ → List Operation) (sched : List (τ × LeaseInput)), 0 < ttl →
      Exclusive ((leasePool ttl clock owner operations).run sched).state := by
  intro h
  have := h Bool defaultLeaseTtlSeconds 0 (fun _ => "host:1") renewingWorkers renewedTakeover
    (by decide) true false _ _ rfl rfl (by decide) (by decide)
  cases this

end PersonalOS
