import PersonalOS.ShippedRules

/-! # What the shipped policy clears

`authorize` of the engine that the application boots with, answer by answer.

* **Answers.** For any engine: `authorize` raises what the log or the sink raises, and otherwise acts on the
  verdict, of which it writes one row at most.
* **Clearing.** The shipped rules decide on the intent they are given, so nothing that the verdict allows is
  refused when the approval is minted: an intent is cleared exactly if it passes the tests of
  `shippedDecision` and has the grant that it needs (`shipped_policy_clears`). -/

namespace PersonalOS

namespace Policy

/-! ### What an engine answers -/

namespace PolicyEngine

section answers

variable {A : Type} {engine : PolicyEngine A} {intent : ToolIntent A} {approval : Option ApprovalGrant}

theorem scanRules_mem {rules : List (PolicyRule A)} {escalation kept : Option PolicyDecision}
    {verdict : PolicyDecision} (h : scanRules intent rules escalation kept = some verdict) :
    (∃ rule ∈ rules, rule intent = some verdict) ∨ escalation = some verdict ∨ kept = some verdict := by
  induction rules generalizing escalation kept with
  | nil =>
      rw [scanRules] at h
      cases escalation with
      | none => exact Or.inr (Or.inr h)
      | some first => exact Or.inr (Or.inl h)
  | cons rule rules ih =>
      have hlater : (∃ other ∈ rules, other intent = some verdict) →
          ∃ other ∈ rule :: rules, other intent = some verdict := by
        rintro ⟨other, hother, hanswer⟩
        exact ⟨other, List.mem_cons_of_mem rule hother, hanswer⟩
      rw [scanRules] at h
      cases hrule : rule intent with
      | none =>
          rw [hrule] at h
          exact (ih h).imp_left hlater
      | some opinion =>
          rw [hrule] at h
          dsimp only at h
          split at h
          · exact Or.inl ⟨rule, List.mem_cons_self, hrule.trans h⟩
          · rcases ih h with hmem | hfirst | hkept
            · exact Or.inl (hlater hmem)
            · cases escalation with
              | none => exact Or.inl ⟨rule, List.mem_cons_self, hrule.trans hfirst⟩
              | some first => exact Or.inr (Or.inl hfirst)
            · exact Or.inr (Or.inr hkept)
          · rcases ih h with hmem | hfirst | hkept
            · exact Or.inl (hlater hmem)
            · exact Or.inr (Or.inl hfirst)
            · cases kept with
              | none => exact Or.inl ⟨rule, List.mem_cons_self, hrule.trans hkept⟩
              | some first => exact Or.inr (Or.inr hkept)

theorem verdict_intentId
    (hown : ∀ rule ∈ engine.rules, ∀ decision, rule intent = some decision →
      decision.intentId = intent.intentId) :
    (engine.verdict intent).intentId = intent.intentId := by
  have hchain : (engine.evaluateRules intent).intentId = intent.intentId := by
    rw [evaluateRules]
    cases hscan : scanRules intent engine.rules none none with
    | none => rfl
    | some decision =>
        rcases scanRules_mem hscan with ⟨rule, hrule, h⟩ | h | h
        · exact hown rule hrule decision h
        · cases h
        · cases h
  unfold verdict
  dsimp only
  split
  · rfl
  · exact hchain

variable [ToolArguments A]

/-- The decision that an engine comes to of an intent, with neither the log nor the sink raising. -/
def Recorded (engine : PolicyEngine A) (intent : ToolIntent A) (decision : PolicyDecision) : Prop :=
  (engine.evaluateIntent intent).2 = .ok decision

theorem Recorded.eq_verdict {decision : PolicyDecision} (h : engine.Recorded intent decision) :
    decision = { engine.verdict intent with recordId := decision.recordId } :=
  (record_ok (Prod.ext rfl h)).1

theorem authorize_recorded {decision : PolicyDecision} (h : engine.Recorded intent decision) :
    (engine.authorize intent approval).2 =
      if decision.decision = .deny then .error (.policyDenied decision)
      else if decision.decision = .requireApproval ∧ approval.any (·.matches intent) = false then
        .error (.approvalRequired decision)
      else mintApprovedIntent intent decision approval := by
  rw [Recorded] at h
  rw [authorize]
  generalize engine.evaluateIntent intent = result at h
  obtain ⟨rows, answer⟩ := result
  obtain rfl : answer = .ok decision := h
  dsimp only
  split
  · rfl
  · split <;> rfl

theorem authorize_unrecorded {failure : PolicyFailure}
    (h : (engine.evaluateIntent intent).2 = .error failure) :
    (engine.authorize intent approval).2 = .error failure := by
  rw [authorize]
  generalize engine.evaluateIntent intent = result at h
  obtain ⟨rows, answer⟩ := result
  obtain rfl : answer = .error failure := h
  rfl

theorem authorize_rows {row : DecisionRow} (h : row ∈ (engine.authorize intent approval).1) :
    row = engine.decisionRow intent (engine.verdict intent) := by
  have hrows : (engine.authorize intent approval).1 = (engine.record intent (engine.verdict intent)).1 := by
    rw [authorize, evaluateIntent]
    generalize engine.record intent (engine.verdict intent) = result
    obtain ⟨rows, failure | decision⟩ := result
    · rfl
    · dsimp only
      split
      · rfl
      · split <;> rfl
  rw [hrows, record] at h
  split at h
  · cases h
  · split at h
    · cases h
    · exact List.mem_singleton.mp h

end answers

end PolicyEngine

/-! ### What is cleared -/

section clearing

variable {A : Type} [NamedArguments A] (intent : ToolIntent A) (approval : Option ApprovalGrant)

/-- A grant for exactly this intent is supplied. -/
def ToolIntent.Granted : Prop := ∃ grant, approval = some grant ∧ grant.matches intent = true

/-- An engine treats the intent by `isAcceptable` and `needsGrant`. -/
structure ClearsAsShipped (engine : PolicyEngine A) : Prop where
  cleared : (∃ approved, (engine.authorize intent approval).2 = .ok approved ∧ approved.intent = intent) ↔
    (∃ decision, engine.Recorded intent decision) ∧ intent.isAcceptable = true ∧
      (intent.needsGrant = true → intent.Granted approval)
  denied : ∀ decision, engine.Recorded intent decision →
    ((engine.authorize intent approval).2 = .error (.policyDenied decision) ↔ intent.isAcceptable = false)
  /-- A person is asked. -/
  asked : ∀ decision, engine.Recorded intent decision →
    ((engine.authorize intent approval).2 = .error (.approvalRequired decision) ↔
      intent.isAcceptable = true ∧ intent.needsGrant = true ∧ ¬intent.Granted approval)
  /-- What the log or the sink raises goes to the caller. -/
  unrecorded : ∀ failure, (engine.evaluateIntent intent).2 = .error failure →
    (engine.authorize intent approval).2 = .error failure
  logged : ∀ row ∈ (engine.authorize intent approval).1, row.tool = intent.toolRef ∧
    row.argsHash = intent.fingerprint ∧ row.decision = (shippedDecision intent).value
  /-- No tool that acts outside, or on credentials, is cleared. -/
  inside : ∀ approved, (engine.authorize intent approval).2 = .ok approved →
    ∃ permission, scopedToolPermissions.lookup intent.toolRef = some permission ∧
      permission.permissionClass ≠ .writeExternal ∧ permission.permissionClass ≠ .sensitive

end clearing

section cleared

open PolicyEngine

variable {A : Type} [NamedArguments A] {intent : ToolIntent A} {approval : Option ApprovalGrant}

theorem any_matches : approval.any (·.matches intent) = false ↔ ¬intent.Granted approval := by
  rw [ToolIntent.Granted, ← Bool.not_eq_true]
  cases approval <;> simp

theorem mintApprovedIntent_exists {decision : PolicyDecision} (hown : decision.intentId = intent.intentId)
    (hdeny : decision.decision ≠ .deny)
    (hgranted : decision.decision = .requireApproval → intent.Granted approval) :
    ∃ approved, mintApprovedIntent intent decision approval = .ok approved := by
  rw [mintApprovedIntent, dif_pos hown, dif_neg hdeny]
  split
  · next message hfault =>
    rw [grantFault_eq_none.mpr hgranted] at hfault
    cases hfault
  · exact ⟨_, rfl⟩

omit [NamedArguments A] in
theorem opinion_own {rule reason : String} {said : Decision} {decision : PolicyDecision}
    (h : some (intent.opinion rule said reason) = some decision) : decision.intentId = intent.intentId := by
  rw [← Option.some.inj h]
  rfl

theorem defaultRules_own {print : List String → String} :
    ∀ rule ∈ (defaultRules print : List (PolicyRule A)), ∀ decision, rule intent = some decision →
      decision.intentId = intent.intentId := by
  intro rule hrule decision h
  simp only [defaultRules, List.mem_cons, List.not_mem_nil, or_false] at hrule
  rcases hrule with rfl | rfl | rfl | rfl | rfl | rfl
  · unfold requireProvenanceRule at h
    split at h
    · cases h
    · exact opinion_own h
  · unfold toolAllowlistRule at h
    split at h <;> exact opinion_own h
  · unfold argumentAllowlistRule at h
    split at h
    · cases h
    · split at h
      · exact opinion_own h
      · cases h
  · unfold mutatingToolRule at h
    split at h
    · split at h
      · split at h <;> exact opinion_own h
      · exact opinion_own h
    · cases h
  · unfold documentOverwriteRule at h
    split at h
    · split at h <;> exact opinion_own h
    · split at h
      · exact opinion_own h
      · cases h
  · unfold untrustedOriginRule at h
    split at h
    · exact opinion_own h
    · cases h

theorem permission_acceptable (h : intent.isAcceptable = true) :
    ∃ permission, scopedToolPermissions.lookup intent.toolRef = some permission ∧
      permission.permissionClass ≠ .writeExternal ∧ permission.permissionClass ≠ .sensitive := by
  obtain ⟨names, hentry⟩ := entry_of_acceptable h
  have hinside : ∀ entry ∈ toolArguments, ((scopedToolPermissions.lookup entry.1).map
      ToolPermission.permissionClass).any (fun c => c != .writeExternal && c != .sensitive) = true := by
    decide +kernel
  have htool := hinside (intent.toolRef, names) hentry
  cases hpermission : scopedToolPermissions.lookup intent.toolRef with
  | none =>
      rw [hpermission] at htool
      cases htool
  | some permission =>
      rw [hpermission] at htool
      simp only [Option.map_some, Option.any_some, Bool.and_eq_true, bne_iff_ne] at htool
      exact ⟨permission, rfl, htool⟩

variable (approval) in
theorem authorize_cases {engine : PolicyEngine A} {decision : PolicyDecision}
    (hrecorded : engine.Recorded intent decision) (hown : decision.intentId = intent.intentId)
    (hdecision : decision.decision = shippedDecision intent) :
    (intent.isAcceptable = false ∧ (engine.authorize intent approval).2 = .error (.policyDenied decision)) ∨
    (intent.isAcceptable = true ∧ intent.needsGrant = true ∧ ¬intent.Granted approval ∧
      (engine.authorize intent approval).2 = .error (.approvalRequired decision)) ∨
    (intent.isAcceptable = true ∧ (intent.needsGrant = true → intent.Granted approval) ∧
      ∃ approved, (engine.authorize intent approval).2 = .ok approved ∧ approved.intent = intent) := by
  rw [authorize_recorded hrecorded]
  by_cases hacceptable : intent.isAcceptable = true
  · rw [shippedDecision, if_pos hacceptable] at hdecision
    have hdeny : decision.decision ≠ .deny := by
      rw [hdecision]
      split <;> decide
    rw [if_neg hdeny]
    by_cases hasked : decision.decision = .requireApproval ∧ approval.any (·.matches intent) = false
    · have hneeds : intent.needsGrant = true := by
        by_contra hneeds
        rw [if_neg hneeds] at hdecision
        rw [hdecision] at hasked
        cases hasked.1
      rw [if_pos hasked]
      exact Or.inr (Or.inl ⟨hacceptable, hneeds, any_matches.mp hasked.2, rfl⟩)
    · have hgranted : decision.decision = .requireApproval → intent.Granted approval := by
        intro hrequired
        by_contra hnot
        exact hasked ⟨hrequired, any_matches.mpr hnot⟩
      obtain ⟨approved, hminted⟩ := mintApprovedIntent_exists hown hdeny hgranted
      rw [if_neg hasked]
      refine Or.inr (Or.inr ⟨hacceptable, fun hneeds => hgranted ?_, approved, hminted,
        (mintApprovedIntent_ok hminted).1⟩)
      rw [hdecision, if_pos hneeds]
  · rw [shippedDecision, if_neg hacceptable] at hdecision
    rw [if_pos hdecision]
    exact Or.inl ⟨Bool.eq_false_of_not_eq_true hacceptable, rfl⟩

/-- **What the shipped policy clears**: whatever the audit sink and the decision log do, `authorize` clears
an intent exactly if its verdict is recorded, it is acceptable, and there is a grant for exactly this intent
where one is needed. -/
theorem shipped_policy_clears (print : List String → String)
    (decisionSink : Option (ToolIntent A → PolicyDecision → Except PolicyFailure Unit))
    (decisionLog : Option (DecisionRow → Except PolicyFailure (Option UUID))) (intent : ToolIntent A)
    (approval : Option ApprovalGrant) :
    ClearsAsShipped intent approval (defaultPolicyEngine print decisionSink decisionLog) := by
  have hown : ((defaultPolicyEngine print decisionSink decisionLog).verdict intent).intentId =
      intent.intentId :=
    verdict_intentId defaultRules_own
  have hlogged : ∀ row ∈ ((defaultPolicyEngine print decisionSink decisionLog).authorize intent approval).1,
      row.tool = intent.toolRef ∧ row.argsHash = intent.fingerprint ∧
        row.decision = (shippedDecision intent).value := by
    intro row hrow
    rw [authorize_rows hrow, ← verdict_eq_shipped]
    exact ⟨rfl, rfl, rfl⟩
  have hcases := fun decision (hrecorded : (defaultPolicyEngine print decisionSink decisionLog).Recorded intent
      decision) => authorize_cases approval hrecorded (by rw [hrecorded.eq_verdict]; exact hown)
        (by rw [hrecorded.eq_verdict]; exact verdict_eq_shipped)
  generalize defaultPolicyEngine print decisionSink decisionLog = engine at hcases hlogged ⊢
  have hcleared : ∀ approved, (engine.authorize intent approval).2 = .ok approved →
      (∃ decision, engine.Recorded intent decision) ∧ intent.isAcceptable = true ∧
        (intent.needsGrant = true → intent.Granted approval) := by
    intro approved hok
    cases hanswer : (engine.evaluateIntent intent).2 with
    | error failure =>
        rw [authorize_unrecorded hanswer] at hok
        cases hok
    | ok decision =>
        rcases hcases decision hanswer with ⟨-, h⟩ | ⟨-, -, -, h⟩ | ⟨hacceptable, hgranted, -⟩
        · cases h.symm.trans hok
        · cases h.symm.trans hok
        · exact ⟨⟨decision, hanswer⟩, hacceptable, hgranted⟩
  refine ⟨⟨?_, ?_⟩, ?_, ?_, fun failure => authorize_unrecorded, hlogged, ?_⟩
  · rintro ⟨approved, hok, -⟩
    exact hcleared approved hok
  · rintro ⟨⟨decision, hrecorded⟩, hacceptable, hgranted⟩
    rcases hcases decision hrecorded with ⟨hrefused, -⟩ | ⟨-, hneeds, hnot, -⟩ | ⟨-, -, h⟩
    · rw [hacceptable] at hrefused
      cases hrefused
    · exact absurd (hgranted hneeds) hnot
    · exact h
  · intro decision hrecorded
    rcases hcases decision hrecorded with ⟨hrefused, h⟩ | ⟨hacceptable, -, -, h⟩ |
      ⟨hacceptable, -, approved, h, -⟩
    · exact iff_of_true h hrefused
    · exact iff_of_false (fun hdenied => by cases h.symm.trans hdenied) (by simp [hacceptable])
    · exact iff_of_false (fun hdenied => by cases h.symm.trans hdenied) (by simp [hacceptable])
  · intro decision hrecorded
    rcases hcases decision hrecorded with ⟨hrefused, h⟩ | ⟨hacceptable, hneeds, hnot, h⟩ |
      ⟨-, hgranted, approved, h, -⟩
    · exact iff_of_false (fun hasked => by cases h.symm.trans hasked) (by simp [hrefused])
    · exact iff_of_true h ⟨hacceptable, hneeds, hnot⟩
    · exact iff_of_false (fun hasked => by cases h.symm.trans hasked)
        fun hasked => hasked.2.2 (hgranted hasked.2.1)
  · intro approved hok
    exact permission_acceptable (hcleared approved hok).2.1

end cleared

end Policy

end PersonalOS
