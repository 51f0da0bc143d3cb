import PersonalOS.PolicyEngine

/-! # Adding a rule only tightens

The verdict of `evaluate_intent` as a function of the rules alone.

* **Opinions.** `opinions` are the decisions the rules of a chain speak for an intent.  The chain's
  verdict is a strictest one of them, or the default when there is none
  (`strictest_evaluateRules`), so neither the order of the rules nor a rule that is silent matters.
* **Verdicts.** `rule_only_tightens`: with a rule more the verdict is at least as strict, unless no
  rule spoke before; and every order of the rules gives the same verdict. -/

namespace PersonalOS

namespace Policy

namespace PolicyEngine

variable {A : Type}

/-! ### Opinions -/

/-- What the rules say of an intent. -/
def opinions (rules : List (PolicyRule A)) (intent : ToolIntent A) : List Decision :=
  rules.filterMap fun rule => (rule intent).map PolicyDecision.decision

theorem mem_opinions {rules : List (PolicyRule A)} {intent : ToolIntent A} {opinion : Decision} :
    opinion ∈ opinions rules intent ↔
      ∃ rule ∈ rules, ∃ decision, rule intent = some decision ∧ decision.decision = opinion := by
  simp only [opinions, List.mem_filterMap, Option.map_eq_some_iff]

/-- What the rule loop comes to: a decision it has met, and none it has met is stricter. -/
structure Strictest (met : List Decision) (verdict : Option PolicyDecision) : Prop where
  met_of_some : ∀ decision, verdict = some decision → decision.decision ∈ met
  le_of_met : ∀ opinion ∈ met, ∃ decision, verdict = some decision ∧
    strictness opinion ≤ strictness decision.decision

theorem Strictest.of_mem_iff {met met' : List Decision} {verdict : Option PolicyDecision}
    (h : Strictest met verdict) (hmem : ∀ opinion, opinion ∈ met ↔ opinion ∈ met') :
    Strictest met' verdict where
  met_of_some decision hverdict := (hmem _).mp (h.met_of_some decision hverdict)
  le_of_met opinion hopinion := h.le_of_met opinion ((hmem opinion).mpr hopinion)

/-- The decisions the loop keeps while it goes on. -/
def kept (escalation approval : Option PolicyDecision) : List Decision :=
  (escalation.map fun _ => Decision.requireApproval).toList ++
    (approval.map fun _ => Decision.allow).toList

theorem strictest_scanRules (intent : ToolIntent A) (rules : List (PolicyRule A))
    {escalation approval : Option PolicyDecision}
    (hescalation : ∀ decision, escalation = some decision → decision.decision = .requireApproval)
    (happroval : ∀ decision, approval = some decision → decision.decision = .allow) :
    Strictest (kept escalation approval ++ opinions rules intent)
      (scanRules intent rules escalation approval) := by
  induction rules generalizing escalation approval with
  | nil =>
      -- An escalation goes before an approval.
      rw [scanRules]
      cases escalation with
      | some decision =>
          have hdecision := hescalation decision rfl
          refine ⟨fun other hother => ?_, fun opinion hopinion => ⟨decision, rfl, ?_⟩⟩
          · obtain rfl : decision = other := Option.some.inj hother
            simp [kept, hdecision]
          · have hcases : opinion = .requireApproval ∨ opinion = .allow := by
              cases approval <;> simp [kept, opinions] at hopinion <;> tauto
            rw [hdecision]
            rcases hcases with rfl | rfl <;> decide
      | none =>
          cases approval with
          | some decision =>
              have hdecision := happroval decision rfl
              refine ⟨fun other hother => ?_, fun opinion hopinion => ⟨decision, rfl, ?_⟩⟩
              · obtain rfl : decision = other := Option.some.inj hother
                simp [kept, hdecision]
              · obtain rfl : opinion = .allow := by simpa [kept, opinions] using hopinion
                exact Nat.zero_le _
          | none =>
              refine ⟨fun other hother => ?_, fun opinion hopinion => ?_⟩
              · cases hother
              · simp [kept, opinions] at hopinion
  | cons rule rules ih =>
      rw [scanRules]
      cases hrule : rule intent with
      | none =>
          have hopinions : opinions (rule :: rules) intent = opinions rules intent := by
            simp [opinions, hrule]
          rw [hopinions]
          exact ih hescalation happroval
      | some decision =>
          have hopinions : opinions (rule :: rules) intent =
              decision.decision :: opinions rules intent := by
            simp [opinions, hrule]
          rw [hopinions]
          dsimp only
          cases hdecision : decision.decision with
          | deny =>
              refine ⟨fun other hother => ?_, fun opinion _ => ⟨decision, rfl, ?_⟩⟩
              · obtain rfl := Option.some.inj hother
                rw [hdecision]
                simp
              · rw [hdecision]
                cases opinion <;> decide
          | requireApproval =>
              have hnext : ∀ other, escalation.or (some decision) = some other →
                  other.decision = .requireApproval := by
                intro other hother
                cases escalation with
                | none => exact Option.some.inj hother ▸ hdecision
                | some first => exact hescalation other hother
              refine (ih hnext happroval).of_mem_iff fun opinion => ?_
              cases escalation <;> cases approval <;> simp [kept] <;> tauto
          | allow =>
              have hnext : ∀ other, approval.or (some decision) = some other →
                  other.decision = .allow := by
                intro other hother
                cases approval with
                | none => exact Option.some.inj hother ▸ hdecision
                | some first => exact happroval other hother
              refine (ih hescalation hnext).of_mem_iff fun opinion => ?_
              cases escalation <;> cases approval <;> simp [kept]

/-- **The chain's verdict** is a strictest opinion, or the default. -/
theorem strictest_evaluateRules (engine : PolicyEngine A) (intent : ToolIntent A) :
    (∀ opinion ∈ opinions engine.rules intent,
      strictness opinion ≤ strictness (engine.evaluateRules intent).decision) ∧
    (opinions engine.rules intent ≠ [] →
      (engine.evaluateRules intent).decision ∈ opinions engine.rules intent) ∧
    (opinions engine.rules intent = [] →
      (engine.evaluateRules intent).decision = engine.defaultDecision) := by
  have hnone : ∀ {kind : Decision} (decision : PolicyDecision), none = some decision →
      decision.decision = kind := by
    intro kind decision h
    cases h
  have hscan : Strictest (opinions engine.rules intent)
      (scanRules intent engine.rules none none) :=
    strictest_scanRules intent engine.rules hnone hnone
  cases hverdict : scanRules intent engine.rules none none with
  | none =>
      rw [hverdict] at hscan
      have hempty : opinions engine.rules intent = [] := by
        refine List.eq_nil_iff_forall_not_mem.mpr fun opinion hopinion => ?_
        obtain ⟨decision, hsome, -⟩ := hscan.le_of_met opinion hopinion
        cases hsome
      rw [evaluateRules, hverdict, hempty]
      refine ⟨fun opinion hopinion => ?_, fun h => absurd rfl h, fun _ => rfl⟩
      cases hopinion
  | some decision =>
      rw [hverdict] at hscan
      have hmem := hscan.met_of_some decision rfl
      rw [evaluateRules, hverdict, Option.getD_some]
      refine ⟨fun opinion hopinion => ?_, fun _ => hmem, fun hempty => ?_⟩
      · obtain ⟨other, hother, hle⟩ := hscan.le_of_met opinion hopinion
        rwa [Option.some.inj hother]
      · rw [hempty] at hmem
        cases hmem

/-! ### Verdicts -/

section verdicts

variable (engine : PolicyEngine A) (intent : ToolIntent A)

/-- The engine with other rules. -/
def withRules (rules : List (PolicyRule A)) : PolicyEngine A := { engine with rules }

theorem classVerdict_withRules (rules : List (PolicyRule A)) :
    (engine.withRules rules).classVerdict intent = engine.classVerdict intent := rfl

theorem strictness_withRules (rules : List (PolicyRule A)) :
    strictness ((engine.withRules rules).verdict intent).decision =
      max (strictness ((engine.withRules rules).evaluateRules intent).decision)
        (strictness (engine.classVerdict intent).1) := by
  rw [strictness_verdict, classVerdict_withRules]

/-- Rules that speak the same opinions lead to the same verdict. -/
theorem verdict_eq_of_mem_iff {rules rules' : List (PolicyRule A)}
    (h : ∀ opinion, opinion ∈ opinions rules intent ↔ opinion ∈ opinions rules' intent) :
    ((engine.withRules rules).verdict intent).decision =
      ((engine.withRules rules').verdict intent).decision := by
  obtain ⟨hle, hmem, hdefault⟩ := strictest_evaluateRules (engine.withRules rules) intent
  obtain ⟨hle', hmem', hdefault'⟩ := strictest_evaluateRules (engine.withRules rules') intent
  have hchain : ((engine.withRules rules).evaluateRules intent).decision =
      ((engine.withRules rules').evaluateRules intent).decision := by
    by_cases hempty : opinions rules intent = []
    · have hempty' : opinions rules' intent = [] := by
        refine List.eq_nil_iff_forall_not_mem.mpr fun opinion hopinion => ?_
        have := (h opinion).mpr hopinion
        rw [hempty] at this
        cases this
      rw [hdefault hempty, hdefault' hempty']
      rfl
    · have hempty' : opinions rules' intent ≠ [] := by
        intro hnil
        have := (h _).mp (hmem hempty)
        rw [hnil] at this
        cases this
      apply strictness_injective
      apply Nat.le_antisymm
      · exact hle' _ ((h _).mp (hmem hempty))
      · exact hle _ ((h _).mpr (hmem' hempty'))
  apply strictness_injective
  rw [strictness_withRules, strictness_withRules, hchain]

variable [ToolArguments A]

/-- The verdict that `evaluate_intent` returns, if the decision log and the sink let it. -/
def evaluated : Option Decision := (engine.evaluateIntent intent).2.toOption.map PolicyDecision.decision

variable {engine intent} in
theorem evaluated_eq {decision : Decision} (h : decision ∈ engine.evaluated intent) :
    decision = (engine.verdict intent).decision := by
  obtain ⟨recorded, hrecorded, rfl⟩ := Option.map_eq_some_iff.mp h
  cases hanswer : (engine.record intent (engine.verdict intent)).2 with
  | error failure =>
      rw [evaluateIntent, hanswer] at hrecorded
      cases hrecorded
  | ok answer =>
      rw [evaluateIntent, hanswer] at hrecorded
      obtain rfl := Option.some.inj hrecorded
      have hrecord : engine.record intent (engine.verdict intent) =
          ((engine.record intent (engine.verdict intent)).1, .ok answer) := by
        rw [← hanswer]
      rw [(record_ok hrecord).1]

/-- **A rule more only tightens**: whatever the rules, the defaults and the configuration, the verdict
with an additional rule at any position is at least as strict as without it when a rule has spoken
before, and otherwise at least as strict as what the additional rule says and as the class verdict;
and the order of the rules makes no difference. -/
theorem rule_only_tightens (before after : List (PolicyRule A)) (rule : PolicyRule A) :
    ((∃ other ∈ before ++ after, (other intent).isSome = true) →
      ∀ verdict ∈ (engine.withRules (before ++ after)).evaluated intent,
        ∀ verdict' ∈ (engine.withRules (before ++ rule :: after)).evaluated intent,
          strictness verdict ≤ strictness verdict') ∧
    ((∀ other ∈ before ++ after, other intent = none) →
      ∀ verdict' ∈ (engine.withRules (before ++ rule :: after)).evaluated intent,
        (∀ decision, rule intent = some decision →
          strictness decision.decision ≤ strictness verdict') ∧
        strictness (engine.classVerdict intent).1 ≤ strictness verdict') ∧
    ∀ rules : List (PolicyRule A), rules.Perm (before ++ after) →
      ∀ verdict ∈ (engine.withRules (before ++ after)).evaluated intent,
        ∀ verdict' ∈ (engine.withRules rules).evaluated intent, verdict' = verdict := by
  have hinsert : ∀ opinion ∈ opinions (before ++ after) intent,
      opinion ∈ opinions (before ++ rule :: after) intent := by
    intro opinion hopinion
    obtain ⟨other, hother, hspoke⟩ := mem_opinions.mp hopinion
    refine mem_opinions.mpr ⟨other, ?_, hspoke⟩
    rcases List.mem_append.mp hother with hmem | hmem
    · exact List.mem_append_left _ hmem
    · exact List.mem_append_right _ (List.mem_cons_of_mem rule hmem)
  obtain ⟨hle, -, -⟩ :=
    strictest_evaluateRules (engine.withRules (before ++ rule :: after)) intent
  refine ⟨?_, ?_, ?_⟩
  · rintro ⟨other, hother, hspoke⟩ verdict hverdict verdict' hverdict'
    obtain ⟨decision, hdecision⟩ := Option.isSome_iff_exists.mp hspoke
    have hne : opinions (before ++ after) intent ≠ [] :=
      List.ne_nil_of_mem (mem_opinions.mpr ⟨other, hother, decision, hdecision, rfl⟩)
    have hmem := (strictest_evaluateRules (engine.withRules (before ++ after)) intent).2.1 hne
    have hchain := hle _ (hinsert _ hmem)
    rw [evaluated_eq hverdict, evaluated_eq hverdict', strictness_withRules, strictness_withRules]
    exact max_le_max_right _ hchain
  · intro _ verdict' hverdict'
    rw [evaluated_eq hverdict', strictness_withRules]
    refine ⟨fun decision hdecision => le_max_of_le_left ?_, le_max_right _ _⟩
    refine hle _ (mem_opinions.mpr ⟨rule, ?_, decision, hdecision, rfl⟩)
    exact List.mem_append_right _ List.mem_cons_self
  · intro rules hperm verdict hverdict verdict' hverdict'
    rw [evaluated_eq hverdict, evaluated_eq hverdict']
    refine verdict_eq_of_mem_iff engine intent fun opinion => ?_
    simp only [mem_opinions, hperm.mem_iff]

end verdicts

end PolicyEngine

end Policy

end PersonalOS
