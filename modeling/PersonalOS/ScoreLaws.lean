import PersonalOS.GroundedClaims
import Mathlib.Data.Rat.Floor
import Mathlib.Algebra.Order.Field.Rat
import Mathlib.Tactic.Linarith
import Mathlib.Tactic.Positivity
import Mathlib.Tactic.NormNum

/-! # Laws of the match score

What a verdict comes to when claims are added that nothing supports, or citations are lost.

* **Rounding.** `round4` is monotone and keeps a number from 0 to 1 there.
* **Verdicts.** A grounded assessment always gets a verdict (`matchPosting_grounded`); the verdict is
  no better if coverage and semantic value are no higher and the same gaps block (`verdict_le`).
* **Quotients.** The semantic value is what is earned over what is owed, both sums over the claims and
  gaps (`semanticValue_ground`). -/

namespace PersonalOS

/-! ### Rounding -/

namespace Instant

theorem floor_le_roundHalfEven (q : ℚ) : ⌊q⌋ ≤ roundHalfEven q := by
  unfold roundHalfEven
  dsimp only
  split_ifs <;> omega

theorem roundHalfEven_le (q : ℚ) : roundHalfEven q ≤ ⌊q⌋ + 1 := by
  unfold roundHalfEven
  dsimp only
  split_ifs <;> omega

theorem roundHalfEven_mono {a b : ℚ} (h : a ≤ b) : roundHalfEven a ≤ roundHalfEven b := by
  rcases (Int.floor_mono h).lt_or_eq with hlt | heq
  · calc roundHalfEven a ≤ ⌊a⌋ + 1 := roundHalfEven_le a
      _ ≤ ⌊b⌋ := hlt
      _ ≤ roundHalfEven b := floor_le_roundHalfEven b
  · -- The same floor, and the part above it is no smaller.
    unfold roundHalfEven
    dsimp only
    rw [heq]
    split_ifs <;> first | omega | linarith

theorem roundHalfEven_intCast (n : ℤ) : roundHalfEven n = n := by
  unfold roundHalfEven
  dsimp only
  rw [Int.floor_intCast, sub_self, if_pos (by norm_num)]

end Instant

namespace Matching

theorem round4_mono {a b : ℚ} (h : a ≤ b) : round4 a ≤ round4 b := by
  unfold round4
  have hround := Instant.roundHalfEven_mono (mul_le_mul_of_nonneg_right h (by norm_num : (0 : ℚ) ≤ 10000))
  have hcast : ((Instant.roundHalfEven (a * 10000) : ℤ) : ℚ) ≤ Instant.roundHalfEven (b * 10000) := by
    exact_mod_cast hround
  linarith

theorem round4_zero : round4 0 = 0 := by
  have h := Instant.roundHalfEven_intCast 0
  unfold round4
  rw [zero_mul]
  simpa using h

theorem round4_nonneg {a : ℚ} (h : 0 ≤ a) : 0 ≤ round4 a := round4_zero ▸ round4_mono h

/-- What is above one by less than half a place is rounded to one. -/
theorem round4_le_one {a : ℚ} (h : a ≤ 1 + 1 / 10 ^ 9) : round4 a ≤ 1 := by
  have hone : round4 (1 + 1 / 10 ^ 9) = 1 := by decide +kernel
  exact hone ▸ round4_mono h

/-! ### Semantic values -/

theorem strengthValue_nonneg (strength : MatchStrength) : 0 ≤ strengthValue strength := by
  cases strength <;> norm_num [strengthValue]

theorem strengthValue_le_one (strength : MatchStrength) : strengthValue strength ≤ 1 := by
  cases strength <;> norm_num [strengthValue]

/-- Matches count for at most one each. -/
theorem sum_strengthValue_le {α : Type} (strength : α → MatchStrength) (items : List α) :
    (items.map fun item => strengthValue (strength item)).sum ≤ items.length := by
  induction items with
  | nil => simp
  | cons item items ih =>
      rw [List.map_cons, List.sum_cons, List.length_cons]
      push_cast
      linarith [strengthValue_le_one (strength item)]

theorem severityWeight_pos (severity : GapSeverity) : 0 < severityWeight severity := by
  cases severity <;> norm_num [severityWeight]

section semantic

variable (grounded : GroundedAssessment)

/-- The strengths of the matched requirements, summed up. -/
def earned : ℚ := (grounded.matchedRequirements.map fun item => strengthValue item.strength).sum

/-- What the gaps weigh, summed up. -/
def gapWeight : ℚ := (grounded.missingRequirements.map fun item => severityWeight item.severity).sum

theorem semanticValue_eq : semanticValue grounded =
    if grounded.matchedRequirements.length + gapWeight grounded ≠ 0 then
      earned grounded / (grounded.matchedRequirements.length + gapWeight grounded)
    else 0 := rfl

theorem earned_nonneg : 0 ≤ earned grounded := by
  apply List.sum_nonneg
  intro x hx
  obtain ⟨item, -, rfl⟩ := List.mem_map.mp hx
  exact strengthValue_nonneg _

theorem gapWeight_nonneg : 0 ≤ gapWeight grounded := by
  apply List.sum_nonneg
  intro x hx
  obtain ⟨item, -, rfl⟩ := List.mem_map.mp hx
  exact (severityWeight_pos _).le

theorem semanticValue_range : 0 ≤ semanticValue grounded ∧ semanticValue grounded ≤ 1 := by
  have hearned := earned_nonneg grounded
  have hlength : earned grounded ≤ grounded.matchedRequirements.length := sum_strengthValue_le _ _
  have hgap := gapWeight_nonneg grounded
  rw [semanticValue_eq]
  split
  · rename_i howed
    have hpos : 0 < grounded.matchedRequirements.length + gapWeight grounded :=
      lt_of_le_of_ne (by positivity) howed.symm
    exact ⟨by positivity, (div_le_one hpos).mpr (by linarith)⟩
  · norm_num

end semantic

/-! ### Verdicts -/

/-- A number from 0 to 1. -/
def InUnit (q : ℚ) : Prop := 0 ≤ q ∧ q ≤ 1

theorem InUnit.round4 {q : ℚ} (h : InUnit q) : InUnit (round4 q) :=
  ⟨round4_nonneg h.1, round4_le_one (by linarith [h.2])⟩

/-- A component with its weight is no more than the weight. -/
theorem InUnit.weighted {q w : ℚ} (h : InUnit q) (hw : 0 ≤ w) : 0 ≤ w * q ∧ w * q ≤ w :=
  ⟨mul_nonneg hw h.1, mul_le_of_le_one_right hw h.2⟩

section verdicts

variable {P : Type} {tools : TextTools} {matcher : HybridJobMatcher P} {posting : NormalizedPosting P}
variable {profile : SearchProfile} {config : ScoringConfig}

theorem locationFeature_inUnit (tools : TextTools) (posting : NormalizedPosting P)
    (profile : SearchProfile) (config : ScoringConfig) :
    InUnit (locationFeature tools posting profile config).1 := by
  unfold locationFeature InUnit
  have hunknown := config.unknownFeatureValue.property
  dsimp only
  split_ifs <;> first | exact hunknown | norm_num

theorem levelFeature_inUnit (tools : TextTools) (posting : NormalizedPosting P)
    (profile : SearchProfile) (config : ScoringConfig) :
    InUnit (levelFeature tools posting profile config).1 := by
  unfold levelFeature InUnit
  have hunknown := config.unknownFeatureValue.property
  split
  · norm_num
  · split
    · exact hunknown
    · dsimp only
      split_ifs <;> norm_num

theorem employmentTypeFeature_inUnit (tools : TextTools) (posting : NormalizedPosting P)
    (profile : SearchProfile) (config : ScoringConfig) :
    InUnit (employmentTypeFeature tools posting profile config).1 := by
  unfold employmentTypeFeature InUnit
  have hunknown := config.unknownFeatureValue.property
  split
  · norm_num
  · split
    · exact hunknown
    · split_ifs <;> norm_num

theorem coverageShare_inUnit {covered : List (String × EvidenceRecord)} {uncovered : List String} :
    InUnit (matcher.coverageShare covered uncovered) := by
  unfold HybridJobMatcher.coverageShare InUnit
  dsimp only
  split
  · rename_i hstated
    have hpos : (0 : ℚ) < (covered.length + uncovered.length : ℕ) := by
      exact_mod_cast Nat.pos_of_ne_zero hstated
    constructor
    · positivity
    · rw [div_le_one hpos]
      push_cast
      have huncovered : (0 : ℚ) ≤ uncovered.length := Nat.cast_nonneg _
      linarith
  · exact matcher.config.unknownFeatureValue.property

/-- The weighted score, written out. -/
theorem weightedSum_components (coverage : ℚ) (grounded : GroundedAssessment) :
    HybridJobMatcher.weightedSum matcher.config.weights.dump
      (matcher.components tools posting profile coverage grounded) =
    round4 (matcher.config.weights.location * round4 (locationFeature tools posting profile matcher.config).1 +
      (matcher.config.weights.level * round4 (levelFeature tools posting profile matcher.config).1 +
      (matcher.config.weights.employmentType *
        round4 (employmentTypeFeature tools posting profile matcher.config).1 +
      (matcher.config.weights.requirementCoverage * round4 coverage +
        matcher.config.weights.semantic * round4 (semanticValue grounded))))) := by
  simp [HybridJobMatcher.weightedSum, HybridJobMatcher.components, ScoringWeights.dump, valueOf,
    List.lookup_cons]

theorem weightedSum_mono {coverage coverage' : ℚ} {grounded grounded' : GroundedAssessment}
    (hcoverage : coverage' ≤ coverage) (hsemantic : semanticValue grounded' ≤ semanticValue grounded) :
    HybridJobMatcher.weightedSum matcher.config.weights.dump
      (matcher.components tools posting profile coverage' grounded') ≤
    HybridJobMatcher.weightedSum matcher.config.weights.dump
      (matcher.components tools posting profile coverage grounded) := by
  rw [weightedSum_components, weightedSum_components]
  apply round4_mono
  have h₁ := mul_le_mul_of_nonneg_left (round4_mono hcoverage)
    matcher.config.weights.requirementCoverage_nonneg
  have h₂ := mul_le_mul_of_nonneg_left (round4_mono hsemantic) matcher.config.weights.semantic_nonneg
  linarith

theorem weightedSum_inUnit {coverage : ℚ} {grounded : GroundedAssessment} (hcoverage : InUnit coverage) :
    InUnit (HybridJobMatcher.weightedSum matcher.config.weights.dump
      (matcher.components tools posting profile coverage grounded)) := by
  rw [weightedSum_components]
  obtain ⟨hl, hl'⟩ := (locationFeature_inUnit tools posting profile matcher.config).round4.weighted
    matcher.config.weights.location_nonneg
  obtain ⟨hv, hv'⟩ := (levelFeature_inUnit tools posting profile matcher.config).round4.weighted
    matcher.config.weights.level_nonneg
  obtain ⟨he, he'⟩ := (employmentTypeFeature_inUnit tools posting profile matcher.config).round4.weighted
    matcher.config.weights.employmentType_nonneg
  obtain ⟨hc, hc'⟩ := hcoverage.round4.weighted matcher.config.weights.requirementCoverage_nonneg
  obtain ⟨hs, hs'⟩ := InUnit.weighted (InUnit.round4 (semanticValue_range grounded))
    matcher.config.weights.semantic_nonneg
  have hsum := (abs_le.mp matcher.config.weights.sumsToOne).2
  exact ⟨round4_nonneg (by linarith), round4_le_one (by linarith)⟩

/-! ### Scores under constraints -/

theorem foldl_min_le (caps : List ℚ) (weighted : ℚ) :
    caps.foldl min weighted ≤ weighted ∧ ∀ cap ∈ caps, caps.foldl min weighted ≤ cap := by
  induction caps generalizing weighted with
  | nil => simp
  | cons cap caps ih =>
      obtain ⟨hle, hcaps⟩ := ih (min weighted cap)
      refine ⟨hle.trans (min_le_left _ _), ?_⟩
      intro cap' hcap'
      rcases List.mem_cons.mp hcap' with rfl | hcap'
      · exact hle.trans (min_le_right _ _)
      · exact hcaps cap' hcap'

theorem foldl_min_mono (caps : List ℚ) {a b : ℚ} (h : a ≤ b) : caps.foldl min a ≤ caps.foldl min b := by
  induction caps generalizing a b with
  | nil => exact h
  | cons cap caps ih => exact ih (min_le_min_right cap h)

theorem foldl_min_nonneg {caps : List ℚ} (hcaps : ∀ cap ∈ caps, 0 ≤ cap) {weighted : ℚ}
    (h : 0 ≤ weighted) : 0 ≤ caps.foldl min weighted := by
  induction caps generalizing weighted with
  | nil => exact h
  | cons cap caps ih =>
      exact ih (fun c hc => hcaps c (List.mem_cons_of_mem _ hc))
        (le_min h (hcaps cap List.mem_cons_self))

section scores

variable {constraints : List ConstraintResult} {weighted : ℚ}

theorem scoreUnder_mono {weighted' : ℚ} (h : weighted' ≤ weighted) :
    HybridJobMatcher.scoreUnder constraints weighted' ≤ HybridJobMatcher.scoreUnder constraints weighted := by
  unfold HybridJobMatcher.scoreUnder
  split
  · exact le_refl _
  · exact foldl_min_mono _ h

theorem scoreUnder_nonneg (h : 0 ≤ weighted) : 0 ≤ HybridJobMatcher.scoreUnder constraints weighted := by
  unfold HybridJobMatcher.scoreUnder
  split
  · exact le_refl _
  · apply foldl_min_nonneg _ h
    intro cap hcap
    obtain ⟨item, -, hitem⟩ := List.mem_filterMap.mp hcap
    obtain ⟨cap, -, rfl⟩ := Option.map_eq_some_iff.mp hitem
    exact cap.property.1

theorem scoreUnder_le_weighted (h : 0 ≤ weighted) :
    HybridJobMatcher.scoreUnder constraints weighted ≤ weighted := by
  unfold HybridJobMatcher.scoreUnder
  split
  · exact h
  · exact (foldl_min_le _ _).1

theorem scoreUnder_le_cap {item : ConstraintResult} (hitem : item ∈ constraints) {cap : Share}
    (hcap : cap ∈ item.cap) : HybridJobMatcher.scoreUnder constraints weighted ≤ cap.val := by
  unfold HybridJobMatcher.scoreUnder
  split
  · exact cap.property.1
  · apply (foldl_min_le _ _).2
    exact List.mem_filterMap.mpr ⟨item, hitem, by rw [Option.mem_def.mp hcap]; rfl⟩

end scores

/-- Where a recommendation stands: SKIP, MAYBE, APPLY. -/
def Recommendation.level : Recommendation → ℕ
  | .skip => 0
  | .maybe => 1
  | .apply => 2

theorem recommend_mono {constraints : List ConstraintResult} {score score' : ℚ} (h : score' ≤ score) :
    (matcher.recommend constraints score').level ≤ (matcher.recommend constraints score).level := by
  have hordered := matcher.config.thresholds_ordered
  unfold HybridJobMatcher.recommend
  split_ifs <;> first | (exfalso; linarith) | simp [Recommendation.level]

/-! ### The verdict on a grounded assessment -/

/-- The score of a posting, given coverage and grounded assessment. -/
def HybridJobMatcher.scoreOf (tools : TextTools) (matcher : HybridJobMatcher P)
    (posting : NormalizedPosting P) (profile : SearchProfile) (coverage : ℚ)
    (grounded : GroundedAssessment) : ℚ :=
  HybridJobMatcher.scoreUnder (matcher.constraints tools posting profile grounded)
    (HybridJobMatcher.weightedSum matcher.config.weights.dump
      (matcher.components tools posting profile coverage grounded))

theorem share_ok {field : String} {q : ℚ} (h : InUnit q) : share field q = .ok ⟨q, h⟩ := dif_pos h

/-- No validator refuses a score under its own constraints. -/
theorem JobMatch.create_ok {dedupeKey : String} {grounded : GroundedAssessment}
    {constraints : List ConstraintResult} {weighted : ℚ} {components weights : List (String × ℚ)}
    {reasons : List String} (h : InUnit weighted) :
    ∃ verdict, JobMatch.create dedupeKey (HybridJobMatcher.scoreUnder constraints weighted)
        (matcher.recommend constraints (HybridJobMatcher.scoreUnder constraints weighted)) grounded weighted
        components weights constraints reasons = .ok verdict ∧
      verdict.score.val = HybridJobMatcher.scoreUnder constraints weighted ∧
      verdict.recommendation =
        matcher.recommend constraints (HybridJobMatcher.scoreUnder constraints weighted) ∧
      verdict.components = components ∧ verdict.weightedScore.val = weighted := by
  have hscore : InUnit (HybridJobMatcher.scoreUnder constraints weighted) :=
    ⟨scoreUnder_nonneg h.1, (scoreUnder_le_weighted h.1).trans h.2⟩
  have hrejected : (∃ item ∈ constraints, item.effect = .reject) →
      HybridJobMatcher.scoreUnder constraints weighted = 0 ∧
        matcher.recommend constraints (HybridJobMatcher.scoreUnder constraints weighted) = .skip := by
    rintro ⟨item, hitem, heffect⟩
    have hany : (constraints.any fun item => item.effect = .reject) = true :=
      List.any_eq_true.mpr ⟨item, hitem, decide_eq_true heffect⟩
    exact ⟨if_pos hany, if_pos hany⟩
  unfold JobMatch.create
  rw [share_ok hscore, share_ok h]
  refine ⟨_, (dif_pos hrejected).trans ((dif_pos ?_).trans (dif_pos ?_)), rfl, rfl, rfl, rfl⟩
  · exact fun item hitem cap hcap => scoreUnder_le_cap hitem hcap
  · exact scoreUnder_le_weighted h.1

/-- What the verdict of a matcher is, once the assessment is grounded. -/
theorem HybridJobMatcher.matchPosting_grounded {evidence : List EvidenceRecord}
    {grounded : GroundedAssessment} (hevidence : matcher.loadEvidence profile.userId = evidence)
    (hgrounded : matcher.grounded posting profile evidence (requirementCoverage tools posting evidence).1
      (requirementCoverage tools posting evidence).2 = .ok grounded) :
    ∃ verdict, matcher.matchPosting tools posting profile = .ok verdict ∧
      verdict.score.val = matcher.scoreOf tools posting profile
        (matcher.coverageShare (requirementCoverage tools posting evidence).1
          (requirementCoverage tools posting evidence).2) grounded ∧
      verdict.recommendation = matcher.recommend (matcher.constraints tools posting profile grounded)
        verdict.score.val ∧
      valueOf verdict.components "semantic" = round4 (semanticValue grounded) := by
  subst hevidence
  have hweighted : InUnit (HybridJobMatcher.weightedSum matcher.config.weights.dump
      (matcher.components tools posting profile
        (matcher.coverageShare (requirementCoverage tools posting (matcher.loadEvidence profile.userId)).1
          (requirementCoverage tools posting (matcher.loadEvidence profile.userId)).2) grounded)) :=
    weightedSum_inUnit coverageShare_inUnit
  obtain ⟨verdict, hok, hscore, hrecommendation, hcomponents, -⟩ := JobMatch.create_ok hweighted
  refine ⟨verdict, ?_, hscore, ?_, ?_⟩
  · unfold HybridJobMatcher.matchPosting
    dsimp only
    rw [hgrounded]
    exact hok
  · rw [hrecommendation, hscore]
  · rw [hcomponents]
    rfl

/-- With no higher coverage and semantic value, and the same constraints, the verdict is no better. -/
theorem HybridJobMatcher.scoreOf_mono {coverage coverage' : ℚ} {grounded grounded' : GroundedAssessment}
    (hcoverage : coverage' ≤ coverage) (hsemantic : semanticValue grounded' ≤ semanticValue grounded)
    (hconstraints : matcher.constraints tools posting profile grounded' =
      matcher.constraints tools posting profile grounded) :
    matcher.scoreOf tools posting profile coverage' grounded' ≤
      matcher.scoreOf tools posting profile coverage grounded := by
  unfold HybridJobMatcher.scoreOf
  rw [hconstraints]
  exact scoreUnder_mono (weightedSum_mono hcoverage hsemantic)

end verdicts

end Matching

end PersonalOS
