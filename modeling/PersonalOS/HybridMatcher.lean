import PersonalOS.JobMatching

/-! # The hybrid job matcher

`HybridJobMatcher`: features of a posting, the grounded assessment, and the score computed from them.

* **Features.** Location, level and employment type are read off the posting and the profile, each
  with the outcome of a constraint; a requirement is covered if a record mentions it.
* **Score.** The weighted sum of the components, unless a failed constraint rejects the posting or
  caps its score. -/

namespace PersonalOS.Matching

/-! ### Arithmetic -/

/-- `round(number, 4)`. -/
def round4 (number : ℚ) : ℚ := Instant.roundHalfEven (number * 10000) / 10000

/-- A number that is not negative, with this many decimal places. -/
def fixed (places : ℕ) (number : ℚ) : String :=
  let scaled := (Instant.roundHalfEven (number * 10 ^ places)).natAbs
  let digits := (Nat.toDigits 10 (scaled % 10 ^ places)).leftpad places '0'
  toString (scaled / 10 ^ places) ++ "." ++ String.ofList digits

example : fixed 2 (7 / 8) = "0.88" ∧ fixed 4 (1 / 16) = "0.0625" := by decide +kernel

/-- The value under a key of a dictionary of numbers. -/
def valueOf (dictionary : List (String × ℚ)) (key : String) : ℚ := (dictionary.lookup key).getD 0

/-! ### Configuration -/

/-- How much one matched requirement counts toward the semantic component. -/
def strengthValue : MatchStrength → ℚ
  | .strong => 1
  | .partly => 6 / 10
  | .weak => 3 / 10

/-- How much one missing requirement counts against it. -/
def severityWeight : GapSeverity → ℚ
  | .blocking => 1
  | .major => 6 / 10
  | .minor => 25 / 100

/-- How much each component contributes to the weighted score. -/
structure ScoringWeights where
  location : ℚ
  level : ℚ
  employmentType : ℚ
  requirementCoverage : ℚ
  semantic : ℚ
  location_nonneg : 0 ≤ location
  level_nonneg : 0 ≤ level
  employmentType_nonneg : 0 ≤ employmentType
  requirementCoverage_nonneg : 0 ≤ requirementCoverage
  semantic_nonneg : 0 ≤ semantic
  sumsToOne : |location + level + employmentType + requirementCoverage + semantic - 1| ≤ 1 / 10 ^ 9

/-- `model_dump`. -/
def ScoringWeights.dump (weights : ScoringWeights) : List (String × ℚ) :=
  [("location", weights.location), ("level", weights.level),
    ("employment_type", weights.employmentType),
    ("requirement_coverage", weights.requirementCoverage), ("semantic", weights.semantic)]

/-- Every tunable of the scorer. -/
structure ScoringConfig where
  weights : ScoringWeights
  applyThreshold : Share
  maybeThreshold : Share
  /-- Value of a feature the posting gives no information about. -/
  unknownFeatureValue : Share
  onLocationMismatch : ConstraintEffect
  onEmploymentTypeMismatch : ConstraintEffect
  onLevelMismatch : ConstraintEffect
  onBlockingRequirement : ConstraintEffect
  /-- Ceiling applied by a cap. -/
  cappedScore : Share
  thresholds_ordered : maybeThreshold.val ≤ applyThreshold.val
  capped_below_apply : cappedScore.val < applyThreshold.val

/-! ### Deterministic features -/

/-- Whole-token containment over canonical texts. -/
def containsPhrase (haystack phrase : String) : Bool :=
  phrase != "" && occursIn (" " ++ phrase ++ " ") (" " ++ haystack ++ " ")

/-- Title tokens that state a level, highest level first. -/
def levelTokens : List (SeniorityLevel × List String) :=
  [(.principal, ["principal", "distinguished", "fellow"]), (.staff, ["staff"]),
    (.senior, ["senior", "sr", "lead"]), (.mid, ["mid", "intermediate"]),
    (.junior, ["junior", "jr", "entry", "graduate", "associate"]), (.intern, ["intern", "internship"])]

/-- Title phrases that state an engagement type. -/
def employmentPhrases : List (EmploymentType × List String) :=
  [(.internship, ["intern", "internship"]), (.contract, ["contract", "contractor", "freelance"]),
    (.partTime, ["part time"]), (.temporary, ["temporary", "temp", "seasonal"]),
    (.fullTime, ["full time"])]

/-- What a failed constraint costs, given what failing does. -/
def effectOf (status : ConstraintStatus) (onFailure : ConstraintEffect) : ConstraintEffect :=
  if status = .failed then onFailure else .none

theorem effectOf_failed {status : ConstraintStatus} {onFailure : ConstraintEffect}
    (h : effectOf status onFailure ≠ .none) : status = .failed := by
  unfold effectOf at h
  split at h
  · assumption
  · exact absurd rfl h

def capOf (config : ScoringConfig) (effect : ConstraintEffect) : Option Share :=
  if effect = .cap then some config.cappedScore else none

theorem capOf_isSome {config : ScoringConfig} {effect : ConstraintEffect} :
    effect = .cap ↔ (capOf config effect).isSome = true := by
  unfold capOf
  split <;> simp_all

/-- `_result`. -/
def result (name : String) (status : ConstraintStatus) (detail : String) (config : ScoringConfig)
    (onFailure : ConstraintEffect) : ConstraintResult where
  name
  status
  effect := effectOf status onFailure
  cap := capOf config (effectOf status onFailure)
  detail
  effect_failed := effectOf_failed
  cap_iff := capOf_isSome

section features

variable {P : Type} (tools : TextTools) (posting : NormalizedPosting P) (profile : SearchProfile)
variable (config : ScoringConfig)

/-- The level a posting title states, if it states one. -/
def inferSeniority (title : String) : Option SeniorityLevel :=
  let tokens := split (tools.canonicalText title)
  (levelTokens.find? fun entry => entry.2.any tokens.contains).map (·.1)

/-- The engagement type a posting title states, if it states one. -/
def inferEmploymentType (title : String) : Option EmploymentType :=
  let text := tools.canonicalText title
  (employmentPhrases.find? fun entry => entry.2.any (containsPhrase text)).map (·.1)

/-- Score the posting's location against where the candidate will work. -/
def locationFeature : ℚ × ConstraintResult :=
  let fail := config.onLocationMismatch
  let targets := (profile.targetLocations.map tools.canonicalText).filter (· ≠ "")
  let stated := posting.location.getD ""
  let location := tools.canonicalText stated
  let remote := posting.remote || containsPhrase location "remote"
  if profile.remoteOnly && !remote then
    (0, result "location" .failed "profile requires remote and the posting is not remote" config fail)
  else if targets = [] then
    (1, result "location" .passed "no location preference" config .none)
  else if remote then
    (1, result "location" .passed "posting is remote" config .none)
  else if location = "" then
    (config.unknownFeatureValue.val,
      result "location" .unknown "posting does not state a location" config .none)
  else if targets.any fun target => containsPhrase location target || containsPhrase target location then
    (1, result "location" .passed s!"'{stated}' is a target location" config .none)
  else
    (0, result "location" .failed
      s!"'{stated}' is not a target location and the posting is not remote" config fail)

/-- Score the posting's level against the levels the candidate accepts. -/
def levelFeature : ℚ × ConstraintResult :=
  if profile.seniorityLevels = [] then
    (1, result "level" .passed "no level preference" config .none)
  else
    match inferSeniority tools posting.title.val with
    | none => (config.unknownFeatureValue.val,
        result "level" .unknown "posting title does not state a level" config .none)
    | some level =>
        let distance := ((profile.seniorityLevels.map fun wanted =>
          ((level.rank : ℤ) - wanted.rank).natAbs).min?).getD 0
        if distance = 0 then
          (1, result "level" .passed s!"posting is {level.value}, an accepted level" config .none)
        else if distance = 1 then
          (1 / 2, result "level" .passed
            s!"posting is {level.value}, one step from an accepted level" config .none)
        else
          (0, result "level" .failed
            s!"posting is {level.value}, {distance} steps from any accepted level" config
            config.onLevelMismatch)

/-- Score the posting's engagement type against what the candidate accepts. -/
def employmentTypeFeature : ℚ × ConstraintResult :=
  if profile.employmentTypes = [] then
    (1, result "employment_type" .passed "no employment type preference" config .none)
  else
    match inferEmploymentType tools posting.title.val with
    | none => (config.unknownFeatureValue.val,
        result "employment_type" .unknown "posting title does not state an employment type" config .none)
    | some kind =>
        if profile.employmentTypes.contains kind then
          (1, result "employment_type" .passed
            s!"posting is {kind.value}, an accepted employment type" config .none)
        else
          (0, result "employment_type" .failed
            s!"posting is {kind.value}, which the profile does not accept" config
            config.onEmploymentTypeMismatch)

/-- The requirements that a record mentions, each with the first such record, and the others; a
requirement whose phrase was seen before is left out. -/
def coverSkills (evidence : List EvidenceRecord) :
    List String → List String → List (String × EvidenceRecord) × List String
  | _, [] => ([], [])
  | seen, skill :: skills =>
      let phrase := tools.canonicalText skill
      if phrase = "" ∨ phrase ∈ seen then coverSkills evidence seen skills
      else
        let (covered, uncovered) := coverSkills evidence (phrase :: seen) skills
        match evidence.find? fun record => containsPhrase (tools.canonicalText record.text.val) phrase with
        | none => (covered, skill :: uncovered)
        | some record => ((skill, record) :: covered, uncovered)

/-- Split the posting's stated requirements by whether evidence mentions them. -/
def requirementCoverage (evidence : List EvidenceRecord) :
    List (String × EvidenceRecord) × List String :=
  coverSkills tools evidence [] posting.skills

end features

/-- The semantic component, computed from the grounded assessment. -/
def semanticValue (assessment : GroundedAssessment) : ℚ :=
  let earned := (assessment.matchedRequirements.map fun item => strengthValue item.strength).sum
  let owed := assessment.matchedRequirements.length +
    (assessment.missingRequirements.map fun item => severityWeight item.severity).sum
  if owed ≠ 0 then earned / owed else 0

/-! ### Matcher -/

/-- `HybridJobMatcher`: what it loads, whom it asks, and its configuration. -/
structure HybridJobMatcher (P : Type) where
  loadEvidence : UUID → List EvidenceRecord
  /-- The assessor's answer; `none` when it fails. -/
  assess : NormalizedPosting P → SearchProfile → List EvidenceRecord → Option SemanticAssessment
  config : ScoringConfig

namespace HybridJobMatcher

variable {P : Type} (tools : TextTools) (matcher : HybridJobMatcher P)
variable (posting : NormalizedPosting P) (profile : SearchProfile)

/-- Keyword-level matches, in place of an assessment. -/
def keywordMatches (covered : List (String × EvidenceRecord)) (uncovered : List String) :
    Except JobSearchContractError GroundedAssessment := do
  let matched ← covered.mapM fun item =>
    MatchedRequirement.create item.1 item.2.evidenceId.val item.2.sourceType .partly
      (some "keyword match only")
  let missing ← uncovered.mapM fun skill => MissingRequirement.create skill .major none
  return {
    matchedRequirements := matched
    missingRequirements := missing
    risks := ["semantic assessment unavailable; matches are keyword-level only"]
    tailoringSuggestions := []
    ungroundedClaims := [] }

/-- `_assess`: ground the assessor's output, or fall back to keyword-level matches. -/
def grounded (evidence : List EvidenceRecord) (covered : List (String × EvidenceRecord))
    (uncovered : List String) : Except JobSearchContractError GroundedAssessment :=
  match matcher.assess posting profile evidence with
  | none => keywordMatches covered uncovered
  | some assessment => groundAssessment assessment evidence

/-- The share of the stated requirements that is covered. -/
def coverageShare (covered : List (String × EvidenceRecord)) (uncovered : List String) : ℚ :=
  let stated := covered.length + uncovered.length
  if stated ≠ 0 then covered.length / stated else matcher.config.unknownFeatureValue.val

/-- The check that a gap which blocks fails. -/
def blockingCheck (grounded : GroundedAssessment) : ConstraintResult :=
  let blocking := (grounded.missingRequirements.filter fun gap => gap.severity = .blocking).map
    fun gap => gap.requirement.val
  result "blocking_requirement" (if blocking ≠ [] then .failed else .passed)
    (if blocking ≠ [] then
      "no evidence for blocking requirement(s): " ++ String.intercalate ", " blocking
    else "no blocking gaps")
    matcher.config matcher.config.onBlockingRequirement

/-- The sum of the components, each with its weight. -/
def weightedSum (weights components : List (String × ℚ)) : ℚ :=
  round4 (components.map fun item => valueOf weights item.1 * item.2).sum

/-- The weighted score under the constraints. -/
def scoreUnder (constraints : List ConstraintResult) (weighted : ℚ) : ℚ :=
  if constraints.any fun item => item.effect = .reject then 0
  else (constraints.filterMap fun item => item.cap.map (·.val)).foldl min weighted

def recommend (constraints : List ConstraintResult) (score : ℚ) : Recommendation :=
  if constraints.any fun item => item.effect = .reject then .skip
  else if matcher.config.applyThreshold.val ≤ score then .apply
  else if matcher.config.maybeThreshold.val ≤ score then .maybe
  else .skip

/-- The outcomes of the hard-constraint checks. -/
def constraints (grounded : GroundedAssessment) : List ConstraintResult :=
  [(locationFeature tools posting profile matcher.config).2,
    (levelFeature tools posting profile matcher.config).2,
    (employmentTypeFeature tools posting profile matcher.config).2, matcher.blockingCheck grounded]

/-- The components of the score, given the coverage of the requirements. -/
def components (coverage : ℚ) (grounded : GroundedAssessment) : List (String × ℚ) :=
  [("location", round4 (locationFeature tools posting profile matcher.config).1),
    ("level", round4 (levelFeature tools posting profile matcher.config).1),
    ("employment_type", round4 (employmentTypeFeature tools posting profile matcher.config).1),
    ("requirement_coverage", round4 coverage), ("semantic", round4 (semanticValue grounded))]

/-- The reasons behind a score. -/
def reasons (weights components : List (String × ℚ)) (weighted : ℚ)
    (constraints : List ConstraintResult) (covered stated : ℕ) : List String :=
  (components.map fun item =>
      item.1 ++ ": " ++ fixed 2 item.2 ++ " x weight " ++ fixed 2 (valueOf weights item.1)) ++
    ["weighted score " ++ fixed 4 weighted] ++
    ((constraints.filter fun item => item.status ≠ .passed).map fun item =>
      s!"{item.name} {item.status.value} ({item.effect.value}): {item.detail}") ++
    (if stated ≠ 0 then [s!"{covered}/{stated} stated requirements found in evidence"] else [])

/-- `match`: the scored, explained, evidence-grounded verdict on one posting. -/
def matchPosting : Except JobSearchContractError JobMatch := do
  let evidence := matcher.loadEvidence profile.userId
  let (covered, uncovered) := requirementCoverage tools posting evidence
  let grounded ← matcher.grounded posting profile evidence covered uncovered
  let constraints := matcher.constraints tools posting profile grounded
  let components := matcher.components tools posting profile
    (matcher.coverageShare covered uncovered) grounded
  let weights := matcher.config.weights.dump
  let weighted := weightedSum weights components
  let score := scoreUnder constraints weighted
  JobMatch.create (posting.dedupeKey tools) score (matcher.recommend constraints score) grounded
    weighted components weights constraints
    (reasons weights components weighted constraints covered.length
      (covered.length + uncovered.length))

end HybridJobMatcher

end PersonalOS.Matching
