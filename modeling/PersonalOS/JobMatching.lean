import PersonalOS.JobPostings
import PersonalOS.Instants

/-! # Matching a posting against the candidate's record

`ground_assessment`, and `HybridJobMatcher` which scores a posting from it.

* **Values.** A validated value carries what its validator checks: a `MatchedRequirement` names its
  requirement and cites something, the constraints of a `JobMatch` bind its score.
* **Arithmetic.** Scores are rationals.  `round4` rounds to four places, half to even.
* **Ports.** The evidence source and the assessor are arbitrary; the assessor may fail, and then
  keyword-level matches stand in. -/

namespace PersonalOS.Matching

/-! ### Claims and what grounds them -/

/-- One citable piece of the candidate's own record. -/
structure EvidenceRecord where
  evidenceId : NonBlank
  sourceType : EvidenceSourceType
  text : NonBlank
deriving DecidableEq

/-- What the run advises doing with one posting. -/
inductive Recommendation where
  | apply
  | maybe
  | skip
deriving DecidableEq, Repr

/-- How well a cited piece of evidence supports a requirement. -/
inductive MatchStrength where
  | strong
  | partly
  | weak
deriving DecidableEq, Repr

/-- How much a missing requirement costs the application. -/
inductive GapSeverity where
  | blocking
  | major
  | minor
deriving DecidableEq, Repr

/-- A posting requirement the candidate meets, and the record that proves it. -/
structure MatchedRequirement where
  requirement : NonBlank
  evidenceId : NonBlank
  evidenceType : EvidenceSourceType
  strength : MatchStrength
  rationale : Option String
deriving DecidableEq

def MatchedRequirement.create (requirement evidenceId : String) (evidenceType : EvidenceSourceType)
    (strength : MatchStrength) (rationale : Option String) :
    Except JobSearchContractError MatchedRequirement := do
  let message := "a matched requirement must name the requirement and cite an evidence_id"
  let requirement ← nonBlank message requirement
  let evidenceId ← nonBlank message evidenceId
  return { requirement, evidenceId, evidenceType, strength, rationale }

/-- A posting requirement nothing in the candidate's record supports. -/
structure MissingRequirement where
  requirement : NonBlank
  severity : GapSeverity
  note : Option String
deriving DecidableEq

def MissingRequirement.create (requirement : String) (severity : GapSeverity) (note : Option String) :
    Except JobSearchContractError MissingRequirement := do
  let requirement ← nonBlank "a missing requirement must name the requirement" requirement
  return { requirement, severity, note }

/-- One way to present the candidate's existing record for this posting. -/
structure TailoringSuggestion where
  suggestion : String
  evidenceId : Option String
deriving DecidableEq, Repr

/-- A match as a model asserted it, before anything has checked the citation. -/
structure ClaimedMatch where
  requirement : String
  evidenceId : Option String
  strength : MatchStrength
  rationale : Option String
deriving DecidableEq, Repr

/-- A model's structured read of one posting against the candidate's record. -/
structure SemanticAssessment where
  matchedRequirements : List ClaimedMatch
  missingRequirements : List MissingRequirement
  risks : List String
  tailoringSuggestions : List TailoringSuggestion
deriving DecidableEq

/-- A `SemanticAssessment` with every citation resolved against real records. -/
structure GroundedAssessment where
  matchedRequirements : List MatchedRequirement
  missingRequirements : List MissingRequirement
  risks : List String
  tailoringSuggestions : List TailoringSuggestion
  /-- Requirements the model claimed as met without citing a real record. -/
  ungroundedClaims : List String
deriving DecidableEq

/-- Severity given to a claimed match whose citation did not resolve. -/
def ungroundedClaimSeverity : GapSeverity := .major

def ungroundedNote : String := "claimed as met, but no resume or project record supports it"

def isBlank (text : String) : Bool := strip text == ""

/-- The record under an id in a dictionary of the records; of two with one id the later. -/
def recordOf (evidence : List EvidenceRecord) (id : String) : Option EvidenceRecord :=
  evidence.reverse.find? fun record => record.evidenceId.val == id

/-- The record that a claim cites; an empty id is none. -/
def ClaimedMatch.record (evidence : List EvidenceRecord) (claim : ClaimedMatch) :
    Option EvidenceRecord :=
  claim.evidenceId.bind fun id => if id = "" then none else recordOf evidence id

/-- The matched requirements, the gaps that are added, and the ungrounded claims. -/
abbrev GroundedClaims := List MatchedRequirement × List MissingRequirement × List String

/-- The claimed matches, one after the other. -/
def groundClaims (evidence : List EvidenceRecord) :
    List ClaimedMatch → Except JobSearchContractError GroundedClaims
  | [] => .ok ([], [], [])
  | claim :: claims =>
      if isBlank claim.requirement then groundClaims evidence claims
      else
        match claim.record evidence with
        | none => do
            let gap ← MissingRequirement.create claim.requirement ungroundedClaimSeverity
              (some ungroundedNote)
            let (matched, missing, ungrounded) ← groundClaims evidence claims
            return (matched, gap :: missing, claim.requirement :: ungrounded)
        | some record => do
            let item ← MatchedRequirement.create claim.requirement record.evidenceId.val
              record.sourceType claim.strength claim.rationale
            let (matched, missing, ungrounded) ← groundClaims evidence claims
            return (item :: matched, missing, ungrounded)

/-- Whether a suggestion is kept. -/
def TailoringSuggestion.isKept (evidence : List EvidenceRecord) (item : TailoringSuggestion) : Bool :=
  !isBlank item.suggestion && item.evidenceId.all fun id => (recordOf evidence id).isSome

/-- Keep only the claims that cite a record the candidate actually has. -/
def groundAssessment (assessment : SemanticAssessment) (evidence : List EvidenceRecord) :
    Except JobSearchContractError GroundedAssessment := do
  let (matched, missing, ungrounded) ← groundClaims evidence assessment.matchedRequirements
  return {
    matchedRequirements := matched
    missingRequirements :=
      (assessment.missingRequirements.filter fun gap => !isBlank gap.requirement.val) ++ missing
    risks := assessment.risks.filter fun risk => !isBlank risk
    tailoringSuggestions := assessment.tailoringSuggestions.filter
      (TailoringSuggestion.isKept evidence)
    ungroundedClaims := ungrounded }

/-! ### Constraints -/

/-- Whether a posting satisfies one of the candidate's hard constraints. -/
inductive ConstraintStatus where
  | passed
  | failed
  /-- The posting does not say. -/
  | unknown
deriving DecidableEq, Repr

def ConstraintStatus.value : ConstraintStatus → String
  | .passed => "passed"
  | .failed => "failed"
  | .unknown => "unknown"

/-- What a failed hard constraint does to the posting's score. -/
inductive ConstraintEffect where
  | none
  /-- The score may not exceed `ConstraintResult.cap`. -/
  | cap
  /-- The score is zero and the recommendation is SKIP. -/
  | reject
deriving DecidableEq, Repr

def ConstraintEffect.value : ConstraintEffect → String
  | .none => "none"
  | .cap => "cap"
  | .reject => "reject"

/-- The outcome of one hard-constraint check, with the effect it carries. -/
structure ConstraintResult where
  name : String
  status : ConstraintStatus
  effect : ConstraintEffect
  cap : Option Share
  detail : String
  effect_failed : effect ≠ .none → status = .failed
  cap_iff : effect = .cap ↔ cap.isSome = true

/-- The scored, explained verdict on one posting for one candidate. -/
structure JobMatch where
  dedupeKey : String
  score : Share
  recommendation : Recommendation
  matchedRequirements : List MatchedRequirement
  missingRequirements : List MissingRequirement
  risks : List String
  tailoringSuggestions : List TailoringSuggestion
  /-- The weighted sum of `components`, before any constraint was applied. -/
  weightedScore : Share
  components : List (String × ℚ)
  weights : List (String × ℚ)
  constraints : List ConstraintResult
  ungroundedClaims : List String
  reasons : List String
  rejected_skipped : (∃ item ∈ constraints, item.effect = .reject) →
    score.val = 0 ∧ recommendation = .skip
  score_le_cap : ∀ item ∈ constraints, ∀ cap ∈ item.cap, score.val ≤ cap.val
  score_le_weighted : score.val ≤ weightedScore.val

/-- The lowest score ceiling that any failed constraint imposes. -/
def capUnder (constraints : List ConstraintResult) : Option ℚ :=
  (constraints.filterMap fun item => item.cap.map (·.val)).min?

def JobMatch.create (dedupeKey : String) (score : ℚ) (recommendation : Recommendation)
    (grounded : GroundedAssessment) (weighted : ℚ) (components weights : List (String × ℚ))
    (constraints : List ConstraintResult) (reasons : List String) :
    Except JobSearchContractError JobMatch := do
  let score ← share "score" score
  let weightedScore ← share "weighted_score" weighted
  if rejected_skipped : (∃ item ∈ constraints, item.effect = .reject) →
      score.val = 0 ∧ recommendation = .skip then
    if score_le_cap : ∀ item ∈ constraints, ∀ cap ∈ item.cap, score.val ≤ cap.val then
      if score_le_weighted : score.val ≤ weightedScore.val then
        .ok {
          dedupeKey, score, recommendation, weightedScore, components, weights, constraints, reasons
          matchedRequirements := grounded.matchedRequirements
          missingRequirements := grounded.missingRequirements
          risks := grounded.risks
          tailoringSuggestions := grounded.tailoringSuggestions
          ungroundedClaims := grounded.ungroundedClaims
          rejected_skipped, score_le_cap, score_le_weighted }
      else .error .raisedByConstraints
    else .error (.exceedsCap score.val ((capUnder constraints).getD 0))
  else .error .rejectedButScored

/-- Raise unless every citation names a record in `evidenceIds`. -/
def JobMatch.ensureGroundedIn (evidenceIds : List String) (verdict : JobMatch) :
    Except JobSearchContractError Unit :=
  let cited := verdict.matchedRequirements.map (·.evidenceId.val) ++
    verdict.tailoringSuggestions.filterMap fun item => item.evidenceId.filter (· ≠ "")
  let unknown := (cited.filter fun ref => !evidenceIds.contains ref).dedup.mergeSort
  if unknown = [] then .ok () else .error (.unknownEvidence unknown)

end PersonalOS.Matching
