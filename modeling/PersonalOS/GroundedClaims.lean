import PersonalOS.HybridMatcher
import Mathlib.Data.List.Forall2

/-! # Grounding conserves claims

`groundAssessment` does not raise, and every claim that names a requirement ends up in one place.

* **Places.** A claim that cites a given record is a matched requirement of it (`Grounds`); any other
  is an ungrounded claim and a gap (`ungroundedGap`).
* **Citations.** What a match cites is on record, whoever answered (`Backed`). -/

namespace PersonalOS.Matching

section records

variable {evidence : List EvidenceRecord} {id : String} {record : EvidenceRecord}

theorem recordOf_eq_some (h : recordOf evidence id = some record) :
    record ∈ evidence ∧ record.evidenceId.val = id :=
  ⟨List.mem_reverse.mp (List.mem_of_find?_eq_some h), by simpa using List.find?_some h⟩

theorem recordOf_isSome : (recordOf evidence id).isSome = true ↔
    ∃ record ∈ evidence, record.evidenceId.val = id := by
  simp [recordOf]

end records

/-! ### What becomes of a claim -/

/-- The claim cites one of the records. -/
def ClaimedMatch.cites (evidence : List EvidenceRecord) (claim : ClaimedMatch) : Bool :=
  evidence.any fun record => claim.evidenceId == some record.evidenceId.val

/-- The item is the claim, with the type and the id of the record that it cites. -/
structure Grounds (evidence : List EvidenceRecord) (claim : ClaimedMatch) (item : MatchedRequirement) :
    Prop where
  requirement : item.requirement.val = claim.requirement
  strength : item.strength = claim.strength
  rationale : item.rationale = claim.rationale
  cited : ∃ record ∈ evidence, claim.evidenceId = some record.evidenceId.val ∧
    item.evidenceId = record.evidenceId ∧ item.evidenceType = record.sourceType

/-- The gap that an ungrounded claim becomes. -/
structure UngroundedGap (claim : ClaimedMatch) (gap : MissingRequirement) : Prop where
  requirement : gap.requirement.val = claim.requirement
  severity : gap.severity = .major
  note : gap.note = some ungroundedNote

/-- The claims that name a requirement. -/
def SemanticAssessment.stated (assessment : SemanticAssessment) : List ClaimedMatch :=
  assessment.matchedRequirements.filter fun claim => !isBlank claim.requirement

section claims

variable {evidence : List EvidenceRecord} {claim : ClaimedMatch}

theorem ClaimedMatch.record_isSome : (claim.record evidence).isSome = claim.cites evidence := by
  unfold ClaimedMatch.record ClaimedMatch.cites
  cases hid : claim.evidenceId with
  | none => simp
  | some id =>
      rw [Option.bind_some, Bool.eq_iff_iff]
      by_cases hempty : id = ""
      · -- No record has the empty id, for a validator asks for one.
        subst hempty
        have hnone : ∀ record ∈ evidence, record.evidenceId.val ≠ "" := by
          intro record _ h
          exact record.evidenceId.property (by rw [h]; decide)
        simpa using hnone
      · rw [if_neg hempty, recordOf_isSome]
        simp only [List.any_eq_true, beq_iff_eq, Option.some.injEq]
        exact exists_congr fun record => and_congr_right fun _ => eq_comm

theorem ClaimedMatch.record_eq_some {record : EvidenceRecord} (h : claim.record evidence = some record) :
    record ∈ evidence ∧ claim.evidenceId = some record.evidenceId.val := by
  obtain ⟨id, hid, h⟩ := Option.bind_eq_some_iff.mp h
  split at h
  · cases h
  · obtain ⟨hmem, rfl⟩ := recordOf_eq_some h
    exact ⟨hmem, hid⟩

theorem nonBlank_of (message : String) {text : String} (h : isBlank text = false) :
    ∃ proof, nonBlank message text = .ok ⟨text, proof⟩ := by
  have hne : strip text ≠ "" := by simpa [isBlank] using h
  exact ⟨hne, dif_pos hne⟩

theorem nonBlank_val (message : String) (text : NonBlank) : nonBlank message text.val = .ok text :=
  dif_pos text.property

/-- The loop over the claims finishes, with each claim that names a requirement in its place. -/
theorem groundClaims_ok (evidence : List EvidenceRecord) (claims : List ClaimedMatch) :
    ∃ matched missing ungrounded, groundClaims evidence claims = .ok (matched, missing, ungrounded) ∧
      let stated := claims.filter fun claim => !isBlank claim.requirement
      List.Forall₂ (Grounds evidence) (stated.filter fun claim => claim.cites evidence) matched ∧
      List.Forall₂ UngroundedGap (stated.filter fun claim => !claim.cites evidence) missing ∧
      ungrounded = (stated.filter fun claim => !claim.cites evidence).map (·.requirement) := by
  induction claims with
  | nil => exact ⟨[], [], [], rfl, .nil, .nil, rfl⟩
  | cons claim claims ih =>
      obtain ⟨matched, missing, ungrounded, hrest, hmatched, hmissing, hungrounded⟩ := ih
      unfold groundClaims
      cases hblank : isBlank claim.requirement with
      | true =>
          refine ⟨matched, missing, ungrounded, by rw [if_pos rfl, hrest], ?_⟩
          simp only [List.filter_cons, hblank, Bool.not_true, Bool.false_eq_true, if_false]
          exact ⟨hmatched, hmissing, hungrounded⟩
      | false =>
          simp only [Bool.false_eq_true, if_false, List.filter_cons, hblank, Bool.not_false, if_true]
          rw [← ClaimedMatch.record_isSome]
          cases hrecord : claim.record evidence with
          | none =>
              obtain ⟨proof, hvalid⟩ := nonBlank_of "a missing requirement must name the requirement" hblank
              refine ⟨matched, ⟨⟨claim.requirement, proof⟩, .major, some ungroundedNote⟩ :: missing,
                claim.requirement :: ungrounded, ?_, ?_⟩
              · simp only [MissingRequirement.create, hvalid, hrest]
                rfl
              · simp only [Option.isSome_none, Bool.false_eq_true, if_false, Bool.not_false, if_true,
                  List.map_cons]
                exact ⟨hmatched, .cons ⟨rfl, rfl, rfl⟩ hmissing, congrArg _ hungrounded⟩
          | some record =>
              obtain ⟨proof, hvalid⟩ := nonBlank_of
                "a matched requirement must name the requirement and cite an evidence_id" hblank
              refine ⟨⟨⟨claim.requirement, proof⟩, record.evidenceId, record.sourceType, claim.strength,
                claim.rationale⟩ :: matched, missing, ungrounded, ?_, ?_⟩
              · simp only [MatchedRequirement.create, hvalid, nonBlank_val, hrest]
                rfl
              · obtain ⟨hmem, hid⟩ := ClaimedMatch.record_eq_some hrecord
                simp only [Option.isSome_some, if_true, Bool.not_true, Bool.false_eq_true, if_false]
                exact ⟨.cons ⟨rfl, rfl, rfl, record, hmem, hid, rfl, rfl⟩ hmatched, hmissing, hungrounded⟩

end claims

/-- What grounding makes of an assessment: every claim that names a requirement is in one place. -/
structure Conserves (evidence : List EvidenceRecord) (assessment : SemanticAssessment)
    (grounded : GroundedAssessment) : Prop where
  /-- The claims that cite a record, in order. -/
  matched : List.Forall₂ (Grounds evidence)
    (assessment.stated.filter fun claim => claim.cites evidence) grounded.matchedRequirements
  /-- The gaps of the assessment, and then one for each of the other claims. -/
  missing : ∃ gaps, grounded.missingRequirements =
      (assessment.missingRequirements.filter fun gap => !isBlank gap.requirement.val) ++ gaps ∧
    List.Forall₂ UngroundedGap (assessment.stated.filter fun claim => !claim.cites evidence) gaps
  ungrounded : grounded.ungroundedClaims =
    (assessment.stated.filter fun claim => !claim.cites evidence).map (·.requirement)
  /-- The suggestions that say something and cite a record or none. -/
  suggestions : grounded.tailoringSuggestions = assessment.tailoringSuggestions.filter fun item =>
    !isBlank item.suggestion && item.evidenceId.all fun id =>
      evidence.any fun record => record.evidenceId.val == id

section suggestions

variable {evidence : List EvidenceRecord}

theorem TailoringSuggestion.isKept_eq (item : TailoringSuggestion) : item.isKept evidence =
    (!isBlank item.suggestion && item.evidenceId.all fun id =>
      evidence.any fun record => record.evidenceId.val == id) := by
  have hrecord : ∀ id, (recordOf evidence id).isSome = evidence.any fun record => record.evidenceId.val == id := by
    intro id
    rw [Bool.eq_iff_iff, recordOf_isSome]
    simp
  unfold TailoringSuggestion.isKept
  simp only [hrecord]

theorem Conserves.suggestion_kept {assessment : SemanticAssessment} {grounded : GroundedAssessment}
    (h : Conserves evidence assessment grounded) {item : TailoringSuggestion}
    (hitem : item ∈ grounded.tailoringSuggestions) :
    item.evidenceId = none ∨ ∃ record ∈ evidence, item.evidenceId = some record.evidenceId.val := by
  rw [h.suggestions, List.mem_filter, Bool.and_eq_true] at hitem
  cases hid : item.evidenceId with
  | none => exact Or.inl rfl
  | some id =>
      have hany := hitem.2.2
      rw [hid, Option.all_some, List.any_eq_true] at hany
      obtain ⟨record, hrecord, heq⟩ := hany
      exact Or.inr ⟨record, hrecord, by rw [beq_iff_eq.mp heq]⟩

theorem groundAssessment_conserves (assessment : SemanticAssessment) (evidence : List EvidenceRecord) :
    ∃ grounded, groundAssessment assessment evidence = .ok grounded ∧
      Conserves evidence assessment grounded := by
  obtain ⟨matched, missing, ungrounded, hok, hmatched, hmissing, hungrounded⟩ :=
    groundClaims_ok evidence assessment.matchedRequirements
  refine ⟨_, by simp only [groundAssessment, hok]; rfl, ?_⟩
  constructor
  case matched => exact hmatched
  case missing => exact ⟨missing, rfl, hmissing⟩
  case ungrounded => exact hungrounded
  case suggestions => exact List.filter_congr fun item _ => item.isKept_eq

end suggestions

/-! ### Citations -/

/-- Every citation of the assessment names one of the records. -/
structure Backed (evidence : List EvidenceRecord) (grounded : GroundedAssessment) : Prop where
  matched : ∀ item ∈ grounded.matchedRequirements, ∃ record ∈ evidence,
    item.evidenceId = record.evidenceId
  suggested : ∀ item ∈ grounded.tailoringSuggestions, ∀ id ∈ item.evidenceId,
    ∃ record ∈ evidence, record.evidenceId.val = id

/-- What a fallible map answers comes from something it was applied to. -/
theorem mem_of_mapM {α β : Type} {f : α → Except JobSearchContractError β} {as : List α} {bs : List β}
    (h : as.mapM f = .ok bs) {b : β} (hb : b ∈ bs) : ∃ a ∈ as, f a = .ok b := by
  induction as generalizing bs with
  | nil =>
      rw [List.mapM_nil] at h
      obtain rfl := Except.ok.inj h
      cases hb
  | cons a as ih =>
      rw [List.mapM_cons] at h
      obtain ⟨first, hfirst, h⟩ := bind_eq_ok h
      obtain ⟨rest, hrest, h⟩ := bind_eq_ok h
      obtain rfl := Except.ok.inj h
      rcases List.mem_cons.mp hb with rfl | hb
      · exact ⟨a, List.mem_cons_self, hfirst⟩
      · obtain ⟨a', ha', hfa⟩ := ih hrest hb
        exact ⟨a', List.mem_cons_of_mem _ ha', hfa⟩

section backed

variable {evidence : List EvidenceRecord} {grounded : GroundedAssessment}

theorem Conserves.backed {assessment : SemanticAssessment} (h : Conserves evidence assessment grounded) :
    Backed evidence grounded := by
  constructor
  · intro item hitem
    obtain ⟨claim, -, hgrounds⟩ := exists_of_forall₂_right h.matched hitem
    obtain ⟨record, hrecord, -, hid, -⟩ := hgrounds.cited
    exact ⟨record, hrecord, hid⟩
  · intro item hitem id hid
    rcases h.suggestion_kept hitem with hnone | ⟨record, hrecord, hsome⟩
    · rw [hnone] at hid
      cases hid
    · rw [hsome] at hid
      exact ⟨record, hrecord, Option.some.inj hid⟩

theorem coverSkills_covered {tools : TextTools} {skills seen : List String} :
    ∀ item ∈ (coverSkills tools evidence seen skills).1, item.2 ∈ evidence := by
  induction skills generalizing seen with
  | nil => simp [coverSkills]
  | cons skill skills ih =>
      unfold coverSkills
      dsimp only
      split
      · exact ih
      · split
        · exact ih
        · rename_i record hfind
          intro item hitem
          rcases List.mem_cons.mp hitem with rfl | hitem
          · exact List.mem_of_find?_eq_some hfind
          · exact ih item hitem

theorem MatchedRequirement.create_evidenceId {requirement : String} {evidenceId : NonBlank}
    {evidenceType : EvidenceSourceType} {strength : MatchStrength} {rationale : Option String}
    {item : MatchedRequirement}
    (h : MatchedRequirement.create requirement evidenceId.val evidenceType strength rationale = .ok item) :
    item.evidenceId = evidenceId := by
  unfold MatchedRequirement.create at h
  obtain ⟨_, -, h⟩ := bind_eq_ok h
  rw [nonBlank_val] at h
  exact (congrArg MatchedRequirement.evidenceId (Except.ok.inj h)).symm

theorem keywordMatches_backed {covered : List (String × EvidenceRecord)} {uncovered : List String}
    (hcovered : ∀ item ∈ covered, item.2 ∈ evidence)
    (h : HybridJobMatcher.keywordMatches covered uncovered = .ok grounded) : Backed evidence grounded := by
  obtain ⟨matched, hmatched, h⟩ := bind_eq_ok h
  obtain ⟨missing, -, h⟩ := bind_eq_ok h
  obtain rfl := Except.ok.inj h
  constructor
  · intro item hitem
    obtain ⟨skill, hskill, hcreate⟩ := mem_of_mapM hmatched hitem
    exact ⟨skill.2, hcovered skill hskill, MatchedRequirement.create_evidenceId hcreate⟩
  · intro item hitem
    cases hitem

variable {P : Type} {tools : TextTools} {matcher : HybridJobMatcher P} {posting : NormalizedPosting P}
variable {profile : SearchProfile}

/-- Whoever answers, the citations are on record. -/
theorem HybridJobMatcher.grounded_backed {covered : List (String × EvidenceRecord)}
    {uncovered : List String} (hcovered : ∀ item ∈ covered, item.2 ∈ evidence)
    (h : matcher.grounded posting profile evidence covered uncovered = .ok grounded) :
    Backed evidence grounded := by
  unfold HybridJobMatcher.grounded at h
  cases hassess : matcher.assess posting profile evidence with
  | none =>
      rw [hassess] at h
      exact keywordMatches_backed hcovered h
  | some assessment =>
      rw [hassess] at h
      obtain ⟨grounded', hok, hconserves⟩ := groundAssessment_conserves assessment evidence
      obtain rfl := Except.ok.inj (hok.symm.trans h)
      exact hconserves.backed

theorem JobMatch.create_eq_ok {dedupeKey : String} {score weighted : ℚ} {recommendation : Recommendation}
    {components weights : List (String × ℚ)} {constraints : List ConstraintResult}
    {reasons : List String} {verdict : JobMatch}
    (h : JobMatch.create dedupeKey score recommendation grounded weighted components weights constraints
      reasons = .ok verdict) :
    verdict.matchedRequirements = grounded.matchedRequirements ∧
      verdict.tailoringSuggestions = grounded.tailoringSuggestions := by
  unfold JobMatch.create at h
  obtain ⟨score, -, h⟩ := bind_eq_ok h
  obtain ⟨weightedScore, -, h⟩ := bind_eq_ok h
  split at h
  · split at h
    · split at h
      · obtain rfl := Except.ok.inj h
        exact ⟨rfl, rfl⟩
      · cases h
    · cases h
  · cases h

theorem Backed.ensureGroundedIn {verdict : JobMatch} (h : Backed evidence grounded)
    (hmatched : verdict.matchedRequirements = grounded.matchedRequirements)
    (hsuggested : verdict.tailoringSuggestions = grounded.tailoringSuggestions) :
    verdict.ensureGroundedIn (evidence.map (·.evidenceId.val)) = .ok () := by
  have hnone : (verdict.matchedRequirements.map (·.evidenceId.val) ++
      verdict.tailoringSuggestions.filterMap fun item => item.evidenceId.filter (· ≠ "")).filter
        (fun ref => !(evidence.map (·.evidenceId.val)).contains ref) = [] := by
    rw [List.filter_eq_nil_iff]
    intro ref href
    suffices hmem : ref ∈ evidence.map (·.evidenceId.val) by simpa using hmem
    rcases List.mem_append.mp href with href | href
    · obtain ⟨item, hitem, rfl⟩ := List.mem_map.mp href
      obtain ⟨record, hrecord, hid⟩ := h.matched item (hmatched ▸ hitem)
      exact List.mem_map.mpr ⟨record, hrecord, congrArg Subtype.val hid.symm⟩
    · obtain ⟨item, hitem, hfilter⟩ := List.mem_filterMap.mp href
      obtain ⟨hid, -⟩ := Option.filter_eq_some_iff.mp hfilter
      obtain ⟨record, hrecord, hid⟩ := h.suggested item (hsuggested ▸ hitem) ref hid
      exact List.mem_map.mpr ⟨record, hrecord, hid⟩
  unfold JobMatch.ensureGroundedIn
  simp only [hnone]
  rw [show ([] : List String).dedup = [] from rfl, List.mergeSort_nil, if_pos rfl]

theorem HybridJobMatcher.matchPosting_backed {verdict : JobMatch}
    (h : matcher.matchPosting tools posting profile = .ok verdict) :
    verdict.ensureGroundedIn ((matcher.loadEvidence profile.userId).map (·.evidenceId.val)) = .ok () := by
  obtain ⟨grounded, hgrounded, hcreate⟩ := bind_eq_ok h
  obtain ⟨hmatched, hsuggested⟩ := JobMatch.create_eq_ok hcreate
  exact (HybridJobMatcher.grounded_backed coverSkills_covered hgrounded).ensureGroundedIn hmatched hsuggested

end backed

end PersonalOS.Matching
