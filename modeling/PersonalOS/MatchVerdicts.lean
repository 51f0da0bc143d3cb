import PersonalOS.ScoreLaws

/-! # What a verdict owes to the record

The claims of an assessment, with and without a record behind them.

* **Sums.** The semantic value is what the claims with a record earn, over their number, the weight of
  the gaps and the weight of the claims without one (`Conserves.semanticValue_eq`).
* **More claims.** A claim that no record supports adds to what is owed alone
  (`unbacked_claims_never_help`).
* **Fewer records.** A claim that loses its record takes its strength from what is earned and `0.4`
  from what is owed; so the quotient rises exactly if the claims lost are worth less than `0.4` of it
  (`lost_citations_cost_iff`). -/

namespace PersonalOS.Matching

/-! ### Grounding -/

/-- Grounding does not raise and conserves the claims, and what a match cites is on record. -/
theorem grounding_conserves_claims :
    (∀ (assessment : SemanticAssessment) (evidence : List EvidenceRecord),
      ∃ grounded, groundAssessment assessment evidence = .ok grounded ∧
        Conserves evidence assessment grounded) ∧
    ∀ (P : Type) (tools : TextTools) (matcher : HybridJobMatcher P) (posting : NormalizedPosting P)
      (profile : SearchProfile) (verdict : JobMatch),
      matcher.matchPosting tools posting profile = .ok verdict →
      verdict.ensureGroundedIn ((matcher.loadEvidence profile.userId).map (·.evidenceId.val)) = .ok () :=
  ⟨groundAssessment_conserves, fun _ _ _ _ _ _ h => HybridJobMatcher.matchPosting_backed h⟩

/-! ### Sums over claims -/

section sums

variable (evidence : List EvidenceRecord) (assessment : SemanticAssessment)

/-- The claims that name a requirement and cite a record. -/
def backedClaims : List ClaimedMatch := assessment.stated.filter fun claim => claim.cites evidence

/-- The claims that name a requirement and cite none. -/
def unbackedClaims : List ClaimedMatch := assessment.stated.filter fun claim => !claim.cites evidence

/-- What claims are worth, summed up. -/
def worth (claims : List ClaimedMatch) : ℚ := (claims.map fun claim => strengthValue claim.strength).sum

/-- The gaps that the assessment names itself. -/
def ownGaps : List MissingRequirement :=
  assessment.missingRequirements.filter fun gap => !isBlank gap.requirement.val

/-- What the assessment's own gaps weigh. -/
def ownGapWeight : ℚ := ((ownGaps assessment).map fun gap => severityWeight gap.severity).sum

/-- What an assessment owes for all that it names. -/
def owed : ℚ :=
  (backedClaims evidence assessment).length + ownGapWeight assessment +
    (unbackedClaims evidence assessment).length * (6 / 10)

/-- A quotient that is zero when nothing is owed. -/
def quotient (earned owed : ℚ) : ℚ := if owed ≠ 0 then earned / owed else 0

variable {evidence assessment} {grounded : GroundedAssessment}

theorem worth_nonneg (claims : List ClaimedMatch) : 0 ≤ worth claims := by
  apply List.sum_nonneg
  intro x hx
  obtain ⟨claim, -, rfl⟩ := List.mem_map.mp hx
  exact strengthValue_nonneg _

theorem worth_perm {claims claims' : List ClaimedMatch} (h : claims.Perm claims') :
    worth claims = worth claims' := (h.map _).sum_eq

theorem ownGapWeight_nonneg : 0 ≤ ownGapWeight assessment := by
  apply List.sum_nonneg
  intro x hx
  obtain ⟨gap, -, rfl⟩ := List.mem_map.mp hx
  exact (severityWeight_pos _).le

theorem worth_le_owed : worth (backedClaims evidence assessment) ≤ owed evidence assessment := by
  have hgaps : 0 ≤ ownGapWeight assessment := ownGapWeight_nonneg
  have hunbacked : (0 : ℚ) ≤ (unbackedClaims evidence assessment).length := Nat.cast_nonneg _
  have hbacked : worth (backedClaims evidence assessment) ≤ (backedClaims evidence assessment).length :=
    sum_strengthValue_le _ _
  unfold owed
  linarith

theorem map_eq_of_forall₂ {α β γ : Type} {R : α → β → Prop} {f : α → γ} {g : β → γ} {as : List α}
    {bs : List β} (h : List.Forall₂ R as bs) (hfg : ∀ a b, R a b → f a = g b) : as.map f = bs.map g := by
  induction h with
  | nil => rfl
  | cons hR _ ih => rw [List.map_cons, List.map_cons, ih, hfg _ _ hR]

theorem Conserves.earned_eq (h : Conserves evidence assessment grounded) :
    earned grounded = worth (backedClaims evidence assessment) := by
  exact congrArg List.sum (map_eq_of_forall₂ h.matched fun _ _ hgrounds =>
    congrArg strengthValue hgrounds.strength.symm).symm

theorem Conserves.gapWeight_eq (h : Conserves evidence assessment grounded) :
    gapWeight grounded = ownGapWeight assessment + (unbackedClaims evidence assessment).length * (6 / 10) := by
  obtain ⟨gaps, hmissing, hgaps⟩ := h.missing
  have hsum : (gaps.map fun gap => severityWeight gap.severity).sum =
      (unbackedClaims evidence assessment).length * (6 / 10) := by
    rw [← map_eq_of_forall₂ hgaps fun _ _ hgap => (congrArg severityWeight hgap.severity).symm,
      List.map_const', List.sum_replicate, nsmul_eq_mul]
    rfl
  unfold Matching.gapWeight
  rw [hmissing, List.map_append, List.sum_append, hsum]
  rfl

theorem Conserves.semanticValue_eq (h : Conserves evidence assessment grounded) :
    semanticValue grounded = quotient (worth (backedClaims evidence assessment)) (owed evidence assessment) := by
  have hlength : grounded.matchedRequirements.length = (backedClaims evidence assessment).length :=
    h.matched.length_eq.symm
  rw [Matching.semanticValue_eq, h.earned_eq, h.gapWeight_eq, hlength, ← add_assoc]
  rfl

/-- The gaps that block are the assessment's own. -/
theorem Conserves.blocking (h : Conserves evidence assessment grounded) :
    (grounded.missingRequirements.filter fun gap => gap.severity = .blocking) =
      (ownGaps assessment).filter fun gap => gap.severity = .blocking := by
  obtain ⟨gaps, hmissing, hgaps⟩ := h.missing
  rw [hmissing, List.filter_append]
  suffices hnone : (gaps.filter fun gap => gap.severity = .blocking) = [] by
    rw [hnone, List.append_nil]
    rfl
  rw [List.filter_eq_nil_iff]
  intro gap hgap
  obtain ⟨claim, -, hclaim⟩ := exists_of_forall₂_right hgaps hgap
  rw [hclaim.severity]
  decide

end sums

/-! ### Quotients -/

section quotients

variable {e o : ℚ}

theorem quotient_anti {o' : ℚ} (h0 : 0 ≤ e) (he : e ≤ o) (ho : o ≤ o') : quotient e o' ≤ quotient e o := by
  unfold quotient
  rcases (h0.trans he).eq_or_lt with hzero | hpos
  · -- Nothing was owed, so nothing is earned.
    have hnone : e = 0 := le_antisymm (hzero ▸ he) h0
    rw [hnone, zero_div, zero_div, ite_self, ite_self]
  · rw [if_pos (hpos.trans_le ho).ne', if_pos hpos.ne']
    exact div_le_div_of_nonneg_left h0 hpos ho

/-- The exchange of `n` claims worth `s` for gaps that weigh `0.6` each. -/
theorem quotient_exchange_le_iff {n : ℕ} {s : ℚ} (hs : n = 0 → s = 0) (hn : n ≤ o) :
    quotient (e - s) (o - n * (4 / 10)) ≤ quotient e o ↔ 4 / 10 * n * e ≤ s * o := by
  rcases Nat.eq_zero_or_pos n with rfl | hpos
  · rw [hs rfl]
    simp
  · have hn1 : (1 : ℚ) ≤ n := by exact_mod_cast hpos
    have ho : 0 < o := by linarith
    have ho' : 0 < o - n * (4 / 10) := by linarith
    unfold quotient
    rw [if_pos ho'.ne', if_pos ho.ne', div_le_div_iff₀ ho' ho]
    constructor
    · intro h
      linarith
    · intro h
      linarith

end quotients

/-! ### Claims that nothing supports -/

/-- The matcher, with an assessor that gives this answer. -/
def HybridJobMatcher.answering {P : Type} (matcher : HybridJobMatcher P)
    (assessment : SemanticAssessment) : HybridJobMatcher P :=
  { matcher with assess := fun _ _ _ => some assessment }

section unbacked

variable {evidence : List EvidenceRecord} {assessment : SemanticAssessment}
variable {extra claims : List ClaimedMatch}

theorem ClaimedMatch.cites_eq_false {claim : ClaimedMatch} : claim.cites evidence = false ↔
    ∀ record ∈ evidence, claim.evidenceId ≠ some record.evidenceId.val := by
  simp [ClaimedMatch.cites]

theorem backedClaims_perm (hclaims : claims.Perm (assessment.matchedRequirements ++ extra))
    (hextra : ∀ claim ∈ extra, claim.cites evidence = false) :
    (backedClaims evidence { assessment with matchedRequirements := claims }).Perm
      (backedClaims evidence assessment) := by
  have hperm := (hclaims.filter fun claim => !isBlank claim.requirement).filter
    fun claim => claim.cites evidence
  rw [List.filter_append, List.filter_append] at hperm
  have hnone : ((extra.filter fun claim => !isBlank claim.requirement).filter
      fun claim => claim.cites evidence) = [] := by
    rw [List.filter_eq_nil_iff]
    intro claim hclaim
    rw [hextra claim (List.mem_of_mem_filter hclaim)]
    exact Bool.false_ne_true
  rw [hnone, List.append_nil] at hperm
  exact hperm

theorem unbackedClaims_length_le (hclaims : claims.Perm (assessment.matchedRequirements ++ extra)) :
    (unbackedClaims evidence assessment).length ≤
      (unbackedClaims evidence { assessment with matchedRequirements := claims }).length := by
  have hperm := (hclaims.filter fun claim => !isBlank claim.requirement).filter
    fun claim => !claim.cites evidence
  rw [List.filter_append, List.filter_append] at hperm
  have hlength := hperm.length_eq
  rw [List.length_append] at hlength
  exact (Nat.le_add_right _ _).trans hlength.ge

end unbacked

section verdicts

variable {P : Type} {tools : TextTools} {matcher : HybridJobMatcher P} {posting : NormalizedPosting P}
variable {profile : SearchProfile} {assessment : SemanticAssessment} {evidence : List EvidenceRecord}

variable (tools matcher posting profile) in
/-- The constraints depend on the assessment through its own gaps alone. -/
theorem Conserves.constraints_eq {evidence' : List EvidenceRecord} {assessment' : SemanticAssessment}
    {grounded grounded' : GroundedAssessment} (h : Conserves evidence assessment grounded)
    (h' : Conserves evidence' assessment' grounded')
    (hgaps : assessment'.missingRequirements = assessment.missingRequirements) :
    matcher.constraints tools posting profile grounded' =
      matcher.constraints tools posting profile grounded := by
  have hown : ownGaps assessment' = ownGaps assessment := by
    unfold ownGaps
    rw [hgaps]
  unfold HybridJobMatcher.constraints HybridJobMatcher.blockingCheck
  rw [h.blocking, h'.blocking, hown]

variable (tools matcher posting assessment profile) in
/-- The verdict when the assessor answers. -/
theorem HybridJobMatcher.matchPosting_answering
    (hevidence : matcher.loadEvidence profile.userId = evidence) :
    ∃ grounded verdict, groundAssessment assessment evidence = .ok grounded ∧
      Conserves evidence assessment grounded ∧
      (matcher.answering assessment).matchPosting tools posting profile = .ok verdict ∧
      verdict.score.val = matcher.scoreOf tools posting profile
        (matcher.coverageShare (requirementCoverage tools posting evidence).1
          (requirementCoverage tools posting evidence).2) grounded ∧
      verdict.recommendation = matcher.recommend (matcher.constraints tools posting profile grounded)
        verdict.score.val ∧
      valueOf verdict.components "semantic" = round4 (semanticValue grounded) := by
  obtain ⟨grounded, hok, hconserves⟩ := groundAssessment_conserves assessment evidence
  obtain ⟨verdict, hverdict⟩ := (matcher.answering assessment).matchPosting_grounded hevidence hok
  exact ⟨grounded, verdict, hok, hconserves, hverdict⟩

/-- Claims without a record, added to an assessment, make the verdict no better. -/
theorem unbacked_claims_never_help (tools : TextTools) (matcher : HybridJobMatcher P)
    (posting : NormalizedPosting P) (profile : SearchProfile) (assessment : SemanticAssessment)
    (extra claims : List ClaimedMatch)
    (hclaims : claims.Perm (assessment.matchedRequirements ++ extra))
    (hextra : ∀ claim ∈ extra, ∀ record ∈ matcher.loadEvidence profile.userId,
      claim.evidenceId ≠ some record.evidenceId.val) :
    ∃ verdict verdict', (matcher.answering assessment).matchPosting tools posting profile = .ok verdict ∧
      (matcher.answering { assessment with matchedRequirements := claims }).matchPosting tools posting
        profile = .ok verdict' ∧
      verdict'.score.val ≤ verdict.score.val ∧
      verdict'.recommendation.level ≤ verdict.recommendation.level ∧
      (∀ item ∈ verdict'.constraints, ∀ cap ∈ item.cap, verdict'.score.val ≤ cap.val) ∧
      verdict'.score.val ≤ verdict'.weightedScore.val := by
  have hcites : ∀ claim ∈ extra, claim.cites (matcher.loadEvidence profile.userId) = false :=
    fun claim hclaim => ClaimedMatch.cites_eq_false.mpr (hextra claim hclaim)
  obtain ⟨grounded, verdict, -, hconserves, hok, hscore, hrecommendation, -⟩ :=
    matcher.matchPosting_answering tools posting profile assessment rfl
  obtain ⟨grounded', verdict', -, hconserves', hok', hscore', hrecommendation', -⟩ :=
    matcher.matchPosting_answering tools posting profile
      { assessment with matchedRequirements := claims } rfl
  have hbacked := backedClaims_perm hclaims hcites
  have howed : owed (matcher.loadEvidence profile.userId) assessment ≤
      owed (matcher.loadEvidence profile.userId) { assessment with matchedRequirements := claims } := by
    have hlength : ((unbackedClaims (matcher.loadEvidence profile.userId) assessment).length : ℚ) ≤
        (unbackedClaims (matcher.loadEvidence profile.userId)
          { assessment with matchedRequirements := claims }).length := by
      exact_mod_cast unbackedClaims_length_le hclaims
    have hgaps : ownGapWeight { assessment with matchedRequirements := claims } =
        ownGapWeight assessment := rfl
    unfold owed
    rw [hbacked.length_eq, hgaps]
    linarith
  have hsemantic : semanticValue grounded' ≤ semanticValue grounded := by
    rw [hconserves.semanticValue_eq, hconserves'.semanticValue_eq, worth_perm hbacked]
    exact quotient_anti (worth_nonneg _) worth_le_owed howed
  have hconstraints := hconserves.constraints_eq tools matcher posting profile hconserves' rfl
  have hle : verdict'.score.val ≤ verdict.score.val := by
    rw [hscore, hscore']
    exact HybridJobMatcher.scoreOf_mono le_rfl hsemantic hconstraints
  refine ⟨verdict, verdict', hok, hok', hle, ?_, verdict'.score_le_cap, verdict'.score_le_weighted⟩
  rw [hrecommendation, hrecommendation', hconstraints]
  exact recommend_mono hle

/-! ### Records that are gone -/

/-- The claims that cite one of the records, and none of the fewer records. -/
def lostClaims (evidence fewer : List EvidenceRecord) (assessment : SemanticAssessment) :
    List ClaimedMatch :=
  (backedClaims evidence assessment).filter fun claim => !claim.cites fewer

/-- The claims that lose their record are worth at least `0.4` of the semantic value each, on average. -/
def LossCosts (evidence fewer : List EvidenceRecord) (assessment : SemanticAssessment) : Prop :=
  4 / 10 * (lostClaims evidence fewer assessment).length * worth (backedClaims evidence assessment) ≤
    worth (lostClaims evidence fewer assessment) * owed evidence assessment

section lost

variable {fewer : List EvidenceRecord}

theorem ClaimedMatch.cites_mono (hfewer : ∀ record ∈ fewer, record ∈ evidence) {claim : ClaimedMatch}
    (h : claim.cites fewer = true) : claim.cites evidence = true := by
  obtain ⟨record, hrecord, hid⟩ := List.any_eq_true.mp h
  exact List.any_eq_true.mpr ⟨record, hfewer record hrecord, hid⟩

theorem backedClaims_fewer (hfewer : ∀ record ∈ fewer, record ∈ evidence) :
    backedClaims fewer assessment =
      (backedClaims evidence assessment).filter fun claim => claim.cites fewer := by
  unfold backedClaims
  rw [List.filter_filter]
  apply List.filter_congr
  intro claim _
  cases hcites : claim.cites fewer with
  | true => rw [ClaimedMatch.cites_mono hfewer hcites]; rfl
  | false => rfl

theorem length_backed_add_unbacked (evidence : List EvidenceRecord) :
    (backedClaims evidence assessment).length + (unbackedClaims evidence assessment).length =
      assessment.stated.length := (List.length_eq_length_filter_add _).symm

theorem length_lost (hfewer : ∀ record ∈ fewer, record ∈ evidence) :
    (backedClaims evidence assessment).length =
      (backedClaims fewer assessment).length + (lostClaims evidence fewer assessment).length := by
  rw [backedClaims_fewer hfewer]
  exact List.length_eq_length_filter_add _

theorem worth_lost (hfewer : ∀ record ∈ fewer, record ∈ evidence) :
    worth (backedClaims evidence assessment) =
      worth (backedClaims fewer assessment) + worth (lostClaims evidence fewer assessment) := by
  rw [backedClaims_fewer hfewer, worth_perm (List.filter_append_perm (fun claim => claim.cites fewer)
    (backedClaims evidence assessment)).symm]
  unfold worth
  rw [List.map_append, List.sum_append]
  rfl

/-- Each claim that is lost takes its strength from what is earned and `0.4` from what is owed. -/
theorem Conserves.semanticValue_le_iff (hfewer : ∀ record ∈ fewer, record ∈ evidence)
    {grounded grounded' : GroundedAssessment} (h : Conserves evidence assessment grounded)
    (h' : Conserves fewer assessment grounded') :
    semanticValue grounded' ≤ semanticValue grounded ↔ LossCosts evidence fewer assessment := by
  have hworth : worth (backedClaims fewer assessment) =
      worth (backedClaims evidence assessment) - worth (lostClaims evidence fewer assessment) := by
    rw [worth_lost hfewer]
    ring
  have hlength : ((backedClaims evidence assessment).length : ℚ) =
      (backedClaims fewer assessment).length + (lostClaims evidence fewer assessment).length := by
    exact_mod_cast length_lost hfewer
  have hstated : ((backedClaims evidence assessment).length : ℚ) +
      (unbackedClaims evidence assessment).length = (backedClaims fewer assessment).length +
        (unbackedClaims fewer assessment).length := by
    exact_mod_cast (length_backed_add_unbacked evidence).trans (length_backed_add_unbacked fewer).symm
  have howed : owed fewer assessment =
      owed evidence assessment - (lostClaims evidence fewer assessment).length * (4 / 10) := by
    unfold owed
    linarith
  have hle : ((lostClaims evidence fewer assessment).length : ℚ) ≤ owed evidence assessment := by
    have hbacked : (0 : ℚ) ≤ (backedClaims fewer assessment).length := Nat.cast_nonneg _
    have hunbacked : (0 : ℚ) ≤ (unbackedClaims evidence assessment).length := Nat.cast_nonneg _
    have hgaps : 0 ≤ ownGapWeight assessment := ownGapWeight_nonneg
    unfold owed
    linarith
  rw [h.semanticValue_eq, h'.semanticValue_eq, hworth, howed]
  apply quotient_exchange_le_iff _ hle
  intro hnone
  rw [List.length_eq_zero_iff.mp hnone]
  rfl

end lost

variable (tools) in
/-- No record more is found with fewer records. -/
theorem coverSkills_fewer {fewer : List EvidenceRecord} (hfewer : ∀ record ∈ fewer, record ∈ evidence)
    (seen skills : List String) :
    (coverSkills tools fewer seen skills).1.length ≤ (coverSkills tools evidence seen skills).1.length ∧
      (coverSkills tools fewer seen skills).1.length + (coverSkills tools fewer seen skills).2.length =
        (coverSkills tools evidence seen skills).1.length +
          (coverSkills tools evidence seen skills).2.length := by
  induction skills generalizing seen with
  | nil => simp [coverSkills]
  | cons skill skills ih =>
      unfold coverSkills
      dsimp only
      split
      · exact ih seen
      · obtain ⟨hle, hsum⟩ := ih (tools.canonicalText skill :: seen)
        cases hless : fewer.find? fun record =>
            containsPhrase (tools.canonicalText record.text.val) (tools.canonicalText skill) with
        | none =>
            cases evidence.find? fun record =>
                containsPhrase (tools.canonicalText record.text.val) (tools.canonicalText skill) with
            | none =>
                simp only [List.length_cons]
                omega
            | some record =>
                simp only [List.length_cons]
                omega
        | some record =>
            -- The record that is found is among the others too.
            have hfound := List.find?_some hless
            have hsome : (evidence.find? fun record => containsPhrase
                (tools.canonicalText record.text.val) (tools.canonicalText skill)).isSome = true :=
              List.find?_isSome.mpr ⟨record, hfewer record (List.mem_of_find?_eq_some hless), hfound⟩
            obtain ⟨record', hmore⟩ := Option.isSome_iff_exists.mp hsome
            rw [hmore]
            simp only [List.length_cons]
            omega

theorem coverageShare_fewer {fewer : List EvidenceRecord} (hfewer : ∀ record ∈ fewer, record ∈ evidence) :
    matcher.coverageShare (requirementCoverage tools posting fewer).1
        (requirementCoverage tools posting fewer).2 ≤
      matcher.coverageShare (requirementCoverage tools posting evidence).1
        (requirementCoverage tools posting evidence).2 := by
  obtain ⟨hle, hsum⟩ := coverSkills_fewer tools hfewer [] posting.skills
  unfold requirementCoverage HybridJobMatcher.coverageShare
  dsimp only
  rw [hsum]
  split
  · exact div_le_div_of_nonneg_right (by exact_mod_cast hle) (Nat.cast_nonneg _)
  · exact le_rfl

/-- The matcher, with these records instead. -/
def HybridJobMatcher.loading (matcher : HybridJobMatcher P) (records : List EvidenceRecord) :
    HybridJobMatcher P :=
  { matcher with loadEvidence := fun _ => records }

/-- With fewer records neither the semantic value nor the score is higher, exactly if the claims that
lose their record are worth enough. -/
theorem lost_citations_cost_iff (tools : TextTools) (matcher : HybridJobMatcher P)
    (posting : NormalizedPosting P) (profile : SearchProfile) (assessment : SemanticAssessment)
    (evidence fewer : List EvidenceRecord) (hfewer : ∀ record ∈ fewer, record ∈ evidence) :
    ∃ grounded grounded' verdict verdict', groundAssessment assessment evidence = .ok grounded ∧
      groundAssessment assessment fewer = .ok grounded' ∧
      ((matcher.answering assessment).loading evidence).matchPosting tools posting profile = .ok verdict ∧
      ((matcher.answering assessment).loading fewer).matchPosting tools posting profile = .ok verdict' ∧
      ((semanticValue grounded' ≤ semanticValue grounded ∧
          valueOf verdict'.components "semantic" ≤ valueOf verdict.components "semantic" ∧
          verdict'.score.val ≤ verdict.score.val) ↔
        LossCosts evidence fewer assessment) := by
  obtain ⟨grounded, verdict, hground, hconserves, hok, hscore, -, hcomponent⟩ :=
    (matcher.loading evidence).matchPosting_answering tools posting profile assessment rfl
  obtain ⟨grounded', verdict', hground', hconserves', hok', hscore', -, hcomponent'⟩ :=
    (matcher.loading fewer).matchPosting_answering tools posting profile assessment rfl
  refine ⟨grounded, grounded', verdict, verdict', hground, hground', hok, hok', ?_⟩
  rw [← hconserves.semanticValue_le_iff hfewer hconserves']
  constructor
  · exact fun h => h.1
  · intro hsemantic
    refine ⟨hsemantic, ?_, ?_⟩
    · rw [hcomponent, hcomponent']
      exact round4_mono hsemantic
    · rw [hscore, hscore']
      exact (matcher.loading evidence).scoreOf_mono (coverageShare_fewer hfewer) hsemantic
        (hconserves.constraints_eq tools matcher posting profile hconserves' rfl)

end verdicts

/-! ### An opening at Acme -/

/-- Folding as it is on ASCII, and the digests that the opening needs. -/
def acmeTools : TextTools where
  nfkc := id
  casefold := String.toLower
  lower := String.toLower
  isWord c := c.isAlphanum || c == '_'
  sha256 text :=
    if text = "\"\"" then "12ae32cb1ec02d01eda3581b127c1fee3b0dc53572ed6baf239721a03d82e126"
    else "186048d2f76dfa87a46d15662bb6ba4bbea708a61610285eae90426bfeb24ee7"

def acmeEngineer : NormalizedPosting Unit where
  source := "board"
  sourceJobId := none
  title := ⟨"Backend Engineer", by decide +kernel⟩
  company := ⟨"Acme", by decide +kernel⟩
  location := none
  url := none
  description := ""
  salaryMin := none
  salaryMax := none
  remote := true
  postedAt := none
  skills := []
  raw := ()

/-- A profile without preferences. -/
def openProfile : SearchProfile where
  userId := 1
  profileVersion := 1
  targetRoles := []
  targetLocations := []
  keywords := []
  mustHaveSkills := []
  excludedCompanies := []
  seniorityLevels := []
  employmentTypes := []
  workModes := []
  salaryMin := none
  salaryMax := none
  remoteOnly := false
  requiresVisaSponsorship := false
  constraints := []
  minScore := ⟨1 / 2, by decide +kernel⟩
  maxShortlist := 5
  maxShortlist_pos := by decide
  maxShortlist_le := by decide
  salaryMin_le_salaryMax := fun _ h => absurd h (Option.not_mem_none _)

/-- The configuration by default. -/
def defaultConfig : ScoringConfig where
  weights := {
    location := 15 / 100, level := 10 / 100, employmentType := 10 / 100,
    requirementCoverage := 30 / 100, semantic := 35 / 100
    location_nonneg := by decide +kernel
    level_nonneg := by decide +kernel
    employmentType_nonneg := by decide +kernel
    requirementCoverage_nonneg := by decide +kernel
    semantic_nonneg := by decide +kernel
    sumsToOne := by decide +kernel }
  applyThreshold := ⟨7 / 10, by decide +kernel⟩
  maybeThreshold := ⟨45 / 100, by decide +kernel⟩
  unknownFeatureValue := ⟨1 / 2, by decide +kernel⟩
  onLocationMismatch := .reject
  onEmploymentTypeMismatch := .reject
  onLevelMismatch := .cap
  onBlockingRequirement := .cap
  cappedScore := ⟨1 / 2, by decide +kernel⟩
  thresholds_ordered := by decide +kernel
  capped_below_apply := by decide +kernel

def resumeRecord (id : NonBlank) : EvidenceRecord where
  evidenceId := id
  sourceType := .resume
  text := ⟨"Built APIs", by decide +kernel⟩

def firstId : NonBlank := ⟨"r1", by decide +kernel⟩
def secondId : NonBlank := ⟨"r2", by decide +kernel⟩

def claimOf (requirement id : String) (strength : MatchStrength) : ClaimedMatch where
  requirement
  evidenceId := some id
  strength
  rationale := none

/-- Three strong claims that cite one record, and a weak one that cites another. -/
def acmeAssessment : SemanticAssessment where
  matchedRequirements := [claimOf "Python" "r1" .strong, claimOf "Django" "r1" .strong,
    claimOf "SQL" "r1" .strong, claimOf "Kafka" "r2" .weak]
  missingRequirements := []
  risks := []
  tailoringSuggestions := []

/-- The claims, and one that cites a record that there is not. -/
def acmeClaimsWithRust : List ClaimedMatch :=
  claimOf "Rust" "r9" .strong :: acmeAssessment.matchedRequirements

def acmeMatcher : HybridJobMatcher Unit where
  loadEvidence _ := [resumeRecord firstId, resumeRecord secondId]
  assess _ _ _ := some acmeAssessment
  config := defaultConfig

theorem grounding_conserves_claims_acme :
    ∃ verdict, acmeMatcher.matchPosting acmeTools acmeEngineer openProfile = .ok verdict ∧
      verdict.ensureGroundedIn ["r1", "r2"] = .ok () := by
  obtain ⟨_, verdict, -, -, hok, -⟩ :=
    acmeMatcher.matchPosting_answering acmeTools acmeEngineer openProfile acmeAssessment rfl
  exact ⟨verdict, hok, grounding_conserves_claims.2 _ _ acmeMatcher _ _ _ hok⟩

theorem unbacked_claims_never_help_acme :
    ∃ verdict verdict', acmeMatcher.matchPosting acmeTools acmeEngineer openProfile = .ok verdict ∧
      (acmeMatcher.answering { acmeAssessment with matchedRequirements := acmeClaimsWithRust }).matchPosting
        acmeTools acmeEngineer openProfile = .ok verdict' ∧
      verdict'.score.val ≤ verdict.score.val ∧
      verdict'.recommendation.level ≤ verdict.recommendation.level ∧
      (∀ item ∈ verdict'.constraints, ∀ cap ∈ item.cap, verdict'.score.val ≤ cap.val) ∧
      verdict'.score.val ≤ verdict'.weightedScore.val :=
  unbacked_claims_never_help acmeTools acmeMatcher acmeEngineer openProfile acmeAssessment
    [claimOf "Rust" "r9" .strong] acmeClaimsWithRust (List.perm_append_singleton _ _).symm
    (by decide +kernel)

theorem lost_citations_cost_iff_acme :
    ∃ grounded grounded' verdict verdict',
      groundAssessment acmeAssessment [resumeRecord firstId, resumeRecord secondId] = .ok grounded ∧
      groundAssessment acmeAssessment [resumeRecord secondId] = .ok grounded' ∧
      ((acmeMatcher.answering acmeAssessment).loading
        [resumeRecord firstId, resumeRecord secondId]).matchPosting acmeTools acmeEngineer openProfile =
          .ok verdict ∧
      ((acmeMatcher.answering acmeAssessment).loading [resumeRecord secondId]).matchPosting acmeTools
        acmeEngineer openProfile = .ok verdict' ∧
      ((semanticValue grounded' ≤ semanticValue grounded ∧
          valueOf verdict'.components "semantic" ≤ valueOf verdict.components "semantic" ∧
          verdict'.score.val ≤ verdict.score.val) ↔
        LossCosts [resumeRecord firstId, resumeRecord secondId] [resumeRecord secondId] acmeAssessment) :=
  lost_citations_cost_iff acmeTools acmeMatcher acmeEngineer openProfile acmeAssessment _ _
    fun _ hrecord => List.mem_cons_of_mem _ hrecord

/-- Without the record that the weak claim cites, the semantic component rises from 0.825 to 0.8333,
and the score from 0.7888 to 0.7917. -/
theorem lost_weak_citation_raises_score :
    ¬ ∀ (tools : TextTools) (matcher : HybridJobMatcher Unit) (posting : NormalizedPosting Unit)
      (profile : SearchProfile) (assessment : SemanticAssessment) (evidence fewer : List EvidenceRecord),
      (∀ record ∈ fewer, record ∈ evidence) → ∀ verdict verdict',
      ((matcher.answering assessment).loading evidence).matchPosting tools posting profile = .ok verdict →
      ((matcher.answering assessment).loading fewer).matchPosting tools posting profile = .ok verdict' →
      valueOf verdict'.components "semantic" ≤ valueOf verdict.components "semantic" ∧
        verdict'.score.val ≤ verdict.score.val := by
  intro h
  obtain ⟨_, verdict, -, -, hok, -⟩ := acmeMatcher.matchPosting_answering acmeTools acmeEngineer
    openProfile acmeAssessment rfl
  obtain ⟨_, verdict', -, -, hok', -⟩ := (acmeMatcher.loading [resumeRecord firstId]).matchPosting_answering
    acmeTools acmeEngineer openProfile acmeAssessment rfl
  obtain ⟨-, hle⟩ := h acmeTools acmeMatcher acmeEngineer openProfile acmeAssessment
    [resumeRecord firstId, resumeRecord secondId] [resumeRecord firstId] (by decide +kernel) verdict verdict'
    hok hok'
  have hscore : (acmeMatcher.matchPosting acmeTools acmeEngineer openProfile).toOption.map (·.score.val) =
      some (7888 / 10000) := by decide +kernel
  have hscore' : ((acmeMatcher.loading [resumeRecord firstId]).matchPosting acmeTools acmeEngineer
      openProfile).toOption.map (·.score.val) = some (7917 / 10000) := by decide +kernel
  have hverdict : verdict.score.val = 7888 / 10000 :=
    Option.some.inj ((congrArg (fun answer => answer.toOption.map (·.score.val)) hok).symm.trans hscore)
  have hverdict' : verdict'.score.val = 7917 / 10000 :=
    Option.some.inj ((congrArg (fun answer => answer.toOption.map (·.score.val)) hok').symm.trans hscore')
  rw [hverdict, hverdict'] at hle
  norm_num at hle

end PersonalOS.Matching
