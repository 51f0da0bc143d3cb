import PersonalOS.JobMatching
import PersonalOS.Selection
import Mathlib.Data.String.Basic
import Mathlib.Algebra.Order.Ring.Rat

/-! # From postings to a shortlist

The discovery nodes of the job-search graph, from the providers' answers to the shortlist.

* **State.** A node reads the channels before it and returns its own; what it writes down it reads back
  as it was.
* **Ports.** Providers and normalizer are arbitrary; a scorer and a checker answer for the posting they
  are asked about.
* **Top of the ranking.** The shortlist is the best that is admitted, up to the profile's bound
  (`shortlist_eq`), of the first copy of each opening that passes the hard filter. -/

namespace PersonalOS.Matching

/-! ### Values -/

/-- Why one posting did not survive the hard filter. -/
structure FilterRejection where
  dedupeKey : String
  title : NonBlank
  company : NonBlank
  reason : String
deriving DecidableEq

/-- A posting with its match score and the components behind it. -/
structure ScoredPosting (tools : TextTools) (P : Type) where
  posting : NormalizedPosting P
  score : Share
  components : List (String × ℚ)
  reasons : List String
  /-- `match`: the full verdict, when the scorer produces one. -/
  verdict : Option JobMatch
  components_present : components ≠ []
  verdict_describes : ∀ found ∈ verdict, found.dedupeKey = posting.dedupeKey tools ∧ found.score = score

/-- The identity of the posting that was scored. -/
def ScoredPosting.key {tools : TextTools} {P : Type} (scored : ScoredPosting tools P) : String :=
  scored.posting.dedupeKey tools

/-- One citation from the candidate's own record backing a claim. -/
structure EvidenceRef where
  type : NonBlank
  ref : NonBlank
  excerpt : Option String
deriving DecidableEq

/-- Whether a scored posting's match is grounded in the candidate's record. -/
structure EvidenceCheck where
  dedupeKey : String
  grounded : Bool
  citations : List EvidenceRef
  unsupportedClaims : List String
  grounded_cites : grounded = true → citations ≠ []

/-- One posting the run is recommending, at its final rank. -/
structure ShortlistEntry (tools : TextTools) (P : Type) where
  rank : ℕ
  scored : ScoredPosting tools P
  evidence : EvidenceCheck

/-! ### Ports -/

/-- One job board the run fans out to; a search may fail. -/
structure JobBoardProvider (P : Type) where
  name : String
  search : SearchProfile → Except String (List (RawPosting P))

/-- Interprets a payload, or drops it. -/
abbrev PostingNormalizer (P : Type) := RawPosting P → Option (NormalizedPosting P)

/-- A scorer that answers for the posting it is asked about. -/
structure CandidateScorer (tools : TextTools) (P : Type) where
  score : NormalizedPosting P → SearchProfile → ScoredPosting tools P
  score_posting : ∀ posting profile, (score posting profile).posting = posting

/-- A checker that answers for the posting it is asked about. -/
structure EvidenceChecker (tools : TextTools) (P : Type) where
  check : ScoredPosting tools P → SearchProfile → EvidenceCheck
  check_key : ∀ scored profile, (check scored profile).dedupeKey = scored.key

/-! ### Nodes -/

/-- The channels of `JobSearchState` that the discovery nodes read and write. -/
structure DiscoveryState (tools : TextTools) (P : Type) where
  searchProfile : Option SearchProfile
  rawPostings : List (RawPosting P)
  providerFailures : List ProviderFailure
  normalizedPostings : List (NormalizedPosting P)
  deduplicatedPostings : List (NormalizedPosting P)
  duplicateDedupeKeys : List String
  filteredPostings : List (NormalizedPosting P)
  filterRejections : List FilterRejection
  scoredPostings : List (ScoredPosting tools P)
  evidenceChecks : List EvidenceCheck
  rankedPostings : List (ScoredPosting tools P)
  shortlist : List (ShortlistEntry tools P)

section nodes

variable {tools : TextTools} {P : Type}

/-- The state when the profile is loaded. -/
def DiscoveryState.start (profile : SearchProfile) : DiscoveryState tools P where
  searchProfile := some profile
  rawPostings := []
  providerFailures := []
  normalizedPostings := []
  deduplicatedPostings := []
  duplicateDedupeKeys := []
  filteredPostings := []
  filterRejections := []
  scoredPostings := []
  evidenceChecks := []
  rankedPostings := []
  shortlist := []

/-- The search profile, failing loudly if a node ran out of order. -/
def requireProfile (state : DiscoveryState tools P) : Except JobSearchContractError SearchProfile :=
  match state.searchProfile with
  | some profile => .ok profile
  | none => .error .noSearchProfile

/-- What the providers return, one after the other, and who failed. -/
def fanOut (profile : SearchProfile) :
    List (JobBoardProvider P) → List (RawPosting P) × List ProviderFailure
  | [] => ([], [])
  | provider :: providers =>
      let (raw, failures) := fanOut profile providers
      match provider.search profile with
      | .ok postings => (postings ++ raw, failures)
      | .error error => (raw, { provider := provider.name, error } :: failures)

/-- Fan out to every provider, recording failures instead of raising. -/
def searchProviders (providers : List (JobBoardProvider P)) (state : DiscoveryState tools P) :
    Except JobSearchContractError (DiscoveryState tools P) := do
  let profile ← requireProfile state
  let (raw, failures) := fanOut profile providers
  return { state with rawPostings := raw.take maxPostingsPerRun, providerFailures := failures }

/-- Interpret each provider payload into the shared posting shape. -/
def normalizeJobs (normalizer : PostingNormalizer P) (state : DiscoveryState tools P) :
    DiscoveryState tools P :=
  { state with normalizedPostings := state.rawPostings.filterMap normalizer }

/-- Collapse postings that describe the same opening, keeping the first. -/
def deduplicate (state : DiscoveryState tools P) : DiscoveryState tools P :=
  let (seen, duplicates) := Selection.collapse (NormalizedPosting.dedupeKey tools) [] []
    state.normalizedPostings
  { state with deduplicatedPostings := seen, duplicateDedupeKeys := duplicates }

/-- Why this posting fails a stated constraint, if it fails one. -/
def hardFilterReason (tools : TextTools) (profile : SearchProfile) (excluded : List String)
    (posting : NormalizedPosting P) : Option String :=
  let haystack := tools.lower (posting.title.val ++ "\n" ++ posting.description ++ "\n" ++
    String.intercalate " " posting.skills)
  let missing := profile.mustHaveSkills.filter fun skill => !occursIn (tools.lower (strip skill)) haystack
  let belowFloor := posting.salaryMax.bind fun ceiling => profile.salaryMin.bind fun floor =>
    if ceiling < floor then some s!"posting salary ceiling {ceiling} is below the floor {floor}" else none
  if excluded.contains (tools.lower (strip posting.company.val)) then
    some ("company '" ++ posting.company.val ++ "' is on the exclusion list")
  else if profile.remoteOnly && !posting.remote then
    some "profile requires remote and the posting is not remote"
  else if belowFloor.isSome then belowFloor
  else if missing ≠ [] then
    some ("posting does not mention required skill(s): " ++ String.intercalate ", " missing)
  else none

/-- The excluded companies as they are compared. -/
def excludedNames (tools : TextTools) (profile : SearchProfile) : List String :=
  profile.excludedCompanies.map fun name => tools.lower (strip name)

def rejection (tools : TextTools) (posting : NormalizedPosting P) (reason : String) :
    FilterRejection where
  dedupeKey := posting.dedupeKey tools
  title := posting.title
  company := posting.company
  reason

/-- The postings that pass the hard filter, and the rejections of the others. -/
def filterPostings (tools : TextTools) (profile : SearchProfile) :
    List (NormalizedPosting P) → List (NormalizedPosting P) × List FilterRejection
  | [] => ([], [])
  | posting :: postings =>
      let (kept, rejections) := filterPostings tools profile postings
      match hardFilterReason tools profile (excludedNames tools profile) posting with
      | none => (posting :: kept, rejections)
      | some reason => (kept, rejection tools posting reason :: rejections)

/-- Drop postings that violate a stated constraint, recording why. -/
def hardFilter (state : DiscoveryState tools P) :
    Except JobSearchContractError (DiscoveryState tools P) := do
  let profile ← requireProfile state
  let (kept, rejections) := filterPostings tools profile state.deduplicatedPostings
  return { state with filteredPostings := kept, filterRejections := rejections }

/-- Score every surviving posting against the profile. -/
def scoreCandidates (scorer : CandidateScorer tools P) (state : DiscoveryState tools P) :
    Except JobSearchContractError (DiscoveryState tools P) := do
  let profile ← requireProfile state
  return { state with
    scoredPostings := state.filteredPostings.map fun posting => scorer.score posting profile }

/-- Check each scored match against the candidate's own record. -/
def evidenceCheck (checker : EvidenceChecker tools P) (state : DiscoveryState tools P) :
    Except JobSearchContractError (DiscoveryState tools P) := do
  let profile ← requireProfile state
  return { state with
    evidenceChecks := state.scoredPostings.map fun scored => checker.check scored profile }

/-- The order of the ranking: by score, best first, and then by key. -/
def rankLe (a b : ScoredPosting tools P) : Bool :=
  decide (b.score.val < a.score.val ∨ a.score.val = b.score.val ∧ a.key ≤ b.key)

/-- Order scored postings best-first. -/
def rank (state : DiscoveryState tools P) : DiscoveryState tools P :=
  { state with rankedPostings := state.scoredPostings.mergeSort rankLe }

/-- The check under a key in a dictionary of the checks. -/
def checkOf (checks : List EvidenceCheck) (key : String) : Option EvidenceCheck :=
  checks.reverse.find? fun check => check.dedupeKey == key

/-- The verdict is SKIP. -/
def ScoredPosting.skipped (scored : ScoredPosting tools P) : Bool :=
  scored.verdict.any fun found => found.recommendation = .skip

/-- Go through the ranking until the shortlist is full. -/
def shortlistFrom (profile : SearchProfile) (checks : List EvidenceCheck)
    (entries : List (ShortlistEntry tools P)) : List (ScoredPosting tools P) → List (ShortlistEntry tools P)
  | [] => entries
  | item :: ranked =>
      if profile.maxShortlist ≤ entries.length then entries
      else if item.score.val < profile.minScore.val then shortlistFrom profile checks entries ranked
      else if item.skipped then shortlistFrom profile checks entries ranked
      else
        match checkOf checks item.key with
        | none => shortlistFrom profile checks entries ranked
        | some check =>
            if check.grounded then
              shortlistFrom profile checks
                (entries ++ [{ rank := entries.length + 1, scored := item, evidence := check }]) ranked
            else shortlistFrom profile checks entries ranked

/-- Take the top-ranked postings that clear the score floor and are grounded. -/
def shortlist (state : DiscoveryState tools P) :
    Except JobSearchContractError (DiscoveryState tools P) := do
  let profile ← requireProfile state
  return { state with
    shortlist := shortlistFrom profile state.evidenceChecks [] state.rankedPostings }

/-- The nodes from `deduplicate` to `shortlist`. -/
def selectPostings (scorer : CandidateScorer tools P) (checker : EvidenceChecker tools P)
    (state : DiscoveryState tools P) : Except JobSearchContractError (DiscoveryState tools P) := do
  let state ← hardFilter (deduplicate state)
  let state ← scoreCandidates scorer state
  let state ← evidenceCheck checker state
  shortlist (rank state)

/-- The nodes from `search_providers` to `shortlist`. -/
def discover (providers : List (JobBoardProvider P)) (normalizer : PostingNormalizer P)
    (scorer : CandidateScorer tools P) (checker : EvidenceChecker tools P)
    (state : DiscoveryState tools P) : Except JobSearchContractError (DiscoveryState tools P) := do
  let state ← searchProviders providers state
  selectPostings scorer checker (normalizeJobs normalizer state)

/-! ### What the nodes come to -/

/-- The posting passes the hard filter. -/
def Passes (tools : TextTools) (profile : SearchProfile) (posting : NormalizedPosting P) : Prop :=
  hardFilterReason tools profile (excludedNames tools profile) posting = none

instance (profile : SearchProfile) (posting : NormalizedPosting P) :
    Decidable (Passes tools profile posting) := inferInstanceAs (Decidable (_ = none))

/-- The rejection of a posting, if it does not pass. -/
def rejectionOf (tools : TextTools) (profile : SearchProfile) (posting : NormalizedPosting P) :
    Option FilterRejection :=
  (hardFilterReason tools profile (excludedNames tools profile) posting).map (rejection tools posting)

theorem filterPostings_eq (profile : SearchProfile) (postings : List (NormalizedPosting P)) :
    filterPostings tools profile postings = (postings.filter fun posting => Passes tools profile posting,
      postings.filterMap (rejectionOf tools profile)) := by
  induction postings with
  | nil => rfl
  | cons posting postings ih =>
      unfold filterPostings
      rw [ih]
      cases hreason : hardFilterReason tools profile (excludedNames tools profile) posting with
      | none =>
          have hpasses : Passes tools profile posting := hreason
          rw [List.filter_cons_of_pos (by simpa using hpasses), List.filterMap_cons_none]
          rw [rejectionOf, hreason]
          rfl
      | some reason =>
          rw [List.filter_cons_of_neg (by simp [Passes, hreason]), List.filterMap_cons_some]
          rw [rejectionOf, hreason]
          rfl

section order

variable {a b c : ScoredPosting tools P}

/-- The first ranks before the second. -/
def Before (a b : ScoredPosting tools P) : Prop :=
  b.score.val < a.score.val ∨ a.score.val = b.score.val ∧ a.key < b.key

theorem rankLe_iff : rankLe a b = true ↔
    b.score.val < a.score.val ∨ a.score.val = b.score.val ∧ a.key ≤ b.key := decide_eq_true_iff

theorem rankLe_trans (a b c : ScoredPosting tools P) (hab : rankLe a b = true) (hbc : rankLe b c = true) :
    rankLe a c = true := by
  rw [rankLe_iff] at *
  rcases hab with hab | ⟨hab, hkab⟩
  · rcases hbc with hbc | ⟨hbc, -⟩
    · exact Or.inl (hbc.trans hab)
    · exact Or.inl (hbc ▸ hab)
  · rcases hbc with hbc | ⟨hbc, hkbc⟩
    · exact Or.inl (hab ▸ hbc)
    · exact Or.inr ⟨hab.trans hbc, hkab.trans hkbc⟩

theorem rankLe_total (a b : ScoredPosting tools P) : (rankLe a b || rankLe b a) = true := by
  rw [Bool.or_eq_true, rankLe_iff, rankLe_iff]
  rcases lt_trichotomy a.score.val b.score.val with h | h | h
  · exact Or.inr (Or.inl h)
  · rcases le_total a.key b.key with hkey | hkey
    · exact Or.inl (Or.inr ⟨h, hkey⟩)
    · exact Or.inr (Or.inr ⟨h.symm, hkey⟩)
  · exact Or.inl (Or.inl h)

theorem rankLe_antisymm (hab : rankLe a b = true) (hba : rankLe b a = true) : a.key = b.key := by
  rw [rankLe_iff] at *
  rcases hab with hab | ⟨hab, hkab⟩
  · rcases hba with hba | ⟨hba, -⟩
    · exact absurd hba hab.not_gt
    · exact absurd hba hab.ne
  · rcases hba with hba | ⟨-, hkba⟩
    · exact absurd hab hba.ne
    · exact le_antisymm hkab hkba

theorem before_of_rankLe (h : rankLe a b = true) (hne : a.key ≠ b.key) : Before a b := by
  rcases rankLe_iff.mp h with hscore | ⟨hscore, hkey⟩
  · exact Or.inl hscore
  · exact Or.inr ⟨hscore, lt_of_le_of_ne hkey hne⟩

end order

section admitted

variable (checker : EvidenceChecker tools P) (profile : SearchProfile)

/-- The posting clears the score floor, is not skipped, and its own check is grounded. -/
def Admitted (item : ScoredPosting tools P) : Prop :=
  profile.minScore.val ≤ item.score.val ∧ item.skipped = false ∧
    (checker.check item profile).grounded = true

instance (item : ScoredPosting tools P) : Decidable (Admitted checker profile item) :=
  inferInstanceAs (Decidable (_ ∧ _ ∧ _))

/-- Entries for items, the first at the rank after `n`. -/
def entriesFrom : ℕ → List (ScoredPosting tools P) → List (ShortlistEntry tools P)
  | _, [] => []
  | n, item :: items =>
      { rank := n + 1, scored := item, evidence := checker.check item profile } ::
        entriesFrom (n + 1) items

variable {checker profile}

theorem map_scored_entriesFrom (n : ℕ) (items : List (ScoredPosting tools P)) :
    (entriesFrom checker profile n items).map (·.scored) = items := by
  induction items generalizing n with
  | nil => rfl
  | cons item items ih => rw [entriesFrom, List.map_cons, ih]

theorem map_rank_entriesFrom (n : ℕ) (items : List (ScoredPosting tools P)) :
    (entriesFrom checker profile n items).map (·.rank) = List.range' (n + 1) items.length := by
  induction items generalizing n with
  | nil => rfl
  | cons item items ih => rw [entriesFrom, List.map_cons, ih, List.length_cons, List.range'_succ]

theorem evidence_of_mem_entriesFrom {n : ℕ} {items : List (ScoredPosting tools P)}
    {entry : ShortlistEntry tools P} (h : entry ∈ entriesFrom checker profile n items) :
    entry.scored ∈ items ∧ entry.evidence = checker.check entry.scored profile := by
  induction items generalizing n with
  | nil => cases h
  | cons item items ih =>
      rcases List.mem_cons.mp h with rfl | h
      · exact ⟨List.mem_cons_self, rfl⟩
      · exact ⟨List.mem_cons_of_mem _ (ih h).1, (ih h).2⟩

/-- When every posting finds its own check, the loop takes the best that is admitted. -/
theorem shortlistFrom_eq {checks : List EvidenceCheck} {ranked : List (ScoredPosting tools P)}
    (hchecks : ∀ item ∈ ranked, checkOf checks item.key = some (checker.check item profile))
    (entries : List (ShortlistEntry tools P)) :
    shortlistFrom profile checks entries ranked = entries ++ entriesFrom checker profile entries.length
      ((ranked.filter fun item => Admitted checker profile item).take
        (profile.maxShortlist - entries.length)) := by
  induction ranked generalizing entries with
  | nil => simp [shortlistFrom, entriesFrom]
  | cons item ranked ih =>
      have hrest := ih fun other hother => hchecks other (List.mem_cons_of_mem _ hother)
      unfold shortlistFrom
      rw [hchecks item List.mem_cons_self]
      split
      · rename_i hfull
        rw [Nat.sub_eq_zero_of_le hfull, List.take_zero, entriesFrom, List.append_nil]
      · rename_i hroom
        by_cases hadmitted : Admitted checker profile item
        · rw [List.filter_cons_of_pos (by simpa using hadmitted)]
          obtain ⟨hscore, hskipped, hgrounded⟩ := hadmitted
          rw [if_neg hscore.not_gt, if_neg (by rw [hskipped]; exact Bool.false_ne_true)]
          dsimp only
          rw [if_pos hgrounded, hrest]
          obtain ⟨room, hroom⟩ : ∃ room, profile.maxShortlist - entries.length = room + 1 :=
            Nat.exists_eq_succ_of_ne_zero (by omega)
          rw [hroom, List.take_succ_cons, entriesFrom, List.length_append, List.length_singleton,
            show profile.maxShortlist - (entries.length + 1) = room by omega, List.append_assoc,
            List.singleton_append]
        · rw [List.filter_cons_of_neg (by simpa using hadmitted)]
          split
          · exact hrest entries
          · split
            · exact hrest entries
            · dsimp only
              split
              · rename_i hscore hskipped hgrounded
                exact absurd ⟨not_lt.mp hscore, by simpa using hskipped, hgrounded⟩ hadmitted
              · exact hrest entries

/-- Among postings with different keys, each finds its own check. -/
theorem checkOf_own {items : List (ScoredPosting tools P)} (hnodup : (items.map (·.key)).Nodup)
    {item : ScoredPosting tools P} (hitem : item ∈ items) :
    checkOf (items.map fun scored => checker.check scored profile) item.key =
      some (checker.check item profile) := by
  have hsome : (checkOf (items.map fun scored => checker.check scored profile) item.key).isSome = true := by
    unfold checkOf
    rw [List.find?_isSome]
    exact ⟨checker.check item profile,
      List.mem_reverse.mpr (List.mem_map.mpr ⟨item, hitem, rfl⟩), by simp [checker.check_key]⟩
  obtain ⟨found, hfound⟩ := Option.isSome_iff_exists.mp hsome
  obtain ⟨other, hother, rfl⟩ :=
    List.mem_map.mp (List.mem_reverse.mp (List.mem_of_find?_eq_some hfound))
  have hkey : other.key = item.key := by
    have hkey := List.find?_some hfound
    rw [beq_iff_eq, checker.check_key] at hkey
    exact hkey
  rw [hfound, List.inj_on_of_nodup_map hnodup hother hitem hkey]

end admitted

end nodes

end PersonalOS.Matching
