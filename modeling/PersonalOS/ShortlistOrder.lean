import PersonalOS.ShortlistTop
import PersonalOS.MatchVerdicts

/-! # The order in which providers answer

What the shortlist takes from the order of the raw postings.

* **Kept postings.** The shortlist depends on which postings are kept, and not on their order
  (`top_congr`).
* **Copies.** Whatever the order, a scorer can put any kept posting first (`favouring`); so two orders
  have the same shortlists exactly if the same copies come first, among those that pass the hard filter
  (`same_shortlists_iff`). -/

namespace PersonalOS.Matching

section order

variable {tools : TextTools} {P : Type}

/-- The postings that the nodes select from: what the providers return, up to the bound, normalized. -/
def gathered (profile : SearchProfile) (normalizer : PostingNormalizer P)
    (providers : List (JobBoardProvider P)) : List (NormalizedPosting P) :=
  ((fanOut profile providers).1.take maxPostingsPerRun).filterMap normalizer

/-- The shortlist of a run. -/
def shortlistOf (profile : SearchProfile) (normalizer : PostingNormalizer P)
    (scorer : CandidateScorer tools P) (checker : EvidenceChecker tools P)
    (providers : List (JobBoardProvider P)) :
    Except JobSearchContractError (List (ShortlistEntry tools P)) :=
  (discover providers normalizer scorer checker (.start profile)).map (·.shortlist)

/-- The posting is the first copy of its opening among what is gathered. -/
def ComesFirst (tools : TextTools) (postings : List (NormalizedPosting P))
    (posting : NormalizedPosting P) : Prop :=
  (postings.find? fun other => other.dedupeKey tools = posting.dedupeKey tools) = some posting

/-- Of the openings that pass the hard filter, the same copies come first. -/
def SameCopies (tools : TextTools) (profile : SearchProfile)
    (postings postings' : List (NormalizedPosting P)) : Prop :=
  ∀ posting, Passes tools profile posting →
    (ComesFirst tools postings posting ↔ ComesFirst tools postings' posting)

variable {profile : SearchProfile} {normalizer : PostingNormalizer P}
variable {scorer : CandidateScorer tools P} {checker : EvidenceChecker tools P}
variable {postings postings' : List (NormalizedPosting P)}

theorem shortlistOf_eq (providers : List (JobBoardProvider P)) :
    shortlistOf profile normalizer scorer checker providers = .ok (entriesFrom checker profile 0
      (top scorer checker profile (gathered profile normalizer providers))) := by
  obtain ⟨final, hok, hselects⟩ := selectPostings_selects scorer checker (normalizeJobs normalizer
    { DiscoveryState.start profile with
      rawPostings := (fanOut profile providers).1.take maxPostingsPerRun
      providerFailures := (fanOut profile providers).2 }) rfl
  have hrun : discover providers normalizer scorer checker (.start profile) = .ok final := hok
  unfold shortlistOf
  rw [hrun]
  exact congrArg Except.ok hselects.entries

theorem mem_kept {posting : NormalizedPosting P} : posting ∈ kept tools profile postings ↔
    ComesFirst tools postings posting ∧ Passes tools profile posting := by
  unfold kept openings
  rw [List.mem_filter, Selection.mem_firsts, decide_eq_true_iff]
  rfl

/-- The top depends on which postings are kept. -/
theorem top_congr (h : ∀ posting, posting ∈ kept tools profile postings ↔
      posting ∈ kept tools profile postings') :
    top scorer checker profile postings = top scorer checker profile postings' := by
  have hperm : (kept tools profile postings).Perm (kept tools profile postings') :=
    Selection.perm_of_mem_iff kept_nodup kept_nodup h
  have hsorted : ranking scorer profile postings = ranking scorer profile postings' := by
    apply Selection.mergeSort_congr rankLe_trans rankLe_total (hperm.map _)
    intro a ha b hb hab hba
    exact List.inj_on_of_nodup_map scored_nodup ha hb (rankLe_antisymm hab hba)
  unfold top
  rw [hsorted]

/-! ### A scorer that favours one posting -/

theorem nothing_described {key : String} {score : Share} :
    ∀ found ∈ (none : Option JobMatch), found.dedupeKey = key ∧ found.score = score := by
  intro found hfound
  cases hfound

open Classical in
/-- One for the posting, zero for any other. -/
noncomputable def favouring (tools : TextTools) (posting : NormalizedPosting P) :
    CandidateScorer tools P where
  score other _ := {
    posting := other
    score := if other = posting then ⟨1, by norm_num⟩ else ⟨0, by norm_num⟩
    components := [("fit", 1)]
    reasons := []
    verdict := none
    components_present := List.cons_ne_nil _ _
    verdict_describes := nothing_described }
  score_posting _ _ := rfl

/-- Everything is grounded. -/
def trusting (tools : TextTools) (P : Type) : EvidenceChecker tools P where
  check scored _ := {
    dedupeKey := scored.key
    grounded := true
    citations := [{ type := firstId, ref := firstId, excerpt := none }]
    unsupportedClaims := []
    grounded_cites := fun _ => List.cons_ne_nil _ _ }
  check_key _ _ := rfl

theorem favouring_score_le {posting other : NormalizedPosting P} :
    ((favouring tools posting).score other profile).score.val ≤ 1 :=
  ((favouring tools posting).score other profile).score.property.2

theorem favouring_self (posting : NormalizedPosting P) :
    ((favouring tools posting).score posting profile).score.val = 1 := by
  simp [favouring]

theorem eq_of_favouring {posting other : NormalizedPosting P}
    (h : ((favouring tools posting).score other profile).score.val = 1) : other = posting := by
  by_contra hne
  simp [favouring, hne] at h

theorem favoured_mem_top {posting : NormalizedPosting P} (h : posting ∈ kept tools profile postings) :
    (favouring tools posting).score posting profile ∈
      top (favouring tools posting) (trusting tools P) profile postings := by
  have hranked : (favouring tools posting).score posting profile ∈
      (ranking (favouring tools posting) profile postings).filter
        fun item => Admitted (trusting tools P) profile item := by
    refine List.mem_filter.mpr ⟨mem_ranking.mpr ⟨posting, h, rfl⟩, decide_eq_true ⟨?_, rfl, rfl⟩⟩
    rw [favouring_self]
    exact profile.minScore.property.2
  by_contra hnot
  obtain ⟨hlength, hbefore⟩ :=
    Selection.after_take (ranking_before.sublist List.filter_sublist) hranked hnot
  -- The shortlist is not empty, and what is on it would come before the favoured posting.
  obtain ⟨item, hitem⟩ : ∃ item, item ∈ top (favouring tools posting) (trusting tools P) profile postings := by
    apply List.exists_mem_of_length_pos
    exact hlength.symm ▸ profile.maxShortlist_pos
  obtain ⟨other, -, rfl⟩ := mem_ranking.mp ((top_sublist _ _ _ _).subset hitem)
  rcases hbefore _ hitem with hscore | ⟨hscore, hkey⟩
  · rw [favouring_self] at hscore
    exact absurd favouring_score_le hscore.not_ge
  · rw [favouring_self] at hscore
    rw [eq_of_favouring hscore] at hkey
    exact lt_irrefl _ hkey

theorem kept_of_top_eq (h : ∀ scorer : CandidateScorer tools P, ∀ checker : EvidenceChecker tools P,
      top scorer checker profile postings = top scorer checker profile postings')
    {posting : NormalizedPosting P} (hposting : posting ∈ kept tools profile postings) :
    posting ∈ kept tools profile postings' := by
  have hmem := favoured_mem_top hposting
  rw [h] at hmem
  obtain ⟨other, hother, hscore⟩ := mem_ranking.mp ((top_sublist _ _ _ _).subset hmem)
  have hsame : other = posting := congrArg ScoredPosting.posting hscore
  exact hsame ▸ hother

/-- Two runs have the same shortlists, whatever scorer and checker, exactly if the same copies come
first among what passes the hard filter. -/
theorem same_shortlists_iff (tools : TextTools) (profile : SearchProfile)
    (normalizer : PostingNormalizer P) (providers providers' : List (JobBoardProvider P)) :
    (∀ (scorer : CandidateScorer tools P) (checker : EvidenceChecker tools P),
      shortlistOf profile normalizer scorer checker providers =
        shortlistOf profile normalizer scorer checker providers') ↔
    SameCopies tools profile (gathered profile normalizer providers)
      (gathered profile normalizer providers') := by
  constructor
  · intro h
    have htop : ∀ (scorer : CandidateScorer tools P) (checker : EvidenceChecker tools P),
        top scorer checker profile (gathered profile normalizer providers) =
          top scorer checker profile (gathered profile normalizer providers') := by
      intro scorer checker
      have hentries := h scorer checker
      rw [shortlistOf_eq, shortlistOf_eq] at hentries
      have hscored := congrArg (List.map (·.scored)) (Except.ok.inj hentries)
      rwa [map_scored_entriesFrom, map_scored_entriesFrom] at hscored
    intro posting hpasses
    constructor
    · intro hfirst
      exact (mem_kept.mp (kept_of_top_eq htop (mem_kept.mpr ⟨hfirst, hpasses⟩))).1
    · intro hfirst
      exact (mem_kept.mp (kept_of_top_eq (fun scorer checker => (htop scorer checker).symm)
        (mem_kept.mpr ⟨hfirst, hpasses⟩))).1
  · intro h scorer checker
    rw [shortlistOf_eq, shortlistOf_eq, top_congr]
    intro posting
    rw [mem_kept, mem_kept]
    exact and_congr_left fun hpasses => h posting hpasses

/-! ### A role on two boards -/

/-- The opening at Acme as a board has it, remote or not. -/
def crossPosted (remote : Bool) : NormalizedPosting Bool where
  source := "board"
  sourceJobId := none
  title := acmeEngineer.title
  company := acmeEngineer.company
  location := none
  url := none
  description := ""
  salaryMin := none
  salaryMax := none
  remote
  postedAt := none
  skills := []
  raw := remote

def remoteBoard (remote : Bool) : JobBoardProvider Bool where
  name := "board"
  search _ := .ok [{ provider := firstId, payload := remote }]

/-- Every posting fits perfectly. -/
def generous (tools : TextTools) (P : Type) : CandidateScorer tools P where
  score posting _ := {
    posting
    score := ⟨1, by norm_num⟩
    components := [("fit", 1)]
    reasons := []
    verdict := none
    components_present := List.cons_ne_nil _ _
    verdict_describes := nothing_described }
  score_posting _ _ := rfl

def remoteProfile : SearchProfile := { openProfile with remoteOnly := true }

/-- A role is on two boards, and one says that it is remote: which board answers first decides whether
it is on the shortlist of a candidate who works remotely only. -/
theorem cross_posted_role_depends_on_order :
    ¬ ∀ (tools : TextTools) (profile : SearchProfile) (normalizer : PostingNormalizer Bool)
      (scorer : CandidateScorer tools Bool) (checker : EvidenceChecker tools Bool)
      (providers providers' : List (JobBoardProvider Bool)), providers.Perm providers' →
      shortlistOf profile normalizer scorer checker providers =
        shortlistOf profile normalizer scorer checker providers' := by
  intro h
  have hsame := h acmeTools remoteProfile (fun raw => some (crossPosted raw.payload))
    (generous acmeTools Bool) (trusting acmeTools Bool) [remoteBoard true, remoteBoard false]
    [remoteBoard false, remoteBoard true] (List.Perm.swap _ _ _)
  have hkept : kept acmeTools remoteProfile (gathered remoteProfile
      (fun raw => some (crossPosted raw.payload)) [remoteBoard true, remoteBoard false]) =
        [crossPosted true] := by decide +kernel
  have hkept' : kept acmeTools remoteProfile (gathered remoteProfile
      (fun raw => some (crossPosted raw.payload)) [remoteBoard false, remoteBoard true]) = [] := by
    decide +kernel
  rw [shortlistOf_eq, shortlistOf_eq] at hsame
  have hlength := congrArg List.length (Except.ok.inj hsame)
  unfold top ranking at hlength
  rw [hkept, hkept', List.map_singleton, List.mergeSort_singleton, List.map_nil, List.mergeSort_nil]
    at hlength
  revert hlength
  decide +kernel

end order

end PersonalOS.Matching
