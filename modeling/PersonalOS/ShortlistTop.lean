import PersonalOS.Shortlist

/-! # The shortlist is the top of the ranking

What `deduplicate` to `shortlist` leave in the state.

* **Ranking.** The kept postings, scored and sorted, have different keys, so each comes before the next
  (`ranking_before`).
* **Top.** The entries are the first of the ranking that are admitted; what is admitted and not among
  them comes after all of them, and then the shortlist is full (`TrueTop.complete`). -/

namespace PersonalOS.Matching

section selection

variable {tools : TextTools} {P : Type} {scorer : CandidateScorer tools P}
variable {checker : EvidenceChecker tools P} {profile : SearchProfile}
variable {postings : List (NormalizedPosting P)}

/-- The first copies of openings. -/
def openings (tools : TextTools) (postings : List (NormalizedPosting P)) : List (NormalizedPosting P) :=
  Selection.firsts (NormalizedPosting.dedupeKey tools) postings

/-- The openings that pass the hard filter. -/
def kept (tools : TextTools) (profile : SearchProfile) (postings : List (NormalizedPosting P)) :
    List (NormalizedPosting P) :=
  (openings tools postings).filter fun posting => Passes tools profile posting

/-- The kept postings with their scores, best first. -/
def ranking (scorer : CandidateScorer tools P) (profile : SearchProfile)
    (postings : List (NormalizedPosting P)) : List (ScoredPosting tools P) :=
  ((kept tools profile postings).map fun posting => scorer.score posting profile).mergeSort rankLe

/-- The best of the ranking that is admitted, up to the bound. -/
def top (scorer : CandidateScorer tools P) (checker : EvidenceChecker tools P) (profile : SearchProfile)
    (postings : List (NormalizedPosting P)) : List (ScoredPosting tools P) :=
  ((ranking scorer profile postings).filter fun item => Admitted checker profile item).take
    profile.maxShortlist

theorem kept_nodup : ((kept tools profile postings).map (NormalizedPosting.dedupeKey tools)).Nodup :=
  Selection.nodup_firsts.sublist (List.filter_sublist.map _)

theorem map_key_scored (postings : List (NormalizedPosting P)) :
    (postings.map fun posting => scorer.score posting profile).map (·.key) =
      postings.map (NormalizedPosting.dedupeKey tools) := by
  rw [List.map_map]
  apply List.map_congr_left
  intro posting _
  exact congrArg (NormalizedPosting.dedupeKey tools) (scorer.score_posting posting profile)

theorem scored_nodup :
    (((kept tools profile postings).map fun posting => scorer.score posting profile).map (·.key)).Nodup := by
  rw [map_key_scored]
  exact kept_nodup

theorem ranking_nodup : ((ranking scorer profile postings).map (·.key)).Nodup :=
  ((List.mergeSort_perm _ _).map _).nodup_iff.mpr scored_nodup

theorem mem_ranking {item : ScoredPosting tools P} : item ∈ ranking scorer profile postings ↔
    ∃ posting ∈ kept tools profile postings, scorer.score posting profile = item := by
  unfold ranking
  rw [List.mem_mergeSort, List.mem_map]

/-- Each posting of the ranking comes before the next. -/
theorem ranking_before : (ranking scorer profile postings).Pairwise Before := by
  have hle := List.pairwise_mergeSort rankLe_trans rankLe_total
    ((kept tools profile postings).map fun posting => scorer.score posting profile)
  have hne : (ranking scorer profile postings).Pairwise fun a b => a.key ≠ b.key :=
    List.pairwise_map.mp ranking_nodup
  exact (hle.and hne).imp fun h => before_of_rankLe h.1 h.2

/-- What the nodes leave in the state. -/
structure Selects (scorer : CandidateScorer tools P) (checker : EvidenceChecker tools P)
    (profile : SearchProfile) (postings : List (NormalizedPosting P)) (state : DiscoveryState tools P) :
    Prop where
  deduplicated : state.deduplicatedPostings = openings tools postings
  filtered : state.filteredPostings = kept tools profile postings
  rejections : state.filterRejections = (openings tools postings).filterMap (rejectionOf tools profile)
  entries : state.shortlist = entriesFrom checker profile 0 (top scorer checker profile postings)

variable (scorer checker) in
theorem selectPostings_selects (state : DiscoveryState tools P)
    (hprofile : state.searchProfile = some profile) :
    ∃ final, selectPostings scorer checker state = .ok final ∧
      Selects scorer checker profile state.normalizedPostings final := by
  have hchecks : ∀ item ∈ ranking scorer profile state.normalizedPostings,
      checkOf ((((kept tools profile state.normalizedPostings).map fun posting =>
        scorer.score posting profile)).map fun scored => checker.check scored profile) item.key =
        some (checker.check item profile) :=
    fun item hitem => checkOf_own scored_nodup (List.mem_mergeSort.mp hitem)
  have hshortlist := shortlistFrom_eq hchecks []
  refine ⟨{ state with
      deduplicatedPostings := openings tools state.normalizedPostings
      duplicateDedupeKeys := (Selection.collapse (NormalizedPosting.dedupeKey tools) [] []
        state.normalizedPostings).2
      filteredPostings := kept tools profile state.normalizedPostings
      filterRejections :=
        (openings tools state.normalizedPostings).filterMap (rejectionOf tools profile)
      scoredPostings := (kept tools profile state.normalizedPostings).map fun posting =>
        scorer.score posting profile
      evidenceChecks := ((kept tools profile state.normalizedPostings).map fun posting =>
        scorer.score posting profile).map fun scored => checker.check scored profile
      rankedPostings := ranking scorer profile state.normalizedPostings
      shortlist := shortlistFrom profile _ [] (ranking scorer profile state.normalizedPostings) },
    ?_, rfl, rfl, rfl, hshortlist⟩
  unfold selectPostings hardFilter scoreCandidates evidenceCheck shortlist requireProfile deduplicate rank
  simp only [hprofile, filterPostings_eq]
  rfl

/-! ### The true top -/

/-- The deduplicated postings are kept or rejected, and the shortlist is the best that is admitted. -/
structure TrueTop (scorer : CandidateScorer tools P) (checker : EvidenceChecker tools P)
    (profile : SearchProfile) (postings : List (NormalizedPosting P)) (state : DiscoveryState tools P) :
    Prop where
  /-- Each opening is there once, as the copy that comes first. -/
  openings : ∀ posting, posting ∈ state.deduplicatedPostings ↔
    (postings.find? fun other => other.dedupeKey tools = posting.dedupeKey tools) = some posting
  partition : (state.filteredPostings.map (NormalizedPosting.dedupeKey tools) ++
    state.filterRejections.map (·.dedupeKey)).Perm
      (state.deduplicatedPostings.map (NormalizedPosting.dedupeKey tools))
  passed : ∀ posting, posting ∈ state.filteredPostings ↔
    posting ∈ state.deduplicatedPostings ∧ Passes tools profile posting
  rejected : ∀ posting ∈ state.deduplicatedPostings, ¬Passes tools profile posting →
    ∃ reason, hardFilterReason tools profile (excludedNames tools profile) posting = some reason ∧
      rejection tools posting reason ∈ state.filterRejections
  distinct : (state.shortlist.map (·.scored.key)).Nodup
  ranks : state.shortlist.map (·.rank) = List.range' 1 state.shortlist.length
  bound : state.shortlist.length ≤ profile.maxShortlist
  ordered : state.shortlist.Pairwise fun a b => Before a.scored b.scored
  /-- An entry is a posting that passed, with its score, no SKIP, and its own check, grounded. -/
  sound : ∀ entry ∈ state.shortlist, entry.scored.posting ∈ state.filteredPostings ∧
    entry.scored = scorer.score entry.scored.posting profile ∧
    profile.minScore.val ≤ entry.scored.score.val ∧ entry.scored.skipped = false ∧
    entry.evidence = checker.check entry.scored profile ∧ entry.evidence.grounded = true ∧
    entry.evidence.dedupeKey = entry.scored.key
  complete : ∀ posting ∈ state.filteredPostings,
    Admitted checker profile (scorer.score posting profile) →
    scorer.score posting profile ∉ state.shortlist.map (·.scored) →
    state.shortlist.length = profile.maxShortlist ∧
      ∀ entry ∈ state.shortlist, Before entry.scored (scorer.score posting profile)

theorem keys_partition (postings : List (NormalizedPosting P)) :
    ((postings.filter fun posting => Passes tools profile posting).map (NormalizedPosting.dedupeKey tools) ++
      (postings.filterMap (rejectionOf tools profile)).map (·.dedupeKey)).Perm
        (postings.map (NormalizedPosting.dedupeKey tools)) := by
  have hrejected : (postings.filterMap (rejectionOf tools profile)).map (·.dedupeKey) =
      (postings.filter fun posting => !decide (Passes tools profile posting)).map
        (NormalizedPosting.dedupeKey tools) := by
    induction postings with
    | nil => rfl
    | cons posting postings ih =>
        cases hreason : hardFilterReason tools profile (excludedNames tools profile) posting with
        | none =>
            have hpasses : Passes tools profile posting := hreason
            rw [List.filterMap_cons_none (by rw [rejectionOf, hreason]; rfl), ih,
              List.filter_cons_of_neg (by simpa using hpasses)]
        | some reason =>
            have hpasses : ¬Passes tools profile posting := by simp [Passes, hreason]
            rw [List.filterMap_cons_some (by rw [rejectionOf, hreason]; rfl), List.map_cons, ih,
              List.filter_cons_of_pos (by simpa using hpasses), List.map_cons]
            rfl
  rw [hrejected, ← List.map_append]
  exact (List.filter_append_perm _ postings).map _

variable {state : DiscoveryState tools P}

theorem Selects.map_scored (h : Selects scorer checker profile postings state) :
    state.shortlist.map (·.scored) = top scorer checker profile postings := by
  rw [h.entries, map_scored_entriesFrom]

theorem Selects.length_shortlist (h : Selects scorer checker profile postings state) :
    state.shortlist.length = (top scorer checker profile postings).length := by
  rw [← h.map_scored, List.length_map]

variable (scorer checker profile postings) in
theorem top_sublist : (top scorer checker profile postings).Sublist (ranking scorer profile postings) :=
  (List.take_sublist _ _).trans List.filter_sublist

theorem Selects.trueTop (h : Selects scorer checker profile postings state) :
    TrueTop scorer checker profile postings state := by
  have hmem : ∀ entry ∈ state.shortlist, entry.scored ∈ top scorer checker profile postings ∧
      entry.evidence = checker.check entry.scored profile := by
    intro entry hentry
    rw [h.entries] at hentry
    exact evidence_of_mem_entriesFrom hentry
  constructor
  case openings =>
      intro posting
      rw [h.deduplicated]
      exact Selection.mem_firsts
  case partition =>
      rw [h.filtered, h.rejections, h.deduplicated]
      exact keys_partition _
  case passed =>
      intro posting
      rw [h.filtered, h.deduplicated, kept, List.mem_filter, decide_eq_true_iff]
  case rejected =>
      intro posting hposting hfails
      obtain ⟨reason, hreason⟩ := Option.ne_none_iff_exists'.mp hfails
      refine ⟨reason, hreason, ?_⟩
      rw [h.rejections]
      rw [h.deduplicated] at hposting
      exact List.mem_filterMap.mpr ⟨posting, hposting, by rw [rejectionOf, hreason]; rfl⟩
  case distinct =>
      have hnodup := ranking_nodup.sublist
        ((top_sublist scorer checker profile postings).map (·.key))
      rw [← h.map_scored, List.map_map] at hnodup
      exact hnodup
  case ranks =>
      rw [h.entries, map_rank_entriesFrom, ← h.length_shortlist, ← h.entries]
  case bound =>
      rw [h.length_shortlist]
      exact List.length_take_le _ _
  case ordered =>
      have hpairwise := ranking_before.sublist (top_sublist scorer checker profile postings)
      rw [← h.map_scored] at hpairwise
      exact List.pairwise_map.mp hpairwise
  case sound =>
      intro entry hentry
      obtain ⟨htop, hevidence⟩ := hmem entry hentry
      obtain ⟨posting, hposting, hscore⟩ :=
        mem_ranking.mp ((top_sublist scorer checker profile postings).subset htop)
      have hsame : entry.scored.posting = posting := by rw [← hscore, scorer.score_posting]
      obtain ⟨hfloor, hskipped, hgrounded⟩ :=
        of_decide_eq_true (List.mem_filter.mp (List.mem_of_mem_take htop)).2
      rw [h.filtered, hevidence, hsame]
      exact ⟨hposting, hscore.symm, hfloor, hskipped, rfl, hgrounded, checker.check_key _ _⟩
  case complete =>
      intro posting hposting hadmitted hnot
      rw [h.filtered] at hposting
      rw [h.map_scored] at hnot
      have hranked : scorer.score posting profile ∈ (ranking scorer profile postings).filter
          fun item => Admitted checker profile item :=
        List.mem_filter.mpr ⟨mem_ranking.mpr ⟨posting, hposting, rfl⟩, decide_eq_true hadmitted⟩
      obtain ⟨hlength, hbefore⟩ :=
        Selection.after_take (ranking_before.sublist List.filter_sublist) hranked hnot
      exact ⟨h.length_shortlist.trans hlength, fun entry hentry => hbefore _ (hmem entry hentry).1⟩

/-- From any normalized postings, the nodes leave the true top of the ranking. -/
theorem shortlist_is_top (scorer : CandidateScorer tools P) (checker : EvidenceChecker tools P)
    (profile : SearchProfile) (postings : List (NormalizedPosting P)) :
    ∃ state, selectPostings scorer checker
        { DiscoveryState.start profile with normalizedPostings := postings } = .ok state ∧
      TrueTop scorer checker profile postings state := by
  obtain ⟨state, hok, hselects⟩ := selectPostings_selects scorer checker
    { DiscoveryState.start profile with normalizedPostings := postings } rfl
  exact ⟨state, hok, hselects.trueTop⟩

end selection

end PersonalOS.Matching
