import PersonalOS.Correlations
import PersonalOS.ScoreLaws
import PersonalOS.Selection
import Mathlib.Algebra.BigOperators.Group.List.Lemmas

/-! # Laws of correlation

What `correlate_application` answers, of any candidates with ids of their own.

* **Confidence.** Further signals never lower it (`combined_mono`), and a single one is above the margin
  (`margin_le_combined`).
* **Ranks.** The order of the ranks is total on the candidates, so that the ranking is the same however
  they are listed (`ranked_congr`).
* **Decision.** `Decides`: who is matched, when there is nothing to match, and whom a reviewer is shown. -/

namespace PersonalOS

/-! ### Confidence -/

/-- What the signals leave to chance. -/
def missed (signals : List CorrelationSignal) : ℚ :=
  (signals.map fun signal => 1 - signalWeight signal).prod

theorem combined_eq (signals : List CorrelationSignal) :
    combined signals = Matching.round4 (1 - missed signals) := by
  have hfold : ∀ (signals : List CorrelationSignal) (miss : ℚ),
      signals.foldl (fun miss signal => miss * (1 - signalWeight signal)) miss = miss * missed signals := by
    intro signals
    induction signals with
    | nil => exact fun miss => (mul_one miss).symm
    | cons signal signals ih =>
        intro miss
        rw [List.foldl_cons, ih, missed, missed, List.map_cons, List.prod_cons, mul_assoc]
  rw [combined, hfold, one_mul]

theorem signalWeight_bounds (signal : CorrelationSignal) :
    0 ≤ 1 - signalWeight signal ∧ 1 - signalWeight signal ≤ 1 := by
  cases signal <;> norm_num [signalWeight]

theorem missed_bounds (signals : List CorrelationSignal) :
    0 ≤ missed signals ∧ missed signals ≤ 1 := by
  induction signals with
  | nil => exact ⟨zero_le_one, le_refl _⟩
  | cons signal signals ih =>
      obtain ⟨hnonneg, hle⟩ := signalWeight_bounds signal
      rw [missed, List.map_cons, List.prod_cons]
      exact ⟨mul_nonneg hnonneg ih.1, mul_le_one₀ hle ih.1 ih.2⟩

theorem missed_sublist {signals signals' : List CorrelationSignal} (h : signals.Sublist signals') :
    missed signals' ≤ missed signals := by
  induction h with
  | slnil => exact le_refl _
  | cons signal _ ih =>
      obtain ⟨-, hle⟩ := signalWeight_bounds signal
      rw [missed, List.map_cons, List.prod_cons]
      exact (mul_le_of_le_one_left (missed_bounds _).1 hle).trans ih
  | cons_cons signal _ ih =>
      rw [missed, missed, List.map_cons, List.map_cons, List.prod_cons, List.prod_cons]
      exact mul_le_mul_of_nonneg_left ih (signalWeight_bounds signal).1

/-- **Further signals** never lower a confidence. -/
theorem combined_mono {signals signals' : List CorrelationSignal} (h : signals.Sublist signals') :
    combined signals ≤ combined signals' := by
  rw [combined_eq, combined_eq]
  exact Matching.round4_mono (sub_le_sub_left (missed_sublist h) 1)

theorem combined_nil : combined [] = 0 := by
  rw [combined_eq, missed, List.map_nil, List.prod_nil, sub_self, Matching.round4_zero]

/-- Every single signal is above the margin. -/
theorem margin_le_combined {signals : List CorrelationSignal} (hne : signals ≠ [])
    (h : CorrelationSignal.reviewerConfirmed ∉ signals) :
    correlationAmbiguityMargin ≤ combined signals := by
  obtain ⟨signal, hsignal⟩ := List.exists_mem_of_ne_nil _ hne
  have hone : correlationAmbiguityMargin ≤ combined [signal] := by
    cases signal with
    | reviewerConfirmed => exact absurd hsignal h
    | thread => decide +kernel
    | reference => decide +kernel
    | knownSender => decide +kernel
    | senderDomain => decide +kernel
    | companyName => decide +kernel
    | title => decide +kernel
  exact hone.trans (combined_mono (List.singleton_sublist.mpr hsignal))

/-! ### Candidates -/

section candidates

variable {tools : MessageTools} {message : RecruiterMessage}

variable (tools message) in
/-- The confidence of a candidate; without signals it is zero. -/
def confidence (candidate : ApplicationCandidate) : ℚ := combined (tools.signalsFor message candidate)

theorem reviewerConfirmed_not_mem (candidate : ApplicationCandidate) :
    CorrelationSignal.reviewerConfirmed ∉ tools.signalsFor message candidate :=
  fun hmem => absurd (List.mem_filter.mp hmem).1 (by decide)

theorem confidence_mono {candidate candidate' : ApplicationCandidate}
    (h : tools.signalsFor message candidate ⊆ tools.signalsFor message candidate') :
    confidence tools message candidate ≤ confidence tools message candidate' := by
  refine combined_mono ?_
  have hsame : tools.signalsFor message candidate = (MessageTools.signalOrder.filter
      (tools.carries message candidate')).filter (tools.carries message candidate) := by
    rw [List.filter_filter]
    refine List.filter_congr fun signal hsignal => ?_
    cases hcarries : tools.carries message candidate signal with
    | false => rfl
    | true => exact (List.mem_filter.mp (h (List.mem_filter.mpr ⟨hsignal, hcarries⟩))).2.symm
  rw [hsame]
  exact List.filter_sublist

theorem scored_eq_some {candidate : ApplicationCandidate} {x : CorrelationCandidate} :
    scored tools message candidate = some x ↔ tools.signalsFor message candidate ≠ [] ∧
      x = ⟨candidate.applicationId, confidence tools message candidate,
        tools.signalsFor message candidate⟩ := by
  unfold scored
  dsimp only
  rw [Option.ite_none_left_eq_some, Option.some_inj]
  exact and_congr_right fun _ => eq_comm

theorem mem_ranked {candidates : List ApplicationCandidate} {x : CorrelationCandidate} :
    x ∈ ranked tools message candidates ↔ ∃ candidate ∈ candidates, scored tools message candidate = some x :=
  (List.mem_insertionSort _).trans List.mem_filterMap

/-! ### Ranks -/

theorem ranksBefore_total (a b : CorrelationCandidate) : RanksBefore a b ∨ RanksBefore b a := by
  rcases lt_trichotomy a.confidence b.confidence with hlt | heq | hgt
  · exact Or.inr (Or.inl hlt)
  · rcases le_total (UUID.text a.applicationId) (UUID.text b.applicationId) with hle | hle
    · exact Or.inl (Or.inr ⟨heq, hle⟩)
    · exact Or.inr (Or.inr ⟨heq.symm, hle⟩)
  · exact Or.inl (Or.inl hgt)

theorem RanksBefore.trans {a b c : CorrelationCandidate} (hab : RanksBefore a b) (hbc : RanksBefore b c) :
    RanksBefore a c := by
  rcases hab with hab | ⟨hab, hab'⟩
  · rcases hbc with hbc | ⟨hbc, -⟩
    · exact Or.inl (hbc.trans hab)
    · exact Or.inl (hbc ▸ hab)
  · rcases hbc with hbc | ⟨hbc, hbc'⟩
    · exact Or.inl (hab ▸ hbc)
    · exact Or.inr ⟨hab.trans hbc, hab'.trans hbc'⟩

theorem RanksBefore.le {a b : CorrelationCandidate} (h : RanksBefore a b) : b.confidence ≤ a.confidence := by
  rcases h with hlt | ⟨heq, -⟩
  · exact hlt.le
  · exact heq.ge

theorem RanksBefore.antisymm {a b : CorrelationCandidate} (hab : RanksBefore a b) (hba : RanksBefore b a) :
    a.applicationId = b.applicationId := by
  rcases id hab with hlt | ⟨-, hle⟩
  · exact absurd hba.le (not_le.mpr hlt)
  · rcases hba with hlt | ⟨-, hge⟩
    · exact absurd hab.le (not_le.mpr hlt)
    · exact UUID.text_injective (le_antisymm hle hge)

instance : Std.Total RanksBefore := ⟨ranksBefore_total⟩

instance : IsTrans CorrelationCandidate RanksBefore := ⟨fun _ _ _ => RanksBefore.trans⟩

variable (tools message) in
theorem ranked_sorted (candidates : List ApplicationCandidate) :
    (ranked tools message candidates).Pairwise RanksBefore := List.pairwise_insertionSort _ _

theorem nodup_scored {candidates : List ApplicationCandidate}
    (hids : (candidates.map ApplicationCandidate.applicationId).Nodup) :
    ((candidates.filterMap (scored tools message)).map CorrelationCandidate.applicationId).Nodup := by
  have hsublist : ((candidates.filterMap (scored tools message)).map
      CorrelationCandidate.applicationId).Sublist (candidates.map ApplicationCandidate.applicationId) := by
    clear hids
    induction candidates with
    | nil => exact List.Sublist.slnil
    | cons candidate candidates ih =>
        rw [List.filterMap_cons]
        cases hscored : scored tools message candidate with
        | none => exact ih.cons _
        | some x =>
            obtain ⟨-, rfl⟩ := scored_eq_some.mp hscored
            exact ih.cons_cons _
  exact hids.sublist hsublist

theorem nodup_ranked {candidates : List ApplicationCandidate}
    (hids : (candidates.map ApplicationCandidate.applicationId).Nodup) :
    ((ranked tools message candidates).map CorrelationCandidate.applicationId).Nodup :=
  (((List.perm_insertionSort RanksBefore _).map _).nodup_iff).mpr (nodup_scored hids)

/-- The ranking is the same however the candidates are listed. -/
theorem ranked_congr {candidates candidates' : List ApplicationCandidate}
    (hids : (candidates.map ApplicationCandidate.applicationId).Nodup) (h : candidates.Perm candidates') :
    ranked tools message candidates' = ranked tools message candidates := by
  have hperm : (ranked tools message candidates').Perm (ranked tools message candidates) :=
    (List.perm_insertionSort _ _).trans ((h.symm.filterMap _).trans (List.perm_insertionSort _ _).symm)
  refine hperm.eq_of_pairwise ?_ (ranked_sorted tools message _) (ranked_sorted tools message _)
  intro a b ha hb hab hba
  exact List.inj_on_of_nodup_map (nodup_ranked hids) (hperm.mem_iff.mp ha) hb (hab.antisymm hba)

end candidates

/-! ### The decision -/

section decision

variable (tools : MessageTools) (message : RecruiterMessage) (threshold : ℚ)
  (candidates : List ApplicationCandidate)

/-- The candidate carries a signal, reaches the threshold and leads every other by the margin. -/
structure Leads (candidate : ApplicationCandidate) : Prop where
  mem : candidate ∈ candidates
  signalled : tools.signalsFor message candidate ≠ []
  reaches : threshold ≤ confidence tools message candidate
  ahead : ∀ other ∈ candidates, other.applicationId ≠ candidate.applicationId →
    confidence tools message other + correlationAmbiguityMargin ≤ confidence tools message candidate

/-- The best of the scored candidates, at most three of them. -/
structure Leading (listed : List CorrelationCandidate) : Prop where
  few : listed.length ≤ 3
  scored : ∀ x ∈ listed, ∃ candidate ∈ candidates, scored tools message candidate = some x
  sorted : listed.Pairwise fun a b => b.confidence ≤ a.confidence
  nodup : (listed.map CorrelationCandidate.applicationId).Nodup
  best : ∀ candidate ∈ candidates, ∀ x, PersonalOS.scored tools message candidate = some x → x ∉ listed →
    listed.length = 3 ∧ ∀ y ∈ listed, x.confidence ≤ y.confidence

/-- What is answered to a message. -/
structure Decides (answer : ApplicationCorrelation) : Prop where
  matched : answer.outcome = .matched ↔ ∃ candidate, Leads tools message threshold candidates candidate
  link : ∀ candidate, Leads tools message threshold candidates candidate →
    answer.applicationId = some candidate.applicationId
  unmatched : answer.outcome = .unmatched ↔
    ∀ candidate ∈ candidates, tools.signalsFor message candidate = []
  review : answer.outcome = .needsReview ↔
    (∃ candidate ∈ candidates, tools.signalsFor message candidate ≠ []) ∧
      ¬∃ candidate, Leads tools message threshold candidates candidate
  leading : answer.outcome = .needsReview → Leading tools message candidates answer.candidates

end decision

section decision

variable {tools : MessageTools} {message : RecruiterMessage} {threshold : ℚ}
  {candidates : List ApplicationCandidate} {best : CorrelationCandidate}
  {rest : List CorrelationCandidate}

theorem margin_le_iff (hsorted : rest.Pairwise RanksBefore)
    (hbest : correlationAmbiguityMargin ≤ best.confidence) :
    correlationAmbiguityMargin ≤ best.confidence - runnerUp rest ↔
      ∀ x ∈ rest, x.confidence + correlationAmbiguityMargin ≤ best.confidence := by
  cases rest with
  | nil =>
      refine iff_of_true ?_ fun x hx => absurd hx List.not_mem_nil
      show _ ≤ best.confidence - 0
      rwa [sub_zero]
  | cons second rest =>
      show _ ≤ best.confidence - second.confidence ↔ _
      rw [le_sub_iff_add_le', List.forall_mem_cons]
      refine ⟨fun h => ⟨h, fun x hx => ?_⟩, fun h => h.1⟩
      have hle := (List.rel_of_pairwise_cons hsorted hx).le
      linarith

theorem eq_of_applicationId (hids : (candidates.map ApplicationCandidate.applicationId).Nodup)
    {a b : ApplicationCandidate} (ha : a ∈ candidates) (hb : b ∈ candidates)
    (h : a.applicationId = b.applicationId) : a = b := List.inj_on_of_nodup_map hids ha hb h

theorem Leads.unique {a b : ApplicationCandidate} (ha : Leads tools message threshold candidates a)
    (hb : b ∈ candidates) (hle : confidence tools message a ≤ confidence tools message b) :
    b.applicationId = a.applicationId := by
  by_contra hne
  have hahead := ha.ahead b hb hne
  have hmargin : 0 < correlationAmbiguityMargin := by norm_num [correlationAmbiguityMargin]
  linarith

theorem leads_best (hids : (candidates.map ApplicationCandidate.applicationId).Nodup)
    (hranked : ranked tools message candidates = best :: rest) {candidate : ApplicationCandidate}
    (hcandidate : candidate ∈ candidates) (hscored : scored tools message candidate = some best) :
    Leads tools message threshold candidates candidate ↔ threshold ≤ best.confidence ∧
      correlationAmbiguityMargin ≤ best.confidence - runnerUp rest := by
  obtain ⟨hsignalled, hbest⟩ := scored_eq_some.mp hscored
  have hconfidence : best.confidence = confidence tools message candidate := by rw [hbest]
  have hsorted := ranked_sorted tools message candidates
  have hnodup : ((ranked tools message candidates).map CorrelationCandidate.applicationId).Nodup :=
    nodup_ranked hids
  rw [hranked] at hsorted hnodup
  have hmargin := margin_le_combined hsignalled (reviewerConfirmed_not_mem candidate)
  rw [margin_le_iff hsorted.of_cons (hconfidence ▸ hmargin), hconfidence]
  constructor
  · intro hleads
    refine ⟨hleads.reaches, fun x hx => ?_⟩
    have hmem : x ∈ ranked tools message candidates := hranked ▸ List.mem_cons_of_mem _ hx
    obtain ⟨other, hother, hx'⟩ := mem_ranked.mp hmem
    obtain ⟨-, rfl⟩ := scored_eq_some.mp hx'
    refine hleads.ahead other hother fun heq => ?_
    rw [List.map_cons, List.nodup_cons, hbest] at hnodup
    exact hnodup.1 (List.mem_map.mpr ⟨_, hx, heq⟩)
  · rintro ⟨hreaches, hahead⟩
    refine ⟨hcandidate, hsignalled, hreaches, fun other hother hne => ?_⟩
    by_cases hsignals : tools.signalsFor message other = []
    · rw [confidence, hsignals, combined_nil, zero_add]
      exact hmargin
    · have hscored' := scored_eq_some.mpr ⟨hsignals, rfl⟩
      have hmem := mem_ranked.mpr ⟨other, hother, hscored'⟩
      rw [hranked] at hmem
      rcases List.mem_cons.mp hmem with heq | hmem
      · rw [hbest] at heq
        exact absurd (congrArg CorrelationCandidate.applicationId heq) hne
      · exact hahead _ hmem

theorem Leads.is_best (hids : (candidates.map ApplicationCandidate.applicationId).Nodup)
    (hranked : ranked tools message candidates = best :: rest) {candidate leader : ApplicationCandidate}
    (hcandidate : candidate ∈ candidates) (hscored : scored tools message candidate = some best)
    (hleads : Leads tools message threshold candidates leader) : leader = candidate := by
  refine (eq_of_applicationId hids hcandidate hleads.mem (hleads.unique hcandidate ?_)).symm
  have hsorted := ranked_sorted tools message candidates
  have hmem := mem_ranked.mpr ⟨leader, hleads.mem, scored_eq_some.mpr ⟨hleads.signalled, rfl⟩⟩
  rw [hranked] at hsorted hmem
  obtain ⟨-, hbest⟩ := scored_eq_some.mp hscored
  rcases List.mem_cons.mp hmem with heq | hmem
  · rw [hbest] at heq
    exact (congrArg CorrelationCandidate.confidence heq).le
  · have hle := (List.rel_of_pairwise_cons hsorted hmem).le
    rwa [hbest] at hle

theorem leading_take (hids : (candidates.map ApplicationCandidate.applicationId).Nodup) :
    Leading tools message candidates ((ranked tools message candidates).take 3) where
  few := List.length_take_le 3 _
  scored x hx := mem_ranked.mp (List.mem_of_mem_take hx)
  sorted := ((ranked_sorted tools message candidates).imp fun h => h.le).sublist (List.take_sublist 3 _)
  nodup := (nodup_ranked hids).sublist ((List.take_sublist 3 _).map _)
  best candidate hcandidate x hx hnot := by
    have hafter := Selection.after_take (ranked_sorted tools message candidates)
      (mem_ranked.mpr ⟨candidate, hcandidate, hx⟩) hnot
    exact ⟨hafter.1, fun y hy => (hafter.2 y hy).le⟩

/-- **The decision** names whoever leads. -/
theorem decides_correlation (hids : (candidates.map ApplicationCandidate.applicationId).Nodup) :
    Decides tools message threshold candidates
      (decideCorrelation threshold (ranked tools message candidates)) := by
  cases hranked : ranked tools message candidates with
  | nil =>
      have hnone : ∀ candidate ∈ candidates, tools.signalsFor message candidate = [] := by
        intro candidate hcandidate
        by_contra hsignalled
        have hmem := mem_ranked.mpr ⟨candidate, hcandidate, scored_eq_some.mpr ⟨hsignalled, rfl⟩⟩
        rw [hranked] at hmem
        cases hmem
      have hnobody : ∀ candidate, ¬Leads tools message threshold candidates candidate :=
        fun candidate hleads => hleads.signalled (hnone candidate hleads.mem)
      refine ⟨iff_of_false (fun h => by cases h) (not_exists.mpr hnobody),
        fun candidate hleads => absurd hleads (hnobody candidate), iff_of_true rfl hnone,
        iff_of_false (fun h => by cases h) ?_, fun h => by cases h⟩
      rintro ⟨⟨candidate, hcandidate, hsignalled⟩, -⟩
      exact hsignalled (hnone candidate hcandidate)
  | cons best rest =>
      have hmem : best ∈ ranked tools message candidates := hranked ▸ List.mem_cons_self
      obtain ⟨candidate, hcandidate, hscored⟩ := mem_ranked.mp hmem
      obtain ⟨hsignalled, hbest⟩ := scored_eq_some.mp hscored
      have hsome : ¬∀ candidate ∈ candidates, tools.signalsFor message candidate = [] :=
        fun hnone => hsignalled (hnone candidate hcandidate)
      have hleads : Leads tools message threshold candidates candidate ↔ threshold ≤ best.confidence ∧
          correlationAmbiguityMargin ≤ best.confidence - runnerUp rest :=
        leads_best hids hranked hcandidate hscored
      rw [decideCorrelation]
      split
      · rename_i hclear
        refine ⟨iff_of_true rfl ⟨candidate, hleads.mpr hclear⟩, fun leader hleader => ?_,
          iff_of_false (fun h => by cases h) hsome, iff_of_false (fun h => by cases h) ?_, fun h => by cases h⟩
        · rw [hleader.is_best hids hranked hcandidate hscored, hbest]
          rfl
        · exact fun h => h.2 ⟨candidate, hleads.mpr hclear⟩
      · rename_i hunclear
        have hnobody : ∀ leader, ¬Leads tools message threshold candidates leader := by
          intro leader hleader
          obtain rfl := hleader.is_best hids hranked hcandidate hscored
          exact hunclear (hleads.mp hleader)
        refine ⟨iff_of_false (fun h => by cases h) (not_exists.mpr hnobody),
          fun leader hleader => absurd hleader (hnobody leader), iff_of_false (fun h => by cases h) hsome,
          iff_of_true rfl ⟨⟨candidate, hcandidate, hsignalled⟩, not_exists.mpr hnobody⟩, fun _ => ?_⟩
        have htake : Leading tools message candidates ((ranked tools message candidates).take 3) :=
          leading_take hids
        rw [hranked] at htake
        exact htake

theorem match_stays {before after : List ApplicationCandidate} {candidate candidate' : ApplicationCandidate}
    (hids : ((before ++ candidate :: after).map ApplicationCandidate.applicationId).Nodup)
    (hid : candidate'.applicationId = candidate.applicationId)
    (hsignals : tools.signalsFor message candidate ⊆ tools.signalsFor message candidate')
    {answer answer' : ApplicationCorrelation}
    (hanswer : Decides tools message threshold (before ++ candidate :: after) answer)
    (hanswer' : Decides tools message threshold (before ++ candidate' :: after) answer')
    (hmatch : answer.applicationId = some candidate.applicationId) {id : UUID}
    (hmatch' : answer'.applicationId = some id) : id = candidate.applicationId := by
  have houtcome : answer.outcome = .matched := answer.linked_only_when_matched.mpr (by rw [hmatch]; rfl)
  have houtcome' : answer'.outcome = .matched := answer'.linked_only_when_matched.mpr (by rw [hmatch']; rfl)
  obtain ⟨leader, hleader⟩ := hanswer.matched.mp houtcome
  obtain ⟨leader', hleader'⟩ := hanswer'.matched.mp houtcome'
  have hid' : id = leader'.applicationId :=
    Option.some.inj (hmatch'.symm.trans (hanswer'.link leader' hleader'))
  have hmem : candidate ∈ before ++ candidate :: after := List.mem_append_right _ List.mem_cons_self
  have hmem' : candidate' ∈ before ++ candidate' :: after := List.mem_append_right _ List.mem_cons_self
  obtain rfl := eq_of_applicationId hids hleader.mem hmem
    (Option.some.inj ((hanswer.link leader hleader).symm.trans hmatch))
  rw [hid']
  by_contra hother
  -- Another candidate is as before, and so behind the one that leads.
  have hstays : leader' ∈ before ++ leader :: after := by
    rcases List.mem_append.mp hleader'.mem with hbefore | hafter
    · exact List.mem_append_left _ hbefore
    · rcases List.mem_cons.mp hafter with rfl | hafter
      · exact absurd hid hother
      · exact List.mem_append_right _ (List.mem_cons_of_mem _ hafter)
  have hbehind := hleader.ahead leader' hstays hother
  have hmargin : 0 ≤ correlationAmbiguityMargin := by norm_num [correlationAmbiguityMargin]
  have hle : confidence tools message leader' ≤ confidence tools message candidate' :=
    (le_of_add_le_of_nonneg_left hbehind hmargin).trans (confidence_mono hsignals)
  exact hother ((hleader'.unique hmem' hle).symm.trans hid)

end decision

/-- **Correlation** of candidates with ids of their own: the answer does not depend on their order; the
one that leads is matched, and a reviewer is asked when nobody does though there are signals; a confirmed
application has to be one of them; and further signals of a candidate lower neither its confidence nor
its standing. -/
theorem correlateApplication_sound (tools : MessageTools) (message : RecruiterMessage) (threshold : ℚ)
    (candidates : List ApplicationCandidate)
    (hids : (candidates.map ApplicationCandidate.applicationId).Nodup) :
    (∀ candidates' confirmed, candidates.Perm candidates' →
      correlateApplication tools message candidates' threshold confirmed =
        correlateApplication tools message candidates threshold confirmed) ∧
    (∃ answer, correlateApplication tools message candidates threshold none = .ok answer ∧
      Decides tools message threshold candidates answer) ∧
    (∀ id, (∃ e, correlateApplication tools message candidates threshold (some id) = .error e) ↔
      id ∉ candidates.map ApplicationCandidate.applicationId) ∧
    ∀ before candidate after candidate', candidates = before ++ candidate :: after →
      candidate'.applicationId = candidate.applicationId →
      tools.signalsFor message candidate ⊆ tools.signalsFor message candidate' →
        confidence tools message candidate ≤ confidence tools message candidate' ∧
        ∀ confirmed answer answer',
          correlateApplication tools message candidates threshold confirmed = .ok answer →
          correlateApplication tools message (before ++ candidate' :: after) threshold confirmed =
            .ok answer' →
          answer.applicationId = some candidate.applicationId →
            ∀ id, answer'.applicationId = some id → id = candidate.applicationId := by
  refine ⟨?_, ⟨_, rfl, decides_correlation hids⟩, ?_, ?_⟩
  · intro candidates' confirmed hperm
    cases confirmed with
    | none => rw [correlateApplication, correlateApplication, ranked_congr hids hperm]
    | some id =>
        have hmem := (hperm.map ApplicationCandidate.applicationId).mem_iff (a := id)
        simp only [correlateApplication, hmem]
  · intro id
    rw [correlateApplication]
    split
    · rename_i hmem
      refine iff_of_false ?_ (not_not.mpr hmem)
      rintro ⟨e, he⟩
      cases he
    · rename_i hmem
      exact iff_of_true ⟨_, rfl⟩ hmem
  · rintro before candidate after candidate' rfl hid hsignals
    refine ⟨confidence_mono hsignals, fun confirmed answer answer' hanswer hanswer' hmatch id hmatch' => ?_⟩
    have hsame : (before ++ candidate' :: after).map ApplicationCandidate.applicationId =
        (before ++ candidate :: after).map ApplicationCandidate.applicationId := by
      rw [List.map_append, List.map_append, List.map_cons, List.map_cons, hid]
    cases confirmed with
    | none =>
        obtain rfl := Except.ok.inj hanswer
        obtain rfl := Except.ok.inj hanswer'
        exact match_stays hids hid hsignals (decides_correlation hids)
          (decides_correlation (hsame.symm ▸ hids)) hmatch hmatch'
    | some confirmed =>
        rw [correlateApplication, hsame] at hanswer'
        rw [correlateApplication] at hanswer
        split at hanswer
        · rename_i hmem
          rw [if_pos hmem] at hanswer'
          obtain rfl := Except.ok.inj hanswer
          obtain rfl := Except.ok.inj hanswer'
          exact Option.some.inj (hmatch'.symm.trans hmatch)
        · cases hanswer

/-! ### A message on a known thread -/

/-- Texts as they are on ASCII. -/
def asciiMessages : MessageTools where
  nfkc := id
  casefold := String.toLower
  lower := String.toLower
  isWord c := c.isAlphanum || c == '_'
  sha256 := id
  sameLetter c letter := c.toLower == letter.toLower

def threadMessage : RecruiterMessage := ⟨"m-1", 0, "", none, none, some "t-1"⟩

def knownThread : ApplicationCandidate := ⟨1, "Acme", "Engineer", none, ["t-1"], []⟩

def otherThread : ApplicationCandidate := ⟨2, "Globex", "Analyst", none, ["t-2"], []⟩

theorem knownThread_leads : Leads asciiMessages threadMessage (3 / 4) [knownThread, otherThread] knownThread where
  mem := List.mem_cons_self
  signalled := by decide +kernel
  reaches := by decide +kernel
  ahead := by
    rw [List.forall_mem_cons, List.forall_mem_singleton]
    exact ⟨fun h => absurd rfl h, fun _ => by decide +kernel⟩

theorem correlateApplication_sound_onThread :
    correlateApplication asciiMessages threadMessage [otherThread, knownThread] (3 / 4) none =
        correlateApplication asciiMessages threadMessage [knownThread, otherThread] (3 / 4) none ∧
      ∃ answer, correlateApplication asciiMessages threadMessage [knownThread, otherThread] (3 / 4) none =
        .ok answer ∧ answer.applicationId = some 1 := by
  obtain ⟨horder, ⟨answer, hanswer, hdecides⟩, -⟩ := correlateApplication_sound asciiMessages threadMessage
    (3 / 4) [knownThread, otherThread] (by decide)
  exact ⟨horder _ none (List.Perm.swap _ _ _), answer, hanswer, hdecides.link _ knownThread_leads⟩

end PersonalOS
