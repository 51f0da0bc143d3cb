import PersonalOS.DraftTerms
import PersonalOS.CitedEvidence

/-! # What an unflagged draft says

A draft without flags, against the single texts that it cites or is addressed with.

* **Facts.** `Traced`: every number, name and protected phrase of a segment stands in one text.
* **What is missed.** The validator joins the words of all texts, and it knows ASCII words only; a word
  of ASCII letters and digits is always found (`mem_asciiToken`).  `Unmissed` says that what is missed is
  traced all the same.
* **Drafts.** `drafts_sound_iff`: every segment of an unflagged draft is traced exactly when what is
  missed is. -/

namespace PersonalOS.Drafts

open TokenPatterns

variable (tools : DraftTools)

/-! ### Facts -/

/-- The two readings of a text: the validator's and that of every script. -/
def readings : List (Pattern Char) := [asciiToken, anyToken tools]

/-- The term stands in the text as a phrase. -/
def HasPhrase (text term : String) : Prop :=
  ∃ p ∈ readings tools, phraseOf tools p term ≠ [] ∧
    (supportOf tools p [text]).hasPhrase (phraseOf tools p term) = true

/-- The word stands in the text. -/
def HasWord (text : String) (word : List Char) : Prop := ∃ p ∈ readings tools, word ∈ words tools p text

/-- Every checkable fact of the segment stands in one of the texts. -/
structure Traced (protectedTerms texts : List String) (segment : String) : Prop where
  numbers : ∀ number ∈ numbers tools segment, ∃ text ∈ texts, number ∈ Drafts.numbers tools text
  names : ∀ found ∈ (anyToken tools).tokens [] (tools.fold segment), isNamed tools found = true →
    isNeutral (word tools found.token) = true ∨ ∃ text ∈ texts, HasWord tools text (word tools found.token)
  phrases : ∀ term ∈ protectedTerms ++ degreeTerms, HasPhrase tools segment term →
    ∃ text ∈ texts, HasPhrase tools text term

/-! ### What is missed -/

/-- The validator reads the term in the texts, with their words joined. -/
def ReadsPhrase (texts : List String) (term : String) : Prop :=
  phraseOf tools asciiToken term ≠ [] ∧
    (supportOf tools asciiToken texts).hasPhrase (phraseOf tools asciiToken term) = true

/-- What the validator misses in the segment stands in one of the texts. -/
structure Unmissed (contextTerms protectedTerms texts : List String) (segment : String) : Prop where
  /-- A phrase that the texts, or the context, have only together. -/
  straddling : ∀ term ∈ protectedTerms ++ degreeTerms, ReadsPhrase tools [segment] term →
    ReadsPhrase tools contextTerms term ∨ ReadsPhrase tools texts term →
      ∃ text ∈ contextTerms ++ texts, HasPhrase tools text term
  /-- A phrase that is not read in the segment. -/
  unread : ∀ term ∈ protectedTerms ++ degreeTerms, HasPhrase tools segment term →
    ¬ReadsPhrase tools [segment] term → ∃ text ∈ contextTerms ++ texts, HasPhrase tools text term
  /-- A name that begins with a digit or is not written with ASCII letters and digits. -/
  unseen : ∀ found ∈ (anyToken tools).tokens [] (tools.fold segment), isNamed tools found = true →
    isFigure tools found = true ∨ (∃ c ∈ found.token, tools.isAlnum c = true ∧ c.isAlphanum = false) →
      isNeutral (word tools found.token) = true ∨
        ∃ text ∈ contextTerms ++ texts, HasWord tools text (word tools found.token)

variable {tools}

theorem isAscii_of_isAlphanum {c : Char} (h : c.isAlphanum = true) : isAscii c = true := by
  have hrange := toNat_of_isAlphanum h
  refine decide_eq_true ?_
  omega

theorem narrower_asciiToken : Narrower asciiToken (anyToken tools) := by
  refine ⟨fun c hc => ?_, rfl, rfl⟩
  have hascii := isAscii_of_isAlphanum hc
  exact (if_pos hascii).trans hc

/-- A word of ASCII letters and digits is found where it stands. -/
theorem mem_asciiToken {text : String} {found : Occurrence Char}
    (h : found ∈ (anyToken tools).tokens [] (tools.fold text))
    (hascii : ¬∃ c ∈ found.token, tools.isAlnum c = true ∧ c.isAlphanum = false) :
    found ∈ asciiToken.tokens [] (tools.fold text) := by
  refine mem_tokens_of_narrower narrower_asciiToken h fun c hc halnum => ?_
  cases hplain : c.isAlphanum with
  | true => exact hplain
  | false => exact absurd ⟨c, hc, halnum, hplain⟩ hascii

/-! ### Segments -/

theorem eraseDups_eq_nil {α : Type*} [BEq α] {l : List α} : l.eraseDups = [] ↔ l = [] := by
  cases l with
  | nil => simp
  | cons a l => simp [List.eraseDups_cons]

section segments

variable {contextTerms protectedTerms texts : List String} {segment : String}

theorem unsupportedTerms_eq_nil :
    unsupportedTerms tools contextTerms protectedTerms segment texts = [] ↔
      missingNumbers tools (supportOf tools asciiToken texts) (supportOf tools asciiToken contextTerms)
        segment = [] ∧
      missingNames tools (supportOf tools asciiToken texts) (supportOf tools asciiToken contextTerms)
        segment = [] ∧
      missingPhrases tools (supportOf tools asciiToken texts) (supportOf tools asciiToken contextTerms)
        segment (protectedPhrases tools protectedTerms) = [] := by
  unfold unsupportedTerms
  dsimp only
  rw [eraseDups_eq_nil, List.map_eq_nil_iff, List.append_eq_nil_iff, List.append_eq_nil_iff, and_assoc]

theorem mem_texts {α : Type*} {f : String → List α} {a : α} :
    a ∈ texts.flatMap f ∨ a ∈ contextTerms.flatMap f ↔ ∃ text ∈ contextTerms ++ texts, a ∈ f text := by
  simp only [List.mem_flatMap, List.mem_append]
  constructor
  · rintro (⟨text, htext, ha⟩ | ⟨text, htext, ha⟩)
    · exact ⟨text, Or.inr htext, ha⟩
    · exact ⟨text, Or.inl htext, ha⟩
  · rintro ⟨text, htext | htext, ha⟩
    · exact Or.inr ⟨text, htext, ha⟩
    · exact Or.inl ⟨text, htext, ha⟩

theorem traced_iff (h : unsupportedTerms tools contextTerms protectedTerms segment texts = []) :
    Traced tools protectedTerms (contextTerms ++ texts) segment ↔
      Unmissed tools contextTerms protectedTerms texts segment := by
  obtain ⟨hnumbers, hnames, hphrases⟩ := unsupportedTerms_eq_nil.mp h
  constructor
  · intro htraced
    refine ⟨fun term hterm hread _ => ?_, fun term hterm hhas _ => htraced.phrases term hterm hhas,
      fun found hfound hnamed _ => htraced.names found hfound hnamed⟩
    exact htraced.phrases term hterm ⟨asciiToken, List.mem_cons_self, hread.1, hread.2⟩
  · intro hunmissed
    refine ⟨fun number hnumber => ?_, fun found hfound hnamed => ?_, fun term hterm hhas => ?_⟩
    · obtain ⟨found, hfound, rfl⟩ := List.mem_map.mp hnumber
      rw [missingNumbers, List.map_eq_nil_iff, List.filter_eq_nil_iff] at hnumbers
      have hvouched := hnumbers found hfound
      rw [Bool.and_eq_true, not_and_or] at hvouched
      refine mem_texts.mp (hvouched.imp (fun hmem => ?_) fun hmem => ?_)
      · simpa [supportOf] using hmem
      · simpa [supportOf] using hmem
    · by_cases hmissed : isFigure tools found = true ∨
          ∃ c ∈ found.token, tools.isAlnum c = true ∧ c.isAlphanum = false
      · exact hunmissed.unseen found hfound hnamed hmissed
      · obtain ⟨hfigure, hascii⟩ := not_or.mp hmissed
        have hplain := mem_asciiToken hfound hascii
        rw [missingNames, List.map_eq_nil_iff, List.filter_eq_nil_iff] at hnames
        have hvouched := hnames found hplain
        rw [hnamed, Bool.eq_false_iff.mpr hfigure] at hvouched
        have hcases : (word tools found.token ∈ texts.flatMap (words tools asciiToken) ∨
            word tools found.token ∈ contextTerms.flatMap (words tools asciiToken)) ∨
            isNeutral (word tools found.token) = true := by
          simp only [supportOf, Bool.not_false, Bool.and_true, Bool.not_eq_true', Bool.not_eq_false,
            Bool.or_eq_true, List.contains_eq_mem, decide_eq_true_eq] at hvouched
          rcases hvouched with (hcontext | hneutral) | hsupport
          · exact Or.inl (Or.inr hcontext)
          · exact Or.inr hneutral
          · exact Or.inl (Or.inl hsupport)
        rcases hcases with hmem | hneutral
        · obtain ⟨text, htext, hword⟩ := mem_texts.mp hmem
          exact Or.inr ⟨text, htext, asciiToken, List.mem_cons_self, hword⟩
        · exact Or.inl hneutral
    · by_cases hread : ReadsPhrase tools [segment] term
      · refine hunmissed.straddling term hterm hread ?_
        rw [missingPhrases, List.filter_eq_nil_iff] at hphrases
        have hmem : phraseOf tools asciiToken term ∈ protectedPhrases tools protectedTerms := by
          refine List.mem_eraseDups.mpr (List.mem_filter.mpr ⟨List.mem_map_of_mem hterm, ?_⟩)
          simpa using hread.1
        have hvouched := hphrases _ hmem
        rw [hread.2, Bool.true_and, Bool.and_eq_true, not_and_or, Bool.not_eq_true', Bool.not_eq_false,
          Bool.not_eq_true', Bool.not_eq_false] at hvouched
        rcases hvouched with hsupport | hcontext
        · exact Or.inr ⟨hread.1, hsupport⟩
        · exact Or.inl ⟨hread.1, hcontext⟩
      · exact hunmissed.unread term hterm hhas hread

end segments

/-! ### Drafts -/

section drafts

variable {unsupported : UnsupportedTerms} {evidence : List EvidenceRecord} {segment : DraftSegment}

/-- The texts of the records that a segment cites. -/
def citedTexts (evidence : List EvidenceRecord) (segment : DraftSegment) : List String :=
  (segment.evidenceIds.filterMap (recordOf evidence)).map EvidenceRecord.text

/-- The segments that say something. -/
def saying (proposal : DraftProposal) : List DraftSegment :=
  proposal.segments.filter fun segment => decide (strip segment.text ≠ "")

theorem validateSegment_blank (index : ℕ) (h : strip segment.text = "") :
    validateSegment unsupported evidence index segment = ([], []) := by
  rw [validateSegment, if_pos h]

theorem validateSegment_unflagged {index : ℕ} (htext : strip segment.text ≠ "")
    (h : (validateSegment unsupported evidence index segment).1 = []) :
    (∀ id ∈ segment.evidenceIds, (recordOf evidence id).isSome = true) ∧
      unsupported segment.text (citedTexts evidence segment) = [] ∧
        (validateSegment unsupported evidence index segment).2 = segment.evidenceIds := by
  unfold validateSegment at h ⊢
  rw [if_neg htext] at h ⊢
  dsimp only at h ⊢
  split at h
  · cases h
  · rename_i hunknown
    rw [if_neg hunknown]
    have hknown := List.filter_eq_nil_iff.mp (not_not.mp hunknown)
    refine ⟨fun id hid => ?_, ?_, rfl⟩
    · cases hrecord : recordOf evidence id with
      | none => exact absurd (by rw [hrecord]; rfl) (hknown id hid)
      | some record => rfl
    · dsimp only at h
      split at h
      · assumption
      · cases h

theorem validateDraft_unflagged {proposal : DraftProposal}
    (h : (validateDraft unsupported evidence proposal).1 = []) :
    (∀ segment ∈ saying proposal,
      (∀ id ∈ segment.evidenceIds, (recordOf evidence id).isSome = true) ∧
        unsupported segment.text (citedTexts evidence segment) = []) ∧
      ∀ id, id ∈ (validateDraft unsupported evidence proposal).2 ↔
        ∃ segment ∈ saying proposal, id ∈ segment.evidenceIds := by
  unfold validateDraft at h ⊢
  dsimp only at h ⊢
  have hflags : (proposal.segments.mapIdx (validateSegment unsupported evidence)).flatMap Prod.fst = [] := by
    split at h
    · cases h
    · exact h
  have hclean : ∀ (index : ℕ) (hindex : index < proposal.segments.length),
      (validateSegment unsupported evidence index proposal.segments[index]).1 = [] := fun index hindex =>
    List.flatMap_eq_nil_iff.mp hflags _ (List.mem_mapIdx.mpr ⟨index, hindex, rfl⟩)
  constructor
  · intro segment hsegment
    obtain ⟨hmem, htext⟩ := List.mem_filter.mp hsegment
    obtain ⟨index, hindex, rfl⟩ := List.getElem_of_mem hmem
    obtain ⟨hknown, hterms, -⟩ := validateSegment_unflagged (of_decide_eq_true htext) (hclean index hindex)
    exact ⟨hknown, hterms⟩
  · intro id
    rw [List.mem_eraseDups, List.mem_flatMap]
    constructor
    · rintro ⟨verdict, hverdict, hid⟩
      obtain ⟨index, hindex, rfl⟩ := List.mem_mapIdx.mp hverdict
      by_cases htext : strip proposal.segments[index].text = ""
      · rw [validateSegment_blank index htext] at hid
        cases hid
      · rw [(validateSegment_unflagged htext (hclean index hindex)).2.2] at hid
        exact ⟨_, List.mem_filter.mpr ⟨List.getElem_mem hindex, decide_eq_true htext⟩, hid⟩
    · rintro ⟨segment, hsegment, hid⟩
      obtain ⟨hmem, htext⟩ := List.mem_filter.mp hsegment
      obtain ⟨index, hindex, rfl⟩ := List.getElem_of_mem hmem
      refine ⟨_, List.mem_mapIdx.mpr ⟨index, hindex, rfl⟩, ?_⟩
      rwa [(validateSegment_unflagged (of_decide_eq_true htext) (hclean index hindex)).2.2]

theorem mem_cited_finalizeDraft {proposal : DraftProposal} {draft : ArtifactDraft}
    (h : finalizeDraft unsupported evidence proposal = .ok draft) (record : EvidenceRecord) :
    record ∈ draft.cited ↔
      ∃ segment ∈ saying proposal, ∃ id ∈ segment.evidenceIds, recordOf evidence id = some record := by
  unfold finalizeDraft at h
  dsimp only at h
  split at h
  · cases h
  · rename_i hflags
    obtain rfl := Except.ok.inj h
    have hcited := (validateDraft_unflagged (not_not.mp hflags)).2
    rw [List.mem_filterMap]
    constructor
    · rintro ⟨id, hid, hrecord⟩
      obtain ⟨segment, hsegment, hmem⟩ := (hcited id).mp hid
      exact ⟨segment, hsegment, id, hmem, hrecord⟩
    · rintro ⟨segment, hsegment, id, hmem, hrecord⟩
      exact ⟨id, (hcited id).mpr ⟨segment, hsegment, hmem⟩, hrecord⟩

end drafts

/-- A proposal that says only what its evidence and its context say, and is stored with what it cites. -/
structure Sound (tools : DraftTools) (contextTerms protectedTerms : List String)
    (evidence : List EvidenceRecord) (proposal : DraftProposal) : Prop where
  resolves : ∀ segment ∈ saying proposal, ∀ id ∈ segment.evidenceIds, (recordOf evidence id).isSome = true
  traced : ∀ segment ∈ saying proposal,
    Traced tools protectedTerms (contextTerms ++ citedTexts evidence segment) segment.text
  stored : ∀ draft, finalizeDraft (unsupportedTerms tools contextTerms protectedTerms) evidence proposal =
    .ok draft → ∀ record, record ∈ draft.cited ↔
      ∃ segment ∈ saying proposal, ∃ id ∈ segment.evidenceIds, recordOf evidence id = some record

/-- **Sound drafts**: a proposal without flags says only what single texts vouch for exactly when what
the validator misses in its segments is vouched for. -/
theorem drafts_sound_iff (tools : DraftTools) (contextTerms protectedTerms : List String)
    (evidence : List EvidenceRecord) (proposal : DraftProposal)
    (h : (validateDraft (unsupportedTerms tools contextTerms protectedTerms) evidence proposal).1 = []) :
    Sound tools contextTerms protectedTerms evidence proposal ↔ ∀ segment ∈ saying proposal,
      Unmissed tools contextTerms protectedTerms (citedTexts evidence segment) segment.text := by
  have hclean := (validateDraft_unflagged h).1
  constructor
  · intro hsound segment hsegment
    exact (traced_iff (hclean segment hsegment).2).mp (hsound.traced segment hsegment)
  · intro hunmissed
    exact {
      resolves := fun segment hsegment => (hclean segment hsegment).1
      traced := fun segment hsegment => (traced_iff (hclean segment hsegment).2).mpr (hunmissed segment hsegment)
      stored := fun draft hdraft record => mem_cited_finalizeDraft hdraft record }

/-! ### Two records that make a phrase -/

/-- ASCII alone. -/
def asciiDrafts : DraftTools where
  nfkc := id
  casefoldBeyond c := [c]
  alnumBeyond _ := false
  upperBeyond _ := false
  digitBeyond _ := false

def repairRecord : EvidenceRecord := ⟨⟨"resume.md", "repaired"⟩, .resume, "resume.md#role", "Repaired a machine"⟩

def sailingRecord : EvidenceRecord := ⟨⟨"resume.md", "sailing"⟩, .resume, "resume.md#more", "Learning to sail"⟩

/-- The draft claims a skill that neither record has. -/
def skilledProposal : DraftProposal where
  artifactType := .resume
  segments := [⟨"Shipped machine learning", [repairRecord.evidenceId, sailingRecord.evidenceId]⟩]

theorem validateDraft_skilled : (validateDraft (unsupportedTerms asciiDrafts [] ["machine learning"])
    [repairRecord, sailingRecord] skilledProposal).1 = [] := by
  decide +kernel

theorem not_sound_skilled :
    ¬Sound asciiDrafts [] ["machine learning"] [repairRecord, sailingRecord] skilledProposal := by
  intro hsound
  have hphrase : HasPhrase asciiDrafts "Shipped machine learning" "machine learning" :=
    ⟨asciiToken, List.mem_cons_self, by decide +kernel, by decide +kernel⟩
  obtain ⟨text, htext, p, hp, -, hhas⟩ :=
    (hsound.traced _ List.mem_cons_self).phrases "machine learning" List.mem_cons_self hphrase
  have hnone : ∀ text ∈ ["Repaired a machine", "Learning to sail"], ∀ p ∈ readings asciiDrafts,
      (supportOf asciiDrafts p [text]).hasPhrase (phraseOf asciiDrafts p "machine learning") = false := by
    decide +kernel
  rw [hnone text htext p hp] at hhas
  cases hhas

theorem drafts_sound_iff_skilled : ¬∀ segment ∈ saying skilledProposal,
    Unmissed asciiDrafts [] ["machine learning"] (citedTexts [repairRecord, sailingRecord] segment)
      segment.text := fun hunmissed =>
  not_sound_skilled ((drafts_sound_iff asciiDrafts [] ["machine learning"] [repairRecord, sailingRecord]
    skilledProposal validateDraft_skilled).mpr hunmissed)

/-- The end of one record and the beginning of the next vouch for a phrase. -/
theorem straddled_phrase_passes :
    ¬∀ (tools : DraftTools) (contextTerms protectedTerms : List String) (evidence : List EvidenceRecord)
      (proposal : DraftProposal),
      (validateDraft (unsupportedTerms tools contextTerms protectedTerms) evidence proposal).1 = [] →
        Sound tools contextTerms protectedTerms evidence proposal := fun h =>
  not_sound_skilled (h asciiDrafts [] ["machine learning"] [repairRecord, sailingRecord] skilledProposal
    validateDraft_skilled)

end PersonalOS.Drafts
