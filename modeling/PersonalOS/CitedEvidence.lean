import PersonalOS.ArtifactDrafts
import PersonalOS.EvidenceSync
import PersonalOS.Lockstep
import Mathlib.Logic.Function.Basic

/-! # What versions cite

Preparations retrieve evidence in one transaction and save drafts that cite it in another; any
syncs run in between.  A sync deletes a chunk that no saved version cites, also if a preparation
has it in hand.

* **The system.** `EvidenceSystem` is the store and the preparations.  `lost` remembers what was
  deleted since a preparation retrieved its evidence; no step reads it.
* **Citations.** When no save is of drafts that cite what was deleted in the meantime, whatever a
  saved version cites is on record, with the text that was cited (`cited_evidence_kept`). -/

namespace PersonalOS

open Keyed Lockstep

/-! ### Preparations and syncs -/

/-- What a preparation has retrieved. -/
structure Preparation where
  evidence : List EvidenceRecord
  /-- What was deleted since. -/
  lost : List EvidenceId
deriving DecidableEq, Repr

/-- The drafts of a preparation, from what the writer proposes. -/
def Preparation.drafts (unsupportedTerms : UnsupportedTerms)
    (proposals : List (ArtifactType × DraftProposal)) (p : Preparation) :
    Except DraftError (List ArtifactDraft) :=
  if p.evidence = [] then .error .nothingRetrieved
  else writeDrafts unsupportedTerms p.evidence proposals

def Preparation.lose (ids : List EvidenceId) (p : Preparation) : Preparation :=
  { p with lost := p.lost ++ ids }

structure EvidenceSystem (κ V : Type) where
  store : EvidenceStore κ V
  preparations : UUID → Option Preparation

/-- A transaction. -/
inductive EvidenceStep (κ V : Type) where
  | sync (redactText : RedactText) (call : SyncCall κ V)
  /-- A preparation retrieves its evidence. -/
  | select (t : UUID) (query : EvidenceQuery V)
  /-- It saves the drafts it makes of what the writer proposes. -/
  | save (t : UUID) (unsupportedTerms : UnsupportedTerms)
      (proposals : List (ArtifactType × DraftProposal)) (application : UUID)
      (generatedBy : String)

namespace EvidenceSystem
variable {κ V : Type}

def start : EvidenceSystem κ V := { store := .empty, preparations := fun _ => none }

/-- The ids on record in the one and not in the other. -/
def deletedIds (s s' : EvidenceStore κ V) : List EvidenceId :=
  (s.chunks.map EvidenceChunkRow.id).filter fun id =>
    decide (id ∉ s'.chunks.map EvidenceChunkRow.id)

def sync (redactText : RedactText) (call : SyncCall κ V) (s : EvidenceSystem κ V) :
    EvidenceSystem κ V :=
  match s.store.sync redactText call with
  | .error _ => s
  | .ok (store, _) =>
      let deleted := deletedIds s.store store
      { store, preparations := fun t => (s.preparations t).map (Preparation.lose deleted) }

def select (t : UUID) (query : EvidenceQuery V) (s : EvidenceSystem κ V) : EvidenceSystem κ V :=
  let p : Preparation := { evidence := s.store.search query, lost := [] }
  { s with preparations := fun t' => if t' = t then some p else s.preparations t' }

/-- The drafts that a preparation would save. -/
def draftsOf (t : UUID) (unsupportedTerms : UnsupportedTerms)
    (proposals : List (ArtifactType × DraftProposal)) (s : EvidenceSystem κ V) :
    Option (List ArtifactDraft) :=
  (s.preparations t).bind fun p => (p.drafts unsupportedTerms proposals).toOption

def save (t : UUID) (unsupportedTerms : UnsupportedTerms)
    (proposals : List (ArtifactType × DraftProposal)) (application : UUID) (generatedBy : String)
    (s : EvidenceSystem κ V) : EvidenceSystem κ V :=
  match s.draftsOf t unsupportedTerms proposals with
  | none => s
  | some drafts =>
      match s.store.save application generatedBy drafts with
      | .error _ => s
      | .ok (store, _) => { s with store }

def advance (s : EvidenceSystem κ V) : EvidenceStep κ V → EvidenceSystem κ V
  | .sync redactText call => s.sync redactText call
  | .select t query => s.select t query
  | .save t unsupportedTerms proposals application generatedBy =>
      s.save t unsupportedTerms proposals application generatedBy

def machine : Machine (EvidenceStep κ V) Unit (EvidenceSystem κ V) where
  step s i := ((), s.advance i)

/-- The drafts cite something that was deleted since the preparation retrieved it. -/
def citesLost (s : EvidenceSystem κ V) : EvidenceStep κ V → Bool
  | .sync _ _ | .select _ _ => false
  | .save t unsupportedTerms proposals _ _ =>
      (s.preparations t).any fun p =>
        ((s.draftsOf t unsupportedTerms proposals).getD []).any fun draft =>
          draft.cited.any fun record => decide (record.evidenceId ∈ p.lost)

end EvidenceSystem

/-! ### What is on record -/

section OnRecord
variable {κ V : Type} {s s' : EvidenceStore κ V} {record : EvidenceRecord}

/-- The record is on record, with its text. -/
def OnRecord (s : EvidenceStore κ V) (record : EvidenceRecord) : Prop :=
  ∃ row ∈ s.chunks, row.id = record.evidenceId ∧ row.chunkText = record.text

instance : Decidable (OnRecord s record) :=
  inferInstanceAs (Decidable (∃ row ∈ s.chunks, _ ∧ _))

/-- Whatever the saved versions cite is on record. -/
def CitedOnRecord (s : EvidenceStore κ V) : Prop :=
  ∀ version ∈ s.versions, ∀ record ∈ version.cited, OnRecord s record

instance : Decidable (CitedOnRecord s) :=
  inferInstanceAs (Decidable (∀ version ∈ s.versions, ∀ record ∈ version.cited, _))

theorem mem_citedEvidenceIds {version : ArtifactVersion} (hversion : version ∈ s.versions)
    (hrecord : record ∈ version.cited) : record.evidenceId ∈ s.citedEvidenceIds := by
  refine List.mem_flatMap.mpr ⟨version, hversion, ?_⟩
  refine List.mem_map.mpr ⟨record.toRef, ?_, rfl⟩
  exact List.mem_map_of_mem hrecord

/-- **One sync**: a row stays, with its text, or is deleted, and then nothing cites it. -/
theorem row_synced {redactText : RedactText} {call : SyncCall κ V} {row : EvidenceChunkRow V}
    (hn : (s.chunks.map EvidenceChunkRow.id).Nodup) (h : Synced redactText call s s')
    (hrow : row ∈ s.chunks) :
    (∃ row' ∈ s'.chunks, row'.id = row.id ∧ row'.chunkText = row.chunkText)
      ∨ row.id ∉ s'.chunks.map EvidenceChunkRow.id ∧ row.id ∉ s.citedEvidenceIds := by
  have hlookup := lookup_of_mem hn hrow
  cases hwanted : lookup EmbeddedChunk.evidenceId row.id call.wanted with
  | some chunk =>
      obtain ⟨hchunk, hid⟩ := lookup_eq_some hwanted
      obtain ⟨row', hplaced, hrow'⟩ := h.wanted chunk hchunk
      rw [hid] at hrow'
      obtain ⟨hmem, hid'⟩ := lookup_eq_some hrow'
      exact .inl ⟨row', hmem, hid', hplaced.kept row (by rw [hid, hlookup])⟩
  | none =>
      have hother := h.other row.id hwanted
      rw [hlookup, Option.bind_some, SyncCall.dropRow] at hother
      split at hother
      · split at hother
        · have hmem := (lookup_eq_some hother).1
          exact .inl ⟨_, hmem, rfl, rfl⟩
        case isFalse hcited =>
          refine .inr ⟨fun hmem => ?_, hcited⟩
          obtain ⟨row', hrow', hid⟩ := List.mem_map.mp hmem
          exact lookup_eq_none.mp hother row' hrow' hid
      · exact .inl ⟨row, (lookup_eq_some hother).1, rfl, rfl⟩

theorem onRecord_synced {redactText : RedactText} {call : SyncCall κ V}
    (hn : (s.chunks.map EvidenceChunkRow.id).Nodup) (h : Synced redactText call s s')
    (hrecord : OnRecord s record) :
    OnRecord s' record ∨ record.evidenceId ∈ EvidenceSystem.deletedIds s s'
      ∧ record.evidenceId ∉ s.citedEvidenceIds := by
  obtain ⟨row, hrow, hid, htext⟩ := hrecord
  rcases row_synced hn h hrow with ⟨row', hrow', hid', htext'⟩ | ⟨hgone, hcited⟩
  · exact .inl ⟨row', hrow', hid'.trans hid, htext'.trans htext⟩
  · rw [hid] at hgone hcited
    refine .inr ⟨List.mem_filter.mpr ⟨?_, decide_eq_true hgone⟩, hcited⟩
    exact hid ▸ List.mem_map_of_mem hrow

theorem onRecord_search {query : EvidenceQuery V} (h : record ∈ s.search query) :
    OnRecord s record := by
  obtain ⟨row, hrow, rfl⟩ := List.mem_map.mp h
  have hranked := List.mem_of_mem_take (List.mem_of_mem_filter hrow)
  rw [List.mem_insertionSort] at hranked
  exact ⟨row, List.mem_of_mem_filter hranked, rfl, rfl⟩

end OnRecord

/-! ### What drafts cite -/

theorem mem_of_recordOf {evidence : List EvidenceRecord} {id : EvidenceId} {record : EvidenceRecord}
    (h : recordOf evidence id = some record) : record ∈ evidence :=
  List.mem_reverse.mp (lookup_eq_some h).1

/-- A draft cites nothing but what it was given. -/
theorem cited_of_finalizeDraft {unsupportedTerms : UnsupportedTerms}
    {evidence : List EvidenceRecord} {proposal : DraftProposal} {draft : ArtifactDraft}
    (h : finalizeDraft unsupportedTerms evidence proposal = .ok draft) :
    ∀ record ∈ draft.cited, record ∈ evidence := by
  intro record hrecord
  unfold finalizeDraft at h
  dsimp only at h
  split at h
  · cases h
  · cases h
    obtain ⟨id, -, hid⟩ := List.mem_filterMap.mp hrecord
    exact mem_of_recordOf hid

theorem cited_of_writeDrafts {unsupportedTerms : UnsupportedTerms}
    {evidence : List EvidenceRecord} {proposals : List (ArtifactType × DraftProposal)}
    {drafts : List ArtifactDraft} (h : writeDrafts unsupportedTerms evidence proposals = .ok drafts) :
    ∀ draft ∈ drafts, ∀ record ∈ draft.cited, record ∈ evidence := by
  induction proposals generalizing drafts with
  | nil =>
      cases h
      intro draft hdraft
      cases hdraft
  | cons proposal proposals ih =>
      obtain ⟨asked, proposal⟩ := proposal
      unfold writeDrafts at h
      split at h
      · cases h
      · obtain ⟨draft, hdraft, h⟩ := bind_eq_ok h
        obtain ⟨rest, hrest, h⟩ := bind_eq_ok h
        cases h
        intro other hother
        rcases List.mem_cons.mp hother with rfl | hother
        · exact cited_of_finalizeDraft hdraft
        · exact ih hrest other hother

/-! ### What is saved -/

section saved
variable {κ V : Type} {application : UUID} {generatedBy : String} {drafts : List ArtifactDraft}
  {versions versions' rows : List ArtifactVersion}

theorem saveDraft_cited {draft : ArtifactDraft} {row : ArtifactVersion}
    (h : saveDraft application generatedBy versions draft = .ok (versions', row)) :
    ∀ version ∈ versions', version ∈ versions ∨ version.cited = draft.cited := by
  intro version hversion
  unfold saveDraft at h
  split at h
  · cases h
  · dsimp only at h
    split at h
    · cases h
      exact .inl hversion
    · cases h
      rcases List.mem_append.mp hversion with hold | hnew
      · exact .inl hold
      · rw [List.mem_singleton.mp hnew]
        exact .inr rfl

theorem saveDrafts_cited (h : saveDrafts application generatedBy versions drafts = .ok (versions', rows)) :
    ∀ version ∈ versions', version ∈ versions ∨ ∃ draft ∈ drafts, version.cited = draft.cited := by
  induction drafts generalizing versions rows with
  | nil =>
      cases h
      exact fun _ => .inl
  | cons draft drafts ih =>
      obtain ⟨⟨saved, row⟩, hsave, h⟩ := bind_eq_ok h
      obtain ⟨⟨saved', rest⟩, hrest, h⟩ := bind_eq_ok h
      cases h
      intro version hversion
      rcases ih hrest version hversion with hsaved | ⟨other, hother, hcited⟩
      · rcases saveDraft_cited hsave version hsaved with hold | hcited
        · exact .inl hold
        · exact .inr ⟨draft, List.mem_cons_self, hcited⟩
      · exact .inr ⟨other, List.mem_cons_of_mem draft hother, hcited⟩

/-- A save writes versions that cite what its drafts cite, and nothing else. -/
theorem save_cited {s s' : EvidenceStore κ V}
    (h : s.save application generatedBy drafts = .ok (s', rows)) :
    s'.chunks = s.chunks ∧ s'.documents = s.documents
      ∧ ∀ version ∈ s'.versions, version ∈ s.versions
        ∨ ∃ draft ∈ drafts, version.cited = draft.cited := by
  obtain ⟨⟨versions, rows⟩, hsave, h⟩ := bind_eq_ok h
  cases h
  exact ⟨rfl, rfl, saveDrafts_cited hsave⟩

end saved

/-! ### Runs -/

namespace EvidenceSystem
variable {κ V : Type} {s : EvidenceSystem κ V}

/-- What preparations have in hand is on record unless it was deleted since. -/
structure CitedInv (s : EvidenceSystem κ V) : Prop where
  nodup : (s.store.chunks.map EvidenceChunkRow.id).Nodup
  cited : CitedOnRecord s.store
  inHand : ∀ t p, s.preparations t = some p → ∀ record ∈ p.evidence,
    record.evidenceId ∉ p.lost → OnRecord s.store record

theorem CitedInv.start : CitedInv (EvidenceSystem.start : EvidenceSystem κ V) where
  nodup := List.nodup_nil
  cited := fun _ h => by cases h
  inHand := fun _ _ h => by cases h

theorem CitedInv.sync {redactText : RedactText} {call : SyncCall κ V} (h : CitedInv s) :
    CitedInv (s.sync redactText call) := by
  unfold EvidenceSystem.sync
  split
  · exact h
  case h_2 store result hsync =>
    have hsynced := synced h.nodup hsync
    refine ⟨hsynced.nodup, fun version hversion record hrecord => ?_, fun t p hp => ?_⟩
    · have hversion : version ∈ s.store.versions := hsynced.versions ▸ hversion
      have honRecord := h.cited version hversion record hrecord
      rcases onRecord_synced h.nodup hsynced honRecord with hkept | ⟨-, hcited⟩
      · exact hkept
      · exact absurd (mem_citedEvidenceIds hversion hrecord) hcited
    · obtain ⟨old, hold, rfl⟩ := Option.map_eq_some_iff.mp hp
      intro record hrecord hlost
      have hnotLost : record.evidenceId ∉ old.lost :=
        fun hmem => hlost (List.mem_append_left _ hmem)
      have honRecord := h.inHand t old hold record hrecord hnotLost
      rcases onRecord_synced h.nodup hsynced honRecord with hkept | ⟨hdeleted, -⟩
      · exact hkept
      · exact absurd (List.mem_append_right _ hdeleted) hlost

theorem CitedInv.select {t : UUID} {query : EvidenceQuery V} (h : CitedInv s) :
    CitedInv (s.select t query) := by
  refine ⟨h.nodup, h.cited, fun t' p hp record hrecord hlost => ?_⟩
  have hp : (if t' = t then some { evidence := s.store.search query, lost := [] }
      else s.preparations t') = some p := hp
  split at hp
  · cases hp
    exact onRecord_search hrecord
  · exact h.inHand t' p hp record hrecord hlost

theorem CitedInv.save {t : UUID} {unsupportedTerms : UnsupportedTerms}
    {proposals : List (ArtifactType × DraftProposal)} {application : UUID} {generatedBy : String}
    (h : CitedInv s)
    (hlost : s.citesLost (.save t unsupportedTerms proposals application generatedBy) = false) :
    CitedInv (s.save t unsupportedTerms proposals application generatedBy) := by
  unfold EvidenceSystem.save
  split
  · exact h
  case h_2 drafts hdrafts =>
    split
    · exact h
    case h_2 store rows hsave =>
      obtain ⟨hchunks, -, hversions⟩ := save_cited hsave
      have honRecord : ∀ record, OnRecord s.store record → OnRecord store record := by
        rintro record ⟨row, hrow, hsame⟩
        exact ⟨row, hchunks ▸ hrow, hsame⟩
      obtain ⟨p, hp, hpdrafts⟩ := Option.bind_eq_some_iff.mp hdrafts
      refine ⟨hchunks ▸ h.nodup, fun version hversion record hrecord => honRecord record ?_,
        fun t' p' hp' record hrecord hnotLost =>
          honRecord record (h.inHand t' p' hp' record hrecord hnotLost)⟩
      rcases hversions version hversion with hold | ⟨draft, hdraft, hcited⟩
      · exact h.cited version hold record hrecord
      · rw [hcited] at hrecord
        have hok : p.drafts unsupportedTerms proposals = .ok drafts := by
          cases hd : p.drafts unsupportedTerms proposals with
          | error e => rw [hd] at hpdrafts; cases hpdrafts
          | ok d => rw [hd] at hpdrafts; cases hpdrafts; rfl
        have hinHand : record ∈ p.evidence := by
          unfold Preparation.drafts at hok
          split at hok
          · cases hok
          · exact cited_of_writeDrafts hok draft hdraft record hrecord
        refine h.inHand t p hp record hinHand fun hmem => ?_
        have hcites :
            s.citesLost (.save t unsupportedTerms proposals application generatedBy) = true := by
          simp only [citesLost, hp, hdrafts, Option.any_some, Option.getD_some, List.any_eq_true]
          exact ⟨draft, hdraft, record, hrecord, decide_eq_true hmem⟩
        rw [hlost] at hcites
        cases hcites

/-- **One step** keeps what is cited on record. -/
theorem CitedInv.step (i : EvidenceStep κ V) (h : CitedInv s) (hlost : s.citesLost i = false) :
    CitedInv (s.advance i) := by
  cases i with
  | sync redactText call => exact h.sync
  | select t query => exact h.select
  | save t unsupportedTerms proposals application generatedBy => exact h.save hlost

/-- **Cited evidence is kept**: in a run of syncs, retrievals and saves in any order in which no
save is of drafts citing what was deleted since it was retrieved, every evidence id that a saved
version cites has a row with the text that was cited. -/
theorem cited_evidence_kept (steps : List (EvidenceStep κ V))
    (h : machine.Along (fun s i => s.citesLost i = false) start steps) :
    CitedOnRecord (machine.after start steps).store :=
  (Machine.invariant (fun _ i hinv hlost => hinv.step i hlost) CitedInv.start h).cited

/-! ### A chunk that is deleted while a draft is written -/

/-- A version of a resume, each text a bullet. -/
def resumeVersion (sha256 : String) (texts : List String) : SyncCall String ℕ where
  path := "/resume.md"
  sha256
  kind := .markdown
  embeddingModel := "hash"
  embeddingVersion := "1"
  chunks := texts.mapIdx fun index text =>
    { evidenceId := evidenceIdFor "/resume.md" text, kind := .role,
      sourceRef := "resume.md#experience", chunkIndex := index, text, embedding := some [index] }
  now := 0

def wholeRecord : EvidenceQuery ℕ where
  similarity _ := 1
  embeddingModel := "hash"
  topK := 8
  minSimilarity := 0

/-- A draft that restates one bullet. -/
def bulletProposal (text : String) : ArtifactType × DraftProposal :=
  (.resume, { artifactType := .resume,
              segments := [{ text, evidenceIds := [evidenceIdFor "/resume.md" text] }] })

/-- The sync with the new version runs between the retrieval and the save, or before both. -/
def editedResume (early : Bool) : List (EvidenceStep String ℕ) :=
  let edit := EvidenceStep.sync id (resumeVersion "v2" ["led a team"])
  let retrieval := EvidenceStep.select 1 wholeRecord
  let bullet := if early then "led a team" else "built APIs"
  [.sync id (resumeVersion "v1" ["built APIs", "led a team"])]
    ++ (if early then [edit, retrieval] else [retrieval, edit])
    ++ [.save 1 (fun _ _ => []) [bulletProposal bullet] 7 "artifact_prep"]

theorem cited_evidence_kept_editedResume :
    CitedOnRecord (machine.after start (editedResume true)).store
      ∧ (machine.after start (editedResume true)).store.versions ≠ [] :=
  ⟨cited_evidence_kept (editedResume true) (by decide +kernel), by decide +kernel⟩

/-- The draft cites a chunk that the sync deleted, since nothing cited it yet. -/
theorem cited_evidence_deleted :
    ¬ ∀ steps : List (EvidenceStep String ℕ), CitedOnRecord (machine.after start steps).store := by
  intro h
  have hlost : ¬ CitedOnRecord (machine.after start (editedResume false)).store := by
    decide +kernel
  exact hlost (h (editedResume false))

end EvidenceSystem

end PersonalOS
