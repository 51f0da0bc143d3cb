import PersonalOS.EvidenceStore
import Mathlib.Data.Rat.Defs

/-! # Tailored drafts

What artifact preparation does between the evidence it retrieves and the versions it saves.

* **Retrieval.** `search` is the active chunks of one model that are nearest a query, the most
  similar first.  The similarity is a parameter.
* **Validation.** `finalizeDraft` turns a proposal into a draft unless a claim of it is not traced
  to the records it was given.  Which terms of a text are unsupported is a parameter.
* **Saving.** `save` stores the drafts of one preparation in one transaction, each as the next
  version of its type. -/

namespace PersonalOS

open Keyed

/-! ### Retrieval -/

/-- A query: the similarity of a vector to it, and the bounds. -/
structure EvidenceQuery (V : Type) where
  similarity : List V → ℚ
  embeddingModel : String
  topK : ℕ
  minSimilarity : ℚ

namespace EvidenceStore
variable {κ V : Type}

def toRecord (row : EvidenceChunkRow V) : EvidenceRecord where
  evidenceId := row.id
  sourceType := row.sourceType
  sourceRef := row.sourceRef
  text := row.chunkText

/-- The chunks ranked by their similarity to the query. -/
def findSimilar (query : EvidenceQuery V) (s : EvidenceStore κ V) : List (EvidenceChunkRow V) :=
  let rows := s.chunks.filter fun row =>
    decide (row.embeddingModel = query.embeddingModel) && row.active
      && decide (query.minSimilarity ≤ query.similarity row.embedding)
  let ranked := rows.insertionSort fun row row' =>
    query.similarity row'.embedding ≤ query.similarity row.embedding
  ranked.take query.topK

/-- The nearest chunks that have a text. -/
def search (query : EvidenceQuery V) (s : EvidenceStore κ V) : List EvidenceRecord :=
  ((s.findSimilar query).filter fun row => decide (strip row.chunkText ≠ "")).map toRecord

end EvidenceStore

/-! ### Validation -/

/-- One sentence of a draft, and the records it restates. -/
structure DraftSegment where
  text : String
  evidenceIds : List EvidenceId
deriving DecidableEq, Repr

/-- A document as the writer proposed it. -/
structure DraftProposal where
  artifactType : ArtifactType
  segments : List DraftSegment
deriving DecidableEq, Repr

/-- Why a claim could not be traced. -/
inductive ClaimFlag where
  | uncited (segmentIndex : ℕ) (text : String) (terms : List String)
  | unknownEvidence (segmentIndex : ℕ) (text : String) (ids : List EvidenceId)
  | unsupportedFact (segmentIndex : ℕ) (text : String) (terms : List String)
  | noEvidence
deriving DecidableEq, Repr

/-- The terms of a text that none of the supporting texts contains. -/
abbrev UnsupportedTerms := String → List String → List String

/-- A draft, and the records it cites. -/
structure ArtifactDraft where
  artifactType : ArtifactType
  content : String
  cited : List EvidenceRecord
deriving DecidableEq, Repr

def ArtifactDraft.evidence (draft : ArtifactDraft) : List EvidenceRef :=
  draft.cited.map EvidenceRecord.toRef

/-- The record under an id; of two with one id the later. -/
def recordOf (evidence : List EvidenceRecord) (id : EvidenceId) : Option EvidenceRecord :=
  lookup EvidenceRecord.evidenceId id evidence.reverse

/-- The flags of one segment, and the ids it cites. -/
def validateSegment (unsupportedTerms : UnsupportedTerms) (evidence : List EvidenceRecord)
    (index : ℕ) (segment : DraftSegment) : List ClaimFlag × List EvidenceId :=
  if strip segment.text = "" then ([], [])
  else
    let unknown := segment.evidenceIds.filter fun id => (recordOf evidence id).isNone
    if unknown ≠ [] then ([.unknownEvidence index segment.text unknown], [])
    else
      let records := segment.evidenceIds.filterMap (recordOf evidence)
      let terms := unsupportedTerms segment.text (records.map EvidenceRecord.text)
      let flag := if segment.evidenceIds = [] then ClaimFlag.uncited else ClaimFlag.unsupportedFact
      (if terms = [] then [] else [flag index segment.text terms], segment.evidenceIds)

/-- The flags of a proposal, and the ids it cites in first-cited order. -/
def validateDraft (unsupportedTerms : UnsupportedTerms) (evidence : List EvidenceRecord)
    (proposal : DraftProposal) : List ClaimFlag × List EvidenceId :=
  let verdicts := proposal.segments.mapIdx (validateSegment unsupportedTerms evidence)
  let flags := verdicts.flatMap Prod.fst
  let cited := (verdicts.flatMap Prod.snd).eraseDups
  (if cited = [] ∧ flags = [] then [.noEvidence] else flags, cited)

/-- What artifact preparation raises. -/
inductive DraftError where
  /-- `JobSearchContractError`: nothing was retrieved for the posting. -/
  | nothingRetrieved
  /-- `JobSearchContractError`: the writer was asked for a draft of another type. -/
  | wrongType (asked given : ArtifactType)
  | untraceableClaim (flags : List ClaimFlag)
  /-- `InvalidEvidenceLinkage`: an artifact version must cite at least one evidence source. -/
  | citesNothing
deriving DecidableEq, Repr

/-- Turn a proposal into a storable draft. -/
def finalizeDraft (unsupportedTerms : UnsupportedTerms) (evidence : List EvidenceRecord)
    (proposal : DraftProposal) : Except DraftError ArtifactDraft :=
  let (flags, cited) := validateDraft unsupportedTerms evidence proposal
  if flags ≠ [] then .error (.untraceableClaim flags)
  else .ok {
    artifactType := proposal.artifactType
    content := String.intercalate "\n"
      ((proposal.segments.map fun segment => strip segment.text).filter fun text =>
        decide (text ≠ ""))
    cited := cited.filterMap (recordOf evidence) }

/-- The drafts of the asked types, one proposal each. -/
def writeDrafts (unsupportedTerms : UnsupportedTerms) (evidence : List EvidenceRecord) :
    List (ArtifactType × DraftProposal) → Except DraftError (List ArtifactDraft)
  | [] => .ok []
  | (asked, proposal) :: rest =>
      if proposal.artifactType ≠ asked then .error (.wrongType asked proposal.artifactType)
      else do
        let draft ← finalizeDraft unsupportedTerms evidence proposal
        let drafts ← writeDrafts unsupportedTerms evidence rest
        return draft :: drafts

/-! ### Saving -/

/-- Longest stored name of what generated a version. -/
def generatedByChars : ℕ := 255

/-- The latest version of the type for the application. -/
def latestVersion (versions : List ArtifactVersion) (application : UUID)
    (artifactType : ArtifactType) : Option ArtifactVersion :=
  (versions.filter fun version => decide (version.application = application)
    && decide (version.artifactType = artifactType)).argmax ArtifactVersion.version

/-- The row of a draft, and the table with it. -/
def saveDraft (application : UUID) (generatedBy : String) (versions : List ArtifactVersion)
    (draft : ArtifactDraft) : Except DraftError (List ArtifactVersion × ArtifactVersion) :=
  if draft.evidence = [] then .error .citesNothing
  else
    let latest := latestVersion versions application draft.artifactType
    let same := latest.filter fun row =>
      decide (row.content = draft.content) && decide (row.evidence = draft.evidence)
    match same with
    | some row => .ok (versions, row)
    | none =>
        let row : ArtifactVersion := {
          application
          artifactType := draft.artifactType
          version := (latest.map ArtifactVersion.version).getD 0 + 1
          content := draft.content
          generatedBy := String.ofList (generatedBy.toList.take generatedByChars)
          cited := draft.cited }
        .ok (versions ++ [row], row)

def saveDrafts (application : UUID) (generatedBy : String) :
    List ArtifactVersion → List ArtifactDraft →
      Except DraftError (List ArtifactVersion × List ArtifactVersion)
  | versions, [] => .ok (versions, [])
  | versions, draft :: rest => do
      let (versions, row) ← saveDraft application generatedBy versions draft
      let (versions, rows) ← saveDrafts application generatedBy versions rest
      return (versions, row :: rows)

/-- Store each draft as the next version of its type; the rows they were stored as. -/
def EvidenceStore.save {κ V : Type} (application : UUID) (generatedBy : String)
    (drafts : List ArtifactDraft) (s : EvidenceStore κ V) :
    Except DraftError (EvidenceStore κ V × List ArtifactVersion) := do
  let (versions, rows) ← saveDrafts application generatedBy s.versions drafts
  return ({ s with versions }, rows)

end PersonalOS
