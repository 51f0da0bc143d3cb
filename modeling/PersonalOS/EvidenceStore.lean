import PersonalOS.ExecutionLedger
import PersonalOS.Keyed
import PersonalOS.Texts
import Mathlib.Data.List.Sort

/-! # The evidence of a candidate

The documents of one candidate, the chunks that were cut from them, and the artifact versions that
cite chunks.

* **Ids.** The id of a chunk is derived from the path of its document and its text up to
  whitespace (`evidenceIdFor`).  It is what it is derived from here, and so is the SHA-256 of a
  content, `κ`: two of them are never the same for different things.
* **Syncs.** `EvidenceStore.sync` makes a list of chunks the active evidence of a document, in one
  transaction: it raises and changes nothing, or commits.  Vectors are lists over `V`.
* **Ingestion.** `ResumeIngestor.ingest` reads a content, and syncs the chunks that are cut from
  it, unless it is the content on record. -/

namespace PersonalOS

open Keyed

/-! ### Ids -/

/-- What an evidence id is derived from. -/
structure EvidenceId where
  documentPath : String
  /-- The normalized text of the chunk. -/
  text : String
deriving DecidableEq, Repr

/-- `\s+` replaced by a blank. -/
def collapseSpaces : Bool → List Char → List Char
  | _, [] => []
  | inSpace, c :: text =>
      if isSpace c then
        if inSpace then collapseSpaces true text else ' ' :: collapseSpaces true text
      else c :: collapseSpaces false text

def normalizeChunkText (text : String) : String :=
  strip (String.ofList (collapseSpaces false text.toList))

example : normalizeChunkText " built\n\tAPIs  " = "built APIs" := by decide +kernel

def evidenceIdFor (documentPath text : String) : EvidenceId where
  documentPath
  text := normalizeChunkText text

/-! ### Records -/

inductive DocumentKind where
  | pdf
  | docx
  | markdown
  | text
deriving DecidableEq, Repr

/-- What part of a resume a chunk was cut from. -/
inductive ChunkKind where
  | wholeSection
  | role
  | project
  | skills
deriving DecidableEq, Repr

inductive EvidenceSourceType where
  | resume
  | project
deriving DecidableEq, Repr

def EvidenceSourceType.value : EvidenceSourceType → String
  | .resume => "resume"
  | .project => "project"

/-- Projects are `project` evidence; everything else is `resume` evidence. -/
def ChunkKind.sourceType : ChunkKind → EvidenceSourceType
  | .project => .project
  | _ => .resume

/-- One piece of a resume, before it is embedded. -/
structure ResumeChunk where
  kind : ChunkKind
  sourceRef : String
  text : String
deriving DecidableEq, Repr

/-- A chunk with its id, position and vector, if it needs one. -/
structure EmbeddedChunk (V : Type) where
  evidenceId : EvidenceId
  kind : ChunkKind
  sourceRef : String
  chunkIndex : ℕ
  text : String
  embedding : Option (List V)

/-- A row of `evidence_chunks`. -/
structure EvidenceChunkRow (V : Type) where
  id : EvidenceId
  documentPath : String
  sourceType : EvidenceSourceType
  sourceRef : String
  chunkText : String
  chunkIndex : ℤ
  embedding : List V
  embeddingModel : String
  embeddingVersion : String
  retiredAt : Option Time
deriving DecidableEq

namespace EvidenceChunkRow
variable {V : Type}

def active (row : EvidenceChunkRow V) : Bool := row.retiredAt.isNone

def embeddedBy (row : EvidenceChunkRow V) : String × String :=
  (row.embeddingModel, row.embeddingVersion)

/-- What is unique among the active rows. -/
def position (row : EvidenceChunkRow V) : EvidenceSourceType × String × ℤ :=
  (row.sourceType, row.sourceRef, row.chunkIndex)

end EvidenceChunkRow

/-- A row of `documents`. -/
structure DocumentRow (κ : Type) where
  path : String
  sha256 : κ
  kind : DocumentKind
  embeddingModel : String
  embeddingVersion : String
  indexedAt : Time
deriving DecidableEq

/-- One citable piece of the candidate's record. -/
structure EvidenceRecord where
  evidenceId : EvidenceId
  sourceType : EvidenceSourceType
  sourceRef : String
  text : String
deriving DecidableEq, Repr

/-- A citation. -/
structure EvidenceRef where
  type : String
  ref : EvidenceId
  excerpt : String
deriving DecidableEq, Repr

/-- Longest excerpt copied onto a citation. -/
def excerptChars : ℕ := 240

def EvidenceRecord.toRef (record : EvidenceRecord) : EvidenceRef where
  type := record.sourceType.value
  ref := record.evidenceId
  excerpt := String.ofList (record.text.toList.take excerptChars)

inductive ArtifactType where
  | resume
  | coverLetter
deriving DecidableEq, Repr

/-- A row of `artifact_versions`. -/
structure ArtifactVersion where
  application : UUID
  artifactType : ArtifactType
  version : ℕ
  content : String
  generatedBy : String
  /-- The records that are cited.  The row holds the references to them, `evidence`. -/
  cited : List EvidenceRecord
deriving DecidableEq, Repr

def ArtifactVersion.evidence (version : ArtifactVersion) : List EvidenceRef :=
  version.cited.map EvidenceRecord.toRef

/-- The tables. -/
structure EvidenceStore (κ V : Type) where
  documents : List (DocumentRow κ)
  chunks : List (EvidenceChunkRow V)
  versions : List ArtifactVersion

/-- Nothing on record. -/
def EvidenceStore.empty {κ V : Type} : EvidenceStore κ V :=
  { documents := [], chunks := [], versions := [] }

/-- What ingestion raises. -/
inductive EvidenceError where
  /-- `Conflict`: evidence from the path collides with evidence already on record. -/
  | collides (path : String)
  /-- `ValueError`: a new chunk has no embedding. -/
  | newChunkNotEmbedded (id : EvidenceId)
  /-- `ValueError`: a chunk on record has no embedding from the model and version. -/
  | notEmbeddedBy (id : EvidenceId) (embedding : String × String)
  /-- `ValidationFailed`: no text could be read from the file. -/
  | noText (name : String)
  /-- `ValidationFailed`: the embedder returned a vector of another dimension. -/
  | wrongDimension (model : String) (returned stored : ℕ)
  /-- Raised by the embedder, or where the file is read. -/
  | raised (message : String)
deriving DecidableEq, Repr

/-- One active record of a document. -/
structure IndexedEvidence where
  evidenceId : EvidenceId
  sourceType : EvidenceSourceType
  sourceRef : String
  chunkIndex : ℤ
  embeddingModel : String
  embeddingVersion : String
deriving DecidableEq, Repr

/-- A document and the evidence currently cut from it. -/
structure IndexedDocument (κ : Type) where
  document : DocumentRow κ
  evidence : List IndexedEvidence

/-- What an ingest did to the index. -/
inductive IngestionStatus where
  | indexed
  | updated
  | unchanged
deriving DecidableEq, Repr

structure IngestionResult (κ : Type) where
  status : IngestionStatus
  document : IndexedDocument κ
  added : ℕ
  kept : ℕ
  retired : ℕ
  deleted : ℕ

/-! ### Reading the store -/

namespace EvidenceStore
variable {κ V : Type}

def toIndexed (row : EvidenceChunkRow V) : IndexedEvidence where
  evidenceId := row.id
  sourceType := row.sourceType
  sourceRef := row.sourceRef
  chunkIndex := row.chunkIndex
  embeddingModel := row.embeddingModel
  embeddingVersion := row.embeddingVersion

def indexed (s : EvidenceStore κ V) (document : DocumentRow κ) : IndexedDocument κ where
  document
  evidence :=
    let rows := s.chunks.filter fun row => decide (row.documentPath = document.path) && row.active
    (rows.insertionSort fun row row' => row.chunkIndex ≤ row'.chunkIndex).map toIndexed

/-- The document on record at the path. -/
def document (s : EvidenceStore κ V) (path : String) : Option (IndexedDocument κ) :=
  (lookup DocumentRow.path path s.documents).map s.indexed

/-- Which of the ids already have a vector from this model and version. -/
def embedded (s : EvidenceStore κ V) (ids : List EvidenceId) (embedding : String × String) :
    List EvidenceId :=
  ids.filter fun id => s.chunks.any fun row =>
    decide (row.id = id) && decide (row.embeddedBy = embedding)

/-- Every evidence id that an artifact version cites. -/
def citedEvidenceIds (s : EvidenceStore κ V) : List EvidenceId :=
  s.versions.flatMap fun version => version.evidence.map EvidenceRef.ref

end EvidenceStore

/-! ### One sync -/

/-- The arguments of a sync, and its clock. -/
structure SyncCall (κ V : Type) where
  path : String
  sha256 : κ
  kind : DocumentKind
  embeddingModel : String
  embeddingVersion : String
  chunks : List (EmbeddedChunk V)
  now : Time

namespace SyncCall
variable {κ V : Type}

def embedding (call : SyncCall κ V) : String × String :=
  (call.embeddingModel, call.embeddingVersion)

/-- The chunks by their ids. -/
def wanted (call : SyncCall κ V) : List (EmbeddedChunk V) :=
  upsertAll EmbeddedChunk.evidenceId call.chunks []

def documentRow (call : SyncCall κ V) : DocumentRow κ where
  path := call.path
  sha256 := call.sha256
  kind := call.kind
  embeddingModel := call.embeddingModel
  embeddingVersion := call.embeddingVersion
  indexedAt := call.now

def recordDocument (call : SyncCall κ V) (documents : List (DocumentRow κ)) :
    List (DocumentRow κ) × IngestionStatus :=
  (upsert DocumentRow.path call.documentRow documents,
    if lookup DocumentRow.path call.path documents = none then .indexed else .updated)

/-- An active row of the document that the new version dropped. -/
def drops (call : SyncCall κ V) (row : EvidenceChunkRow V) : Bool :=
  decide (row.documentPath = call.path) && row.active
    && (lookup EmbeddedChunk.evidenceId row.id call.wanted).isNone

/-- Retire a dropped row if it is cited, else delete it. -/
def dropRow (call : SyncCall κ V) (cited : List EvidenceId) (row : EvidenceChunkRow V) :
    Option (EvidenceChunkRow V) :=
  if call.drops row then
    if row.id ∈ cited then some { row with retiredAt := some call.now } else none
  else some row

def dropUnwanted (call : SyncCall κ V) (cited : List EvidenceId)
    (rows : List (EvidenceChunkRow V)) : List (EvidenceChunkRow V) :=
  rows.filterMap (call.dropRow cited)

/-- Write a row; the unique index compares its position with the active rows. -/
def storeRow (path : String) (rows : List (EvidenceChunkRow V)) (row : EvidenceChunkRow V) :
    Except EvidenceError (List (EvidenceChunkRow V)) :=
  if row.active && rows.any fun other =>
      decide (other.id ≠ row.id) && other.active && decide (other.position = row.position) then
    .error (.collides path)
  else .ok (upsert EvidenceChunkRow.id row rows)

def storeRows (path : String) (rows : List (EvidenceChunkRow V)) :
    List (EvidenceChunkRow V) → Except EvidenceError (List (EvidenceChunkRow V))
  | [] => .ok rows
  | row :: rest => do
      let rows ← storeRow path rows row
      storeRows path rows rest

/-- The rows that are kept or brought back, in the order of the new version. -/
def keptRows (call : SyncCall κ V) (rows : List (EvidenceChunkRow V)) :
    List (EvidenceChunkRow V) :=
  call.wanted.filterMap fun chunk => lookup EvidenceChunkRow.id chunk.evidenceId rows

/-- Off every real position, so that two of them can trade places. -/
def parkedRows (kept : List (EvidenceChunkRow V)) : List (EvidenceChunkRow V) :=
  kept.mapIdx fun offset row => { row with chunkIndex := -1 - (offset : ℤ) }

/-- The vector of a chunk: its own, or the one on record if that is from the same model. -/
def vectorFor (call : SyncCall κ V) (row : Option (EvidenceChunkRow V)) (chunk : EmbeddedChunk V) :
    Except EvidenceError (List V) :=
  match row, chunk.embedding with
  | none, none => .error (.newChunkNotEmbedded chunk.evidenceId)
  | _, some vector => .ok vector
  | some row, none =>
      if row.embeddedBy = call.embedding then .ok row.embedding
      else .error (.notEmbeddedBy chunk.evidenceId call.embedding)

/-- The row of a chunk: a row on record keeps its text. -/
def placeRow (redactText : RedactText) (call : SyncCall κ V) (rows : List (EvidenceChunkRow V))
    (chunk : EmbeddedChunk V) : Except EvidenceError (EvidenceChunkRow V) := do
  let row := lookup EvidenceChunkRow.id chunk.evidenceId rows
  let embedding ← call.vectorFor row chunk
  return {
    id := chunk.evidenceId
    documentPath := call.path
    sourceType := chunk.kind.sourceType
    sourceRef := chunk.sourceRef
    chunkText := match row with
      | none => redactText chunk.text
      | some row => row.chunkText
    chunkIndex := chunk.chunkIndex
    embedding
    embeddingModel := call.embeddingModel
    embeddingVersion := call.embeddingVersion
    retiredAt := none }

def placeRows (redactText : RedactText) (call : SyncCall κ V) (rows : List (EvidenceChunkRow V)) :
    List (EmbeddedChunk V) → Except EvidenceError (List (EvidenceChunkRow V))
  | [] => .ok []
  | chunk :: rest => do
      let row ← call.placeRow redactText rows chunk
      let placed ← call.placeRows redactText rows rest
      return row :: placed

/-- Insert the new chunks and move the kept ones to their new positions. -/
def placeWanted (redactText : RedactText) (call : SyncCall κ V)
    (rows : List (EvidenceChunkRow V)) : Except EvidenceError (List (EvidenceChunkRow V)) := do
  let parked ← storeRows call.path rows (parkedRows (call.keptRows rows))
  let placed ← call.placeRows redactText rows call.wanted
  storeRows call.path parked placed

/-- The wanted chunk has an active row already. -/
def keeps (rows : List (EvidenceChunkRow V)) (chunk : EmbeddedChunk V) : Bool :=
  (lookup EvidenceChunkRow.id chunk.evidenceId rows).any EvidenceChunkRow.active

end SyncCall

namespace EvidenceStore
variable {κ V : Type}

/-- Make the chunks of the call the active evidence of its document. -/
def sync (redactText : RedactText) (call : SyncCall κ V) (s : EvidenceStore κ V) :
    Except EvidenceError (EvidenceStore κ V × IngestionResult κ) := do
  let (documents, status) := call.recordDocument s.documents
  let cited := s.citedEvidenceIds
  let rows := call.dropUnwanted cited s.chunks
  let chunks ← call.placeWanted redactText rows
  let s' := { s with documents, chunks }
  return (s', {
    status
    document := s'.indexed call.documentRow
    added := call.wanted.countP fun chunk => !SyncCall.keeps rows chunk
    kept := call.wanted.countP fun chunk => SyncCall.keeps rows chunk
    retired := s.chunks.countP fun row => call.drops row && decide (row.id ∈ cited)
    deleted := s.chunks.countP fun row => call.drops row && !decide (row.id ∈ cited) })

end EvidenceStore

/-! ### Ingestion -/

/-- A file as it was read. -/
structure SourceDocument (κ : Type) where
  path : String
  content : κ

/-- How a file is taken apart. -/
structure ResumeParsing (κ : Type) where
  detectKind : String → κ → Except EvidenceError DocumentKind
  extractText : κ → DocumentKind → Except EvidenceError String
  chunkResume : String → String → Except EvidenceError (List ResumeChunk)
  /-- The last component of a path. -/
  pathName : String → String

/-- The kind and the chunks of a file. -/
def ResumeParsing.cut {κ : Type} (parsing : ResumeParsing κ) (source : SourceDocument κ) :
    Except EvidenceError (DocumentKind × List ResumeChunk) := do
  let kind ← parsing.detectKind source.path source.content
  let text ← parsing.extractText source.content kind
  let chunks ← parsing.chunkResume text (parsing.pathName source.path)
  return (kind, chunks)

/-- The embedder, and the dimension of the vectors that are stored. -/
structure ResumeIngestor (V : Type) where
  model : String
  version : String
  embed : String → Except EvidenceError (List V)
  dimension : ℕ

namespace ResumeIngestor
variable {κ V : Type} [DecidableEq κ]

/-- The vector of a text. -/
def vector (ingestor : ResumeIngestor V) (text : String) : Except EvidenceError (List V) := do
  let vector ← ingestor.embed text
  if vector.length = ingestor.dimension then .ok vector
  else .error (.wrongDimension ingestor.model vector.length ingestor.dimension)

/-- A new vector, unless the id is among those that have one. -/
def missingVector (ingestor : ResumeIngestor V) (present : List EvidenceId) (id : EvidenceId)
    (text : String) : Except EvidenceError (Option (List V)) :=
  if id ∈ present then .ok none
  else do
    let vector ← ingestor.vector text
    return some vector

/-- The chunk at a position, to be handed to the sync. -/
def embedChunk (ingestor : ResumeIngestor V) (path : String) (present : List EvidenceId)
    (index : ℕ) (chunk : ResumeChunk) : Except EvidenceError (EmbeddedChunk V) := do
  let evidenceId := evidenceIdFor path chunk.text
  let embedding ← ingestor.missingVector present evidenceId chunk.text
  return { evidenceId, kind := chunk.kind, sourceRef := chunk.sourceRef, chunkIndex := index,
           text := chunk.text, embedding }

def embedChunks (ingestor : ResumeIngestor V) (path : String) (present : List EvidenceId) :
    ℕ → List ResumeChunk → Except EvidenceError (List (EmbeddedChunk V))
  | _, [] => .ok []
  | index, chunk :: rest => do
      let chunk ← ingestor.embedChunk path present index chunk
      let embedded ← ingestor.embedChunks path present (index + 1) rest
      return chunk :: embedded

/-- The document on record is of this content and embedder. -/
def isUnchanged (ingestor : ResumeIngestor V) (source : SourceDocument κ)
    (document : DocumentRow κ) : Bool :=
  decide (document.sha256 = source.content)
    && decide ((document.embeddingModel, document.embeddingVersion)
      = (ingestor.model, ingestor.version))

/-- What is synced: all chunks, those without a vector of the embedder on record embedded. -/
def prepare (parsing : ResumeParsing κ) (ingestor : ResumeIngestor V) (source : SourceDocument κ)
    (now : Time) (s : EvidenceStore κ V) : Except EvidenceError (SyncCall κ V) := do
  let (kind, chunks) ← parsing.cut source
  if chunks = [] then .error (.noText (parsing.pathName source.path))
  else do
    let ids := chunks.map fun chunk => evidenceIdFor source.path chunk.text
    let present := s.embedded ids (ingestor.model, ingestor.version)
    let embedded ← ingestor.embedChunks source.path present 0 chunks
    return { path := source.path, sha256 := source.content, kind,
             embeddingModel := ingestor.model, embeddingVersion := ingestor.version,
             chunks := embedded, now }

/-- Index the file; a no-op if nothing changed. -/
def ingest (parsing : ResumeParsing κ) (redactText : RedactText) (ingestor : ResumeIngestor V)
    (source : SourceDocument κ) (now : Time) (s : EvidenceStore κ V) :
    Except EvidenceError (EvidenceStore κ V × IngestionResult κ) :=
  match (lookup DocumentRow.path source.path s.documents).filter (ingestor.isUnchanged source) with
  | some previous => .ok (s, { status := .unchanged, document := s.indexed previous,
                               added := 0, kept := 0, retired := 0, deleted := 0 })
  | none => do
      let call ← prepare parsing ingestor source now s
      s.sync redactText call

end ResumeIngestor

end PersonalOS
