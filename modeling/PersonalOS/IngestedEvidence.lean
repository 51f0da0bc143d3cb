import PersonalOS.CitedEvidence

/-! # What an ingestion leaves

Any ingestions of any documents and any saves, one at a time.

* **Chunks.** `HasChunks` says that the active rows of a document are the chunks of a version of
  it, each evidence id once, at the place of its last occurrence.
* **One ingestion.** `Ingested` says what is on record after an ingestion, and what became of what
  was on record before.  It holds of every ingestion in every run, and an ingestion is refused only
  when its file cannot be read or embedded, or at a position that an active row of another document
  holds (`evidence_sync`). -/

namespace PersonalOS

open Keyed Lockstep

/-! ### Runs -/

/-- One ingestion: the file, what reads it, and the clock. -/
structure Ingestion (κ V : Type) where
  redactText : RedactText
  ingestor : ResumeIngestor V
  source : SourceDocument κ
  now : Time

namespace Ingestion
variable {κ V : Type} [DecidableEq κ]

def path (i : Ingestion κ V) : String := i.source.path

def embedding (i : Ingestion κ V) : String × String := (i.ingestor.model, i.ingestor.version)

def run (parsing : ResumeParsing κ) (i : Ingestion κ V) (s : EvidenceStore κ V) :
    Except EvidenceError (EvidenceStore κ V × IngestionResult κ) :=
  i.ingestor.ingest parsing i.redactText i.source i.now s

end Ingestion

inductive IngestionStep (κ V : Type) where
  | ingest (i : Ingestion κ V)
  | save (application : UUID) (generatedBy : String) (drafts : List ArtifactDraft)

/-- The redaction that an ingestion applies. -/
def IngestionStep.redactText? {κ V : Type} : IngestionStep κ V → Option RedactText
  | .ingest i => some i.redactText
  | .save _ _ _ => none

namespace EvidenceStore
variable {κ V : Type} [DecidableEq κ]

/-- A step that raises changes nothing. -/
def advance (parsing : ResumeParsing κ) (s : EvidenceStore κ V) :
    IngestionStep κ V → EvidenceStore κ V
  | .ingest i => match i.run parsing s with
      | .error _ => s
      | .ok (s', _) => s'
  | .save application generatedBy drafts => match s.save application generatedBy drafts with
      | .error _ => s
      | .ok (s', _) => s'

def machine (parsing : ResumeParsing κ) : Machine (IngestionStep κ V) Unit (EvidenceStore κ V) where
  step s i := ((), s.advance parsing i)

/-- What is under the id: the text, and whether it is active. -/
def evidenceUnder (s : EvidenceStore κ V) (id : EvidenceId) : Option (String × Bool) :=
  (lookup EvidenceChunkRow.id id s.chunks).map fun row => (row.chunkText, row.active)

end EvidenceStore

/-! ### The chunks of a version -/

section chunks
variable {κ V : Type} {path : String} {chunks : List ResumeChunk} {embedding : String × String}
  {rows rows' : List (EvidenceChunkRow V)} {row : EvidenceChunkRow V}

/-- The row is that of the chunk at position `n`, the last with its id. -/
structure IsChunkAt (path : String) (chunks : List ResumeChunk) (embedding : String × String)
    (row : EvidenceChunkRow V) (n : ℕ) (hn : n < chunks.length) : Prop where
  id : row.id = evidenceIdFor path chunks[n].text
  last : ∀ m, ∀ hm : m < chunks.length, n < m → evidenceIdFor path chunks[m].text ≠ row.id
  sourceType : row.sourceType = chunks[n].kind.sourceType
  sourceRef : row.sourceRef = chunks[n].sourceRef
  chunkIndex : row.chunkIndex = n
  embeddedBy : row.embeddedBy = embedding

/-- The active rows of the document are these chunks. -/
structure HasChunks (path : String) (chunks : List ResumeChunk) (embedding : String × String)
    (rows : List (EvidenceChunkRow V)) : Prop where
  all : ∀ chunk ∈ chunks, ∃ row ∈ rows,
    row.id = evidenceIdFor path chunk.text ∧ row.documentPath = path ∧ row.active = true
  only : ∀ row ∈ rows, row.documentPath = path → row.active = true →
    ∃ n, ∃ hn : n < chunks.length, IsChunkAt path chunks embedding row n hn

theorem HasChunks.congr (h : HasChunks path chunks embedding rows)
    (hsame : ∀ row : EvidenceChunkRow V, row.documentPath = path → (row ∈ rows' ↔ row ∈ rows)) :
    HasChunks path chunks embedding rows' := by
  refine ⟨fun chunk hchunk => ?_, fun row hrow hpath hactive => ?_⟩
  · obtain ⟨row, hrow, hid, hpath, hactive⟩ := h.all chunk hchunk
    exact ⟨row, (hsame row hpath).mpr hrow, hid, hpath, hactive⟩
  · exact h.only row ((hsame row hpath).mp hrow) hpath hactive

/-- The chunk as it is handed to the sync. -/
structure IsEmbedded (path : String) (index : ℕ) (chunk : ResumeChunk)
    (embedded : EmbeddedChunk V) : Prop where
  evidenceId : embedded.evidenceId = evidenceIdFor path chunk.text
  kind : embedded.kind = chunk.kind
  sourceRef : embedded.sourceRef = chunk.sourceRef
  chunkIndex : embedded.chunkIndex = index
  text : embedded.text = chunk.text

variable {ingestor : ResumeIngestor V} {present : List EvidenceId} {start : ℕ}
  {embedded : List (EmbeddedChunk V)}

theorem embedChunk_ok {index : ℕ} {chunk : ResumeChunk} {e : EmbeddedChunk V}
    (h : ingestor.embedChunk path present index chunk = .ok e) :
    IsEmbedded path index chunk e ∧ (e.embedding = none → e.evidenceId ∈ present) := by
  obtain ⟨vector, hvector, h⟩ := bind_eq_ok h
  cases h
  refine ⟨⟨rfl, rfl, rfl, rfl, rfl⟩, fun hnone => ?_⟩
  dsimp only at hnone
  rw [hnone] at hvector
  unfold ResumeIngestor.missingVector at hvector
  split at hvector
  case isTrue hmem => exact hmem
  case isFalse =>
    obtain ⟨v, -, hv⟩ := bind_eq_ok hvector
    cases hv

theorem embedChunks_ok (h : ingestor.embedChunks path present start chunks = .ok embedded) :
    embedded.length = chunks.length
      ∧ (∀ n, ∀ hn : n < chunks.length, ∀ hn' : n < embedded.length,
          IsEmbedded path (start + n) chunks[n] embedded[n])
      ∧ ∀ e ∈ embedded, e.embedding = none → e.evidenceId ∈ present := by
  induction chunks generalizing start embedded with
  | nil =>
      cases h
      refine ⟨rfl, ?_, ?_⟩
      · intro n hn
        cases hn
      · intro e he
        cases he
  | cons chunk chunks ih =>
      obtain ⟨first, hfirst, h⟩ := bind_eq_ok h
      obtain ⟨rest, hrest, h⟩ := bind_eq_ok h
      cases h
      obtain ⟨hlength, hall, hpresent⟩ := ih hrest
      refine ⟨congrArg (· + 1) hlength, fun n hn hn' => ?_, fun e he => ?_⟩
      · cases n with
        | zero => exact (embedChunk_ok hfirst).1
        | succ n =>
            have hindex : start + (n + 1) = start + 1 + n := by omega
            rw [hindex]
            exact hall n (Nat.lt_of_succ_lt_succ hn) (Nat.lt_of_succ_lt_succ hn')
      · rcases List.mem_cons.mp he with rfl | he
        · exact (embedChunk_ok hfirst).2
        · exact hpresent e he

end chunks

/-! ### What is synced -/

section prepared
variable {κ V : Type} {parsing : ResumeParsing κ} {i : Ingestion κ V}
  {s s' : EvidenceStore κ V} {call : SyncCall κ V} {kind : DocumentKind}
  {chunks : List ResumeChunk}

/-- The call is the sync of these chunks of the file. -/
structure PreparedSync (i : Ingestion κ V) (s : EvidenceStore κ V) (chunks : List ResumeChunk)
    (call : SyncCall κ V) : Prop where
  path : call.path = i.path
  sha256 : call.sha256 = i.source.content
  embedding : call.embedding = i.embedding
  now : call.now = i.now
  length : call.chunks.length = chunks.length
  chunk : ∀ n, ∀ hn : n < chunks.length, ∀ hn' : n < call.chunks.length,
    IsEmbedded i.path n chunks[n] call.chunks[n]
  present : ∀ e ∈ call.chunks, e.embedding = none →
    ∃ row ∈ s.chunks, row.id = e.evidenceId ∧ row.embeddedBy = i.embedding

theorem preparedSync (h : i.ingestor.prepare parsing i.source i.now s = .ok call) :
    ∃ kind chunks, parsing.cut i.source = .ok (kind, chunks) ∧ PreparedSync i s chunks call := by
  obtain ⟨⟨kind, chunks⟩, hcut, h⟩ := bind_eq_ok h
  dsimp only at h
  split at h
  · cases h
  · obtain ⟨embedded, hembedded, h⟩ := bind_eq_ok h
    cases h
    obtain ⟨hlength, hall, hpresent⟩ := embedChunks_ok hembedded
    refine ⟨kind, chunks, hcut, ⟨rfl, rfl, rfl, rfl, hlength, fun n hn hn' => ?_, ?_⟩⟩
    · have := hall n hn hn'
      rwa [Nat.zero_add] at this
    · intro e he hnone
      have hmem := (List.mem_filter.mp (hpresent e he hnone)).2
      obtain ⟨row, hrow, hsame⟩ := List.any_eq_true.mp hmem
      simp only [Bool.and_eq_true, decide_eq_true_eq] at hsame
      exact ⟨row, hrow, hsame⟩

theorem PreparedSync.wanted (h : PreparedSync i s chunks call) {w : EmbeddedChunk V}
    (hw : w ∈ call.wanted) :
    ∃ n, ∃ hn : n < chunks.length, IsEmbedded i.path n chunks[n] w
      ∧ ∀ m, ∀ hm : m < chunks.length, n < m →
          evidenceIdFor i.path chunks[m].text ≠ w.evidenceId := by
  have hlookup := lookup_of_mem SyncCall.nodup_wanted hw
  rw [SyncCall.lookup_wanted] at hlookup
  obtain ⟨n, hn, hget, -, hlast⟩ := lookup_reverse hlookup
  have hn' : n < chunks.length := h.length ▸ hn
  refine ⟨n, hn', hget ▸ h.chunk n hn' hn, fun m hm hlt => ?_⟩
  have hm' : m < call.chunks.length := h.length.symm ▸ hm
  rw [← (h.chunk m hm hm').evidenceId]
  exact hlast m hm' hlt

theorem PreparedSync.isWanted_iff (h : PreparedSync i s chunks call) {id : EvidenceId} :
    (lookup EmbeddedChunk.evidenceId id call.wanted).isSome
      ↔ ∃ chunk ∈ chunks, evidenceIdFor i.path chunk.text = id := by
  rw [SyncCall.isWanted_iff]
  constructor
  · rintro ⟨e, he, rfl⟩
    obtain ⟨n, hn, rfl⟩ := List.mem_iff_getElem.mp he
    have hn' : n < chunks.length := h.length ▸ hn
    exact ⟨chunks[n], List.getElem_mem hn', (h.chunk n hn' hn).evidenceId.symm⟩
  · rintro ⟨chunk, hchunk, rfl⟩
    obtain ⟨n, hn, rfl⟩ := List.mem_iff_getElem.mp hchunk
    have hn' : n < call.chunks.length := h.length.symm ▸ hn
    exact ⟨call.chunks[n], List.getElem_mem hn', (h.chunk n hn hn').evidenceId⟩

theorem PreparedSync.not_wanted (h : PreparedSync i s chunks call) {id : EvidenceId}
    (hid : ∀ chunk ∈ chunks, evidenceIdFor i.path chunk.text ≠ id) :
    lookup EmbeddedChunk.evidenceId id call.wanted = none := by
  rw [← Option.not_isSome_iff_eq_none, h.isWanted_iff]
  rintro ⟨chunk, hchunk, heq⟩
  exact hid chunk hchunk heq

theorem PreparedSync.positions (h : PreparedSync i s chunks call) :
    (call.wanted.map EmbeddedChunk.chunkIndex).Nodup := by
  refine List.Nodup.map_on (fun w hw w' hw' heq => ?_) (List.Nodup.of_map _ SyncCall.nodup_wanted)
  obtain ⟨n, hn, hat, -⟩ := h.wanted hw
  obtain ⟨m, hm, hat', -⟩ := h.wanted hw'
  have hnm : n = m := hat.chunkIndex.symm.trans (heq.trans hat'.chunkIndex)
  subst hnm
  exact eq_of_key SyncCall.nodup_wanted hw hw' (hat.evidenceId.trans hat'.evidenceId.symm)

end prepared

/-! ### One ingestion -/

section ingested
variable {κ V : Type} {parsing : ResumeParsing κ} {i : Ingestion κ V}
  {s s' : EvidenceStore κ V} {call : SyncCall κ V} {chunks : List ResumeChunk}
  {row : EvidenceChunkRow V} {R : RedactText → Prop}

/-- The text of the row is the redaction of a text that has its id. -/
def RedactedFrom (R : RedactText → Prop) (row : EvidenceChunkRow V) : Prop :=
  ∃ redactText, R redactText ∧
    ∃ text, evidenceIdFor row.documentPath text = row.id ∧ row.chunkText = redactText text

/-- The store between steps. -/
structure EvidenceInv (parsing : ResumeParsing κ) (R : RedactText → Prop)
    (s : EvidenceStore κ V) : Prop where
  nodup : (s.chunks.map EvidenceChunkRow.id).Nodup
  home : ∀ row ∈ s.chunks, row.documentPath = row.id.documentPath
  text : ∀ row ∈ s.chunks, RedactedFrom R row
  index : ∀ row ∈ s.chunks, 0 ≤ row.chunkIndex
  /-- Each document has the chunks of the version on record. -/
  versions : ∀ document ∈ s.documents, ∃ kind chunks,
    parsing.cut { path := document.path, content := document.sha256 } = .ok (kind, chunks)
      ∧ HasChunks document.path chunks (document.embeddingModel, document.embeddingVersion) s.chunks

/-- What an ingestion of a version with these chunks leaves, of any store. -/
structure Ingested (i : Ingestion κ V) (chunks : List ResumeChunk) (R : RedactText → Prop)
    (s s' : EvidenceStore κ V) : Prop where
  nodup : (s'.chunks.map EvidenceChunkRow.id).Nodup
  /-- The active rows are the chunks, at their positions, with vectors of the current model. -/
  hasChunks : HasChunks i.path chunks i.embedding s'.chunks
  text : ∀ row ∈ s'.chunks, RedactedFrom R row
  others : ∀ row : EvidenceChunkRow V, row.documentPath ≠ i.path →
    (row ∈ s'.chunks ↔ row ∈ s.chunks)
  /-- What the version contains keeps its row, or has it back. -/
  kept : ∀ row ∈ s.chunks, (∃ chunk ∈ chunks, evidenceIdFor i.path chunk.text = row.id) →
    ∃ row' ∈ s'.chunks, row'.id = row.id ∧ row'.chunkText = row.chunkText ∧ row'.active = true
  new : ∀ row' ∈ s'.chunks, (∀ row ∈ s.chunks, row.id ≠ row'.id) →
    ∃ chunk ∈ chunks, row'.id = evidenceIdFor i.path chunk.text
      ∧ row'.chunkText = i.redactText chunk.text
  /-- What the version dropped is retired if it is cited, -/
  retired : ∀ row ∈ s.chunks, row.documentPath = i.path → row.active = true →
    (∀ chunk ∈ chunks, evidenceIdFor i.path chunk.text ≠ row.id) → row.id ∈ s.citedEvidenceIds →
    { row with retiredAt := some i.now } ∈ s'.chunks
  /-- else deleted. -/
  deleted : ∀ row ∈ s.chunks, row.documentPath = i.path → row.active = true →
    (∀ chunk ∈ chunks, evidenceIdFor i.path chunk.text ≠ row.id) → row.id ∉ s.citedEvidenceIds →
    ∀ row' ∈ s'.chunks, row'.id ≠ row.id
  stillRetired : ∀ row ∈ s.chunks, row.active = false →
    (∀ chunk ∈ chunks, evidenceIdFor i.path chunk.text ≠ row.id) → row ∈ s'.chunks
  /-- The version that is on record already changes no row's id, text or activity. -/
  again : (∃ document ∈ s.documents, document.path = i.path ∧ document.sha256 = i.source.content) →
    ∀ id, s'.evidenceUnder id = s.evidenceUnder id
  versions : s'.versions = s.versions
  recorded : ∃ document ∈ s'.documents, document.path = i.path
    ∧ document.sha256 = i.source.content
    ∧ (document.embeddingModel, document.embeddingVersion) = i.embedding

theorem Synced.row_cases (h : Synced i.redactText call s s') (hrow : row ∈ s'.chunks) :
    (∃ w ∈ call.wanted, SyncCall.Placed i.redactText call s.chunks w row)
      ∨ lookup EmbeddedChunk.evidenceId row.id call.wanted = none
        ∧ ∃ old ∈ s.chunks, old.id = row.id
          ∧ call.dropRow s.citedEvidenceIds old = some row := by
  have hlookup := lookup_of_mem h.nodup hrow
  cases hwanted : lookup EmbeddedChunk.evidenceId row.id call.wanted with
  | some w =>
      obtain ⟨hw, hid⟩ := lookup_eq_some hwanted
      obtain ⟨row', hplaced, hrow'⟩ := h.wanted w hw
      rw [hid, hlookup] at hrow'
      cases hrow'
      exact .inl ⟨w, hw, hplaced⟩
  | none =>
      have hother := h.other row.id hwanted
      rw [hlookup] at hother
      obtain ⟨old, hold, hdrop⟩ := Option.bind_eq_some_iff.mp hother.symm
      obtain ⟨hmem, hid⟩ := lookup_eq_some hold
      exact .inr ⟨rfl, old, hmem, hid, hdrop⟩

theorem Synced.mem_of_not_wanted {row' : EvidenceChunkRow V} (h : Synced i.redactText call s s')
    (hn : (s.chunks.map EvidenceChunkRow.id).Nodup) (hrow : row ∈ s.chunks)
    (hwanted : lookup EmbeddedChunk.evidenceId row.id call.wanted = none)
    (hdrop : call.dropRow s.citedEvidenceIds row = some row') : row' ∈ s'.chunks := by
  have hother := h.other row.id hwanted
  rw [lookup_of_mem hn hrow, Option.bind_some, hdrop] at hother
  exact (lookup_eq_some hother).1

theorem PreparedSync.drops_iff (hp : PreparedSync i s chunks call) :
    call.drops row = true ↔ row.documentPath = i.path ∧ row.active = true
      ∧ ∀ chunk ∈ chunks, evidenceIdFor i.path chunk.text ≠ row.id := by
  have hnone : (lookup EmbeddedChunk.evidenceId row.id call.wanted).isNone = true
      ↔ ∀ chunk ∈ chunks, evidenceIdFor i.path chunk.text ≠ row.id := by
    rw [← Option.not_isSome, Bool.not_eq_true', ← Bool.not_eq_true, hp.isWanted_iff]
    constructor
    · intro hnot chunk hchunk heq
      exact hnot ⟨chunk, hchunk, heq⟩
    · rintro hall ⟨chunk, hchunk, heq⟩
      exact hall chunk hchunk heq
  rw [SyncCall.drops, Bool.and_eq_true, Bool.and_eq_true, decide_eq_true_iff, hp.path, hnone,
    and_assoc]

theorem Synced.mem_of_not_drops (h : Synced i.redactText call s s')
    (hn : (s.chunks.map EvidenceChunkRow.id).Nodup) (hrow : row ∈ s.chunks)
    (hwanted : lookup EmbeddedChunk.evidenceId row.id call.wanted = none)
    (hdrops : call.drops row = false) : row ∈ s'.chunks :=
  h.mem_of_not_wanted hn hrow hwanted (SyncCall.dropRow_of_not_drops hdrops)

theorem eq_of_dropRow {old : EvidenceChunkRow V} {cited : List EvidenceId}
    (hdrop : call.dropRow cited old = some row) (hactive : row.active = true) :
    old = row ∧ call.drops old = false := by
  unfold SyncCall.dropRow at hdrop
  split at hdrop
  · split at hdrop
    · cases hdrop
      cases hactive
    · cases hdrop
  case isFalse hdrops =>
    cases hdrop
    exact ⟨rfl, Bool.eq_false_iff.mpr hdrops⟩

theorem dropRow_documentPath {old : EvidenceChunkRow V} {cited : List EvidenceId}
    (hdrop : call.dropRow cited old = some row) :
    row.documentPath = old.documentPath ∧ row.chunkText = old.chunkText
      ∧ row.chunkIndex = old.chunkIndex := by
  unfold SyncCall.dropRow at hdrop
  split at hdrop
  · split at hdrop
    · cases hdrop
      exact ⟨rfl, rfl, rfl⟩
    · cases hdrop
  · cases hdrop
    exact ⟨rfl, rfl, rfl⟩

/-! ### What a sync of prepared chunks leaves -/

section synced
variable (hp : PreparedSync i s chunks call) (h : Synced i.redactText call s s')
  (hinv : EvidenceInv parsing R s)
include hp h

theorem hasChunks_synced : HasChunks i.path chunks i.embedding s'.chunks := by
  refine ⟨fun chunk hchunk => ?_, fun row hrow hpath hactive => ?_⟩
  · have hwanted := hp.isWanted_iff.mpr ⟨chunk, hchunk, rfl⟩
    obtain ⟨w, hw⟩ := Option.isSome_iff_exists.mp hwanted
    obtain ⟨hmem, hid⟩ := lookup_eq_some hw
    obtain ⟨row, hplaced, hrow⟩ := h.wanted w hmem
    refine ⟨row, (lookup_eq_some hrow).1, hplaced.id.trans hid, ?_, ?_⟩
    · rw [hplaced.documentPath, hp.path]
    · rw [EvidenceChunkRow.active, hplaced.retiredAt]
      rfl
  · rcases h.row_cases hrow with ⟨w, hw, hplaced⟩ | ⟨hwanted, old, -, -, hdrop⟩
    · obtain ⟨n, hn, hat, hlast⟩ := hp.wanted hw
      refine ⟨n, hn, ⟨hplaced.id.trans hat.evidenceId, ?_, ?_, ?_, ?_, ?_⟩⟩
      · rw [hplaced.id]
        exact hlast
      · rw [hplaced.sourceType, hat.kind]
      · rw [hplaced.sourceRef, hat.sourceRef]
      · rw [hplaced.chunkIndex, hat.chunkIndex]
      · rw [hplaced.embeddedBy, hp.embedding]
    · -- An active row of the document that no chunk wants would have been dropped.
      obtain ⟨rfl, hdrops⟩ := eq_of_dropRow hdrop hactive
      have hdropped : call.drops old = true := by
        refine hp.drops_iff.mpr ⟨hpath, hactive, fun chunk hchunk heq => ?_⟩
        have hsome := hp.isWanted_iff.mpr ⟨chunk, hchunk, heq⟩
        rw [hwanted] at hsome
        cases hsome
      rw [hdrops] at hdropped
      cases hdropped

include hinv

omit h in
theorem not_wanted_of_path (hrow : row ∈ s.chunks) (hpath : row.documentPath ≠ i.path) :
    lookup EmbeddedChunk.evidenceId row.id call.wanted = none := by
  refine hp.not_wanted fun chunk _ heq => hpath ?_
  rw [hinv.home row hrow, ← heq]
  rfl

theorem others_synced (row : EvidenceChunkRow V) (hpath : row.documentPath ≠ i.path) :
    row ∈ s'.chunks ↔ row ∈ s.chunks := by
  constructor
  · intro hrow
    rcases h.row_cases hrow with ⟨w, -, hplaced⟩ | ⟨-, old, hold, -, hdrop⟩
    · exact absurd (hplaced.documentPath.trans hp.path) hpath
    · have hdrops : call.drops old = false := by
        refine Bool.eq_false_iff.mpr fun hdrops => hpath ?_
        rw [(dropRow_documentPath hdrop).1]
        exact (hp.drops_iff.mp hdrops).1
      rw [SyncCall.dropRow_of_not_drops hdrops] at hdrop
      cases hdrop
      exact hold
  · intro hrow
    refine h.mem_of_not_drops hinv.nodup hrow (not_wanted_of_path hp hinv hrow hpath) ?_
    exact Bool.eq_false_iff.mpr fun hdrops => hpath (hp.drops_iff.mp hdrops).1

theorem kept_synced (hrow : row ∈ s.chunks)
    (hchunk : ∃ chunk ∈ chunks, evidenceIdFor i.path chunk.text = row.id) :
    ∃ row' ∈ s'.chunks, row'.id = row.id ∧ row'.chunkText = row.chunkText
      ∧ row'.active = true := by
  obtain ⟨w, hw⟩ := Option.isSome_iff_exists.mp (hp.isWanted_iff.mpr hchunk)
  obtain ⟨hmem, hid⟩ := lookup_eq_some hw
  obtain ⟨row', hplaced, hrow'⟩ := h.wanted w hmem
  have hold : lookup EvidenceChunkRow.id w.evidenceId s.chunks = some row := by
    rw [hid]
    exact lookup_of_mem hinv.nodup hrow
  refine ⟨row', (lookup_eq_some hrow').1, hplaced.id.trans hid, hplaced.kept row hold, ?_⟩
  rw [EvidenceChunkRow.active, hplaced.retiredAt]
  rfl

omit hinv in
theorem new_synced {row' : EvidenceChunkRow V} (hrow : row' ∈ s'.chunks)
    (hnew : ∀ row ∈ s.chunks, row.id ≠ row'.id) :
    ∃ chunk ∈ chunks, row'.id = evidenceIdFor i.path chunk.text
      ∧ row'.chunkText = i.redactText chunk.text := by
  rcases h.row_cases hrow with ⟨w, hw, hplaced⟩ | ⟨-, old, hold, hid, -⟩
  · obtain ⟨n, hn, hat, -⟩ := hp.wanted hw
    refine ⟨chunks[n], List.getElem_mem hn, hplaced.id.trans hat.evidenceId, ?_⟩
    have hnone : lookup EvidenceChunkRow.id w.evidenceId s.chunks = none :=
      lookup_eq_none.mpr fun row hrow => hplaced.id ▸ hnew row hrow
    rw [hplaced.new hnone, hat.text]
  · exact absurd hid (hnew old hold)

theorem text_synced (hR : R i.redactText) (hrow : row ∈ s'.chunks) : RedactedFrom R row := by
  rcases h.row_cases hrow with ⟨w, hw, hplaced⟩ | ⟨-, old, hold, hid, hdrop⟩
  · obtain ⟨n, hn, hat, -⟩ := hp.wanted hw
    have hpath : row.documentPath = i.path := hplaced.documentPath.trans hp.path
    cases hold : lookup EvidenceChunkRow.id w.evidenceId s.chunks with
    | none =>
        refine ⟨i.redactText, hR, w.text, ?_, hplaced.new hold⟩
        rw [hplaced.id, hat.evidenceId, hat.text, hpath]
    | some old =>
        obtain ⟨hmem, hid⟩ := lookup_eq_some hold
        obtain ⟨redactText, hredact, text, htext, hsame⟩ := hinv.text old hmem
        refine ⟨redactText, hredact, text, ?_, (hplaced.kept old hold).trans hsame⟩
        have hhome : old.documentPath = i.path := by
          rw [hinv.home old hmem, hid, hat.evidenceId]
          rfl
        rw [hpath, ← hhome, htext, hid, hplaced.id]
  · obtain ⟨redactText, hredact, text, htext, hsame⟩ := hinv.text old hold
    obtain ⟨hpath, hrowText, -⟩ := dropRow_documentPath hdrop
    refine ⟨redactText, hredact, text, ?_, hrowText.trans hsame⟩
    rw [hpath, htext, hid]

theorem again_synced {kind : DocumentKind} (hcut : parsing.cut i.source = .ok (kind, chunks))
    (hdocument : ∃ document ∈ s.documents, document.path = i.path
      ∧ document.sha256 = i.source.content) (id : EvidenceId) :
    s'.evidenceUnder id = s.evidenceUnder id := by
  obtain ⟨document, hmem, hpath, hsha⟩ := hdocument
  obtain ⟨kind', chunks', hcut', hchunks⟩ := hinv.versions document hmem
  have hsource : ({ path := document.path, content := document.sha256 } : SourceDocument κ)
      = i.source := by
    rw [hpath, hsha]
    rfl
  rw [hsource, hcut] at hcut'
  cases hcut'
  rw [hpath] at hchunks
  unfold EvidenceStore.evidenceUnder
  cases hwanted : lookup EmbeddedChunk.evidenceId id call.wanted with
  | some w =>
      obtain ⟨hw, hid⟩ := lookup_eq_some hwanted
      obtain ⟨row', hplaced, hrow'⟩ := h.wanted w hw
      obtain ⟨chunk, hchunk, hchunkId⟩ := hp.isWanted_iff.mp (Option.isSome_of_eq_some hwanted)
      obtain ⟨old, hold, hidOld, -, hactive⟩ := hchunks.all chunk hchunk
      have holdId : old.id = w.evidenceId := (hidOld.trans hchunkId).trans hid.symm
      have hlookup : lookup EvidenceChunkRow.id w.evidenceId s.chunks = some old := by
        rw [← holdId]
        exact lookup_of_mem hinv.nodup hold
      rw [← hid, hrow', hlookup, Option.map_some, Option.map_some, hplaced.kept old hlookup,
        hactive, EvidenceChunkRow.active, hplaced.retiredAt]
      rfl
  | none =>
      rw [h.other id hwanted]
      cases hlookup : lookup EvidenceChunkRow.id id s.chunks with
      | none => rfl
      | some row =>
          obtain ⟨hrow, hid⟩ := lookup_eq_some hlookup
          have hdrops : call.drops row = false := by
            refine Bool.eq_false_iff.mpr fun hdrops => ?_
            obtain ⟨hrowPath, hactive, hnot⟩ := hp.drops_iff.mp hdrops
            obtain ⟨n, hn, hat⟩ := hchunks.only row hrow hrowPath hactive
            exact hnot chunks[n] (List.getElem_mem hn) hat.id.symm
          rw [Option.bind_some, SyncCall.dropRow_of_not_drops hdrops]

theorem ingested_synced {kind : DocumentKind} (hcut : parsing.cut i.source = .ok (kind, chunks))
    (hR : R i.redactText) : Ingested i chunks R s s' := by
  refine {
    nodup := h.nodup
    hasChunks := hasChunks_synced hp h
    text := fun row => text_synced hp h hinv hR
    others := others_synced hp h hinv
    kept := fun row => kept_synced hp h hinv
    new := fun row => new_synced hp h
    retired := fun row hrow hpath hactive hnot hcited => ?_
    deleted := fun row hrow hpath hactive hnot hcited row' hrow' hid => ?_
    stillRetired := fun row hrow hretired hnot => ?_
    again := again_synced hp h hinv hcut
    versions := h.versions
    recorded := ?_ }
  · refine h.mem_of_not_wanted hinv.nodup hrow (hp.not_wanted hnot) ?_
    rw [SyncCall.dropRow, if_pos (hp.drops_iff.mpr ⟨hpath, hactive, hnot⟩), if_pos hcited, hp.now]
  · have hother := h.other row.id (hp.not_wanted hnot)
    rw [lookup_of_mem hinv.nodup hrow, Option.bind_some, SyncCall.dropRow,
      if_pos (hp.drops_iff.mpr ⟨hpath, hactive, hnot⟩), if_neg hcited] at hother
    exact lookup_eq_none.mp hother row' hrow' hid
  · refine h.mem_of_not_drops hinv.nodup hrow (hp.not_wanted hnot) ?_
    refine Bool.eq_false_iff.mpr fun hdrops => ?_
    rw [(hp.drops_iff.mp hdrops).2.1] at hretired
    cases hretired
  · have hmem : call.documentRow ∈ s'.documents := by
      have hlookup : lookup DocumentRow.path call.path s'.documents = some call.documentRow := by
        rw [h.documents, lookup_upsert]
        exact if_pos rfl
      exact (lookup_eq_some hlookup).1
    exact ⟨call.documentRow, hmem, hp.path, hp.sha256, hp.embedding⟩

theorem EvidenceInv.synced {kind : DocumentKind}
    (hcut : parsing.cut i.source = .ok (kind, chunks)) (hR : R i.redactText) :
    EvidenceInv parsing R s' where
  nodup := h.nodup
  home := by
    intro row hrow
    rcases h.row_cases hrow with ⟨w, hw, hplaced⟩ | ⟨-, old, hold, hid, hdrop⟩
    · obtain ⟨n, hn, hat, -⟩ := hp.wanted hw
      rw [hplaced.documentPath, hp.path, hplaced.id, hat.evidenceId]
      rfl
    · rw [(dropRow_documentPath hdrop).1, hinv.home old hold, hid]
  text := fun row => text_synced hp h hinv hR
  index := by
    intro row hrow
    rcases h.row_cases hrow with ⟨w, -, hplaced⟩ | ⟨-, old, hold, -, hdrop⟩
    · rw [hplaced.chunkIndex]
      exact Int.natCast_nonneg _
    · rw [(dropRow_documentPath hdrop).2.2]
      exact hinv.index old hold
  versions := by
    intro document hdocument
    rw [h.documents] at hdocument
    rcases mem_upsert hdocument with rfl | ⟨hold, hne⟩
    · refine ⟨kind, chunks, ?_, ?_⟩
      · show parsing.cut { path := call.path, content := call.sha256 } = _
        rw [hp.path, hp.sha256]
        exact hcut
      · show HasChunks call.path chunks call.embedding s'.chunks
        rw [hp.path, hp.embedding]
        exact hasChunks_synced hp h
    · obtain ⟨kind', chunks', hcut', hchunks⟩ := hinv.versions document hold
      refine ⟨kind', chunks', hcut', hchunks.congr fun row hrow => ?_⟩
      refine others_synced hp h hinv row fun hpath => hne ?_
      exact (hrow.symm.trans hpath).trans hp.path.symm

end synced

theorem ingested_unchanged {document : DocumentRow κ}
    (hinv : EvidenceInv parsing R s) (hmem : document ∈ s.documents)
    (hpath : document.path = i.path) (hsha : document.sha256 = i.source.content)
    (hembedding : (document.embeddingModel, document.embeddingVersion) = i.embedding)
    (hchunks : HasChunks document.path chunks
      (document.embeddingModel, document.embeddingVersion) s.chunks) :
    Ingested i chunks R s s := by
  rw [hpath, hembedding] at hchunks
  have hnotDropped : ∀ row ∈ s.chunks, row.documentPath = i.path → row.active = true →
      ¬ ∀ chunk ∈ chunks, evidenceIdFor i.path chunk.text ≠ row.id := by
    intro row hrow hrowPath hactive hnot
    obtain ⟨n, hn, hat⟩ := hchunks.only row hrow hrowPath hactive
    exact hnot chunks[n] (List.getElem_mem hn) hat.id.symm
  refine {
    nodup := hinv.nodup
    hasChunks := hchunks
    text := hinv.text
    others := fun _ _ => Iff.rfl
    kept := fun row hrow hchunk => ?_
    new := fun row hrow hnew => absurd rfl (hnew row hrow)
    retired := fun row hrow hrowPath hactive hnot =>
      absurd hnot (hnotDropped row hrow hrowPath hactive)
    deleted := fun row hrow hrowPath hactive hnot =>
      absurd hnot (hnotDropped row hrow hrowPath hactive)
    stillRetired := fun _ hrow _ _ => hrow
    again := fun _ _ => rfl
    versions := rfl
    recorded := ⟨document, hmem, hpath, hsha, hembedding⟩ }
  obtain ⟨chunk, hchunk, hid⟩ := hchunk
  obtain ⟨row', hrow', hid', -, hactive⟩ := hchunks.all chunk hchunk
  have hsame : row' = row := eq_of_key hinv.nodup hrow' hrow (hid'.trans hid)
  exact ⟨row, hrow, rfl, rfl, hsame ▸ hactive⟩

end ingested

/-! ### Every ingestion -/

section run
variable {κ V : Type} [DecidableEq κ] {parsing : ResumeParsing κ} {i : Ingestion κ V}
  {s s' : EvidenceStore κ V} {result : IngestionResult κ} {R : RedactText → Prop}

theorem run_cases (parsing : ResumeParsing κ) (i : Ingestion κ V) (s : EvidenceStore κ V) :
    (∃ document ∈ s.documents, document.path = i.path ∧ document.sha256 = i.source.content
        ∧ (document.embeddingModel, document.embeddingVersion) = i.embedding
        ∧ ∃ result, i.run parsing s = .ok (s, result))
      ∨ i.run parsing s = i.ingestor.prepare parsing i.source i.now s >>= fun call =>
          s.sync i.redactText call := by
  unfold Ingestion.run ResumeIngestor.ingest
  cases hfound : (lookup DocumentRow.path i.source.path s.documents).filter
      (i.ingestor.isUnchanged i.source) with
  | none => exact .inr rfl
  | some document =>
      obtain ⟨hlookup, hsame⟩ := Option.filter_eq_some_iff.mp hfound
      obtain ⟨hmem, hpath⟩ := lookup_eq_some hlookup
      obtain ⟨hsha, hembedding⟩ := Bool.and_eq_true_iff.mp hsame
      exact .inl ⟨document, hmem, hpath, of_decide_eq_true hsha, of_decide_eq_true hembedding,
        _, rfl⟩

/-- **One ingestion** keeps the invariant and leaves what it should. -/
theorem ingested (hinv : EvidenceInv parsing R s) (hR : R i.redactText)
    (h : i.run parsing s = .ok (s', result)) :
    EvidenceInv parsing R s' ∧ ∃ kind chunks, parsing.cut i.source = .ok (kind, chunks)
      ∧ Ingested i chunks R s s' := by
  rcases run_cases parsing i s with ⟨document, hmem, hpath, hsha, hembedding, _, hrun⟩ | hrun
  · rw [hrun] at h
    cases h
    obtain ⟨kind, chunks, hcut, hchunks⟩ := hinv.versions document hmem
    have hsource : ({ path := document.path, content := document.sha256 } : SourceDocument κ)
        = i.source := by
      rw [hpath, hsha]
      rfl
    rw [hsource] at hcut
    exact ⟨hinv, kind, chunks, hcut,
      ingested_unchanged hinv hmem hpath hsha hembedding hchunks⟩
  · rw [hrun] at h
    obtain ⟨call, hprepare, hsync⟩ := bind_eq_ok h
    obtain ⟨kind, chunks, hcut, hp⟩ := preparedSync hprepare
    have hsynced := synced hinv.nodup hsync
    exact ⟨EvidenceInv.synced hp hsynced hinv hcut hR, kind, chunks, hcut,
      ingested_synced hp hsynced hinv hcut hR⟩

/-- An ingestion is refused when its file cannot be read, cut or embedded, or at a position that
an active row of another document holds. -/
theorem ingest_refused {e : EvidenceError} (hinv : EvidenceInv parsing R s)
    (h : i.run parsing s = .error e) :
    i.ingestor.prepare parsing i.source i.now s = .error e
      ∨ e = .collides i.path ∧ ∃ kind chunks, parsing.cut i.source = .ok (kind, chunks)
        ∧ ∃ n, ∃ hn : n < chunks.length, ∃ other ∈ s.chunks, other.documentPath ≠ i.path
          ∧ other.active = true
          ∧ other.position = (chunks[n].kind.sourceType, chunks[n].sourceRef, (n : ℤ)) := by
  rcases run_cases parsing i s with ⟨_, -, -, -, -, _, hrun⟩ | hrun
  · rw [hrun] at h
    cases h
  · rw [hrun] at h
    cases hprepare : i.ingestor.prepare parsing i.source i.now s with
    | error e' =>
        rw [hprepare] at h
        cases h
        exact .inl rfl
    | ok call =>
        rw [hprepare] at h
        have hsync : s.sync i.redactText call = .error e := h
        obtain ⟨kind, chunks, hcut, hp⟩ := preparedSync hprepare
        have hvector : ∀ chunk ∈ call.wanted, chunk.embedding = none →
            ∃ row, lookup EvidenceChunkRow.id chunk.evidenceId s.chunks = some row
              ∧ row.embeddedBy = call.embedding := by
          intro chunk hchunk hnone
          have hmem : chunk ∈ call.chunks := by
            rcases mem_upsertAll hchunk with hmem | ⟨hmem, -⟩
            · exact hmem
            · cases hmem
          obtain ⟨row, hrow, hid, hmodel⟩ := hp.present chunk hmem hnone
          refine ⟨row, ?_, hmodel.trans hp.embedding.symm⟩
          rw [← hid]
          exact lookup_of_mem hinv.nodup hrow
        obtain ⟨he, w, hw, other, hother, hpath, hactive, hposition⟩ :=
          sync_error hinv.nodup hinv.index hvector hp.positions hsync
        obtain ⟨n, hn, hat, -⟩ := hp.wanted hw
        rw [hp.path] at he hpath
        rw [hat.kind, hat.sourceRef, hat.chunkIndex] at hposition
        exact .inr ⟨he, kind, chunks, hcut, n, hn, other, hother, hpath, hactive, hposition⟩

omit [DecidableEq κ] in
theorem EvidenceInv.empty : EvidenceInv parsing R (EvidenceStore.empty : EvidenceStore κ V) where
  nodup := List.nodup_nil
  home := fun _ h => by cases h
  text := fun _ h => by cases h
  index := fun _ h => by cases h
  versions := fun _ h => by cases h

theorem EvidenceInv.step (step : IngestionStep κ V) (hinv : EvidenceInv parsing R s)
    (hR : ∀ redactText, step.redactText? = some redactText → R redactText) :
    EvidenceInv parsing R (s.advance parsing step) := by
  cases step with
  | ingest i =>
      unfold EvidenceStore.advance
      dsimp only
      cases hrun : i.run parsing s with
      | error e => exact hinv
      | ok out =>
          obtain ⟨s', result⟩ := out
          exact (ingested hinv (hR i.redactText rfl) hrun).1
  | save application generatedBy drafts =>
      unfold EvidenceStore.advance
      dsimp only
      cases hsave : s.save application generatedBy drafts with
      | error e => exact hinv
      | ok out =>
          obtain ⟨s', rows⟩ := out
          obtain ⟨hchunks, hdocuments, -⟩ := save_cited hsave
          exact ⟨hchunks ▸ hinv.nodup, hchunks ▸ hinv.home, hchunks ▸ hinv.text,
            hchunks ▸ hinv.index, hchunks ▸ hdocuments ▸ hinv.versions⟩

/-- **Evidence sync**: after any ingestions and saves, an ingestion leaves the chunks of its
version on record and everything else as `Ingested` says, or raises for one of its reasons. -/
theorem evidence_sync (parsing : ResumeParsing κ) (steps : List (IngestionStep κ V))
    (i : Ingestion κ V) :
    let s := (EvidenceStore.machine parsing).after EvidenceStore.empty steps
    (∀ s' result, i.run parsing s = .ok (s', result) →
      ∃ kind chunks, parsing.cut i.source = .ok (kind, chunks)
        ∧ Ingested i chunks
            (· ∈ (steps ++ [IngestionStep.ingest i]).filterMap IngestionStep.redactText?) s s')
      ∧ ∀ e, i.run parsing s = .error e →
          i.ingestor.prepare parsing i.source i.now s = .error e
            ∨ e = .collides i.path ∧ ∃ kind chunks, parsing.cut i.source = .ok (kind, chunks)
              ∧ ∃ n, ∃ hn : n < chunks.length, ∃ other ∈ s.chunks, other.documentPath ≠ i.path
                ∧ other.active = true
                ∧ other.position = (chunks[n].kind.sourceType, chunks[n].sourceRef, (n : ℤ)) := by
  intro s
  let R : RedactText → Prop :=
    (· ∈ (steps ++ [IngestionStep.ingest i]).filterMap IngestionStep.redactText?)
  have hsteps : ∀ step ∈ steps, ∀ redactText, step.redactText? = some redactText →
      R redactText := by
    intro step hstep redactText hsome
    exact List.mem_filterMap.mpr ⟨step, List.mem_append_left _ hstep, hsome⟩
  have hlast : R i.redactText :=
    List.mem_filterMap.mpr ⟨IngestionStep.ingest i, List.mem_append_right _ List.mem_cons_self, rfl⟩
  have hinv : EvidenceInv parsing R s :=
    Machine.invariant (fun _ step hinv hR => hinv.step step hR) EvidenceInv.empty
      (Machine.along_of_forall _ hsteps _)
  exact ⟨fun s' result h => (ingested hinv hlast h).2, fun e h => ingest_refused hinv h⟩

/-- Every character of a file is a chunk. -/
def letterParsing : ResumeParsing String where
  detectKind _ _ := .ok .text
  extractText content _ := .ok content
  chunkResume text name := .ok (text.toList.map fun c =>
    { kind := .role, sourceRef := name, text := String.singleton c })
  pathName path := path

def letterIngestion (content : String) : Ingestion String ℕ where
  redactText := id
  ingestor := { model := "hash", version := "1", embed := fun _ => .ok [0], dimension := 1 }
  source := { path := "/resume.txt", content }
  now := 0

-- Two chunks trade places.
example :
    (((EvidenceStore.machine letterParsing).after EvidenceStore.empty
      [.ingest (letterIngestion "ab"), .ingest (letterIngestion "ba")]).chunks.map fun row =>
        (row.chunkText, row.chunkIndex)) = [("a", 1), ("b", 0)] := by
  decide +kernel

end run

end PersonalOS
