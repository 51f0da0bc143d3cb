import PersonalOS.EvidenceStore
import PersonalOS.Texts
import Mathlib.Data.List.Forall2

/-! # What a sync does

A sync that commits is described by what is under each evidence id afterwards: under the id of a
chunk of the new version its row (`Synced.wanted`), under any other id what was there, retired or
deleted if it was an active row of the document (`Synced.other`). -/

namespace PersonalOS

open Keyed

namespace SyncCall
variable {κ V : Type} {call : SyncCall κ V} {redactText : RedactText} {path : String}
  {cited : List EvidenceId} {chunk : EmbeddedChunk V} {chunks : List (EmbeddedChunk V)}
  {row : EvidenceChunkRow V} {rows rows' l : List (EvidenceChunkRow V)} {id : EvidenceId}

/-! ### The chunks of the new version -/

theorem nodup_wanted : (call.wanted.map EmbeddedChunk.evidenceId).Nodup :=
  nodup_upsertAll List.nodup_nil

/-- Of several chunks with one id the last is wanted. -/
theorem lookup_wanted :
    lookup EmbeddedChunk.evidenceId id call.wanted
      = lookup EmbeddedChunk.evidenceId id call.chunks.reverse := by
  have hnil : lookup EmbeddedChunk.evidenceId id ([] : List (EmbeddedChunk V)) = none := rfl
  rw [wanted, lookup_upsertAll, hnil, Option.or_none]

theorem isWanted_iff :
    (lookup EmbeddedChunk.evidenceId id call.wanted).isSome
      ↔ ∃ chunk ∈ call.chunks, chunk.evidenceId = id := by
  rw [lookup_wanted, Option.isSome_iff_ne_none, Ne, lookup_eq_none]
  simp

/-! ### The rows that are dropped -/

theorem dropRow_id {row' : EvidenceChunkRow V} (h : call.dropRow cited row = some row') :
    row'.id = row.id := by
  unfold dropRow at h
  split at h
  · split at h
    · cases h; rfl
    · cases h
  · cases h; rfl

theorem dropRow_of_not_drops (h : call.drops row = false) : call.dropRow cited row = some row := by
  rw [dropRow, h]
  rfl

theorem not_drops_of_wanted (h : lookup EmbeddedChunk.evidenceId row.id call.wanted ≠ none) :
    call.drops row = false := by
  have : (lookup EmbeddedChunk.evidenceId row.id call.wanted).isNone = false :=
    Option.isNone_eq_false_iff.mpr (Option.isSome_iff_ne_none.mpr h)
  rw [drops, this, Bool.and_false]

theorem lookup_dropUnwanted (hn : (rows.map EvidenceChunkRow.id).Nodup) :
    lookup EvidenceChunkRow.id id (call.dropUnwanted cited rows)
      = (lookup EvidenceChunkRow.id id rows).bind (call.dropRow cited) :=
  lookup_filterMap hn fun _ _ => dropRow_id

/-- What is under a wanted id is not dropped. -/
theorem lookup_dropUnwanted_of_wanted (hn : (rows.map EvidenceChunkRow.id).Nodup)
    (h : lookup EmbeddedChunk.evidenceId id call.wanted ≠ none) :
    lookup EvidenceChunkRow.id id (call.dropUnwanted cited rows)
      = lookup EvidenceChunkRow.id id rows := by
  rw [lookup_dropUnwanted hn]
  cases hrow : lookup EvidenceChunkRow.id id rows with
  | none => rfl
  | some row =>
      have hid := (lookup_eq_some hrow).2
      exact dropRow_of_not_drops (not_drops_of_wanted (hid ▸ h))

/-- A row that is on record after the drop, and active, is as it was. -/
theorem mem_dropUnwanted (h : row ∈ call.dropUnwanted cited rows) :
    ∃ old ∈ rows, old.chunkIndex = row.chunkIndex
      ∧ (row.active = true → old = row ∧ call.drops row = false) := by
  obtain ⟨old, hold, hdrop⟩ := List.mem_filterMap.mp h
  refine ⟨old, hold, ?_⟩
  unfold dropRow at hdrop
  split at hdrop
  case isTrue =>
    split at hdrop
    · cases hdrop
      exact ⟨rfl, fun hactive => by cases hactive⟩
    · cases hdrop
  case isFalse hkeep =>
    cases hdrop
    exact ⟨rfl, fun _ => ⟨rfl, Bool.eq_false_iff.mpr hkeep⟩⟩

/-! ### Writing rows -/

theorem storeRow_ok (h : storeRow path rows row = .ok rows') :
    rows' = upsert EvidenceChunkRow.id row rows := by
  unfold storeRow at h
  split at h
  · cases h
  · cases h; rfl

theorem storeRows_ok (h : storeRows path rows l = .ok rows') :
    rows' = upsertAll EvidenceChunkRow.id l rows := by
  induction l generalizing rows with
  | nil => cases h; rfl
  | cons row l ih =>
      obtain ⟨stored, hstore, hrest⟩ := bind_eq_ok h
      rw [ih hrest, storeRow_ok hstore]
      rfl

/-- A write that collides: with an active row under another id, at the same position. -/
theorem storeRows_error {e : EvidenceError} (h : storeRows path rows l = .error e) :
    e = .collides path ∧ ∃ before row after, l = before ++ row :: after
      ∧ ∃ other ∈ upsertAll EvidenceChunkRow.id before rows,
        other.id ≠ row.id ∧ other.active = true ∧ other.position = row.position := by
  induction l generalizing rows with
  | nil => cases h
  | cons row l ih =>
      cases hstore : storeRow path rows row with
      | error e' =>
          rw [storeRows, hstore] at h
          cases h
          unfold storeRow at hstore
          split at hstore
          case isTrue hcollides =>
            cases hstore
            obtain ⟨-, hany⟩ := Bool.and_eq_true_iff.mp hcollides
            obtain ⟨other, hother, hclash⟩ := List.any_eq_true.mp hany
            simp only [Bool.and_eq_true, decide_eq_true_eq] at hclash
            obtain ⟨⟨hid, hactive⟩, hposition⟩ := hclash
            exact ⟨rfl, [], row, l, rfl, other, hother, hid, hactive, hposition⟩
          case isFalse => cases hstore
      | ok stored =>
          rw [storeRows, hstore] at h
          obtain ⟨he, before, row', after, hl, other, hother, hclash⟩ := ih h
          refine ⟨he, row :: before, row', after, congrArg _ hl, other, ?_, hclash⟩
          rw [storeRow_ok hstore] at hother
          exact hother

theorem keptRows_wanted (h : row ∈ call.keptRows rows) :
    ∃ chunk ∈ call.wanted, lookup EvidenceChunkRow.id chunk.evidenceId rows = some row :=
  List.mem_filterMap.mp h

theorem mem_parkedRows (h : row ∈ parkedRows l) :
    ∃ kept ∈ l, ∃ offset : ℕ, row = { kept with chunkIndex := -1 - (offset : ℤ) } := by
  rw [parkedRows, List.mem_mapIdx] at h
  obtain ⟨offset, hoffset, hrow⟩ := h
  exact ⟨l[offset], List.getElem_mem hoffset, offset, hrow.symm⟩

theorem parkedRows_id (l : List (EvidenceChunkRow V)) :
    (parkedRows l).map EvidenceChunkRow.id = l.map EvidenceChunkRow.id := by
  refine List.ext_getElem (by simp [parkedRows]) fun n _ _ => ?_
  simp [parkedRows]

/-- No two rows are parked at one position. -/
theorem parkedRows_pairwise (l : List (EvidenceChunkRow V)) :
    (parkedRows l).Pairwise fun row row' => row.chunkIndex ≠ row'.chunkIndex := by
  rw [List.pairwise_iff_getElem]
  intro n m hn hm hlt heq
  simp only [parkedRows, List.getElem_mapIdx] at heq
  omega

/-- Parking collides with nothing, when all positions on record are real ones. -/
theorem storeRows_parkedRows (h : ∀ row ∈ rows, 0 ≤ row.chunkIndex) :
    ∃ rows', storeRows path rows (parkedRows l) = .ok rows' := by
  cases hstore : storeRows path rows (parkedRows l) with
  | ok rows' => exact ⟨rows', rfl⟩
  | error e =>
      exfalso
      obtain ⟨-, before, row, after, hsplit, other, hother, -, -, hposition⟩ :=
        storeRows_error hstore
      have hindex : other.chunkIndex = row.chunkIndex := congrArg (fun p => p.2.2) hposition
      rcases mem_upsertAll hother with hbefore | ⟨hold, -⟩
      · have hpairwise := parkedRows_pairwise l
        rw [hsplit, List.pairwise_append] at hpairwise
        exact hpairwise.2.2 other hbefore row List.mem_cons_self hindex
      · have hrow : row ∈ parkedRows l := hsplit ▸ List.mem_append_right _ List.mem_cons_self
        obtain ⟨kept, -, offset, rfl⟩ := mem_parkedRows hrow
        have hnonneg := h other hold
        have hparked : other.chunkIndex = -1 - (offset : ℤ) := hindex
        omega

/-! ### Placing chunks -/

/-- What a placed row says of its chunk. -/
structure Placed (redactText : RedactText) (call : SyncCall κ V)
    (rows : List (EvidenceChunkRow V)) (chunk : EmbeddedChunk V) (row : EvidenceChunkRow V) :
    Prop where
  id : row.id = chunk.evidenceId
  documentPath : row.documentPath = call.path
  sourceType : row.sourceType = chunk.kind.sourceType
  sourceRef : row.sourceRef = chunk.sourceRef
  chunkIndex : row.chunkIndex = chunk.chunkIndex
  embeddedBy : row.embeddedBy = call.embedding
  retiredAt : row.retiredAt = none
  /-- A row on record keeps its text. -/
  kept : ∀ old, lookup EvidenceChunkRow.id chunk.evidenceId rows = some old →
    row.chunkText = old.chunkText
  new : lookup EvidenceChunkRow.id chunk.evidenceId rows = none →
    row.chunkText = redactText chunk.text

theorem placeRow_ok (h : call.placeRow redactText rows chunk = .ok row) :
    Placed redactText call rows chunk row := by
  obtain ⟨vector, -, hrow⟩ := bind_eq_ok h
  cases hrow
  refine ⟨rfl, rfl, rfl, rfl, rfl, rfl, rfl, fun old hold => ?_, fun hnone => ?_⟩
  · simp only [hold]
  · simp only [hnone]

/-- Every chunk is placed that has a vector, or a row with one of the call's model. -/
theorem placeRow_total
    (h : chunk.embedding = none → ∃ row, lookup EvidenceChunkRow.id chunk.evidenceId rows = some row
      ∧ row.embeddedBy = call.embedding) :
    ∃ row, call.placeRow redactText rows chunk = .ok row := by
  cases hvector : chunk.embedding with
  | some vector =>
      have hok : call.vectorFor (lookup EvidenceChunkRow.id chunk.evidenceId rows) chunk
          = .ok vector := by
        unfold vectorFor
        rw [hvector]
        cases lookup EvidenceChunkRow.id chunk.evidenceId rows <;> rfl
      rw [placeRow, hok]
      exact ⟨_, rfl⟩
  | none =>
      obtain ⟨row, hrow, hmodel⟩ := h hvector
      have hok : call.vectorFor (some row) chunk = .ok row.embedding := by
        unfold vectorFor
        rw [hvector]
        exact if_pos hmodel
      rw [placeRow, hrow, hok]
      exact ⟨_, rfl⟩

theorem placeRows_total
    (h : ∀ chunk ∈ chunks, ∃ row, call.placeRow redactText rows chunk = .ok row) :
    ∃ placed, call.placeRows redactText rows chunks = .ok placed := by
  induction chunks with
  | nil => exact ⟨[], rfl⟩
  | cons chunk chunks ih =>
      obtain ⟨row, hrow⟩ := h chunk List.mem_cons_self
      obtain ⟨placed, hplaced⟩ := ih fun other hother => h other (List.mem_cons_of_mem chunk hother)
      rw [placeRows, hrow]
      show ∃ placed, (call.placeRows redactText rows chunks >>= _) = _
      rw [hplaced]
      exact ⟨row :: placed, rfl⟩

theorem placeRows_ok {placed : List (EvidenceChunkRow V)}
    (h : call.placeRows redactText rows chunks = .ok placed) :
    List.Forall₂ (fun chunk row => call.placeRow redactText rows chunk = .ok row) chunks placed := by
  induction chunks generalizing placed with
  | nil => cases h; exact .nil
  | cons chunk chunks ih =>
      obtain ⟨row, hrow, hrest⟩ := bind_eq_ok h
      obtain ⟨rest, hplaced, hcons⟩ := bind_eq_ok hrest
      cases hcons
      exact .cons hrow (ih hplaced)

theorem map_id_of_placed {placed : List (EvidenceChunkRow V)}
    (h : List.Forall₂ (fun chunk row => call.placeRow redactText rows chunk = .ok row)
      chunks placed) :
    placed.map EvidenceChunkRow.id = chunks.map EmbeddedChunk.evidenceId := by
  induction h with
  | nil => rfl
  | cons hrow _ ih => rw [List.map_cons, List.map_cons, ih, (placeRow_ok hrow).id]

theorem chunk_of_placed {placed : List (EvidenceChunkRow V)}
    (h : List.Forall₂ (fun chunk row => call.placeRow redactText rows chunk = .ok row)
      chunks placed) (hrow : row ∈ placed) :
    ∃ chunk ∈ chunks, call.placeRow redactText rows chunk = .ok row := by
  induction h with
  | nil => cases hrow
  | @cons chunk first _ _ hfirst _ ih =>
      rcases List.mem_cons.mp hrow with rfl | hrow
      · exact ⟨chunk, List.mem_cons_self, hfirst⟩
      · obtain ⟨chunk', hchunk', hok⟩ := ih hrow
        exact ⟨chunk', List.mem_cons_of_mem chunk hchunk', hok⟩

theorem placed_pairwise {placed : List (EvidenceChunkRow V)}
    (h : List.Forall₂ (fun chunk row => call.placeRow redactText rows chunk = .ok row)
      chunks placed) (hn : (chunks.map EmbeddedChunk.chunkIndex).Nodup) :
    placed.Pairwise fun row row' => row.chunkIndex ≠ row'.chunkIndex := by
  induction h with
  | nil => exact .nil
  | @cons chunk row chunks placed hrow hrest ih =>
      rw [List.map_cons, List.nodup_cons] at hn
      refine .cons (fun other hother heq => hn.1 ?_) (ih hn.2)
      obtain ⟨chunk', hchunk', hok⟩ := chunk_of_placed hrest hother
      have hindex : (chunk.chunkIndex : ℤ) = chunk'.chunkIndex := by
        rw [← (placeRow_ok hrow).chunkIndex, ← (placeRow_ok hok).chunkIndex]
        exact heq
      rw [Int.ofNat_inj.mp hindex]
      exact List.mem_map_of_mem hchunk'

/-- Placing reads nothing but what is under the id of the chunk. -/
theorem placeRow_congr
    (h : lookup EvidenceChunkRow.id chunk.evidenceId rows
      = lookup EvidenceChunkRow.id chunk.evidenceId rows') :
    call.placeRow redactText rows chunk = call.placeRow redactText rows' chunk := by
  rw [placeRow, placeRow, h]

end SyncCall

/-! ### A sync that commits -/

variable {κ V : Type} {redactText : RedactText} {call : SyncCall κ V} {s s' : EvidenceStore κ V}
  {result : IngestionResult κ} {row : EvidenceChunkRow V}

/-- The store after a sync. -/
structure Synced (redactText : RedactText) (call : SyncCall κ V) (s s' : EvidenceStore κ V) :
    Prop where
  versions : s'.versions = s.versions
  documents : s'.documents = upsert DocumentRow.path call.documentRow s.documents
  nodup : (s'.chunks.map EvidenceChunkRow.id).Nodup
  wanted : ∀ chunk ∈ call.wanted, ∃ row, SyncCall.Placed redactText call s.chunks chunk row
    ∧ lookup EvidenceChunkRow.id chunk.evidenceId s'.chunks = some row
  other : ∀ id, lookup EmbeddedChunk.evidenceId id call.wanted = none →
    lookup EvidenceChunkRow.id id s'.chunks
      = (lookup EvidenceChunkRow.id id s.chunks).bind (call.dropRow s.citedEvidenceIds)

open SyncCall in
theorem synced (hn : (s.chunks.map EvidenceChunkRow.id).Nodup)
    (h : s.sync redactText call = .ok (s', result)) : Synced redactText call s s' := by
  obtain ⟨chunks, hplace, hs'⟩ := bind_eq_ok h
  cases hs'
  let rows := call.dropUnwanted s.citedEvidenceIds s.chunks
  have hrows : (rows.map EvidenceChunkRow.id).Nodup :=
    nodup_filterMap hn fun _ _ => dropRow_id
  obtain ⟨parked, hparked, hplace⟩ := bind_eq_ok hplace
  obtain ⟨placed, hplaced, hstore⟩ := bind_eq_ok hplace
  have hplaced := placeRows_ok hplaced
  have hids := map_id_of_placed hplaced
  have hparked := storeRows_ok hparked
  have hstore := storeRows_ok hstore
  have hplacedNodup : (placed.map EvidenceChunkRow.id).Nodup := hids ▸ nodup_wanted
  refine ⟨rfl, rfl, ?_, fun chunk hchunk => ?_, fun id hid => ?_⟩
  · show (chunks.map EvidenceChunkRow.id).Nodup
    rw [hstore, hparked]
    exact nodup_upsertAll (nodup_upsertAll hrows)
  · -- The row of a wanted chunk is what is written last under its id.
    have hmem : chunk.evidenceId ∈ placed.map EvidenceChunkRow.id :=
      hids ▸ List.mem_map_of_mem hchunk
    obtain ⟨row, hrow, hid⟩ := List.mem_map.mp hmem
    obtain ⟨chunk', hchunk', hok⟩ := chunk_of_placed hplaced hrow
    have hsame : chunk' = chunk :=
      eq_of_key nodup_wanted hchunk' hchunk ((placeRow_ok hok).id.symm.trans hid)
    rw [hsame] at hok
    have hlookup : lookup EmbeddedChunk.evidenceId chunk.evidenceId call.wanted ≠ none := by
      rw [lookup_of_mem nodup_wanted hchunk]
      exact Option.some_ne_none _
    rw [placeRow_congr (lookup_dropUnwanted_of_wanted hn hlookup)] at hok
    refine ⟨row, placeRow_ok hok, ?_⟩
    show lookup EvidenceChunkRow.id chunk.evidenceId chunks = some row
    have hreverse : (placed.reverse.map EvidenceChunkRow.id).Nodup := by
      rw [List.map_reverse]
      exact List.nodup_reverse.mpr hplacedNodup
    rw [hstore, lookup_upsertAll, ← hid, lookup_of_mem hreverse (List.mem_reverse.mpr hrow)]
    rfl
  · -- Under any other id nothing is parked or placed.
    have hnot := lookup_eq_none.mp hid
    have hplacedNone : lookup EvidenceChunkRow.id id placed.reverse = none := by
      refine lookup_eq_none.mpr fun row hrow hkey => ?_
      have hmem : row.id ∈ call.wanted.map EmbeddedChunk.evidenceId :=
        hids ▸ List.mem_map_of_mem (List.mem_reverse.mp hrow)
      obtain ⟨chunk, hchunk, hchunkId⟩ := List.mem_map.mp hmem
      exact hnot chunk hchunk (hchunkId.trans hkey)
    have hparkedNone :
        lookup EvidenceChunkRow.id id (parkedRows (call.keptRows rows)).reverse = none := by
      refine lookup_eq_none.mpr fun row hrow hkey => ?_
      obtain ⟨kept, hkept, offset, rfl⟩ := mem_parkedRows (List.mem_reverse.mp hrow)
      obtain ⟨chunk, hchunk, hlookup⟩ := keptRows_wanted hkept
      exact hnot chunk hchunk ((lookup_eq_some hlookup).2.symm.trans hkey)
    show lookup EvidenceChunkRow.id id chunks = _
    rw [hstore, lookup_upsertAll, hplacedNone, hparked, lookup_upsertAll, hparkedNone]
    exact lookup_dropUnwanted hn

/-! ### A sync that is refused -/

open SyncCall in
/-- When every chunk can be placed at a position of its own, a sync is refused only because an
active row of another document is at the position of a chunk. -/
theorem sync_error {e : EvidenceError} (hn : (s.chunks.map EvidenceChunkRow.id).Nodup)
    (hindex : ∀ row ∈ s.chunks, 0 ≤ row.chunkIndex)
    (hvector : ∀ chunk ∈ call.wanted, chunk.embedding = none →
      ∃ row, lookup EvidenceChunkRow.id chunk.evidenceId s.chunks = some row
        ∧ row.embeddedBy = call.embedding)
    (hpositions : (call.wanted.map EmbeddedChunk.chunkIndex).Nodup)
    (h : s.sync redactText call = .error e) :
    e = .collides call.path ∧ ∃ chunk ∈ call.wanted, ∃ other ∈ s.chunks,
      other.documentPath ≠ call.path ∧ other.active = true
        ∧ other.position = (chunk.kind.sourceType, chunk.sourceRef, (chunk.chunkIndex : ℤ)) := by
  let rows := call.dropUnwanted s.citedEvidenceIds s.chunks
  have hrowsIndex : ∀ row ∈ rows, 0 ≤ row.chunkIndex := by
    intro row hrow
    obtain ⟨old, hold, hsame, -⟩ := mem_dropUnwanted hrow
    rw [← hsame]
    exact hindex old hold
  have hwanted : ∀ chunk ∈ call.wanted, lookup EvidenceChunkRow.id chunk.evidenceId rows
      = lookup EvidenceChunkRow.id chunk.evidenceId s.chunks := by
    intro chunk hchunk
    refine lookup_dropUnwanted_of_wanted hn ?_
    rw [lookup_of_mem nodup_wanted hchunk]
    exact Option.some_ne_none _
  obtain ⟨parked, hparked⟩ : ∃ parked,
      storeRows call.path rows (parkedRows (call.keptRows rows)) = .ok parked :=
    storeRows_parkedRows hrowsIndex
  obtain ⟨placed, hplaced⟩ : ∃ placed, call.placeRows redactText rows call.wanted = .ok placed := by
    refine placeRows_total fun chunk hchunk => placeRow_total ?_
    rw [hwanted chunk hchunk]
    exact hvector chunk hchunk
  have hplace : call.placeWanted redactText rows = storeRows call.path parked placed := by
    unfold placeWanted
    rw [hparked]
    show (call.placeRows redactText rows call.wanted >>= _) = _
    rw [hplaced]
    rfl
  have hstore : storeRows call.path parked placed = .error e := by
    unfold EvidenceStore.sync at h
    dsimp only [SyncCall.recordDocument] at h
    rw [hplace] at h
    cases hstored : storeRows call.path parked placed with
    | ok chunks => rw [hstored] at h; cases h
    | error e' => rw [hstored] at h; cases h; rfl
  obtain ⟨he, before, row, after, hsplit, other, hother, -, hactive, hposition⟩ :=
    storeRows_error hstore
  refine ⟨he, ?_⟩
  have hplacedOk := placeRows_ok hplaced
  have hrow : row ∈ placed := hsplit ▸ List.mem_append_right _ List.mem_cons_self
  obtain ⟨chunk, hchunk, hok⟩ := chunk_of_placed hplacedOk hrow
  have hrowPlaced := placeRow_ok hok
  have hotherIndex : other.chunkIndex = row.chunkIndex := congrArg (fun p => p.2.2) hposition
  rcases mem_upsertAll hother with hbefore | ⟨hold, hnotBefore⟩
  · -- Not with a chunk that was placed before it,
    exfalso
    have hpairwise := placed_pairwise hplacedOk hpositions
    rw [hsplit, List.pairwise_append] at hpairwise
    exact hpairwise.2.2 other hbefore row List.mem_cons_self hotherIndex
  · rw [storeRows_ok hparked] at hold
    rcases mem_upsertAll hold with hpark | ⟨hstays, hnotParked⟩
    · -- nor with one that is parked,
      exfalso
      obtain ⟨kept, -, offset, rfl⟩ := mem_parkedRows hpark
      have hparkedIndex : -1 - (offset : ℤ) = row.chunkIndex := hotherIndex
      have hreal := hrowPlaced.chunkIndex
      omega
    · -- nor with one of the document: those that are active are wanted, and parked.
      obtain ⟨old, holdMem, -, hsame⟩ := mem_dropUnwanted hstays
      obtain ⟨rfl, hdrops⟩ := hsame hactive
      have hnotWanted : lookup EmbeddedChunk.evidenceId old.id call.wanted = none := by
        cases hlookup : lookup EmbeddedChunk.evidenceId old.id call.wanted with
        | none => rfl
        | some chunk' =>
            exfalso
            obtain ⟨hchunk', hid⟩ := lookup_eq_some hlookup
            have hkept : old ∈ call.keptRows rows := by
              refine List.mem_filterMap.mpr ⟨chunk', hchunk', ?_⟩
              rw [hwanted chunk' hchunk', hid]
              exact lookup_of_mem hn holdMem
            have hids : old.id ∈ (parkedRows (call.keptRows rows)).map EvidenceChunkRow.id := by
              rw [parkedRows_id]
              exact List.mem_map_of_mem hkept
            obtain ⟨parkedRow, hparkedRow, hsameId⟩ := List.mem_map.mp hids
            exact hnotParked parkedRow hparkedRow hsameId.symm
      refine ⟨chunk, hchunk, old, holdMem, fun hpath => ?_, hactive, ?_⟩
      · have hdropped : call.drops old = true := by
          unfold drops
          rw [hnotWanted, hactive, decide_eq_true hpath]
          rfl
        rw [hdrops] at hdropped
        cases hdropped
      · rw [hposition, EvidenceChunkRow.position, hrowPlaced.sourceType, hrowPlaced.sourceRef,
          hrowPlaced.chunkIndex]

end PersonalOS
