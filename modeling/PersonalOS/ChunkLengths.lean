import PersonalOS.ResumeParts

/-! # How long a chunk is

The packer leaves the lines that every chunk of an entry repeats their place, but never less than half
a chunk to the content.

* **Room.** Where the title and the header lines of an entry leave at least half of the characters, its
  parts are within the limit (`length_of_uncrowded`).
* **Places.** `Place.Begins` says with which piece of an entry a chunk begins, by the lengths of the
  pieces; `documentParts_iff` relates the parts of a document to these beginnings.
* **Crowded entries.** Where the repeated lines take more than half a chunk, `Roomy` asks that content
  which fits into half a chunk fits under them too; `chunks_bounded_iff` says that this is what it takes. -/

namespace PersonalOS.Resume

/-- An entry that is packed, in its section. -/
structure Place where
  sec : ResumeSection
  entry : Entry

namespace Place

variable (place : Place)

/-- The section's title and, under a position or a project, the header lines. -/
def repeated : List (List Char) := place.sec.prefixOf place.entry

/-- The items, those cut that are longer than the budget. -/
def pieces : List (List Char) := piecesOf place.repeated (place.sec.itemsOf place.entry)

/-- A chunk of the entry begins with the first of these pieces. -/
def Begins (left : List (List Char)) : Prop :=
  NextFit.Begins lineSize (budgetOf place.repeated) place.pieces left

/-- What the chunk says, up to whitespace, that begins with the first of these pieces. -/
def Says (left : List (List Char)) (key : String) : Prop :=
  ∃ run, NextFit.Takes lineSize (budgetOf place.repeated) left run ∧
    Part.key ⟨place.sec, place.entry, run⟩ = key

end Place

/-- The places of a document, in order. -/
def places (sections : List ResumeSection) : List Place :=
  sections.flatMap fun sec => (sec.entries.filter fun entry => !entry.isEmpty).map (Place.mk sec)

/-- An earlier chunk, of an entry before the place or of its own, says what the chunk says that begins
here. -/
def SaidEarlier (before : List Place) (place : Place) (left : List (List Char)) : Prop :=
  ∃ key, place.Says left key ∧
    ((∃ earlier ∈ before, ∃ left', earlier.Begins left' ∧ earlier.Says left' key) ∨
      ∃ left', place.Begins left' ∧ left.length < left'.length ∧ place.Says left' key)

/-- Under repeated lines of more than half a chunk: where a chunk begins that says something new, the
first pieces that fit into half a chunk together fit into what the repeated lines leave. -/
def Roomy (tools : LineTools) (text : String) : Prop :=
  ∀ before place after, places (parse tools text.toList) = before ++ place :: after →
    maxChunkChars / 2 < lineTotal place.repeated →
    ∀ left, place.Begins left → ¬SaidEarlier before place left →
      ∀ group, group <+: left → NextFit.Fits lineSize (maxChunkChars / 2) group →
        lineTotal place.repeated + lineTotal group ≤ maxChunkChars + 1

variable {tools : LineTools}

theorem length_text {sec : ResumeSection} {entry : Entry} {part : Part} (hentry : SolidEntry entry)
    (h : part ∈ entryParts sec entry) :
    part.text.length + 1 = lineTotal (sec.prefixOf entry) + lineTotal part.run := by
  obtain ⟨rfl, rfl⟩ := own_of_mem h
  have hne : part.lines ≠ [] := by
    intro hnil
    obtain ⟨hfront, hrun⟩ := List.append_eq_nil_iff.mp hnil
    rcases run_of_mem h with hmem | ⟨-, hpre, -⟩
    · exact (runsOf_fits (solid_itemsOf hentry) _ hmem).1 hrun
    · exact hpre hfront
  rw [Part.text, length_joinLines hne, Part.lines, lineTotal_append]

theorem budgetOf_of_crowded {pre : List (List Char)} (h : maxChunkChars / 2 < lineTotal pre) :
    budgetOf pre = maxChunkChars / 2 := by
  refine max_eq_right ?_
  have hhalf : maxChunkChars = maxChunkChars / 2 + maxChunkChars / 2 := rfl
  omega

/-- With room for half a chunk no part is over the limit. -/
theorem length_of_uncrowded {sec : ResumeSection} {entry : Entry} {part : Part}
    (hentry : SolidEntry entry) (h : part ∈ entryParts sec entry)
    (hroom : lineTotal (sec.prefixOf entry) ≤ maxChunkChars / 2) : part.text.length ≤ maxChunkChars := by
  have hlength := length_text hentry h
  have hbudget : budgetOf (sec.prefixOf entry) = maxChunkChars - lineTotal (sec.prefixOf entry) := by
    refine max_eq_left ?_
    have hhalf : maxChunkChars = maxChunkChars / 2 + maxChunkChars / 2 := rfl
    omega
  have hrun : lineTotal part.run ≤ budgetOf (sec.prefixOf entry) + 1 := by
    rcases run_of_mem h with hmem | ⟨hnil, -, -⟩
    · exact (runsOf_fits (solid_itemsOf hentry) _ hmem).2.1
    · rw [hnil, lineTotal_nil]
      exact Nat.zero_le _
  have hle : maxChunkChars / 2 ≤ maxChunkChars := Nat.div_le_self _ _
  omega

/-! ### Parts and places -/

theorem pieces_ne_nil {place : Place} (hentry : SolidEntry place.entry)
    (hempty : place.entry.isEmpty = false) (h : place.repeated = []) : place.pieces ≠ [] := by
  intro hnone
  obtain ⟨hheader, hrendered⟩ :=
    List.append_eq_nil_iff.mp (piecesOf_eq_nil (solid_itemsOf hentry) hnone)
  have hnoitems : place.entry.items = [] := List.map_eq_nil_iff.mp hrendered
  have hnoheader : place.entry.header = [] := by
    cases hsplits : place.sec.splitsEntries with
    | true => simpa [Place.repeated, ResumeSection.prefixOf, hsplits] using (List.append_eq_nil_iff.mp h).2
    | false => simpa [hsplits] using hheader
  rw [Entry.isEmpty, hnoheader, hnoitems] at hempty
  cases hempty

theorem entryParts_divided {place : Place} (hentry : SolidEntry place.entry)
    (hempty : place.entry.isEmpty = false) :
    ∃ runs, entryParts place.sec place.entry = runs.map (Part.mk place.sec place.entry) ∧
      NextFit.Divided lineSize (budgetOf place.repeated) place.pieces runs := by
  unfold entryParts
  by_cases hnone : place.pieces = []
  · have hprefix : ¬(place.sec.prefixOf place.entry).isEmpty = true := by
      intro hprefix
      exact pieces_ne_nil hentry hempty (List.isEmpty_iff.mp hprefix) hnone
    have hruns : runsOf (place.sec.prefixOf place.entry) (place.sec.itemsOf place.entry) = [] :=
      runsOf_eq_nil_iff.mpr hnone
    rw [hruns]
    refine ⟨[[]], if_neg hprefix, ?_⟩
    rw [hnone]
    exact .last (Or.inr (Nat.zero_le 1))
  · have hruns : runsOf place.repeated (place.sec.itemsOf place.entry) ≠ [] :=
      mt runsOf_eq_nil_iff.mp hnone
    obtain ⟨run, runs, hcons⟩ := List.exists_cons_of_ne_nil hruns
    refine ⟨run :: runs, ?_, hcons ▸ runsOf_divided hnone⟩
    unfold Place.repeated at hcons
    rw [hcons]

theorem Place.Says.iff {place : Place} {left run : List (List Char)} {key : String}
    (htakes : NextFit.Takes lineSize (budgetOf place.repeated) left run) :
    place.Says left key ↔ Part.key ⟨place.sec, place.entry, run⟩ = key := by
  constructor
  · rintro ⟨other, hother, hkey⟩
    rwa [htakes.unique hother]
  · exact fun hkey => ⟨run, htakes, hkey⟩

theorem key_entryParts_iff {place : Place} (hentry : SolidEntry place.entry)
    (hempty : place.entry.isEmpty = false) {key : String} :
    (∃ part ∈ entryParts place.sec place.entry, part.key = key) ↔
      ∃ left, place.Begins left ∧ place.Says left key := by
  obtain ⟨runs, hparts, hdivided⟩ := entryParts_divided hentry hempty
  rw [hparts]
  constructor
  · rintro ⟨part, hmem, hkey⟩
    obtain ⟨run, hrun, rfl⟩ := List.mem_map.mp hmem
    obtain ⟨left, hbegins, htakes⟩ := hdivided.mem_iff.mp hrun
    exact ⟨left, hbegins, run, htakes, hkey⟩
  · rintro ⟨left, hbegins, run, htakes, hkey⟩
    exact ⟨_, List.mem_map_of_mem (hdivided.mem_iff.mpr ⟨left, hbegins, htakes⟩), hkey⟩

/-- The part stands where a chunk begins, after these parts of its entry. -/
structure Stands (place : Place) (left : List (List Char)) (before : List Part) (part : Part) : Prop where
  sec : part.sec = place.sec
  entry : part.entry = place.entry
  begins : place.Begins left
  takes : NextFit.Takes lineSize (budgetOf place.repeated) left part.run
  said : ∀ key, (∃ earlier ∈ before, earlier.key = key) ↔
    ∃ left', place.Begins left' ∧ left.length < left'.length ∧ place.Says left' key

theorem stands_of_divided {place : Place} {before after : List (List (List Char))}
    {run : List (List Char)}
    (h : NextFit.Divided lineSize (budgetOf place.repeated) place.pieces (before ++ run :: after)) :
    Stands place (run :: after).flatten (before.map (Part.mk place.sec place.entry))
      ⟨place.sec, place.entry, run⟩ where
  sec := rfl
  entry := rfl
  begins := h.begins
  takes := h.suffix.takes
  said := by
    intro key
    constructor
    · rintro ⟨earlier, hmem, hkey⟩
      obtain ⟨other, hother, rfl⟩ := List.mem_map.mp hmem
      obtain ⟨left', hbegins, hlonger, htakes⟩ := h.mem_before_iff.mp hother
      exact ⟨left', hbegins, hlonger, other, htakes, hkey⟩
    · rintro ⟨left', hbegins, hlonger, other, htakes, hkey⟩
      exact ⟨_, List.mem_map_of_mem (h.mem_before_iff.mpr ⟨left', hbegins, hlonger, htakes⟩), hkey⟩

theorem stands_of_split {place : Place} (hentry : SolidEntry place.entry)
    (hempty : place.entry.isEmpty = false) {before after : List Part} {part : Part}
    (h : entryParts place.sec place.entry = before ++ part :: after) :
    ∃ left, Stands place left before part := by
  obtain ⟨runs, hparts, hdivided⟩ := entryParts_divided hentry hempty
  obtain ⟨earlier, rest, rfl, rfl, hrest⟩ := List.map_eq_append_iff.mp (hparts.symm.trans h)
  obtain ⟨run, later, rfl, rfl, rfl⟩ := List.map_eq_cons_iff.mp hrest
  exact ⟨_, stands_of_divided hdivided⟩

theorem exists_stands {place : Place} (hentry : SolidEntry place.entry)
    (hempty : place.entry.isEmpty = false) {left : List (List Char)} (h : place.Begins left) :
    ∃ before part after, entryParts place.sec place.entry = before ++ part :: after ∧
      Stands place left before part := by
  obtain ⟨runs, hparts, hdivided⟩ := entryParts_divided hentry hempty
  obtain ⟨before, run, after, rfl, rfl⟩ := hdivided.begins_iff.mp h
  exact ⟨_, _, _, by rw [hparts, List.map_append, List.map_cons], stands_of_divided hdivided⟩

/-! ### The parts of a document -/

theorem flatMap_eq_append_cons {α β : Type} {f : α → List β} {l : List α} {before after : List β} {b : β}
    (h : l.flatMap f = before ++ b :: after) : ∃ l₁ a l₂ before' after', l = l₁ ++ a :: l₂ ∧
      f a = before' ++ b :: after' ∧ before = l₁.flatMap f ++ before' := by
  induction l generalizing before with
  | nil => simp at h
  | cons a l ih =>
      rw [List.flatMap_cons] at h
      rcases List.append_eq_append_iff.mp h with ⟨more, rfl, hrest⟩ | ⟨more, hfirst, hrest⟩
      · obtain ⟨l₁, a', l₂, before', after', rfl, ha, rfl⟩ := ih hrest
        exact ⟨a :: l₁, a', l₂, before', after', rfl, ha, by rw [List.flatMap_cons, List.append_assoc]⟩
      · cases more with
        | nil =>
            rw [List.nil_append] at hrest
            rw [← List.nil_append (b :: after)] at hrest
            obtain ⟨l₁, a', l₂, before', after', rfl, ha, hbefore⟩ := ih hrest.symm
            refine ⟨a :: l₁, a', l₂, before', after', rfl, ha, ?_⟩
            rw [List.append_nil] at hfirst
            rw [List.flatMap_cons, List.append_assoc, ← hbefore, List.append_nil, hfirst]
        | cons first more =>
            obtain ⟨rfl, -⟩ := List.cons.inj hrest
            exact ⟨[], a, l, before, more, rfl, hfirst, rfl⟩

theorem documentParts_eq (sections : List ResumeSection) :
    documentParts sections = (places sections).flatMap fun place => entryParts place.sec place.entry := by
  unfold documentParts places
  rw [List.flatMap_assoc]
  simp only [List.flatMap_map]

theorem mem_places {sections : List ResumeSection} {place : Place} (h : place ∈ places sections) :
    place.sec ∈ sections ∧ place.entry ∈ place.sec.entries ∧ place.entry.isEmpty = false := by
  obtain ⟨sec, hsec, hplace⟩ := List.mem_flatMap.mp h
  obtain ⟨entry, hentry, rfl⟩ := List.mem_map.mp hplace
  obtain ⟨hmem, hempty⟩ := List.mem_filter.mp hentry
  exact ⟨hsec, hmem, by simpa using hempty⟩

theorem saidEarlier_iff {earlier : List Place} (hearlier : ∀ place ∈ earlier,
      SolidEntry place.entry ∧ place.entry.isEmpty = false) {place : Place} {left : List (List Char)}
    {before : List Part} {part : Part} (h : Stands place left before part) :
    SaidEarlier earlier place left ↔
      ∃ other ∈ (earlier.flatMap fun place => entryParts place.sec place.entry) ++ before,
        other.key = part.key := by
  have hkeys : ∀ key, place.Says left key ↔ part.key = key := by
    intro key
    obtain ⟨sec, entry, run⟩ := part
    obtain ⟨rfl, rfl⟩ : sec = place.sec ∧ entry = place.entry := ⟨h.sec, h.entry⟩
    exact Place.Says.iff h.takes
  constructor
  · rintro ⟨key, hkey, ⟨other, hother, left', hbegins, hsaid⟩ | hown⟩
    · obtain rfl := (hkeys key).mp hkey
      obtain ⟨hsolid, hempty⟩ := hearlier other hother
      obtain ⟨said, hmem, heq⟩ := (key_entryParts_iff hsolid hempty).mpr ⟨left', hbegins, hsaid⟩
      exact ⟨said, List.mem_append_left _ (List.mem_flatMap_of_mem hother hmem), heq⟩
    · obtain rfl := (hkeys key).mp hkey
      obtain ⟨said, hmem, heq⟩ := (h.said _).mpr hown
      exact ⟨said, List.mem_append_right _ hmem, heq⟩
  · rintro ⟨said, hmem, heq⟩
    refine ⟨part.key, (hkeys _).mpr rfl, ?_⟩
    rcases List.mem_append.mp hmem with hmem | hmem
    · obtain ⟨other, hother, hpart⟩ := List.mem_flatMap.mp hmem
      obtain ⟨hsolid, hempty⟩ := hearlier other hother
      obtain ⟨left', hbegins, hsaid⟩ := (key_entryParts_iff hsolid hempty).mp ⟨said, hpart, heq⟩
      exact Or.inl ⟨other, hother, left', hbegins, hsaid⟩
    · exact Or.inr ((h.said _).mp ⟨said, hmem, heq⟩)

/-! ### The bound -/

/-- **Chunk lengths**: where redaction finds nothing in a text, its chunks are all within the limit
exactly when content that fits into half a chunk fits under the repeated lines, wherever these take more
than the other half and a chunk begins that says something new. -/
theorem chunks_bounded_iff (tools : LineTools) (redactText : RedactText) (documentName text : String)
    (hclean : Uncredentialed tools redactText text) {chunks : List ResumeChunk}
    (h : chunkResume tools redactText documentName text = .ok chunks) :
    (∀ chunk ∈ chunks, chunk.text.length ≤ maxChunkChars) ↔ Roomy tools text := by
  obtain ⟨chunking, rfl, hchunked⟩ := chunkResume_chunked hclean h
  have hsolid : ∀ place ∈ places (parse tools text.toList),
      SolidEntry place.entry ∧ place.entry.isEmpty = false := by
    intro place hplace
    obtain ⟨hsec, hentry, hempty⟩ := mem_places hplace
    exact ⟨(parse_solid tools text.toList place.sec hsec).entries place.entry hentry, hempty⟩
  constructor
  · intro hbound earlier place later hplaces hcrowded left hbegins hnew group hgroup hfits
    have hmem : place ∈ places (parse tools text.toList) :=
      hplaces ▸ List.mem_append_right _ List.mem_cons_self
    obtain ⟨hentry, hempty⟩ := hsolid place hmem
    obtain ⟨before, part, after, hparts, hstands⟩ := exists_stands hentry hempty hbegins
    have hdocument : documentParts (parse tools text.toList) =
        ((earlier.flatMap fun place => entryParts place.sec place.entry) ++ before) ++
          part :: (after ++ later.flatMap fun place => entryParts place.sec place.entry) := by
      rw [documentParts_eq, hplaces, List.flatMap_append, List.flatMap_cons, hparts]
      simp
    have hsaid := saidEarlier_iff
      (fun place hplace => hsolid place (hplaces ▸ List.mem_append_left _ hplace)) hstands
    obtain ⟨chunk, hchunk, htext⟩ := hchunked.complete _ part _ hdocument
      fun other hother hkey => hnew (hsaid.mpr ⟨other, hother, hkey⟩)
    have hlength := hbound chunk hchunk
    rw [htext, String.length_ofList] at hlength
    have htotal := length_text hentry (hparts ▸ List.mem_append_right _ List.mem_cons_self)
    -- The chunk takes all that fits from where it begins.
    have hhalf := budgetOf_of_crowded hcrowded
    have htaken : lineTotal group ≤ lineTotal part.run :=
      NextFit.total_mono (hstands.takes.holds hgroup (hhalf ▸ hfits))
    change lineTotal (place.sec.prefixOf place.entry) + _ ≤ _
    omega
  · intro hroomy chunk hchunk
    obtain ⟨before, part, after, hdocument, hfirst, htext⟩ := hchunked.sound chunk hchunk
    rw [documentParts_eq] at hdocument
    obtain ⟨earlier, place, later, before', after', hplaces, hparts, rfl⟩ :=
      flatMap_eq_append_cons hdocument
    have hmem : place ∈ places (parse tools text.toList) :=
      hplaces ▸ List.mem_append_right _ List.mem_cons_self
    obtain ⟨hentry, hempty⟩ := hsolid place hmem
    have hpart : part ∈ entryParts place.sec place.entry :=
      hparts ▸ List.mem_append_right _ List.mem_cons_self
    rw [htext, String.length_ofList]
    by_cases hcrowded : maxChunkChars / 2 < lineTotal place.repeated
    · obtain ⟨left, hstands⟩ := stands_of_split hentry hempty hparts
      have hnew : ¬SaidEarlier earlier place left := by
        intro hsaid
        obtain ⟨other, hother, hkey⟩ := (saidEarlier_iff
          (fun place hplace => hsolid place (hplaces ▸ List.mem_append_left _ hplace)) hstands).mp hsaid
        exact hfirst other hother hkey
      have hhalf := budgetOf_of_crowded hcrowded
      have hroom := hroomy earlier place later hplaces hcrowded left hstands.begins hnew part.run
        hstands.takes.isPrefix (hhalf ▸ hstands.takes.fits)
      have htotal := length_text hentry hpart
      change lineTotal (place.sec.prefixOf place.entry) + _ ≤ _ at hroom
      omega
    · exact length_of_uncrowded hentry hpart (Nat.le_of_not_lt hcrowded)

/-! ### A long header -/

/-- Lines read with ASCII alone. -/
def asciiTools : LineTools where
  lower text := text.map Char.toLower
  isUpperText text := text.any Char.isUpper && !text.any Char.isLower
  isLower := Char.isLower
  isDigit := Char.isDigit
  isWord c := c.isAlphanum || c == '_'
  sameLetter c letter := c.toLower == letter

/-- A position with a header of so many characters and one item of so many. -/
def positionText (header item : ℕ) : String :=
  String.ofList ("# Experience\n".toList ++ List.replicate header 'a' ++ "\n- ".toList ++
    List.replicate item 'b')

/-- The position that is read. -/
def longPosition : Entry := ⟨[List.replicate 800 'a'], [⟨List.replicate 748 'b', true⟩]⟩

def longExperience : ResumeSection := ⟨"Experience".toList, .role, 1, [longPosition]⟩

theorem parse_longPosition : parse asciiTools (positionText 800 748).toList =
    [⟨[], .wholeSection, 0, []⟩, longExperience] := by
  unfold positionText
  rw [String.toList_ofList]
  decide +kernel

theorem entryParts_singleton {sec : ResumeSection} {entry : Entry} (item : List Char)
    (hitem : sec.itemsOf entry = [item]) (hne : item ≠ [])
    (hlen : item.length ≤ budgetOf (sec.prefixOf entry)) :
    entryParts sec entry = [⟨sec, entry, [item]⟩] := by
  have hcut : cutPieces (budgetOf (sec.prefixOf entry)) (budgetOf_pos _) item = [item] := by
    rw [cutPieces, if_neg (Nat.not_lt.mpr hlen), given, if_neg (by simpa using hne)]
  have hruns : runsOf (sec.prefixOf entry) (sec.itemsOf entry) = [[item]] := by
    rw [hitem, runsOf, List.flatMap_singleton, hcut]
    rfl
  rw [entryParts, hruns]
  rfl

theorem chunkResume_singleton (documentName : String) {text : String} {preface sec : ResumeSection}
    {entry : Entry} {part : Part} (hparse : parse tools text.toList = [preface, sec])
    (hpreface : preface.entries = []) (hentries : sec.entries = [entry]) (hempty : entry.isEmpty = false)
    (hparts : entryParts sec entry = [part]) :
    chunkResume tools id documentName text =
      .ok [chunkOf tools documentName sec entry 1 (String.ofList part.text)] := by
  have hsolid : SolidSection sec := by
    refine parse_solid tools text.toList sec ?_
    rw [hparse]
    exact List.mem_cons_of_mem _ List.mem_cons_self
  obtain ⟨hkey, htitle⟩ := part_says hsolid (hentries ▸ List.mem_cons_self) hempty
    (hparts ▸ List.mem_cons_self)
  have hone : chunkPart tools id documentName sec entry ⟨[], []⟩ 1 part.text =
      .ok ⟨[chunkOf tools documentName sec entry 1 (String.ofList part.text)], [part.key]⟩ := by
    unfold chunkPart
    rw [if_neg, if_neg]
    · rfl
    · simp [maxChunks]
    · rintro (h | h | h)
      · exact hkey h
      · exact htitle h
      · cases h
  have hentry : chunkEntry tools id documentName sec ⟨[], []⟩ entry =
      .ok ⟨[chunkOf tools documentName sec entry 1 (String.ofList part.text)], [part.key]⟩ := by
    rw [chunkEntry, if_neg (by simp [hempty]), parts_eq, hparts, List.map_singleton, chunkParts, hone]
    rfl
  rw [chunkResume, hparse, chunkSections, hpreface]
  change ((chunkSections tools id documentName ⟨[], []⟩ [sec]).map (·.chunks)) = _
  rw [chunkSections, hentries, chunkEntries, hentry]
  rfl

/-- The position's only chunk. -/
def longChunk : ResumeChunk :=
  chunkOf asciiTools "resume.md" longExperience longPosition 1
    (String.ofList (Part.text ⟨longExperience, longPosition, [render ⟨List.replicate 748 'b', true⟩]⟩))

theorem chunkResume_longPosition :
    chunkResume asciiTools id "resume.md" (positionText 800 748) = .ok [longChunk] :=
  chunkResume_singleton "resume.md" parse_longPosition rfl rfl rfl
    (entryParts_singleton _ rfl (by decide +kernel) (by decide +kernel))

theorem length_longChunk : longChunk.text.length = 1562 := by
  unfold longChunk chunkOf
  rw [String.length_ofList]
  decide +kernel

theorem uncredentialed_id (tools : LineTools) (text : String) : Uncredentialed tools id text :=
  fun _ _ _ _ _ _ => rfl

theorem chunks_bounded_iff_longPosition : ¬Roomy asciiTools (positionText 800 748) := by
  intro hroomy
  have hbound := (chunks_bounded_iff asciiTools id "resume.md" (positionText 800 748)
    (uncredentialed_id _ _) chunkResume_longPosition).mpr hroomy longChunk List.mem_cons_self
  rw [length_longChunk] at hbound
  exact absurd hbound (by decide)

/-- A header of 800 characters and an item of 748 make a chunk of 1562. -/
theorem long_header_overflows :
    ¬∀ (tools : LineTools) (redactText : RedactText) (documentName text : String)
      (chunks : List ResumeChunk), Uncredentialed tools redactText text →
      chunkResume tools redactText documentName text = .ok chunks →
      ∀ chunk ∈ chunks, chunk.text.length ≤ maxChunkChars := by
  intro h
  have hbound := h asciiTools id "resume.md" (positionText 800 748) _ (uncredentialed_id _ _)
    chunkResume_longPosition longChunk List.mem_cons_self
  rw [length_longChunk] at hbound
  exact absurd hbound (by decide)

end PersonalOS.Resume
