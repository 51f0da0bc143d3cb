import PersonalOS.NextFit
import PersonalOS.ResumeChunking
import PersonalOS.Tokens

/-! # The parts of a resume

What `chunk_resume` goes through: the parts that the entries of a text are packed into, in document
order, and which of them become chunks.

* **Words.** Normalizing a text, and stripping it, leaves its words as they are; so two parts with one
  key have the same words (`words_of_key_eq`).
* **Sections.** `parse_rule` is the induction over the lines.  Every title, header line and item of a
  parsed section begins with a character that is no space (`parse_solid`).
* **Chunks.** `Chunked` relates the parts gone through to the chunks made: a part becomes a chunk unless
  an earlier part has its key (`chunkResume_chunked`). -/

namespace PersonalOS.Resume

open Tokens

/-! ### Words of normalized texts -/

theorem words_stripChars (text : List Char) : words isSpace (stripChars text) = words isSpace text :=
  (words_rdropWhile (l := text.dropWhile isSpace)).trans words_dropWhile

theorem words_collapseSpaces (text : List Char) :
    (∀ before, words isSpace (before ++ collapseSpaces false text) = words isSpace (before ++ text)) ∧
      words isSpace (collapseSpaces true text) = words isSpace text := by
  have hblank : isSpace ' ' = true := by decide
  induction text with
  | nil => exact ⟨fun _ => rfl, rfl⟩
  | cons c text ih =>
      cases hc : isSpace c with
      | true =>
          simp only [collapseSpaces, hc, if_true, Bool.false_eq_true, if_false]
          constructor
          · intro before
            rw [words_append_cons before _ hblank, words_append_cons before _ hc, ih.2]
          · rw [ih.2, words_cons_sep hc]
      | false =>
          simp only [collapseSpaces, hc, Bool.false_eq_true, if_false]
          constructor
          · intro before
            have hnext := ih.1 (before ++ [c])
            rwa [List.append_assoc, List.append_assoc] at hnext
          · exact ih.1 [c]

theorem words_normalizeChunkText (text : List Char) :
    words isSpace (normalizeChunkText (String.ofList text)).toList = words isSpace text := by
  unfold normalizeChunkText strip
  rw [String.toList_ofList, String.toList_ofList, String.toList_ofList, words_stripChars]
  exact (words_collapseSpaces text).1 []

/-- Texts with one key have the same words. -/
theorem words_of_key_eq {text text' : List Char}
    (h : normalizeChunkText (String.ofList text) = normalizeChunkText (String.ofList text')) :
    words isSpace text = words isSpace text' := by
  rw [← words_normalizeChunkText, h, words_normalizeChunkText]

/-- Lines joined have the words of the lines. -/
theorem words_joinLines (lines : List (List Char)) :
    words isSpace (joinLines lines) = lines.flatMap (words isSpace) := by
  have hnewline : isSpace '\n' = true := by decide
  induction lines with
  | nil => rfl
  | cons line lines ih =>
      cases lines with
      | nil => simp [joinLines]
      | cons next lines =>
          have hjoin : joinLines (line :: next :: lines) = line ++ '\n' :: joinLines (next :: lines) := by
            simp [joinLines, List.intercalate]
          rw [hjoin, words_append_cons _ _ hnewline, ih]
          rfl

/-! ### What is read begins with a word -/

/-- The text begins with a character of a word. -/
def Solid (text : List Char) : Prop := ∃ c rest, text = c :: rest ∧ isSpace c = false

theorem Solid.words_ne_nil {text : List Char} (h : Solid text) : words isSpace text ≠ [] := by
  obtain ⟨c, rest, rfl, hc⟩ := h
  exact Tokens.words_ne_nil List.mem_cons_self hc

theorem Solid.append {text : List Char} (h : Solid text) (more : List Char) : Solid (text ++ more) := by
  obtain ⟨c, rest, rfl, hc⟩ := h
  exact ⟨c, rest ++ more, rfl, hc⟩

theorem solid_lstrip {text : List Char} (h : lstrip text ≠ []) : Solid (lstrip text) := by
  obtain ⟨c, rest, hcons⟩ := List.exists_cons_of_ne_nil h
  refine ⟨c, rest, hcons, ?_⟩
  have hhead := List.head_dropWhile_not isSpace (l := text) h
  simp only [lstrip] at hcons hhead
  simpa [hcons] using hhead

/-- Stripping on the right keeps the beginning. -/
theorem Solid.rstrip {text : List Char} (h : Solid text) : Solid (rstrip text) := by
  obtain ⟨c, rest, rfl, hc⟩ := h
  have hne : Resume.rstrip (c :: rest) ≠ [] := by
    intro hnil
    have hall := List.rdropWhile_eq_nil_iff.mp hnil c List.mem_cons_self
    rw [hc] at hall
    cases hall
  obtain ⟨d, rest', hcons⟩ := List.exists_cons_of_ne_nil hne
  have hpre : d :: rest' <+: c :: rest := hcons ▸ List.rdropWhile_prefix _ _
  obtain ⟨rfl, -⟩ := List.cons_prefix_cons.mp hpre
  exact ⟨d, rest', hcons, hc⟩

theorem solid_stripChars {text : List Char} (h : stripChars text ≠ []) : Solid (stripChars text) := by
  have hl : lstrip text ≠ [] := by
    intro hnil
    refine h ?_
    unfold lstrip at hnil
    rw [stripChars, hnil]
    rfl
  exact (solid_lstrip hl).rstrip

/-- The induction over the lines of a text. -/
theorem parse_rule (tools : LineTools) {P : List (List Char) → Reading → Prop} (start : P [] .start)
    (step : ∀ lines reading raw, P lines reading → P (lines ++ [raw]) (readLine tools reading raw))
    (text : List Char) :
    P (text.splitOn '\n') ((text.splitOn '\n').foldl (readLine tools) .start) := by
  induction text.splitOn '\n' using List.reverseRecOn with
  | nil => exact start
  | append_singleton lines raw ih =>
      rw [List.foldl_append]
      exact step lines _ raw ih

structure SolidEntry (entry : Entry) : Prop where
  header : ∀ line ∈ entry.header, Solid line
  items : ∀ item ∈ entry.items, Solid item.text

structure SolidSection (sec : ResumeSection) : Prop where
  title : ∀ line ∈ given sec.title, Solid line
  entries : ∀ entry ∈ sec.entries, SolidEntry entry

variable {tools : LineTools}

theorem solid_given {text : List Char} (h : text ≠ [] → Solid text) : ∀ line ∈ given text, Solid line := by
  intro line hmem
  unfold given at hmem
  split at hmem
  · cases hmem
  · rename_i hne
    obtain rfl := List.mem_singleton.mp hmem
    exact h (by simpa using hne)

theorem solid_opened {header : List Char} (h : header ≠ [] → Solid header) :
    SolidEntry (.opened header) := ⟨solid_given h, by simp [Entry.opened]⟩

theorem SolidEntry.addItem {entry : Entry} (h : SolidEntry entry) {text : List Char} (htext : Solid text)
    (bullet : Bool) : SolidEntry (entry.addItem text bullet) := by
  refine ⟨h.header, fun item hitem => ?_⟩
  rcases List.mem_append.mp hitem with hitem | hitem
  · exact h.items item hitem
  · obtain rfl := List.mem_singleton.mp hitem
    exact htext

theorem SolidEntry.continueItem {entry : Entry} (h : SolidEntry entry) (text : List Char) :
    SolidEntry (entry.continueItem text) := by
  unfold Entry.continueItem
  split
  · rename_i item hlast
    refine ⟨h.header, fun item' hitem => ?_⟩
    rcases List.mem_append.mp hitem with hitem | hitem
    · exact h.items item' (List.mem_of_mem_dropLast hitem)
    · obtain rfl := List.mem_singleton.mp hitem
      exact (h.items item (List.mem_of_getLast? hlast)).append _
  · exact h

theorem SolidSection.openEntry {sec : ResumeSection} (h : SolidSection sec) {entry : Entry}
    (hentry : SolidEntry entry) : SolidSection (sec.openEntry entry) := by
  refine ⟨h.title, fun entry' hmem => ?_⟩
  rcases List.mem_append.mp hmem with hmem | hmem
  · exact h.entries entry' hmem
  · obtain rfl := List.mem_singleton.mp hmem
    exact hentry

theorem SolidSection.updateEntry {sec : ResumeSection} (h : SolidSection sec) {change : Entry → Entry}
    (hchange : ∀ entry, SolidEntry entry → SolidEntry (change entry)) :
    SolidSection (sec.updateEntry change) := by
  unfold ResumeSection.updateEntry
  split
  · rename_i entry hlast
    refine ⟨h.title, fun entry' hmem => ?_⟩
    rcases List.mem_append.mp hmem with hmem | hmem
    · exact h.entries entry' (List.mem_of_mem_dropLast hmem)
    · obtain rfl := List.mem_singleton.mp hmem
      exact hchange entry (h.entries entry (List.mem_of_getLast? hlast))
  · exact h.openEntry (hchange _ ⟨by simp, by simp⟩)

theorem SolidSection.add {sec : ResumeSection} (h : SolidSection sec) {text : List Char}
    (htext : Solid text) (bullet afterBlank : Bool) : SolidSection (sec.add tools text bullet afterBlank) := by
  have hopen : SolidSection (sec.openEntry (.opened text)) := h.openEntry (solid_opened fun _ => htext)
  have hitem : ∀ bullet, SolidSection (sec.updateEntry (·.addItem text bullet)) :=
    fun bullet => h.updateEntry fun entry hentry => hentry.addItem htext bullet
  unfold ResumeSection.add
  split
  · exact hitem bullet
  · split
    · exact hitem true
    · split
      · exact hopen
      · rename_i entry hlast
        unfold ResumeSection.addLine
        split
        · exact hopen
        · split
          · exact h.updateEntry fun entry hentry => hentry.continueItem text
          · split
            · refine h.updateEntry fun entry hentry => ⟨fun line hline => ?_, hentry.items⟩
              rcases List.mem_append.mp hline with hline | hline
              · exact hentry.header line hline
              · obtain rfl := List.mem_singleton.mp hline
                exact htext
            · split
              · exact hopen
              · exact hitem false

/-- The sections of a reading are solid. -/
def SolidReading (reading : Reading) : Prop := ∀ sec ∈ reading.sections, SolidSection sec

theorem SolidReading.openSection {reading : Reading} (h : SolidReading reading) {title : List Char}
    (htitle : title ≠ [] → Solid title) (kind : ChunkKind) (level : ℕ) :
    SolidReading (reading.openSection title kind level) := by
  intro sec hmem
  rcases List.mem_append.mp hmem with hmem | hmem
  · exact h sec hmem
  · obtain rfl := List.mem_singleton.mp hmem
    exact ⟨solid_given htitle, fun entry hentry => absurd hentry List.not_mem_nil⟩

theorem SolidReading.change {reading : Reading} (h : SolidReading reading) {sec : ResumeSection}
    (hsec : SolidSection sec) : SolidReading (reading.change sec) := by
  intro sec' hmem
  rcases List.mem_append.mp hmem with hmem | hmem
  · exact h sec' (List.mem_append_left _ hmem)
  · obtain rfl := List.mem_singleton.mp hmem
    exact hsec

/-- An unmarked heading is the line without the colons at its end. -/
theorem plainHeading_eq {line title : List Char} (h : plainHeading tools line = some title) :
    title = stripChars (rstripColons line) := by
  unfold plainHeading at h
  split at h
  · cases h
  · dsimp only at h
    split at h
    · cases h
    · split at h
      · exact (Option.some.inj h).symm
      · split at h
        · exact (Option.some.inj h).symm
        · cases h

theorem SolidReading.readLine {reading : Reading} (h : SolidReading reading) (raw : List Char) :
    SolidReading (readLine tools reading raw) := by
  have hcurrent : SolidSection reading.current := h _ (List.mem_append_right _ List.mem_cons_self)
  unfold Resume.readLine
  dsimp only
  split
  · exact h
  · split
    · rename_i level title hheading
      unfold readHeading
      dsimp only
      split
      · exact h.openSection (fun hne => solid_stripChars hne) _ _
      · split
        · exact h.change (hcurrent.openEntry (solid_opened fun hne => solid_stripChars hne))
        · exact h.openSection (fun hne => solid_stripChars hne) _ _
    · split
      · rename_i title hplain
        refine h.openSection (fun hne => ?_) _ _
        rw [plainHeading_eq hplain] at hne ⊢
        exact solid_stripChars hne
      · unfold readContent
        dsimp only
        split
        · exact h
        · rename_i hne
          have hcontent := List.isEmpty_eq_false_iff.mp (Bool.eq_false_iff.mpr hne)
          exact h.change (hcurrent.add (solid_stripChars hcontent) _ _)

theorem parse_solid (tools : LineTools) (text : List Char) : ∀ sec ∈ parse tools text, SolidSection sec := by
  refine parse_rule tools (P := fun _ reading => SolidReading reading) ?_ (fun _ _ raw h => h.readLine raw) text
  intro sec hmem
  obtain rfl := List.mem_singleton.mp hmem
  exact ⟨fun line hline => absurd hline List.not_mem_nil, fun entry hentry => absurd hentry List.not_mem_nil⟩

/-! ### Pieces -/

theorem lastBlank_lt {budget cut : ℕ} {item : List Char} (h : lastBlank budget item = some cut) :
    cut < budget := by
  obtain ⟨i, hi, rfl⟩ := Option.map_eq_some_iff.mp h
  have hlen := List.findIdx?_eq_some_iff_getElem.mp hi
  have hbound : i < (item.take budget).reverse.length := hlen.1
  rw [List.length_reverse] at hbound
  have htake := List.length_take_le budget item
  omega

theorem cutAt_le (budget : ℕ) (item : List Char) : cutAt budget item ≤ budget := by
  unfold cutAt
  split
  · rename_i cut hcut
    split
    · exact (lastBlank_lt hcut).le
    · exact le_rfl
  · exact le_rfl

/-- A piece is no longer than the budget. -/
theorem length_piece_le {budget : ℕ} (hbudget : 0 < budget) (item : List Char) :
    ∀ piece ∈ cutPieces budget hbudget item, piece.length ≤ budget := by
  induction item using cutPieces.induct budget hbudget with
  | case1 item hlong ih =>
      intro piece hmem
      rw [cutPieces, if_pos hlong] at hmem
      rcases List.mem_cons.mp hmem with rfl | hmem
      · calc (rstrip (item.take (cutAt budget item))).length
            ≤ (item.take (cutAt budget item)).length := (List.rdropWhile_prefix _ _).length_le
          _ ≤ cutAt budget item := List.length_take_le _ _
          _ ≤ budget := cutAt_le budget item
      · exact ih piece hmem
  | case2 item hshort =>
      intro piece hmem
      rw [cutPieces, if_neg hshort, given] at hmem
      split at hmem
      · cases hmem
      · obtain rfl := List.mem_singleton.mp hmem
        exact Nat.le_of_not_lt hshort

/-- The pieces of what begins with a word begin with words. -/
theorem solid_piece {budget : ℕ} (hbudget : 0 < budget) (item : List Char)
    (hitem : item ≠ [] → Solid item) : ∀ piece ∈ cutPieces budget hbudget item, Solid piece := by
  induction item using cutPieces.induct budget hbudget with
  | case1 item hlong ih =>
      intro piece hmem
      rw [cutPieces, if_pos hlong] at hmem
      rcases List.mem_cons.mp hmem with rfl | hmem
      · have hne : item ≠ [] := List.ne_nil_of_length_pos (lt_of_le_of_lt (Nat.zero_le _) hlong)
        have hsolid : Solid (item.take (cutAt budget item)) := by
          obtain ⟨c, rest, rfl, hc⟩ := hitem hne
          obtain ⟨n, hn⟩ := Nat.exists_eq_succ_of_ne_zero (cutAt_pos hbudget (c :: rest)).ne'
          rw [hn, Nat.succ_eq_add_one, List.take_succ_cons]
          exact ⟨c, _, rfl, hc⟩
        exact hsolid.rstrip
      · exact ih solid_lstrip piece hmem
  | case2 item hshort =>
      intro piece hmem
      rw [cutPieces, if_neg hshort] at hmem
      exact solid_given hitem piece hmem

/-- Nothing is cut away but what is between the pieces. -/
theorem cutPieces_ne_nil {budget : ℕ} (hbudget : 0 < budget) {item : List Char} (hne : item ≠ []) :
    cutPieces budget hbudget item ≠ [] := by
  rw [cutPieces]
  split
  · exact List.cons_ne_nil _ _
  · unfold given
    rw [if_neg (by simpa using hne)]
    exact List.cons_ne_nil _ _

@[simp] theorem lineTotal_nil : lineTotal [] = 0 := rfl

@[simp] theorem lineTotal_cons (line : List Char) (lines : List (List Char)) :
    lineTotal (line :: lines) = line.length + 1 + lineTotal lines := by
  simp [lineTotal]

@[simp] theorem lineTotal_append (lines lines' : List (List Char)) :
    lineTotal (lines ++ lines') = lineTotal lines + lineTotal lines' := by
  simp [lineTotal]

/-- A text of lines is as long as they are, each with a newline but the last. -/
theorem length_joinLines {lines : List (List Char)} (hne : lines ≠ []) :
    (joinLines lines).length + 1 = lineTotal lines := by
  induction lines with
  | nil => exact absurd rfl hne
  | cons line lines ih =>
      cases lines with
      | nil => simp [joinLines]
      | cons next lines =>
          have hjoin : joinLines (line :: next :: lines) = line ++ '\n' :: joinLines (next :: lines) := by
            simp [joinLines, List.intercalate]
          have hrest := ih (List.cons_ne_nil _ _)
          rw [hjoin, List.length_append, List.length_cons, lineTotal_cons]
          omega

/-- A line takes its characters and a newline. -/
def lineSize (line : List Char) : ℕ := line.length + 1

/-- The pieces of the items: each item, or what it is cut into where it is over the budget. -/
def piecesOf (pre items : List (List Char)) : List (List Char) :=
  items.flatMap (cutPieces (budgetOf pre) (budgetOf_pos pre))

/-- A run is closed when the next piece does not fit. -/
theorem fill_divided {budget : ℕ} {current : List (List Char)} (hne : current ≠ [])
    (hfits : NextFit.Fits lineSize budget current) {size : ℕ} (hsize : size = lineTotal current)
    (pieces : List (List Char)) :
    NextFit.Divided lineSize budget (current ++ pieces) (fill budget current size pieces) := by
  induction pieces generalizing current size with
  | nil =>
      rw [List.append_nil, fill, if_neg (by simpa using hne)]
      exact .last hfits
  | cons piece pieces ih =>
      have hnext : lineTotal (current ++ [piece]) = size + piece.length + 1 := by
        rw [lineTotal_append, lineTotal_cons, lineTotal_nil, hsize]
        omega
      have hcurrent : current.isEmpty = false := by simpa using hne
      unfold fill
      simp only [hcurrent, Bool.not_false, Bool.true_and, decide_eq_true_eq]
      split
      · rename_i hfull
        refine .closed ⟨hne, hfits, ?_⟩ (ih (List.cons_ne_nil piece []) (Or.inr le_rfl) (by simp))
        change budget < lineTotal (current ++ [piece])
        rwa [hnext]
      · rename_i hroom
        have hne' : current ++ [piece] ≠ [] := by simp
        have hrest := ih hne' (Or.inl (hnext.trans_le (Nat.le_of_not_lt hroom))) hnext.symm
        rwa [List.append_assoc, List.singleton_append] at hrest

/-- Where there are pieces, they are divided into the runs. -/
theorem runsOf_divided {pre items : List (List Char)} (h : piecesOf pre items ≠ []) :
    NextFit.Divided lineSize (budgetOf pre) (piecesOf pre items) (runsOf pre items) := by
  obtain ⟨piece, pieces, hcons⟩ := List.exists_cons_of_ne_nil h
  have hruns : runsOf pre items = fill (budgetOf pre) [] 0 (piecesOf pre items) := rfl
  rw [hruns, hcons, fill, if_neg (by simp)]
  exact fill_divided (List.cons_ne_nil piece []) (Or.inr le_rfl) (by simp) pieces

theorem runsOf_eq_nil_iff {pre items : List (List Char)} :
    runsOf pre items = [] ↔ piecesOf pre items = [] := by
  constructor
  · intro hruns
    by_contra hne
    have hdivided := (runsOf_divided hne).flatten_eq
    rw [hruns] at hdivided
    exact hne hdivided.symm
  · intro hnone
    have hruns : runsOf pre items = fill (budgetOf pre) [] 0 (piecesOf pre items) := rfl
    rw [hruns, hnone]
    rfl

/-- Every piece is in one run, in order. -/
theorem flatten_runsOf (pre items : List (List Char)) : (runsOf pre items).flatten = piecesOf pre items := by
  by_cases hne : piecesOf pre items = []
  · rw [runsOf_eq_nil_iff.mpr hne, hne]
    rfl
  · exact (runsOf_divided hne).flatten_eq

/-- A run is no longer than the budget with a newline, and has a piece. -/
theorem length_run_le {pre items run : List (List Char)} (hrun : run ∈ runsOf pre items) :
    run ≠ [] ∧ lineTotal run ≤ budgetOf pre + 1 := by
  have hne : piecesOf pre items ≠ [] := by
    intro hnone
    rw [runsOf_eq_nil_iff.mpr hnone] at hrun
    cases hrun
  have hdivided := runsOf_divided hne
  have hnonempty := hdivided.ne_nil hne run hrun
  refine ⟨hnonempty, ?_⟩
  rcases hdivided.fits run hrun with hfits | hone
  · exact hfits.trans (Nat.le_succ _)
  · obtain ⟨piece, rest, rfl⟩ := List.exists_cons_of_ne_nil hnonempty
    obtain rfl := List.eq_nil_of_length_eq_zero (Nat.le_zero.mp (Nat.le_of_succ_le_succ hone))
    have hmem : piece ∈ piecesOf pre items :=
      flatten_runsOf pre items ▸ List.mem_flatten_of_mem hrun List.mem_cons_self
    obtain ⟨item, -, hpiece⟩ := List.mem_flatMap.mp hmem
    simpa using length_piece_le (budgetOf_pos pre) item piece hpiece

/-- What is packed has pieces, if there is something to pack. -/
theorem piecesOf_eq_nil {pre items : List (List Char)} (hitems : ∀ item ∈ items, Solid item)
    (h : piecesOf pre items = []) : items = [] := by
  by_contra hne
  obtain ⟨item, hitem⟩ := List.exists_mem_of_ne_nil _ hne
  obtain ⟨c, rest, rfl, -⟩ := hitems item hitem
  exact cutPieces_ne_nil (budgetOf_pos pre) (List.cons_ne_nil c rest) (List.flatMap_eq_nil_iff.mp h _ hitem)

/-! ### Parts and chunks -/

/-- One text an entry is packed into: the run of pieces under the entry's prefix. -/
structure Part where
  sec : ResumeSection
  entry : Entry
  run : List (List Char)

namespace Part

variable (part : Part)

def lines : List (List Char) := part.sec.prefixOf part.entry ++ part.run

def text : List Char := joinLines part.lines

/-- What the part says, up to whitespace. -/
def key : String := normalizeChunkText (String.ofList part.text)

end Part

/-- The parts of an entry. -/
def entryParts (sec : ResumeSection) (entry : Entry) : List Part :=
  match runsOf (sec.prefixOf entry) (sec.itemsOf entry) with
  | [] => if (sec.prefixOf entry).isEmpty then [] else [⟨sec, entry, []⟩]
  | runs => runs.map (Part.mk sec entry)

theorem parts_eq (sec : ResumeSection) (entry : Entry) :
    sec.parts entry = (entryParts sec entry).map Part.text := by
  unfold ResumeSection.parts pack entryParts
  cases runsOf (sec.prefixOf entry) (sec.itemsOf entry) with
  | nil =>
      dsimp only
      split
      · rfl
      · simp [Part.text, Part.lines]
  | cons run runs =>
      rw [List.map_map]
      rfl

/-- The parts of all entries that hold something, in document order. -/
def documentParts (sections : List ResumeSection) : List Part :=
  sections.flatMap fun sec => (sec.entries.filter fun entry => !entry.isEmpty).flatMap (entryParts sec)

theorem own_of_mem {sec : ResumeSection} {entry : Entry} {part : Part} (h : part ∈ entryParts sec entry) :
    part.sec = sec ∧ part.entry = entry := by
  unfold entryParts at h
  split at h
  · split at h
    · cases h
    · obtain rfl := List.mem_singleton.mp h
      exact ⟨rfl, rfl⟩
  · obtain ⟨run, -, rfl⟩ := List.mem_map.mp h
    exact ⟨rfl, rfl⟩

/-- The run of a part holds pieces of the entry's items, or the prefix stands alone. -/
theorem run_of_mem {sec : ResumeSection} {entry : Entry} {part : Part} (h : part ∈ entryParts sec entry) :
    (part.run ∈ runsOf (sec.prefixOf entry) (sec.itemsOf entry)) ∨
      part.run = [] ∧ sec.prefixOf entry ≠ [] ∧ runsOf (sec.prefixOf entry) (sec.itemsOf entry) = [] := by
  unfold entryParts at h
  split at h
  · rename_i hruns
    split at h
    · cases h
    · rename_i hne
      obtain rfl := List.mem_singleton.mp h
      exact Or.inr ⟨rfl, by simpa using hne, hruns⟩
  · obtain ⟨run, hrun, rfl⟩ := List.mem_map.mp h
    exact Or.inl hrun

/-- The items of a solid entry are solid. -/
theorem solid_itemsOf {sec : ResumeSection} {entry : Entry} (h : SolidEntry entry) :
    ∀ item ∈ sec.itemsOf entry, Solid item := by
  intro item hmem
  rcases List.mem_append.mp hmem with hmem | hmem
  · split at hmem
    · cases hmem
    · exact h.header item hmem
  · obtain ⟨i, hi, rfl⟩ := List.mem_map.mp hmem
    unfold render
    split
    · exact ⟨'-', _, rfl, by decide⟩
    · exact h.items i hi

theorem runsOf_fits {pre items : List (List Char)} (hitems : ∀ item ∈ items, Solid item) :
    ∀ run ∈ runsOf pre items, run ≠ [] ∧ lineTotal run ≤ budgetOf pre + 1 ∧ ∀ piece ∈ run, Solid piece := by
  intro run hrun
  refine ⟨(length_run_le hrun).1, (length_run_le hrun).2, fun piece hpiece => ?_⟩
  have hmem : piece ∈ piecesOf pre items :=
    flatten_runsOf pre items ▸ List.mem_flatten_of_mem hrun hpiece
  obtain ⟨item, hitem, hpiece⟩ := List.mem_flatMap.mp hmem
  exact solid_piece (budgetOf_pos pre) item (fun _ => hitems item hitem) piece hpiece

/-- A part has more words than its section's title. -/
theorem words_ne_title {sec : ResumeSection} {entry : Entry} {part : Part} (hsec : SolidSection sec)
    (hentry : entry ∈ sec.entries) (hempty : entry.isEmpty = false) (h : part ∈ entryParts sec entry) :
    (words isSpace (joinLines (given sec.title))).length < (words isSpace part.text).length := by
  obtain ⟨rfl, rfl⟩ := own_of_mem h
  have hsolid := hsec.entries _ hentry
  rw [Part.text, words_joinLines, words_joinLines, Part.lines, ResumeSection.prefixOf, List.append_assoc,
    List.flatMap_append, List.length_append, Nat.lt_add_right_iff_pos, List.length_pos_iff]
  intro hnil
  -- Beyond the title there is a line that has words.
  have hrest : ∀ line ∈ (if part.sec.splitsEntries then part.entry.header else []) ++ part.run,
      words isSpace line = [] := List.flatMap_eq_nil_iff.mp hnil
  rcases run_of_mem h with hrun | ⟨hrun, -, hruns⟩
  · obtain ⟨hne, -, hpieces⟩ := runsOf_fits (solid_itemsOf hsolid) _ hrun
    obtain ⟨piece, hpiece⟩ := List.exists_mem_of_ne_nil _ hne
    exact (hpieces piece hpiece).words_ne_nil (hrest piece (List.mem_append_right _ hpiece))
  · have hitems : part.sec.itemsOf part.entry = [] :=
      piecesOf_eq_nil (solid_itemsOf hsolid) (runsOf_eq_nil_iff.mp hruns)
    obtain ⟨hheader, hnone⟩ := List.append_eq_nil_iff.mp hitems
    have hnoitems : part.entry.items = [] := List.map_eq_nil_iff.mp hnone
    cases hsplits : part.sec.splitsEntries with
    | true =>
        have hne : part.entry.header ≠ [] := by
          intro hnil
          rw [Entry.isEmpty, hnil, hnoitems] at hempty
          cases hempty
        obtain ⟨line, hline⟩ := List.exists_mem_of_ne_nil _ hne
        refine (hsolid.header line hline).words_ne_nil (hrest line (List.mem_append_left _ ?_))
        rw [if_pos hsplits]
        exact hline
    | false =>
        rw [if_neg (by simp [hsplits])] at hheader
        rw [Entry.isEmpty, hheader, hnoitems] at hempty
        cases hempty

/-- What the parts gone through have become: the chunks of those that are the first with their key. -/
structure Chunked (parts : List Part) (chunking : Chunking) : Prop where
  sound : ∀ chunk ∈ chunking.chunks, ∃ before part after, parts = before ++ part :: after ∧
    (∀ earlier ∈ before, earlier.key ≠ part.key) ∧ chunk.text = String.ofList part.text
  complete : ∀ before part after, parts = before ++ part :: after →
    (∀ earlier ∈ before, earlier.key ≠ part.key) →
      ∃ chunk ∈ chunking.chunks, chunk.text = String.ofList part.text
  seen : ∀ key, key ∈ chunking.seen ↔ ∃ part ∈ parts, part.key = key

section chunked

variable {redactText : RedactText} {documentName : String} {parts : List Part}
  {chunking chunking' : Chunking} {sec : ResumeSection} {entry : Entry} {number : ℕ} {part : Part}

/-- A part after others: either one of them, with what comes after it, or the last. -/
theorem append_singleton_eq {before after : List Part} {other : Part}
    (h : parts ++ [part] = before ++ other :: after) :
    (∃ after', parts = before ++ other :: after') ∨ parts = before ∧ part = other := by
  rcases List.eq_nil_or_concat after with rfl | ⟨after', last, rfl⟩
  · obtain ⟨rfl, hlast⟩ := List.append_inj' h rfl
    exact Or.inr ⟨rfl, (List.cons.inj hlast).1⟩
  · left
    refine ⟨after', ?_⟩
    have h' : parts ++ [part] = (before ++ other :: after') ++ [last] := by
      rw [h, List.concat_eq_append, List.append_assoc, List.cons_append]
    exact (List.append_inj' h' rfl).1

theorem Chunked.step (h : Chunked parts chunking) (hclean : redactText (String.ofList part.text) =
      String.ofList part.text) (hkey : part.key ≠ "")
    (htitle : part.key ≠ normalizeChunkText (String.ofList (joinLines (given sec.title))))
    (hstep : chunkPart tools redactText documentName sec entry chunking number part.text =
      .ok chunking') : Chunked (parts ++ [part]) chunking' := by
  unfold chunkPart at hstep
  rw [hclean] at hstep
  dsimp only at hstep
  change (if part.key = "" ∨ part.key = _ ∨ part.key ∈ chunking.seen then _ else _) = _ at hstep
  have hbefore : ∀ chunk ∈ chunking.chunks, ∃ before other after,
      parts ++ [part] = before ++ other :: after ∧ (∀ earlier ∈ before, earlier.key ≠ other.key) ∧
        chunk.text = String.ofList other.text := by
    intro chunk hmem
    obtain ⟨before, other, after, rfl, hfirst, htext⟩ := h.sound chunk hmem
    exact ⟨before, other, after ++ [part], by simp, hfirst, htext⟩
  by_cases hseen : part.key ∈ chunking.seen
  · rw [if_pos (Or.inr (Or.inr hseen))] at hstep
    obtain rfl := Except.ok.inj hstep
    obtain ⟨earlier, hearlier, hsame⟩ := (h.seen _).mp hseen
    refine ⟨hbefore, fun before other after heq hfirst => ?_, fun key => ?_⟩
    · rcases append_singleton_eq heq with ⟨after', heq⟩ | ⟨rfl, rfl⟩
      · exact h.complete before other after' heq hfirst
      · exact absurd hsame (hfirst earlier hearlier)
    · rw [h.seen]
      constructor
      · rintro ⟨other, hother, hk⟩
        exact ⟨other, List.mem_append_left _ hother, hk⟩
      · rintro ⟨other, hother, hk⟩
        rcases List.mem_append.mp hother with hother | hother
        · exact ⟨other, hother, hk⟩
        · obtain rfl := List.mem_singleton.mp hother
          exact ⟨earlier, hearlier, hsame.trans hk⟩
  · rw [if_neg (by
      rintro (hk | hk | hk)
      · exact hkey hk
      · exact htitle hk
      · exact hseen hk)] at hstep
    split at hstep
    · cases hstep
    · obtain rfl := Except.ok.inj hstep
      have hnew : ∀ earlier ∈ parts, earlier.key ≠ part.key :=
        fun earlier hearlier hsame => hseen ((h.seen _).mpr ⟨earlier, hearlier, hsame⟩)
      refine ⟨fun chunk hmem => ?_, fun before other after heq hfirst => ?_, fun key => ?_⟩
      · rcases List.mem_append.mp hmem with hmem | hmem
        · exact hbefore chunk hmem
        · obtain rfl := List.mem_singleton.mp hmem
          exact ⟨parts, part, [], rfl, hnew, rfl⟩
      · rcases append_singleton_eq heq with ⟨after', heq⟩ | ⟨rfl, rfl⟩
        · obtain ⟨chunk, hmem, htext⟩ := h.complete before other after' heq hfirst
          exact ⟨chunk, List.mem_append_left _ hmem, htext⟩
        · exact ⟨_, List.mem_append_right _ List.mem_cons_self, rfl⟩
      · simp only [List.mem_append, h.seen, List.mem_singleton]
        constructor
        · rintro (⟨other, hother, hk⟩ | rfl)
          · exact ⟨other, Or.inl hother, hk⟩
          · exact ⟨part, Or.inr rfl, rfl⟩
        · rintro ⟨other, hother | rfl, hk⟩
          · exact Or.inl ⟨other, hother, hk⟩
          · exact Or.inr hk.symm

/-- What a part of a solid section says is more than its title. -/
theorem part_says (hsec : SolidSection sec) (hentry : entry ∈ sec.entries)
    (hempty : entry.isEmpty = false) (hpart : part ∈ entryParts sec entry) :
    part.key ≠ "" ∧ part.key ≠ normalizeChunkText (String.ofList (joinLines (given sec.title))) := by
  have hmore := words_ne_title hsec hentry hempty hpart
  constructor
  · intro hkey
    have hnone : words isSpace part.text = [] := by
      rw [← words_normalizeChunkText part.text, ← Part.key, hkey]
      rfl
    rw [hnone] at hmore
    exact absurd hmore (Nat.not_lt_zero _)
  · intro hkey
    rw [words_of_key_eq hkey] at hmore
    exact absurd hmore (lt_irrefl _)

theorem Chunked.chunkParts (hsec : SolidSection sec) (hentry : entry ∈ sec.entries)
    (hempty : entry.isEmpty = false) {rest : List Part} (hrest : ∀ part ∈ rest, part ∈ entryParts sec entry)
    (hclean : ∀ part ∈ rest, redactText (String.ofList part.text) = String.ofList part.text)
    (h : Chunked parts chunking)
    (hrun : chunkParts tools redactText documentName sec entry chunking number (rest.map Part.text) =
      .ok chunking') : Chunked (parts ++ rest) chunking' := by
  induction rest generalizing parts chunking number with
  | nil =>
      obtain rfl := Except.ok.inj hrun
      rwa [List.append_nil]
  | cons part rest ih =>
      obtain ⟨next, hstep, hrun⟩ := bind_eq_ok hrun
      obtain ⟨hkey, htitle⟩ := part_says hsec hentry hempty (hrest part List.mem_cons_self)
      have hnext := h.step (hclean part List.mem_cons_self) hkey htitle hstep
      have hall := ih (fun p hp => hrest p (List.mem_cons_of_mem _ hp))
        (fun p hp => hclean p (List.mem_cons_of_mem _ hp)) hnext hrun
      rwa [List.append_assoc, List.singleton_append] at hall

theorem Chunked.chunkEntries (hsec : SolidSection sec) {entries : List Entry}
    (hentries : ∀ entry ∈ entries, entry ∈ sec.entries)
    (hclean : ∀ entry ∈ entries, ∀ part ∈ entryParts sec entry,
      redactText (String.ofList part.text) = String.ofList part.text)
    (h : Chunked parts chunking)
    (hrun : chunkEntries tools redactText documentName sec chunking entries = .ok chunking') :
    Chunked (parts ++ (entries.filter fun entry => !entry.isEmpty).flatMap (entryParts sec)) chunking' := by
  induction entries generalizing parts chunking with
  | nil =>
      obtain rfl := Except.ok.inj hrun
      simpa using h
  | cons entry entries ih =>
      have hrest := fun e (he : e ∈ entries) => hentries e (List.mem_cons_of_mem _ he)
      have hcleans := fun e (he : e ∈ entries) => hclean e (List.mem_cons_of_mem _ he)
      obtain ⟨next, hstep, hrun⟩ := bind_eq_ok hrun
      unfold chunkEntry at hstep
      cases hempty : entry.isEmpty with
      | true =>
          rw [if_pos hempty] at hstep
          obtain rfl := Except.ok.inj hstep
          rw [List.filter_cons_of_neg (by simp [hempty])]
          exact ih hrest hcleans h hrun
      | false =>
          rw [if_neg (by simp [hempty]), parts_eq] at hstep
          have hnext := h.chunkParts hsec (hentries entry List.mem_cons_self) hempty
            (fun part hpart => hpart) (hclean entry List.mem_cons_self) hstep
          rw [List.filter_cons_of_pos (by simp [hempty]), List.flatMap_cons, ← List.append_assoc]
          exact ih hrest hcleans hnext hrun

theorem Chunked.chunkSections {sections : List ResumeSection} (hsolid : ∀ sec ∈ sections, SolidSection sec)
    (hclean : ∀ sec ∈ sections, ∀ entry ∈ sec.entries, ∀ part ∈ entryParts sec entry,
      redactText (String.ofList part.text) = String.ofList part.text)
    (h : Chunked parts chunking)
    (hrun : chunkSections tools redactText documentName chunking sections = .ok chunking') :
    Chunked (parts ++ documentParts sections) chunking' := by
  induction sections generalizing parts chunking with
  | nil =>
      obtain rfl := Except.ok.inj hrun
      simpa [documentParts] using h
  | cons sec sections ih =>
      obtain ⟨next, hstep, hrun⟩ := bind_eq_ok hrun
      have hnext := h.chunkEntries (hsolid sec List.mem_cons_self) (fun entry hentry => hentry)
        (hclean sec List.mem_cons_self) hstep
      have hall := ih (fun s hs => hsolid s (List.mem_cons_of_mem _ hs))
        (fun s hs => hclean s (List.mem_cons_of_mem _ hs)) hnext hrun
      rwa [List.append_assoc] at hall

/-- Redaction finds nothing in the text: it leaves every part of it as it is. -/
def Uncredentialed (tools : LineTools) (redactText : RedactText) (text : String) : Prop :=
  ∀ sec ∈ parse tools text.toList, ∀ entry ∈ sec.entries, ∀ part ∈ entryParts sec entry,
    redactText (String.ofList part.text) = String.ofList part.text

/-- The chunks of a text are the parts that are the first with their key. -/
theorem chunkResume_chunked {text : String} (hclean : Uncredentialed tools redactText text)
    {chunks : List ResumeChunk} (h : chunkResume tools redactText documentName text = .ok chunks) :
    ∃ chunking, chunking.chunks = chunks ∧ Chunked (documentParts (parse tools text.toList)) chunking := by
  unfold chunkResume at h
  cases hrun : chunkSections tools redactText documentName ⟨[], []⟩ (parse tools text.toList) with
  | error error =>
      rw [hrun] at h
      cases h
  | ok chunking =>
      rw [hrun] at h
      refine ⟨chunking, Except.ok.inj h, ?_⟩
      have hstart : Chunked [] ⟨[], []⟩ := by
        refine ⟨by simp, fun before part after heq => ?_, by simp⟩
        exact absurd heq.symm (by simp)
      exact hstart.chunkSections (parse_solid tools text.toList) hclean hrun

end chunked

end PersonalOS.Resume
