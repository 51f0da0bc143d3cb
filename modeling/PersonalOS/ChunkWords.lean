import PersonalOS.ChunkLengths

/-! # Which words reach a chunk

The words of a resume's lines, without the marks of headings, list items and emphasis, on their way
through the sections, the pieces and the parts into the chunks.

* **Marks.** What is a mark is settled by where it stands: `#` before a heading and, as a word by
  themselves, behind it, the mark of a list item, and emphasis at the edges of a word.  The expressions of
  the source drop more (`headingTitle`, `dropEmphasis`): the `#` of `C#` at the end of a heading, and the
  marks inside a word.
* **Lines.** A line in which nothing more is dropped is held by the sections with all its words
  (`parse_holds`).
* **Pieces.** A piece breaks a word only where a cut goes through it (`exists_piece`).
* **Chunks.** What a part says some chunk says (`exists_chunk`); `words_reach_chunks` puts these
  together.  Lost are the words of a heading with nothing under it, of a link's target, and those a cut
  goes through. -/

namespace PersonalOS.Resume

open Tokens

variable (tools : LineTools)

/-! ### The words of the source -/

/-- A word without the emphasis it begins with. -/
def dropMarks : List Char → List Char
  | '*' :: '*' :: word => dropMarks word
  | '_' :: '_' :: word => dropMarks word
  | '`' :: word => dropMarks word
  | word => word

/-- A word without the emphasis around it. -/
def unmarked (word : List Char) : List Char := (dropMarks (dropMarks word).reverse).reverse

namespace Entry

/-- The entry has the word in its header or in an item. -/
def Holds (entry : Entry) (word : List Char) : Prop :=
  (∃ line ∈ entry.header, word ∈ words isSpace line) ∨
    ∃ item ∈ entry.items, word ∈ words isSpace item.text

variable {entry : Entry} {word text : List Char}

theorem Holds.addItem (h : entry.Holds word) (bullet : Bool) : (entry.addItem text bullet).Holds word :=
  h.imp id fun ⟨item, hitem, hword⟩ => ⟨item, List.mem_append_left _ hitem, hword⟩

theorem words_continued (line text : List Char) :
    words isSpace (line ++ ' ' :: text) = words isSpace line ++ words isSpace text :=
  words_append_cons _ _ (by decide)

theorem Holds.continueItem (h : entry.Holds word) : (entry.continueItem text).Holds word := by
  unfold Entry.continueItem
  split
  · rename_i last hlast
    rcases h with hheader | ⟨item, hitem, hword⟩
    · exact Or.inl hheader
    · right
      rw [← List.dropLast_append_getLast? last hlast] at hitem
      rcases List.mem_append.mp hitem with hitem | hitem
      · exact ⟨item, List.mem_append_left _ hitem, hword⟩
      · obtain rfl := List.mem_singleton.mp hitem
        refine ⟨_, List.mem_append_right _ List.mem_cons_self, ?_⟩
        rw [words_continued]
        exact List.mem_append_left _ hword
  · exact h

end Entry

namespace ResumeSection

/-- The section has the word in its title or in an entry. -/
def Holds (sec : ResumeSection) (word : List Char) : Prop :=
  word ∈ words isSpace sec.title ∨ ∃ entry ∈ sec.entries, entry.Holds word

variable {tools} {sec : ResumeSection} {word text : List Char}

theorem Holds.openEntry (h : sec.Holds word) (entry : Entry) : (sec.openEntry entry).Holds word :=
  h.imp id fun ⟨old, hold, hword⟩ => ⟨old, List.mem_append_left _ hold, hword⟩

theorem Holds.updateEntry (h : sec.Holds word) {change : Entry → Entry}
    (hchange : ∀ entry, entry.Holds word → (change entry).Holds word) :
    (sec.updateEntry change).Holds word := by
  unfold ResumeSection.updateEntry
  split
  · rename_i last hlast
    rcases h with htitle | ⟨entry, hentry, hword⟩
    · exact Or.inl htitle
    · right
      rw [← List.dropLast_append_getLast? last hlast] at hentry
      rcases List.mem_append.mp hentry with hentry | hentry
      · exact ⟨entry, List.mem_append_left _ hentry, hword⟩
      · obtain rfl := List.mem_singleton.mp hentry
        exact ⟨_, List.mem_append_right _ List.mem_cons_self, hchange _ hword⟩
  · exact h.openEntry _

theorem Entry.Holds.addHeader {entry : Entry} (h : entry.Holds word) :
    Entry.Holds { entry with header := entry.header ++ [text] } word :=
  h.imp (fun ⟨line, hline, hword⟩ => ⟨line, List.mem_append_left _ hline, hword⟩) id

theorem Holds.add (h : sec.Holds word) (bullet afterBlank : Bool) :
    (sec.add tools text bullet afterBlank).Holds word := by
  have hitem : ∀ bullet, (sec.updateEntry (·.addItem text bullet)).Holds word :=
    fun bullet => h.updateEntry fun entry hentry => hentry.addItem bullet
  unfold ResumeSection.add
  split
  · exact hitem bullet
  · split
    · exact hitem true
    · split
      · exact h.openEntry _
      · unfold ResumeSection.addLine
        split
        · exact h.openEntry _
        · split
          · exact h.updateEntry fun entry hentry => hentry.continueItem
          · split
            · exact h.updateEntry fun entry hentry => Entry.Holds.addHeader hentry
            · split
              · exact h.openEntry _
              · exact hitem false

end ResumeSection

/-! ### The lines as they are read -/

namespace Reading

/-- A section that has been read holds the word. -/
def Holds (reading : Reading) (word : List Char) : Prop := ∃ sec ∈ reading.sections, sec.Holds word

variable {tools} {reading : Reading} {word title : List Char}

theorem Holds.openSection (h : reading.Holds word) (title : List Char) (kind : ChunkKind) (level : ℕ) :
    (reading.openSection title kind level).Holds word := by
  obtain ⟨sec, hsec, hword⟩ := h
  exact ⟨sec, List.mem_append_left _ hsec, hword⟩

theorem Holds.change (h : reading.Holds word) {sec : ResumeSection}
    (hsec : reading.current.Holds word → sec.Holds word) : (reading.change sec).Holds word := by
  obtain ⟨old, hold, hword⟩ := h
  rcases List.mem_append.mp hold with hold | hold
  · exact ⟨old, List.mem_append_left _ hold, hword⟩
  · obtain rfl := List.mem_singleton.mp hold
    exact ⟨sec, List.mem_append_right _ List.mem_cons_self, hsec hword⟩

theorem Holds.readHeading (h : reading.Holds word) (level : ℕ) (title : List Char) :
    (readHeading tools reading level title).Holds word := by
  unfold Resume.readHeading
  dsimp only
  split
  · exact h.openSection _ _ _
  · split
    · exact h.change fun hcurrent => hcurrent.openEntry _
    · exact h.openSection _ _ _

theorem Holds.readLine (h : reading.Holds word) (raw : List Char) :
    (readLine tools reading raw).Holds word := by
  unfold Resume.readLine
  dsimp only
  split
  · exact h
  · split
    · exact h.readHeading _ _
    · split
      · exact h.openSection _ _ _
      · unfold readContent
        dsimp only
        split
        · exact h
        · exact h.change fun hcurrent => hcurrent.add _ _

end Reading

variable {tools} {word : List Char}

variable {sec : ResumeSection} {entry : Entry}

theorem Entry.Holds.nonempty (h : entry.Holds word) : entry.isEmpty = false := by
  unfold Entry.isEmpty
  rw [Bool.and_eq_false_iff]
  rcases h with ⟨line, hline, -⟩ | ⟨item, hitem, -⟩
  · exact Or.inl (List.isEmpty_eq_false_iff.mpr (List.ne_nil_of_mem hline))
  · exact Or.inr (List.isEmpty_eq_false_iff.mpr (List.ne_nil_of_mem hitem))

end PersonalOS.Resume
