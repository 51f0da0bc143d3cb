import PersonalOS.EvidenceStore
import Mathlib.Algebra.Ring.Nat
import Mathlib.Data.List.DropRight
import Mathlib.Data.List.Infix

/-! # Cutting a resume into chunks

`personalos.retrieval.resume_chunking`: the lines of a resume as sections with entries, and the chunks
that `chunk_resume` packs them into.

* **Lines.** The regular expressions of the module, each as a function on the characters of a stripped
  line.  What they and `str` take from the Unicode tables comes with `LineTools`.
* **Sections.** `parse` reads the lines one by one; the section that is open is the last one, and so is
  its entry.
* **Packing.** `cutPieces` cuts the items to the budget, `fill` puts the pieces together again, and a
  text is the prefix with one of the runs of pieces.
* **Chunks.** A chunk is a redacted text whose words have not been seen yet. -/

namespace PersonalOS.Resume

/-- Longest chunk, in characters, before it is split between bullets. -/
def maxChunkChars : ℕ := 1500

/-- Most chunks one document may produce. -/
def maxChunks : ℕ := 400

/-- What lines are read with. -/
structure LineTools where
  /-- `str.lower`. -/
  lower : List Char → List Char
  /-- `str.isupper`. -/
  isUpperText : List Char → Bool
  /-- `str.islower` of one character. -/
  isLower : Char → Bool
  /-- `\d`. -/
  isDigit : Char → Bool
  /-- `\w`. -/
  isWord : Char → Bool
  /-- A character is a letter up to its case, as `re.IGNORECASE` compares them. -/
  sameLetter : Char → Char → Bool

/-! ### Lines -/

/-- A run of `#` to the end, with whitespace around it. -/
def closesHeading (text : List Char) : Bool :=
  ((text.dropWhile isSpace).dropWhile (· == '#')).dropWhile isSpace |>.isEmpty

/-- The shortest beginning after which only closing marks come. -/
def headingTitle : List Char → List Char
  | [] => []
  | c :: text => if closesHeading text then [c] else c :: headingTitle text

/-- `_MD_HEADING`: one to six `#`, whitespace, and a title. -/
def mdHeading (line : List Char) : Option (ℕ × List Char) :=
  let marks := line.takeWhile (· == '#')
  let rest := line.drop marks.length
  if 1 ≤ marks.length ∧ marks.length ≤ 6 ∧ rest.head?.any isSpace then
    let title := headingTitle (rest.dropWhile isSpace)
    if title.isEmpty then none else some (marks.length, title)
  else none

def bulletMarks : List Char := ['-', '*', '+', '•', '·', '▪', '◦', '‣', '–', '—']

/-- What comes after the whitespace that has to follow a mark. -/
def afterMark (text : List Char) : Option (List Char) :=
  if text.head?.any isSpace then some (text.dropWhile isSpace) else none

/-- `_BULLET`: what follows the mark of a list item. -/
def bullet (tools : LineTools) : List Char → Option (List Char)
  | [] => none
  | c :: text =>
      if bulletMarks.contains c then afterMark text
      else if tools.isDigit c then
        match text with
        | [] => none
        | d :: text =>
            if d = '.' ∨ d = ')' then afterMark text
            else if tools.isDigit d then
              match text with
              | [] => none
              | e :: text => if e = '.' ∨ e = ')' then afterMark text else none
            else none
      else none

/-- The text begins with these letters, up to case. -/
def startsWith (tools : LineTools) : List Char → List Char → Bool
  | [], _ => true
  | _ :: _, [] => false
  | l :: letters, c :: text => tools.sameLetter c l && startsWith tools letters text

/-- A word ends here. -/
def endsWord (tools : LineTools) (text : List Char) : Bool := !text.head?.any tools.isWord

/-- A year or a word for today begins here. -/
def datedAt (tools : LineTools) (text : List Char) : Bool :=
  (decide (text.take 2 = ['1', '9']) || decide (text.take 2 = ['2', '0'])) &&
      decide (4 ≤ text.length) && ((text.drop 2).take 2).all tools.isDigit &&
      endsWord tools (text.drop 4) ||
    ["present".toList, "current".toList].any fun word =>
      startsWith tools word text && endsWord tools (text.drop word.length)

/-- `_DATED`, searched from where the character before is known. -/
def datedFrom (tools : LineTools) : Bool → List Char → Bool
  | _, [] => false
  | inWord, c :: text =>
      (!inWord && datedAt tools (c :: text)) || datedFrom tools (tools.isWord c) text

def dated (tools : LineTools) (text : List Char) : Bool := datedFrom tools false text

/-- `_MD_LINK` at a `[`, after it: the label, and what follows the link. -/
def linkAt (text : List Char) : Option (List Char × List Char) :=
  let label := text.takeWhile (· != ']')
  match label, text.drop label.length with
  | _ :: _, ']' :: '(' :: target =>
      match target.dropWhile (· != ')') with
      | ')' :: rest => some (label, rest)
      | _ => none
  | _, _ => none

/-- Every link replaced by its label; the fuel bounds the characters read. -/
def replaceLinks : ℕ → List Char → List Char
  | 0, text => text
  | _ + 1, [] => []
  | fuel + 1, c :: text =>
      if c = '[' then
        match linkAt text with
        | some (label, rest) => label ++ replaceLinks fuel rest
        | none => c :: replaceLinks fuel text
      else c :: replaceLinks fuel text

/-- `_MD_LINK.sub`. -/
def dropLinks (text : List Char) : List Char := replaceLinks text.length text

/-- `_MD_EMPHASIS.sub`. -/
def dropEmphasis : List Char → List Char
  | '*' :: '*' :: text => dropEmphasis text
  | '_' :: '_' :: text => dropEmphasis text
  | '`' :: text => dropEmphasis text
  | c :: text => c :: dropEmphasis text
  | [] => []

def cleanInline (text : List Char) : List Char := stripChars (dropEmphasis (dropLinks text))

/-! ### Headings -/

/-- A heading as letters, digits and single blanks. -/
def canonicalHeading (tools : LineTools) (text : List Char) : List Char :=
  let spelled := (tools.lower text).flatMap fun c => if c = '&' then " and ".toList else [c]
  let plain := spelled.map fun c =>
    if 'a' ≤ c ∧ c ≤ 'z' ∨ '0' ≤ c ∧ c ≤ '9' ∨ c = ' ' then c else ' '
  stripChars (collapseSpaces false plain)

/-- The words of a canonical heading. -/
def headingWords (canonical : List Char) : List (List Char) :=
  (canonical.splitOn ' ').filter fun word => !word.isEmpty

/-- Some phrase stands in the words. -/
def mentions (phrases : List (List String)) (words : List (List Char)) : Bool :=
  phrases.any fun phrase => decide (phrase.map String.toList <:+: words)

/-- Section headings that open a section wherever they appear. -/
def knownSections : List String :=
  ["summary", "professional summary", "profile", "professional profile", "about", "about me",
   "objective", "experience", "work experience", "professional experience", "relevant experience",
   "employment", "employment history", "work history", "career history", "projects",
   "personal projects", "selected projects", "side projects", "open source", "skills",
   "technical skills", "key skills", "core competencies", "technologies", "tools", "skills and tools",
   "education", "certifications", "certificates", "licenses and certifications", "publications",
   "awards", "honors", "honours", "volunteering", "volunteer experience", "leadership", "languages",
   "interests", "achievements", "patents", "talks", "courses", "training"]

def isKnownSection (canonical : List Char) : Bool := knownSections.any (·.toList == canonical)

/-- Which kind of chunk a section's content becomes, by its heading; the first match wins. -/
def sectionKinds : List (List (List String) × ChunkKind) :=
  [([["project"], ["projects"], ["portfolio"], ["open", "source"]], .project),
   ([["experience"], ["employment"], ["work", "history"], ["career", "history"], ["position"],
     ["positions"]], .role),
   ([["skill"], ["skills"], ["competency"], ["competencies"], ["technology"], ["technologies"],
     ["tools"], ["tech", "stack"]], .skills)]

/-- `_NOT_ROLES`: a word that begins with "volunteer". -/
def notRoles (words : List (List Char)) : Bool := words.any ("volunteer".toList.isPrefixOf ·)

def sectionKind (tools : LineTools) (title : List Char) : Option ChunkKind :=
  let words := headingWords (canonicalHeading tools title)
  (sectionKinds.find? fun kind => mentions kind.1 words).map fun kind =>
    if kind.2 = .role ∧ notRoles words then .wholeSection else kind.2

/-- `str.rstrip(":")`. -/
def rstripColons (line : List Char) : List Char := line.rdropWhile (· == ':')

/-- The section title, if this unmarked line is a section heading. -/
def plainHeading (tools : LineTools) (line : List Char) : Option (List Char) :=
  if (bullet tools line).isSome ∨ 40 < line.length then none
  else
    let title := stripChars (rstripColons line)
    let canonical := canonicalHeading tools title
    if canonical.isEmpty ∨ 5 < (headingWords canonical).length then none
    else if isKnownSection canonical then some title
    else if (line.getLast?.any (· == ':') || tools.isUpperText title) &&
        (sectionKind tools title).isSome then some title
    else none

/-- Runs of other characters than letters and digits become dashes. -/
def dashed : Bool → List Char → List Char
  | _, [] => []
  | inDash, c :: text =>
      if 'a' ≤ c ∧ c ≤ 'z' ∨ '0' ≤ c ∧ c ≤ '9' then c :: dashed false text
      else if inDash then dashed true text
      else '-' :: dashed true text

def slug (tools : LineTools) (text : List Char) : List Char :=
  let plain := ((dashed false (tools.lower text)).dropWhile (· == '-')).rdropWhile (· == '-')
  (plain.take 60).rdropWhile (· == '-')

/-! ### Sections -/

structure Item where
  text : List Char
  bullet : Bool
deriving DecidableEq, Repr

structure Entry where
  header : List (List Char)
  items : List Item
deriving DecidableEq, Repr

/-- `if text`. -/
def given (text : List Char) : List (List Char) := if text.isEmpty then [] else [text]

namespace Entry

def opened (header : List Char) : Entry := ⟨given header, []⟩

def isEmpty (entry : Entry) : Bool := entry.header.isEmpty && entry.items.isEmpty

def addItem (entry : Entry) (text : List Char) (bullet : Bool) : Entry :=
  { entry with items := entry.items ++ [⟨text, bullet⟩] }

/-- The last item continued on the next line. -/
def continueItem (entry : Entry) (text : List Char) : Entry :=
  match entry.items.getLast? with
  | some item =>
      { entry with items := entry.items.dropLast ++ [{ item with text := item.text ++ ' ' :: text }] }
  | none => entry

end Entry

structure ResumeSection where
  title : List Char
  kind : ChunkKind
  level : ℕ
  entries : List Entry
deriving DecidableEq, Repr

namespace ResumeSection

variable (tools : LineTools) (sec : ResumeSection)

def splitsEntries : Bool := sec.kind == .role || sec.kind == .project

def openEntry (entry : Entry) : ResumeSection := { sec with entries := sec.entries ++ [entry] }

/-- The open entry, or a new one, with a change made to it. -/
def updateEntry (change : Entry → Entry) : ResumeSection :=
  match sec.entries.getLast? with
  | some entry => { sec with entries := sec.entries.dropLast ++ [change entry] }
  | none => sec.openEntry (change ⟨[], []⟩)

/-- The position of a line under positions, when no list item: a new entry, or part of the open one. -/
def addLine (text : List Char) (afterBlank : Bool) (entry : Entry) : ResumeSection :=
  if dated tools text && (afterBlank || !entry.items.isEmpty && !text.head?.any tools.isLower) then
    sec.openEntry (.opened text)
  else if !afterBlank && entry.items.getLast?.any (·.bullet) then
    sec.updateEntry (·.continueItem text)
  else if entry.items.isEmpty && !afterBlank then
    sec.updateEntry fun entry => { entry with header := entry.header ++ [text] }
  else if afterBlank && decide (text.length ≤ 100) && !entry.items.isEmpty then
    sec.openEntry (.opened text)
  else sec.updateEntry (·.addItem text false)

def add (text : List Char) (bullet afterBlank : Bool) : ResumeSection :=
  if !sec.splitsEntries then sec.updateEntry (·.addItem text bullet)
  else if bullet then sec.updateEntry (·.addItem text true)
  else
    match sec.entries.getLast? with
    | none => sec.openEntry (.opened text)
    | some entry => sec.addLine tools text afterBlank entry

end ResumeSection

/-! ### Reading the lines -/

/-- The sections read so far, and whether the line before was blank. -/
structure Reading where
  done : List ResumeSection
  current : ResumeSection
  afterBlank : Bool
deriving DecidableEq, Repr

namespace Reading

def start : Reading := ⟨[], ⟨[], .wholeSection, 0, []⟩, false⟩

/-- A new section is opened. -/
def openSection (reading : Reading) (title : List Char) (kind : ChunkKind) (level : ℕ) : Reading :=
  ⟨reading.done ++ [reading.current], ⟨title, kind, level, []⟩, false⟩

/-- The open section, changed. -/
def change (reading : Reading) (sec : ResumeSection) : Reading := ⟨reading.done, sec, false⟩

def sections (reading : Reading) : List ResumeSection := reading.done ++ [reading.current]

end Reading

variable (tools : LineTools)

/-- A Markdown heading opens a section, or an entry of the section it stands in. -/
def readHeading (reading : Reading) (level : ℕ) (title : List Char) : Reading :=
  let kind := sectionKind tools title
  if isKnownSection (canonicalHeading tools title) ∨ kind.isSome then
    reading.openSection title (kind.getD .wholeSection) level
  else if reading.current.splitsEntries ∧ reading.current.level < level then
    reading.change (reading.current.openEntry (.opened title))
  else reading.openSection title .wholeSection level

/-- Any other line is content, of a list item or plain. -/
def readContent (reading : Reading) (line : List Char) : Reading :=
  let content := cleanInline ((bullet tools line).getD line)
  if content.isEmpty then { reading with afterBlank := false }
  else reading.change (reading.current.add tools content (bullet tools line).isSome reading.afterBlank)

/-- One line of the text. -/
def readLine (reading : Reading) (raw : List Char) : Reading :=
  let line := stripChars raw
  if line.isEmpty then { reading with afterBlank := true }
  else
    match mdHeading line with
    | some (level, title) => readHeading tools reading level (cleanInline title)
    | none =>
        match plainHeading tools line with
        | some title => reading.openSection title ((sectionKind tools title).getD .wholeSection) 0
        | none => readContent tools reading line

/-- The sections of a text. -/
def parse (text : List Char) : List ResumeSection :=
  ((text.splitOn '\n').foldl (readLine tools) .start).sections

/-! ### Packing -/

def render (item : Item) : List Char := if item.bullet then '-' :: ' ' :: item.text else item.text

/-- What the lines take, each with a newline. -/
def lineTotal (lines : List (List Char)) : ℕ := (lines.map fun line => line.length + 1).sum

/-- The characters left for content, never less than half a chunk. -/
def budgetOf (pre : List (List Char)) : ℕ := max (maxChunkChars - lineTotal pre) (maxChunkChars / 2)

theorem budgetOf_pos (pre : List (List Char)) : 0 < budgetOf pre :=
  lt_of_lt_of_le (by decide) (le_max_right _ _)

/-- `item.rfind(" ", 0, budget)`. -/
def lastBlank (budget : ℕ) (item : List Char) : Option ℕ :=
  ((item.take budget).reverse.findIdx? (· == ' ')).map fun i => (item.take budget).length - 1 - i

/-- Where an item is cut: at the last blank of the second half of the budget, if there is one. -/
def cutAt (budget : ℕ) (item : List Char) : ℕ :=
  match lastBlank budget item with
  | some cut => if budget / 2 < cut then cut else budget
  | none => budget

theorem cutAt_pos {budget : ℕ} (hbudget : 0 < budget) (item : List Char) : 0 < cutAt budget item := by
  unfold cutAt
  split
  · split
    · exact lt_of_le_of_lt (Nat.zero_le _) ‹_›
    · exact hbudget
  · exact hbudget

/-- `str.lstrip` and `str.rstrip`. -/
def lstrip (text : List Char) : List Char := text.dropWhile isSpace

def rstrip (text : List Char) : List Char := text.rdropWhile isSpace

theorem length_lstrip_le (text : List Char) : (lstrip text).length ≤ text.length :=
  (List.dropWhile_suffix _).length_le

/-- An item cut into pieces of at most the budget. -/
def cutPieces (budget : ℕ) (hbudget : 0 < budget) (item : List Char) : List (List Char) :=
  if budget < item.length then
    rstrip (item.take (cutAt budget item)) ::
      cutPieces budget hbudget (lstrip (item.drop (cutAt budget item)))
  else given item
termination_by item.length
decreasing_by
  have hpos := cutAt_pos hbudget item
  refine lt_of_le_of_lt (length_lstrip_le _) ?_
  rw [List.length_drop]
  omega

/-- Pieces put into runs of at most the budget, from a run that has been begun and its size. -/
def fill (budget : ℕ) : List (List Char) → ℕ → List (List Char) → List (List (List Char))
  | current, _, [] => if current.isEmpty then [] else [current]
  | current, size, piece :: pieces =>
      if !current.isEmpty && decide (budget < size + piece.length + 1) then
        current :: fill budget [piece] (piece.length + 1) pieces
      else fill budget (current ++ [piece]) (size + piece.length + 1) pieces

/-- `"\n".join`. -/
def joinLines (lines : List (List Char)) : List Char := ['\n'].intercalate lines

/-- The runs of pieces that the items are packed into. -/
def runsOf (pre items : List (List Char)) : List (List (List Char)) :=
  fill (budgetOf pre) [] 0 (items.flatMap (cutPieces (budgetOf pre) (budgetOf_pos pre)))

/-- The prefix with the items, as few texts as fit. -/
def pack (pre items : List (List Char)) : List (List Char) :=
  match runsOf pre items with
  | [] => if pre.isEmpty then [] else [joinLines pre]
  | runs => runs.map fun run => joinLines (pre ++ run)

/-! ### Chunks -/

namespace ResumeSection

variable (sec : ResumeSection) (entry : Entry)

/-- The lines every chunk of an entry begins with. -/
def prefixOf : List (List Char) := given sec.title ++ if sec.splitsEntries then entry.header else []

/-- What is packed under them. -/
def itemsOf : List (List Char) :=
  (if sec.splitsEntries then [] else entry.header) ++ entry.items.map render

def parts : List (List Char) := pack (sec.prefixOf entry) (sec.itemsOf entry)

/-- `str[:limit]` of what an entry is cited under. -/
def refOf (documentName : String) : List Char :=
  let sectionSlug := if sec.title.isEmpty then "header".toList else slug tools sec.title
  let base := documentName.toList ++ '#' ::
    (if sectionSlug.isEmpty then "section".toList else sectionSlug)
  match entry.header with
  | header :: _ =>
      if sec.splitsEntries then
        base ++ '/' :: (if (slug tools header).isEmpty then "entry".toList else slug tools header)
      else base
  | [] => base

end ResumeSection

/-- What `chunk_resume` refuses a document with. -/
inductive ChunkingError where
  | tooManyChunks (limit : ℕ)
deriving DecidableEq, Repr

/-- The chunks made so far and the texts they have, up to whitespace. -/
structure Chunking where
  chunks : List ResumeChunk
  seen : List String
deriving DecidableEq, Repr

variable (redactText : RedactText) (documentName : String)

/-- The chunk of one part of an entry. -/
def chunkOf (sec : ResumeSection) (entry : Entry) (number : ℕ) (body : String) : ResumeChunk where
  kind := sec.kind
  sourceRef :=
    let suffix := if 1 < (sec.parts entry).length then '~' :: (toString number).toList else []
    String.ofList ((sec.refOf tools entry documentName ++ suffix).take 255)
  text := body

/-- One part, with its number among the parts of its entry. -/
def chunkPart (sec : ResumeSection) (entry : Entry) (chunking : Chunking) (number : ℕ)
    (part : List Char) : Except ChunkingError Chunking :=
  let body := redactText (String.ofList part)
  let key := normalizeChunkText body
  if key = "" ∨ key = normalizeChunkText (String.ofList (joinLines (given sec.title))) ∨
      key ∈ chunking.seen then .ok chunking
  else
    let chunks := chunking.chunks ++ [chunkOf tools documentName sec entry number body]
    if maxChunks < chunks.length then .error (.tooManyChunks maxChunks)
    else .ok ⟨chunks, chunking.seen ++ [key]⟩

def chunkParts (sec : ResumeSection) (entry : Entry) :
    Chunking → ℕ → List (List Char) → Except ChunkingError Chunking
  | chunking, _, [] => .ok chunking
  | chunking, number, part :: parts => do
      let chunking ← chunkPart tools redactText documentName sec entry chunking number part
      chunkParts sec entry chunking (number + 1) parts

/-- An entry that holds nothing is passed over. -/
def chunkEntry (sec : ResumeSection) (chunking : Chunking) (entry : Entry) : Except ChunkingError Chunking :=
  if entry.isEmpty then .ok chunking
  else chunkParts tools redactText documentName sec entry chunking 1 (sec.parts entry)

def chunkEntries (sec : ResumeSection) :
    Chunking → List Entry → Except ChunkingError Chunking
  | chunking, [] => .ok chunking
  | chunking, entry :: entries => do
      let chunking ← chunkEntry tools redactText documentName sec chunking entry
      chunkEntries sec chunking entries

def chunkSections : Chunking → List ResumeSection → Except ChunkingError Chunking
  | chunking, [] => .ok chunking
  | chunking, sec :: sections => do
      let chunking ← chunkEntries tools redactText documentName sec chunking sec.entries
      chunkSections chunking sections

/-- Cut a resume's text into labelled chunks, in document order. -/
def chunkResume (text : String) : Except ChunkingError (List ResumeChunk) :=
  (chunkSections tools redactText documentName ⟨[], []⟩ (parse tools text.toList)).map (·.chunks)

end PersonalOS.Resume
