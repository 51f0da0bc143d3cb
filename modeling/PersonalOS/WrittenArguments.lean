import PersonalOS.ErrorRoundTrips

/-! # What is read from the arguments of an exception

An exception outside the taxonomy is written as its arguments, and the mark of a context id and fields are
looked for in what is written.  What is found there is told by the characters of the arguments.

* **Symbols.** Each character of an argument is written as itself or as an escape, between the quotes and
  commas that `repr` puts in (`written_symbolsOf`).
* **Marks.** The mark counts at its first place where no word stands before it (`headOf_of_firstMark`).
* **Fields.** A search from left to right reads a field behind every word and equals sign that a quote
  follows which comes again, and goes on behind it (`assignments_of_read`); its value is made of the
  characters in between (`value_found`).
* **Other exceptions.** `parse_other_iff` says when nothing is read from an exception, and
  `stored_errors_true_iff` what is read from all errors. -/

namespace PersonalOS.Failures

open StringLiterals

variable {tools : ReprTools}

/-! ### Symbols -/

/-- A character and what it is written as. -/
structure Symbol where
  char : Char
  text : List Char

namespace Symbol

/-- The character is written as it is. -/
def plain (c : Char) : Symbol := ⟨c, [c]⟩

/-- The symbol is written as in a literal with quotes of one of the two kinds. -/
def Proper (tables : Tables) (symbol : Symbol) : Prop :=
  ∃ quote, IsQuote quote ∧ symbol.text = escape tables quote symbol.char

end Symbol

def writtenText (symbols : List Symbol) : List Char := symbols.flatMap Symbol.text

/-- An argument between its quotes. -/
def argumentSymbols (tables : Tables) (arg : List Char) : List Symbol :=
  .plain (quoteFor arg) ::
    (arg.map (fun c => ⟨c, escape tables (quoteFor arg) c⟩) ++ [.plain (quoteFor arg)])

/-- The arguments, with a comma and a blank after each but the last. -/
def symbolsOf (tables : Tables) (args : List (List Char)) : List Symbol :=
  [.plain ',', .plain ' '].intercalate (args.map (argumentSymbols tables))

@[simp] theorem writtenText_nil : writtenText [] = [] := rfl

@[simp] theorem writtenText_cons (symbol : Symbol) (symbols : List Symbol) :
    writtenText (symbol :: symbols) = symbol.text ++ writtenText symbols := rfl

@[simp] theorem writtenText_append (symbols symbols' : List Symbol) :
    writtenText (symbols ++ symbols') = writtenText symbols ++ writtenText symbols' :=
  List.flatMap_append

@[simp] theorem text_plain (c : Char) : (Symbol.plain c).text = [c] := rfl

theorem writtenText_argument (tables : Tables) (arg : List Char) :
    writtenText (argumentSymbols tables arg) = literal tables arg := by
  have hchars : writtenText (arg.map fun c => ⟨c, escape tables (quoteFor arg) c⟩) =
      escaped tables (quoteFor arg) arg := by
    rw [writtenText, List.flatMap_map]
    rfl
  rw [argumentSymbols, writtenText_cons, writtenText_append, hchars]
  rfl

theorem symbolsOf_singleton (tables : Tables) (arg : List Char) :
    symbolsOf tables [arg] = argumentSymbols tables arg := by
  simp [symbolsOf, List.intercalate]

theorem symbolsOf_cons_cons (tables : Tables) (arg next : List Char) (args : List (List Char)) :
    symbolsOf tables (arg :: next :: args) = argumentSymbols tables arg ++
      (.plain ',' :: .plain ' ' :: symbolsOf tables (next :: args)) := by
  simp [symbolsOf, List.intercalate]

/-- What the symbols are written as is what stands between the brackets of the exception. -/
theorem written_symbolsOf (tables : Tables) (args : List (List Char)) :
    writtenText (symbolsOf tables args) = [',', ' '].intercalate (args.map (literal tables)) := by
  induction args with
  | nil => rfl
  | cons arg args ih =>
      cases args with
      | nil =>
          rw [symbolsOf_singleton, writtenText_argument]
          simp [List.intercalate]
      | cons next args =>
          have hliterals : [',', ' '].intercalate ((arg :: next :: args).map (literal tables)) =
              literal tables arg ++ (',' :: ' ' ::
                [',', ' '].intercalate ((next :: args).map (literal tables))) := by
            simp [List.intercalate]
          rw [symbolsOf_cons_cons, hliterals, writtenText_append, writtenText_argument, writtenText_cons,
            writtenText_cons, ih]
          rfl

theorem proper_quote {tables : Tables} {quote : Char} (hquote : IsQuote quote) :
    (Symbol.plain quote).Proper tables := by
  rcases hquote with rfl | rfl
  · exact ⟨'"', Or.inr rfl, rfl⟩
  · exact ⟨'\'', Or.inl rfl, rfl⟩

theorem proper_symbolsOf (tables : Tables) (args : List (List Char)) :
    ∀ symbol ∈ symbolsOf tables args, symbol.Proper tables := by
  have hargument : ∀ arg, ∀ symbol ∈ argumentSymbols tables arg, symbol.Proper tables := by
    intro arg symbol hmem
    rcases List.mem_cons.mp hmem with rfl | hmem
    · exact proper_quote (isQuote_quoteFor arg)
    · rcases List.mem_append.mp hmem with hmem | hmem
      · obtain ⟨c, -, rfl⟩ := List.mem_map.mp hmem
        exact ⟨quoteFor arg, isQuote_quoteFor arg, rfl⟩
      · obtain rfl := List.mem_singleton.mp hmem
        exact proper_quote (isQuote_quoteFor arg)
  induction args with
  | nil => exact fun symbol hmem => absurd hmem List.not_mem_nil
  | cons arg args ih =>
      cases args with
      | nil =>
          rw [symbolsOf_singleton]
          exact hargument arg
      | cons next args =>
          rw [symbolsOf_cons_cons]
          intro symbol hmem
          rcases List.mem_append.mp hmem with hmem | hmem
          · exact hargument arg symbol hmem
          · rcases List.mem_cons.mp hmem with rfl | hmem
            · exact ⟨'\'', Or.inl rfl, rfl⟩
            · rcases List.mem_cons.mp hmem with rfl | hmem
              · exact ⟨'\'', Or.inl rfl, rfl⟩
              · exact ih symbol hmem

theorem Symbol.Proper.cases {symbol : Symbol} (h : symbol.Proper tools.tables) :
    (symbol = .plain symbol.char ∧ symbol.char ≠ '\\') ∨
    (∃ letter digits, symbol.text = '\\' :: letter :: digits ∧ letter ≠ 'c' ∧
      tools.isWord letter = true ∧ ∀ d ∈ digits, tools.isWord d = true) ∨
    ∃ letter, symbol.text = ['\\', letter] ∧ (letter = '\\' ∨ IsQuote letter) := by
  obtain ⟨quote, hquote, htext⟩ := h
  rcases escape_cases tools.tables quote symbol.char with
    ⟨hesc, hslash, -⟩ | ⟨letter, digits, hesc, hletter, hdigits, hone⟩
  · refine Or.inl ⟨?_, hslash⟩
    obtain ⟨c, text⟩ := symbol
    rw [hesc] at htext
    exact congrArg (Symbol.mk c) htext
  · rw [hesc] at htext
    refine Or.inr ?_
    by_cases hsingle : letter = '\\' ∨ IsQuote letter
    · right
      have hnot : letter.isAlphanum = false := by
        rcases hsingle with rfl | rfl | rfl <;> rfl
      rw [hone.resolve_right (by simp [hnot])] at htext
      exact ⟨letter, htext, hsingle⟩
    · left
      obtain ⟨hslash, hnoquote⟩ := not_or.mp hsingle
      have hmem := (hletter.resolve_left hslash).resolve_left fun h => hnoquote (h ▸ hquote)
      have hletters : ∀ l ∈ ['n', 'r', 't', 'x', 'u', 'U'], (l.isAlphanum && l != 'c') = true :=
        List.all_eq_true.mp (by decide)
      obtain ⟨halnum, hc⟩ := Bool.and_eq_true_iff.mp (hletters letter hmem)
      exact ⟨letter, digits, htext, bne_iff_ne.mp hc, isWord_of_alphanum halnum,
        fun d hd => isWord_of_alphanum (hdigits d hd)⟩

/-! ### Marks -/

/-- The word that what is written ends with. -/
def lastWord (tools : ReprTools) (symbols : List Symbol) : List Char :=
  (writtenText symbols).rtakeWhile tools.isWord

/-- The mark of the context id stands behind these symbols, and not inside a word. -/
structure MarkAt (tools : ReprTools) (symbols before : List Symbol) : Prop where
  split : ∃ after, symbols = before ++ (contextMark.map .plain ++ after)
  boundary : lastWord tools before = []

/-- The first mark stands behind these symbols. -/
structure FirstMark (tools : ReprTools) (symbols before : List Symbol) : Prop where
  mark : MarkAt tools symbols before
  first : ∀ other, MarkAt tools symbols other → before.length ≤ other.length

theorem rtakeWhile_append_cons {α : Type} {p : α → Bool} {front word : List α} {a : α} (ha : p a = false)
    (hword : ∀ d ∈ word, p d = true) : (front ++ a :: word).rtakeWhile p = word := by
  induction word using List.reverseRecOn with
  | nil => exact List.rtakeWhile_concat_neg _ _ _ (by simp [ha])
  | append_singleton word d ih =>
      have hsplit : front ++ a :: (word ++ [d]) = (front ++ a :: word) ++ [d] := by simp
      rw [hsplit, List.rtakeWhile_concat_pos _ _ _ (hword d (by simp)),
        ih fun e he => hword e (List.mem_append_left _ he)]

theorem lastWord_concat (symbols : List Symbol) (symbol : Symbol) :
    lastWord tools (symbols ++ [symbol]) =
      (writtenText symbols ++ symbol.text).rtakeWhile tools.isWord := by
  rw [lastWord, writtenText_append, writtenText_cons, writtenText_nil, List.append_nil]

theorem lastWord_plain (symbols : List Symbol) (c : Char) : lastWord tools (symbols ++ [.plain c]) =
    if tools.isWord c then lastWord tools symbols ++ [c] else [] := by
  rw [lastWord_concat, text_plain, List.rtakeWhile_concat]
  rfl

theorem lastWord_pair {symbols : List Symbol} {symbol : Symbol} {c d : Char} (hword : tools.isWord d = false)
    (htext : symbol.text = [c, d]) : lastWord tools (symbols ++ [symbol]) = [] := by
  have hsplit : writtenText symbols ++ [c, d] = (writtenText symbols ++ [c]) ++ [d] := by simp
  rw [lastWord_concat, htext, hsplit]
  exact List.rtakeWhile_concat_neg _ _ _ (by simp [hword])

theorem plain_of_isPrefixOf {mark : List Char} (hmark : '\\' ∉ mark) {symbols : List Symbol}
    (hproper : ∀ symbol ∈ symbols, symbol.Proper tools.tables)
    (h : mark.isPrefixOf (writtenText symbols) = true) :
    ∃ after, symbols = mark.map .plain ++ after := by
  induction mark generalizing symbols with
  | nil => exact ⟨symbols, rfl⟩
  | cons m mark ih =>
      obtain ⟨hm, hmark⟩ := not_or.mp (mt List.mem_cons.mpr hmark)
      cases symbols with
      | nil => cases h
      | cons symbol symbols =>
          rw [writtenText_cons] at h
          rcases (hproper symbol List.mem_cons_self).cases with
            ⟨hplain, -⟩ | ⟨letter, digits, htext, -⟩ | ⟨letter, htext, -⟩
          · rw [hplain, text_plain, List.singleton_append, List.isPrefixOf_cons_cons, Bool.and_eq_true] at h
            obtain ⟨after, hafter⟩ := ih hmark (fun s hs => hproper s (List.mem_cons_of_mem _ hs)) h.2
            refine ⟨after, ?_⟩
            rw [hplain, hafter, ← beq_iff_eq.mp h.1]
            rfl
          · rw [htext, List.cons_append, not_isPrefixOf_of_head (Ne.symm hm)] at h
            cases h
          · rw [htext, List.cons_append, not_isPrefixOf_of_head (Ne.symm hm)] at h
            cases h

theorem headOf_skip {skipped rest : List Symbol}
    (hproper : ∀ symbol ∈ skipped ++ rest, symbol.Proper tools.tables)
    (hnone : ∀ before, MarkAt tools (skipped ++ rest) before → skipped.length ≤ before.length) :
    headOf tools false (writtenText (skipped ++ rest)) =
      (headOf tools (!(lastWord tools skipped).isEmpty) (writtenText rest)).map (writtenText skipped ++ ·) := by
  induction skipped using List.reverseRecOn generalizing rest with
  | nil => simp [lastWord]
  | append_singleton skipped symbol ih =>
      rw [List.append_assoc, List.singleton_append] at hproper hnone ⊢
      have hlater : ∀ before, MarkAt tools (skipped ++ symbol :: rest) before →
          skipped.length ≤ before.length := by
        intro before hmark
        have hlength := hnone before hmark
        rw [List.length_append] at hlength
        omega
      rw [ih hproper hlater, writtenText_cons]
      have hsymbol : headOf tools (!(lastWord tools skipped).isEmpty) (symbol.text ++ writtenText rest) =
          (headOf tools (!(lastWord tools (skipped ++ [symbol])).isEmpty) (writtenText rest)).map
            (symbol.text ++ ·) := by
        rcases (hproper symbol (by simp)).cases with
          ⟨hplain, -⟩ | ⟨letter, digits, htext, hletter, hword, hdigits⟩ | ⟨letter, htext, hkind⟩
        · -- No mark begins at a symbol that is passed over.
          have hnomark : (!(!(lastWord tools skipped).isEmpty) &&
              contextMark.isPrefixOf (symbol.char :: writtenText rest)) = false := by
            by_contra hmark
            rw [Bool.not_eq_false, Bool.and_eq_true, Bool.not_not, List.isEmpty_iff] at hmark
            have hwritten : symbol.char :: writtenText rest = writtenText (symbol :: rest) := by
              rw [writtenText_cons, hplain]
              rfl
            rw [hwritten] at hmark
            obtain ⟨after, hafter⟩ := plain_of_isPrefixOf (by decide)
              (fun s hs => hproper s (List.mem_append_right _ hs)) hmark.2
            have hlength := hnone skipped ⟨⟨after, by rw [hafter]⟩, hmark.1⟩
            simp at hlength
          rw [hplain, text_plain, List.singleton_append, headOf_step hnomark, lastWord_plain]
          cases tools.isWord symbol.char with
          | true =>
              have hne : (lastWord tools skipped ++ [symbol.char]).isEmpty = false :=
                List.isEmpty_eq_false_iff.mpr (by simp)
              rw [if_pos rfl, hne]
              rfl
          | false => rfl
        · have hlast : lastWord tools (skipped ++ [symbol]) = letter :: digits := by
            rw [lastWord_concat, htext]
            exact rtakeWhile_append_cons rfl (List.forall_mem_cons.mpr ⟨hword, hdigits⟩)
          rw [hlast, htext, List.cons_append, List.cons_append, headOf_other (by decide),
            headOf_other hletter, hword, headOf_word hdigits, Option.map_map, Option.map_map]
          rfl
        · have hword : tools.isWord letter = false := by
            rcases hkind with rfl | hquote
            · rfl
            · exact isWord_quote hquote
          have hother : letter ≠ 'c' := by
            rcases hkind with rfl | rfl | rfl <;> decide
          rw [lastWord_pair hword htext, htext, List.cons_append, List.singleton_append, headOf_other (by decide),
            headOf_other hother, hword, Option.map_map]
          rfl
      rw [hsymbol, Option.map_map, writtenText_append]
      congr 1
      funext head
      simp

/-- What comes before the first mark is found. -/
theorem headOf_of_firstMark {symbols before : List Symbol}
    (hproper : ∀ symbol ∈ symbols, symbol.Proper tools.tables) (h : FirstMark tools symbols before) :
    headOf tools false (writtenText symbols) = some (writtenText before) := by
  obtain ⟨⟨⟨after, rfl⟩, hboundary⟩, hfirst⟩ := h
  rw [headOf_skip hproper hfirst, hboundary, writtenText_append]
  have hmark : writtenText (contextMark.map .plain) = contextMark := rfl
  have hcons : contextMark ++ writtenText after = 'c' :: ("ontext_id=".toList ++ writtenText after) := rfl
  rw [hmark, hcons, headOf, ← hcons,
    if_pos (by simp [List.isPrefixOf_iff_prefix.mpr (List.prefix_append contextMark (writtenText after))])]
  simp

theorem headOf_of_unmarked {symbols : List Symbol}
    (hproper : ∀ symbol ∈ symbols, symbol.Proper tools.tables)
    (h : ∀ before, ¬MarkAt tools symbols before) : headOf tools false (writtenText symbols) = none := by
  have hskip : headOf tools false (writtenText (symbols ++ [])) = _ :=
    headOf_skip (by simpa using hproper) fun before hmark => absurd (by simpa using hmark) (h before)
  rw [List.append_nil] at hskip
  rw [hskip]
  rfl

theorem FirstMark.unique {symbols before before' : List Symbol} (h : FirstMark tools symbols before)
    (h' : FirstMark tools symbols before') : before = before' := by
  obtain ⟨after, hsplit⟩ := h.mark.split
  obtain ⟨after', hsplit'⟩ := h'.mark.split
  exact (List.append_inj (hsplit.symm.trans hsplit')
    (le_antisymm (h.first before' h'.mark) (h'.first before h.mark))).1

theorem exists_firstMark {symbols before : List Symbol} (h : MarkAt tools symbols before) :
    ∃ before, FirstMark tools symbols before := by
  classical
  have hlengths : ∃ n before, MarkAt tools symbols before ∧ before.length = n := ⟨_, before, h, rfl⟩
  obtain ⟨before, hmark, hlength⟩ := Nat.find_spec hlengths
  exact ⟨before, hmark, fun other hother => hlength ▸ Nat.find_min' hlengths ⟨other, hother, rfl⟩⟩

/-! ### Fields -/

/-- What is read between two quotes behind a name. -/
structure Field where
  name : List Char
  quote : Char
  content : List Symbol

namespace Field

/-- The characters that the value is made of. -/
def value (field : Field) : List Char := field.content.map Symbol.char

/-- The field as `_FIELD` matches it. -/
def found (field : Field) : Assignment := ⟨field.name, field.quote, writtenText field.content⟩

end Field

/-- A field stands behind these symbols, and these come after it: an equals sign behind a word, a quote
that is written as it is, and the next such quote. -/
structure FieldAt (tools : ReprTools) (symbols before : List Symbol) (field : Field)
    (after : List Symbol) : Prop where
  split : symbols = before ++ .plain '=' :: .plain field.quote ::
    (field.content ++ .plain field.quote :: after)
  quote : IsQuote field.quote
  content : .plain field.quote ∉ field.content
  name : field.name = lastWord tools before
  named : field.name ≠ []

/-- What a search from left to right reads. -/
inductive FieldsRead (tools : ReprTools) : List Symbol → List Field → Prop
  | nothing {symbols : List Symbol} (h : ∀ before field after, ¬FieldAt tools symbols before field after) :
      FieldsRead tools symbols []
  | field {symbols before after : List Symbol} {field : Field} {fields : List Field}
      (h : FieldAt tools symbols before field after)
      (first : ∀ before' field' after', FieldAt tools symbols before' field' after' →
        before.length ≤ before'.length)
      (rest : FieldsRead tools after fields) : FieldsRead tools symbols (field :: fields)

theorem eq_plain_of_text {symbol : Symbol} (h : symbol.Proper tools.tables) {c : Char}
    (htext : symbol.text = [c]) : symbol = .plain c := by
  rcases h.cases with ⟨hplain, -⟩ | ⟨letter, digits, hesc, -⟩ | ⟨letter, hesc, -⟩
  · rw [hplain, text_plain] at htext
    rw [hplain, (List.cons.inj htext).1]
  · rw [hesc] at htext
    cases htext
  · rw [hesc] at htext
    cases htext

theorem close_written {multiline : Bool} {quote : Char} (hquote : IsQuote quote) {content : List Symbol}
    (hproper : ∀ symbol ∈ content, symbol.Proper tools.tables) (hnone : .plain quote ∉ content)
    (rest : List Char) : close multiline quote (writtenText content ++ rest) =
      (close multiline quote rest).map fun closed => (writtenText content ++ closed.1, closed.2) := by
  induction content with
  | nil => simp
  | cons symbol content ih =>
      obtain ⟨hsymbol, hnone⟩ := not_or.mp (mt List.mem_cons.mpr hnone)
      obtain ⟨own, hown, htext⟩ := hproper symbol List.mem_cons_self
      have hpass : symbol.char ≠ quote ∨ quote = own := by
        by_contra hboth
        obtain ⟨hchar, hne⟩ := not_or.mp hboth
        rw [not_not.mp hchar, escape_other hown hquote hne] at htext
        exact hsymbol (eq_plain_of_text (hproper symbol List.mem_cons_self) htext).symm
      rw [writtenText_cons, List.append_assoc, htext, close_escape hown hquote hpass,
        ih (fun s hs => hproper s (List.mem_cons_of_mem _ hs)) hnone, Option.map_map]
      congr 1
      funext closed
      simp

theorem quotedAt_written {symbols : List Symbol} (hproper : ∀ symbol ∈ symbols, symbol.Proper tools.tables)
    {found : Char × List Char × List Char} (h : quotedAt false (writtenText symbols) = some found) :
    ∃ quote content after, symbols = .plain quote :: (content ++ .plain quote :: after) ∧ IsQuote quote ∧
      .plain quote ∉ content := by
  cases symbols with
  | nil => cases h
  | cons symbol symbols =>
      rw [writtenText_cons] at h
      have hrest := fun s hs => hproper s (List.mem_cons_of_mem _ hs)
      rcases (hproper symbol List.mem_cons_self).cases with
        ⟨hplain, -⟩ | ⟨letter, digits, htext, -⟩ | ⟨letter, htext, -⟩
      · rw [hplain, text_plain, List.singleton_append, quotedAt] at h
        split at h
        · rename_i hquote
          obtain ⟨closed, hclosed, -⟩ := Option.map_eq_some_iff.mp h
          by_cases hmem : Symbol.plain symbol.char ∈ symbols
          · obtain ⟨content, after, rfl, hnone⟩ := List.eq_append_cons_of_mem hmem
            exact ⟨symbol.char, content, after, by rw [← hplain], hquote, hnone⟩
          · have hopen : close false symbol.char (writtenText symbols ++ []) = _ :=
              close_written hquote hrest hmem []
            rw [List.append_nil, hclosed] at hopen
            cases hopen
        · cases h
      · rw [htext] at h
        cases h
      · rw [htext] at h
        cases h

theorem assignments_skip {skipped rest : List Symbol}
    (hproper : ∀ symbol ∈ skipped ++ rest, symbol.Proper tools.tables)
    (hnone : ∀ before field after, FieldAt tools (skipped ++ rest) before field after →
      skipped.length ≤ before.length) :
    assignments tools [] (writtenText (skipped ++ rest)) =
      assignments tools (lastWord tools skipped) (writtenText rest) := by
  induction skipped using List.reverseRecOn generalizing rest with
  | nil => rfl
  | append_singleton skipped symbol ih =>
      rw [List.append_assoc, List.singleton_append] at hproper hnone ⊢
      rw [ih hproper fun before field after hfield => by
        have hlength := hnone before field after hfield
        rw [List.length_append] at hlength
        omega]
      rw [writtenText_cons]
      rcases (hproper symbol (by simp)).cases with
        ⟨hplain, -⟩ | ⟨letter, digits, htext, -, hword, hdigits⟩ | ⟨letter, htext, hkind⟩
      · rw [hplain, text_plain, List.singleton_append, lastWord_plain]
        cases hword : tools.isWord symbol.char with
        | true => rw [assignments, if_pos hword, if_pos rfl]
        | false =>
            rw [if_neg (by simp)]
            by_cases hsign : symbol.char = '='
            · rw [hsign]
              refine assignments_unquoted ?_
              by_contra hboth
              obtain ⟨hnamed, hquoted⟩ := not_or.mp hboth
              obtain ⟨found, hfound⟩ := Option.ne_none_iff_exists'.mp hquoted
              obtain ⟨quote, content, after, hrest, hquote, hcontent⟩ := quotedAt_written
                (fun s hs => hproper s (List.mem_append_right _ (List.mem_cons_of_mem _ hs))) hfound
              -- A field would begin at a symbol that is passed over.
              have hlength := hnone skipped ⟨lastWord tools skipped, quote, content⟩ after
                ⟨by rw [hplain, hsign, hrest], hquote, hcontent, rfl, hnamed⟩
              simp at hlength
            · exact assignments_other hword hsign
      · have hlast : lastWord tools (skipped ++ [symbol]) = letter :: digits := by
          rw [lastWord_concat, htext]
          exact rtakeWhile_append_cons rfl (List.forall_mem_cons.mpr ⟨hword, hdigits⟩)
        rw [hlast, htext, List.cons_append, assignments_other rfl (by decide),
          assignments_word (List.forall_mem_cons.mpr ⟨hword, hdigits⟩), List.nil_append]
      · have hword : tools.isWord letter = false := by
          rcases hkind with rfl | hquote
          · rfl
          · exact isWord_quote hquote
        have hother : letter ≠ '=' := by
          rcases hkind with rfl | rfl | rfl <;> decide
        rw [lastWord_pair hword htext, htext, List.cons_append, List.singleton_append,
          assignments_other rfl (by decide), assignments_other hword hother]

/-- What the search reads is what `findall` finds. -/
theorem assignments_of_read {symbols : List Symbol} {fields : List Field}
    (hproper : ∀ symbol ∈ symbols, symbol.Proper tools.tables) (h : FieldsRead tools symbols fields) :
    assignments tools [] (writtenText symbols) = fields.map Field.found := by
  induction h with
  | @nothing symbols h =>
      have hskip : assignments tools [] (writtenText (symbols ++ [])) = _ :=
        assignments_skip (by simpa using hproper) fun before field after hfield =>
          absurd (by simpa using hfield) (h before field after)
      rw [List.append_nil] at hskip
      rw [hskip, writtenText_nil, assignments]
      rfl
  | @field symbols before after field fields h first rest ih =>
      obtain ⟨rfl, hquote, hcontent, hname, hnamed⟩ := h
      have hafter := fun s hs => hproper s (List.mem_append_right _
        (List.mem_cons_of_mem _ (List.mem_cons_of_mem _ (List.mem_append_right _
          (List.mem_cons_of_mem _ hs)))))
      have hinside := fun s hs => hproper s (List.mem_append_right _
        (List.mem_cons_of_mem _ (List.mem_cons_of_mem _ (List.mem_append_left _ hs))))
      have hquoted : quotedAt false (writtenText (.plain field.quote ::
          (field.content ++ .plain field.quote :: after))) =
          some (field.quote, writtenText field.content, writtenText after) := by
        rw [writtenText_cons, writtenText_append, writtenText_cons, text_plain,
          List.singleton_append, List.singleton_append, quotedAt_quote hquote,
          close_written hquote hinside hcontent, close_quote]
        simp
      rw [assignments_skip hproper first, ← hname, writtenText_cons, text_plain, List.singleton_append,
        assignments_quoted hnamed hquoted, ih hafter]
      rfl

theorem exists_fieldsRead (tools : ReprTools) (symbols : List Symbol) :
    ∃ fields, FieldsRead tools symbols fields := by
  classical
  induction hlen : symbols.length using Nat.strong_induction_on generalizing symbols with
  | _ n ih =>
      by_cases hany : ∃ length before field after, FieldAt tools symbols before field after ∧
          before.length = length
      · obtain ⟨before, field, after, hfield, hlength⟩ := Nat.find_spec hany
        have hshorter : after.length < n := by
          rw [← hlen, hfield.split]
          simp only [List.length_append, List.length_cons]
          omega
        obtain ⟨fields, hfields⟩ := ih after.length hshorter after rfl
        exact ⟨field :: fields, .field hfield (fun before' field' after' h => hlength ▸
          Nat.find_min' hany ⟨before', field', after', h, rfl⟩) hfields⟩
      · exact ⟨[], .nothing fun before field after hfield => hany ⟨_, before, field, after, hfield, rfl⟩⟩

theorem mem_of_fieldsRead {symbols : List Symbol} {fields : List Field}
    (h : FieldsRead tools symbols fields) :
    ∀ field ∈ fields, ∀ symbol ∈ field.content, symbol ∈ symbols := by
  induction h with
  | nothing => exact fun field hmem => absurd hmem List.not_mem_nil
  | @field symbols before after field fields h first rest ih =>
      intro other hmem symbol hsymbol
      rw [h.split]
      rcases List.mem_cons.mp hmem with rfl | hmem
      · simp [hsymbol]
      · simp [ih other hmem symbol hsymbol]

/-- The value that is read is made of the characters between the quotes. -/
theorem value_found {field : Field} (hproper : ∀ symbol ∈ field.content, symbol.Proper tools.tables) :
    field.found.value tools = field.value := by
  have hread : ∀ content : List Symbol, (∀ symbol ∈ content, symbol.Proper tools.tables) →
      unescape tools.tables (writtenText content) = some (content.map Symbol.char) := by
    intro content hcontent
    induction content with
    | nil => rfl
    | cons symbol content ih =>
        obtain ⟨quote, hquote, htext⟩ := hcontent symbol List.mem_cons_self
        have hrest := ih fun s hs => hcontent s (List.mem_cons_of_mem _ hs)
        unfold unescape at hrest
        rw [unescape, writtenText_cons, htext, read_escape hquote, hrest]
        rfl
  rw [Assignment.value, literalValue, Field.found, hread _ hproper]
  rfl

/-- The last field of a name has this value. -/
def LastValue (fields : List Field) (name value : List Char) : Prop :=
  ∃ earlier field later, fields = earlier ++ field :: later ∧ field.name = name ∧
    (∀ other ∈ later, other.name ≠ name) ∧ field.value = value

theorem lastOf_found {fields : List Field}
    (hproper : ∀ field ∈ fields, ∀ symbol ∈ field.content, symbol.Proper tools.tables)
    {name value : List Char} :
    lastOf tools name (fields.map Field.found) = some value ↔ LastValue fields name value := by
  unfold lastOf LastValue
  rw [← List.map_reverse, List.find?_map, Option.map_map]
  constructor
  · intro h
    obtain ⟨field, hfind, hvalue⟩ := Option.map_eq_some_iff.mp h
    obtain ⟨hname, later, earlier, hsplit, hlater⟩ := List.find?_eq_some_iff_append.mp hfind
    have hfields : fields = earlier.reverse ++ field :: later.reverse := by
      rw [← List.reverse_reverse fields, hsplit]
      simp
    refine ⟨earlier.reverse, field, later.reverse, hfields, by simpa [Field.found] using hname, ?_, ?_⟩
    · intro other hother
      simpa [Field.found] using hlater other (List.mem_reverse.mp hother)
    · rw [← hvalue]
      exact (value_found (hproper field (hfields ▸ by simp))).symm
  · rintro ⟨earlier, field, later, rfl, rfl, hlater, rfl⟩
    have hfind : (earlier ++ field :: later).reverse.find? ((fun a => a.key == field.name) ∘ Field.found) =
        some field := by
      refine List.find?_eq_some_iff_append.mpr ⟨by simp [Field.found], later.reverse, earlier.reverse,
        by simp, fun other hother => ?_⟩
      simpa [Field.found] using hlater other (List.mem_reverse.mp hother)
    rw [hfind]
    exact congrArg some (value_found (hproper field (by simp)))

theorem failureClassOf_eq_none {value : List Char} :
    failureClassOf value = none ↔ ∀ failureClass, value ≠ classValue failureClass := by
  rw [failureClassOf, List.find?_eq_none]
  constructor
  · intro h failureClass heq
    exact h failureClass (by cases failureClass <;> decide) (by simp [heq])
  · intro h failureClass _ heq
    exact h failureClass (beq_iff_eq.mp heq).symm

/-! ### Other exceptions -/

/-- Nothing but the type and the message was read. -/
structure StoredError.Unclassed (error : StoredError) : Prop where
  failureClass : error.failureClass = none
  code : error.code = none
  provider : error.provider = none
  reason : error.reason = none

theorem classify_of_unclassed {error : StoredError} (h : error.Unclassed) :
    classify error = classByType error.errorType := by
  rw [classify, h.failureClass, h.code]
  rfl

namespace OtherException

variable (error : OtherException tools)

/-- The fields that stand before the first mark of a context id in the arguments: none of them is a code,
a provider or a reason, and the value of the last failure class is no class. -/
structure Silent (fields : List Field) : Prop where
  unnamed : ∀ field ∈ fields, field.name ∉ ["code", "provider", "reason"].map String.toList
  unclassed : ∀ value, LastValue fields "failure_class".toList value →
    ∀ failureClass, value ≠ classValue failureClass

/-- Nothing of the taxonomy is forged in the arguments. -/
def Unforged : Prop :=
  error.typeName.Readable → ∀ before, FirstMark tools (symbolsOf tools.tables error.args) before →
    ∀ fields, FieldsRead tools before fields → Silent fields

theorem headOf_args {args : List (List Char)} (h : ∀ arg ∈ args, ¬Marked tools arg) :
    headOf tools false ([',', ' '].intercalate (args.map (literal tools.tables))) = none := by
  induction args with
  | nil => rfl
  | cons arg args ih =>
      obtain ⟨-, hliteral⟩ := (headOf_literal arg).resolve_left fun hm => h arg List.mem_cons_self hm.1
      have hrest := ih fun a ha => h a (List.mem_cons_of_mem _ ha)
      cases args with
      | nil =>
          have hone : [',', ' '].intercalate ([arg].map (literal tools.tables)) =
              literal tools.tables arg ++ [] := by simp [List.intercalate]
          rw [hone, hliteral]
          rfl
      | cons next args =>
          have hcons : [',', ' '].intercalate ((arg :: next :: args).map (literal tools.tables)) =
              literal tools.tables arg ++ ',' :: ' ' ::
                [',', ' '].intercalate ((next :: args).map (literal tools.tables)) := by
            simp [List.intercalate]
          have hspace : tools.isWord ' ' = false := rfl
          rw [hcons, hliteral, headOf_other (by decide), headOf_other (by decide), hspace, hrest]
          rfl

theorem firstMark_head {before : List Symbol}
    (h : FirstMark tools (symbolsOf tools.tables error.args) before) :
    headOf tools false error.reprBody = some (writtenText before) := by
  rw [reprBody, ← written_symbolsOf]
  exact headOf_of_firstMark (proper_symbolsOf _ _) h

theorem unforged_of_unmarked (h : ∀ arg ∈ error.args, ¬Marked tools arg) : error.Unforged := by
  intro _ before hfirst
  have hhead := error.firstMark_head hfirst
  rw [reprBody, headOf_args h] at hhead
  cases hhead

theorem silent_iff {fields : List Field}
    (hproper : ∀ field ∈ fields, ∀ symbol ∈ field.content, symbol.Proper tools.tables) :
    Silent fields ↔
      (lastOf tools "failure_class".toList (fields.map Field.found)).bind failureClassOf = none ∧
      lastOf tools "code".toList (fields.map Field.found) = none ∧
      lastOf tools "provider".toList (fields.map Field.found) = none ∧
      lastOf tools "reason".toList (fields.map Field.found) = none := by
  have hnone : ∀ name, lastOf tools name (fields.map Field.found) = none ↔
      ∀ field ∈ fields, field.name ≠ name := by
    intro name
    rw [lastOf, Option.map_eq_none_iff, List.find?_eq_none]
    simp [Field.found]
  have hclass : (lastOf tools "failure_class".toList (fields.map Field.found)).bind failureClassOf = none ↔
      ∀ value, LastValue fields "failure_class".toList value →
        ∀ failureClass, value ≠ classValue failureClass := by
    rw [Option.bind_eq_none_iff]
    refine forall_congr' fun value => ?_
    rw [lastOf_found hproper, failureClassOf_eq_none]
  rw [hclass, hnone, hnone, hnone]
  constructor
  · rintro ⟨hunnamed, hunclassed⟩
    refine ⟨hunclassed, fun field hmem heq => ?_, fun field hmem heq => ?_, fun field hmem heq => ?_⟩
    · exact hunnamed field hmem (by simp [heq])
    · exact hunnamed field hmem (by simp [heq])
    · exact hunnamed field hmem (by simp [heq])
  · rintro ⟨hunclassed, hcode, hprovider, hreason⟩
    refine ⟨fun field hmem hname => ?_, hunclassed⟩
    simp only [List.map_cons, List.map_nil, List.mem_cons, List.not_mem_nil, or_false] at hname
    rcases hname with hname | hname | hname
    · exact hcode field hmem hname
    · exact hprovider field hmem hname
    · exact hreason field hmem hname

/-- Nothing is read from any other exception exactly when its arguments forge nothing. -/
theorem parse_other_iff : (parseStoredError tools error.repr).Unclassed ↔ error.Unforged := by
  have hproper := proper_symbolsOf tools.tables error.args
  rcases reprParts_eq error.typeName error.reprBody with ⟨hread, hparts⟩ | ⟨hread, hparts⟩
  · by_cases hmarked : ∃ before, MarkAt tools (symbolsOf tools.tables error.args) before
    · obtain ⟨marked, hmark⟩ := hmarked
      obtain ⟨before, hfirst⟩ := exists_firstMark hmark
      obtain ⟨fields, hfields⟩ := exists_fieldsRead tools before
      have hbefore : ∀ symbol ∈ before, symbol.Proper tools.tables := by
        obtain ⟨after, hsplit⟩ := hfirst.mark.split
        exact fun symbol hmem => hproper symbol (hsplit ▸ List.mem_append_left _ hmem)
      have hcontent : ∀ {fields}, FieldsRead tools before fields → ∀ field ∈ fields,
          ∀ symbol ∈ field.content, symbol.Proper tools.tables :=
        fun hread field hmem symbol hsymbol =>
          hbefore symbol (mem_of_fieldsRead hread field hmem symbol hsymbol)
      rw [parseStoredError, repr, hparts]
      dsimp only
      rw [error.firstMark_head hfirst]
      constructor
      · intro h _ before' hfirst' fields' hfields'
        obtain rfl := hfirst'.unique hfirst
        have hfound := assignments_of_read hbefore hfields'
        refine (silent_iff (hcontent hfields')).mpr ?_
        rw [← hfound]
        exact ⟨h.failureClass, h.code, h.provider, h.reason⟩
      · intro h
        obtain ⟨hclass, hcode, hprovider, hreason⟩ :=
          (silent_iff (hcontent hfields)).mp (h hread before hfirst fields hfields)
        rw [← assignments_of_read hbefore hfields] at hclass hcode hprovider hreason
        exact ⟨hclass, hcode, hprovider, hreason⟩
    · have hnone : headOf tools false error.reprBody = none := by
        rw [reprBody, ← written_symbolsOf]
        exact headOf_of_unmarked hproper fun before hmark => hmarked ⟨before, hmark⟩
      refine iff_of_true ?_ fun _ before hfirst => absurd ⟨before, hfirst.mark⟩ hmarked
      rw [parseStoredError, repr, hparts]
      dsimp only
      rw [hnone]
      exact ⟨rfl, rfl, rfl, rfl⟩
  · refine iff_of_true ?_ fun h => absurd h hread
    rw [parseStoredError, repr, hparts]
    exact ⟨rfl, rfl, rfl, rfl⟩

theorem errorType_parse {error error' : OtherException tools} (h : error.typeName = error'.typeName) :
    (parseStoredError tools error.repr).errorType = (parseStoredError tools error'.repr).errorType := by
  have htype : ∀ error : OtherException tools,
      (error.typeName.Readable ∧ (parseStoredError tools error.repr).errorType = some error.typeName.text) ∨
        ¬error.typeName.Readable ∧ (parseStoredError tools error.repr).errorType = none := by
    intro error
    rcases reprParts_eq error.typeName error.reprBody with ⟨hread, hparts⟩ | ⟨hread, hparts⟩
    · refine Or.inl ⟨hread, ?_⟩
      rw [parseStoredError, repr, hparts]
      dsimp only
      split <;> rfl
    · refine Or.inr ⟨hread, ?_⟩
      rw [parseStoredError, repr, hparts]
  rcases htype error with ⟨hread, hsome⟩ | ⟨hread, hnone⟩
  · rcases htype error' with ⟨-, hsome'⟩ | ⟨hread', -⟩
    · rw [hsome, hsome', h]
    · exact absurd (h ▸ hread) hread'
  · rcases htype error' with ⟨hread', -⟩ | ⟨-, hnone'⟩
    · exact absurd (h ▸ hread') hread
    · rw [hnone, hnone']

end OtherException

/-- **Stored errors**: exactly those errors are read back whose own facts do not hold the mark of the
context id; nothing is read from another exception exactly when no field stands before that mark in its
arguments, and then its text does not change how it is classified. -/
theorem stored_errors_true_iff (tools : ReprTools) :
    (∀ error : TaxonomyError tools,
      parseStoredError tools error.repr = error.stored ↔ error.Recoverable) ∧
    (∀ error : OtherException tools,
      (parseStoredError tools error.repr).Unclassed ↔ error.Unforged) ∧
    ∀ error error' : OtherException tools, error.typeName = error'.typeName → error.Unforged →
      error'.Unforged →
        classify (parseStoredError tools error.repr) = classify (parseStoredError tools error'.repr) := by
  refine ⟨fun error => error.parse_iff, fun error => error.parse_other_iff, fun error error' htype h h' => ?_⟩
  rw [classify_of_unclassed (error.parse_other_iff.mpr h),
    classify_of_unclassed (error'.parse_other_iff.mpr h'),
    OtherException.errorType_parse htype]

/-! ### A forged code -/

/-- ASCII alone. -/
def asciiRepr : ReprTools where
  tables := ⟨fun _ => false, fun _ => none⟩
  wordBeyond _ := false
  word_not_space _ h := by cases h
  literalArgs _ := none

def runtimeError (args : List (List Char)) : OtherException asciiRepr where
  typeName := ⟨"RuntimeError".toList, by decide, List.all_eq_true.mp (by decide)⟩
  args := args

theorem stored_errors_true_iff_boom :
    (parseStoredError asciiRepr (runtimeError ["boom".toList]).repr).Unclassed := by
  refine ((stored_errors_true_iff asciiRepr).2.1 _).mpr (OtherException.unforged_of_unmarked _ ?_)
  intro arg harg hmarked
  obtain rfl := List.mem_singleton.mp harg
  exact absurd (mem_of_marked hmarked) (by decide)

/-- A text with a code before a context id is taken for an error of the taxonomy. -/
theorem forged_code_read :
    ¬∀ tools : ReprTools,
      (∀ error : TaxonomyError tools, parseStoredError tools error.repr = error.stored) ∧
      ∀ error : OtherException tools, (parseStoredError tools error.repr).Unclassed := by
  intro h
  have hcode := ((h asciiRepr).2 (runtimeError ["code='policy_denied', context_id=1".toList])).code
  have hread : (parseStoredError asciiRepr
      (runtimeError ["code='policy_denied', context_id=1".toList]).repr).code =
        some "policy_denied".toList := by decide +kernel
  rw [hread] at hcode
  cases hcode

end PersonalOS.Failures
