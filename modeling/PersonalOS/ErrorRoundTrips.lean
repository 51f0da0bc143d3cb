import PersonalOS.StoredErrors

/-! # What is read back from a stored error

An error of the taxonomy is read back as it was when nothing that it says of itself holds the mark of
the context id.

* **Marks.** The mark stands in a literal only where it stands in the text (`headOf_literal`).
* **Fields.** Written fields are found again (`assignments_rendered`).  A literal that is broken off is
  not found, and what is found inside it is shorter than it (`content_of_mem`).
* **Messages.** The message is always read back: no literal that begins before it reaches the end
  (`findMessage_append`).
* **Errors.** `TaxonomyError.parse_iff` says exactly when an error is read back. -/

namespace PersonalOS.Failures

open StringLiterals

variable {tools : ReprTools}

/-! ### Characters -/

theorem isWord_of_ascii {c : Char} (h : (c.isAlphanum || c == '_') = true) : tools.isWord c = true := by
  have hlt : c.toNat < 128 := by
    rcases Bool.or_eq_true_iff.mp h with h | h
    · have hrange := toNat_of_isAlphanum h
      omega
    · rw [of_decide_eq_true h]
      decide
  rw [ReprTools.isWord, if_pos hlt, h]

theorem isWord_of_alphanum {c : Char} (h : c.isAlphanum = true) : tools.isWord c = true :=
  isWord_of_ascii (by rw [h, Bool.true_or])

theorem isWord_quote {c : Char} (h : IsQuote c) : tools.isWord c = false := by
  rcases h with rfl | rfl <;> rfl

theorem isSpace_of_isWord {c : Char} (h : tools.isWord c = true) : isSpace c = false := by
  unfold ReprTools.isWord at h
  split at h
  · have hcases : c.isAlphanum = true ∨ c = '_' := by simpa using h
    rcases hcases with h | rfl
    · have hrange := toNat_of_isAlphanum h
      unfold isSpace
      simp only [decide_eq_false_iff_not]
      omega
    · decide
  · exact tools.word_not_space c h

/-! ### Types -/

/-- The name begins with an ASCII letter or an underscore. -/
def TypeName.Readable (name : TypeName tools) : Prop :=
  ∃ c ∈ name.text.head?, c.isAlpha = true ∨ c = '_'

theorem reprParts_eq (name : TypeName tools) (body : List Char) :
    (name.Readable ∧ reprParts tools (name.text ++ '(' :: (body ++ [')'])) = some (name.text, body)) ∨
      ¬name.Readable ∧ reprParts tools (name.text ++ '(' :: (body ++ [')'])) = none := by
  obtain ⟨text, hne, hword⟩ := name
  obtain ⟨c, rest, rfl⟩ := List.exists_cons_of_ne_nil hne
  have hspace : isSpace c = false := isSpace_of_isWord (hword c List.mem_cons_self)
  have hstart : ((c :: rest) ++ '(' :: (body ++ [')'])).dropWhile isSpace =
      c :: (rest ++ '(' :: (body ++ [')'])) := by
    rw [List.cons_append, List.dropWhile_cons_of_neg (by simp [hspace])]
  by_cases hletter : c.isAlpha = true ∨ c = '_'
  · left
    refine ⟨⟨c, rfl, hletter⟩, ?_⟩
    have hname : ∀ d ∈ c :: rest, (tools.isWord d || d == '.') = true := by
      intro d hd
      rw [hword d hd, Bool.true_or]
    have htake : (c :: (rest ++ '(' :: (body ++ [')']))).takeWhile
        (fun d => tools.isWord d || d == '.') = c :: rest := by
      rw [← List.cons_append, List.takeWhile_append_of_pos hname, List.takeWhile_cons_of_neg]
      · exact List.append_nil _
      · simp only [Bool.not_eq_true]
        rfl
    have hend : (body ++ [')']).rdropWhile isSpace = body ++ [')'] :=
      List.rdropWhile_concat_neg _ _ _ (by decide)
    unfold reprParts
    rw [hstart]
    dsimp only
    rw [if_pos hletter, htake, ← List.cons_append, List.drop_left]
    dsimp only
    rw [if_pos rfl, hend, List.getLast?_concat, List.dropLast_concat]
    rfl
  · right
    refine ⟨?_, ?_⟩
    · rintro ⟨d, hd, hdletter⟩
      obtain rfl := Option.some.inj hd
      exact hletter hdletter
    · unfold reprParts
      rw [hstart]
      dsimp only
      rw [if_neg hletter]

/-! ### Marks -/

theorem not_isPrefixOf_of_head {c d : Char} {mark text : List Char} (h : d ≠ c) :
    (d :: mark).isPrefixOf (c :: text) = false := by
  rw [List.isPrefixOf_cons_cons, beq_eq_false_iff_ne.mpr h, Bool.false_and]

theorem isPrefixOf_append_quote {quote : Char} {mark : List Char} (hmark : quote ∉ mark)
    (front rest : List Char) : mark.isPrefixOf (front ++ quote :: rest) = mark.isPrefixOf front := by
  induction mark generalizing front with
  | nil => rfl
  | cons m mark ih =>
      obtain ⟨hm, hmark⟩ := not_or.mp (mt List.mem_cons.mpr hmark)
      cases front with
      | nil => exact not_isPrefixOf_of_head (Ne.symm hm)
      | cons c front =>
          rw [List.cons_append, List.isPrefixOf_cons_cons, List.isPrefixOf_cons_cons, ih hmark]

theorem headOf_step {inWord : Bool} {c : Char} {text : List Char}
    (h : (!inWord && contextMark.isPrefixOf (c :: text)) = false) :
    headOf tools inWord (c :: text) = (headOf tools (tools.isWord c) text).map (c :: ·) := by
  rw [headOf, if_neg (by simp [h])]

theorem headOf_other {inWord : Bool} {c : Char} {text : List Char} (h : c ≠ 'c') :
    headOf tools inWord (c :: text) = (headOf tools (tools.isWord c) text).map (c :: ·) :=
  headOf_step (by rw [show contextMark = 'c' :: "ontext_id=".toList from rfl,
    not_isPrefixOf_of_head h.symm, Bool.and_false])

theorem headOf_word {word text : List Char} (hword : ∀ c ∈ word, tools.isWord c = true) :
    headOf tools true (word ++ text) = (headOf tools true text).map (word ++ ·) := by
  induction word with
  | nil => simp
  | cons c word ih =>
      rw [List.cons_append, headOf_step (by simp), hword c List.mem_cons_self,
        ih fun d hd => hword d (List.mem_cons_of_mem _ hd), Option.map_map]
      rfl

theorem isPrefixOf_contextMark {quote : Char} (hquote : IsQuote quote) (front rest : List Char) :
    contextMark.isPrefixOf (front ++ quote :: rest) = contextMark.isPrefixOf front := by
  refine isPrefixOf_append_quote ?_ front rest
  rcases hquote with rfl | rfl <;> decide

theorem headOf_escaped {tables : Tables} {quote : Char} (hquote : IsQuote quote) (text : List Char)
    (inWord : Bool) :
    (∃ front back, text = front ++ back ∧ back ≠ [] ∧
      ∀ rest, headOf tools inWord (escaped tables quote text ++ quote :: rest) =
        some (escaped tables quote front)) ∨
    ∀ rest, headOf tools inWord (escaped tables quote text ++ quote :: rest) =
      (headOf tools false rest).map (escaped tables quote text ++ quote :: ·) := by
  induction text generalizing inWord with
  | nil =>
      right
      intro rest
      have hc : quote ≠ 'c' := by rcases hquote with rfl | rfl <;> decide
      rw [escaped_nil, List.nil_append, headOf_other hc, isWord_quote hquote]
      rfl
  | cons c text ih =>
      -- The mark is not in the escape of the first character, and the rest is as it was.
      have hgo : ∀ next : Bool, (∀ rest, headOf tools inWord (escaped tables quote (c :: text) ++ quote :: rest) =
          (headOf tools next (escaped tables quote text ++ quote :: rest)).map
            (escape tables quote c ++ ·)) →
          (∃ front back, c :: text = front ++ back ∧ back ≠ [] ∧
            ∀ rest, headOf tools inWord (escaped tables quote (c :: text) ++ quote :: rest) =
              some (escaped tables quote front)) ∨
          ∀ rest, headOf tools inWord (escaped tables quote (c :: text) ++ quote :: rest) =
            (headOf tools false rest).map (escaped tables quote (c :: text) ++ quote :: ·) := by
        intro next hstep
        rcases ih next with ⟨front, back, rfl, hback, hhead⟩ | hnone
        · left
          refine ⟨c :: front, back, rfl, hback, fun rest => ?_⟩
          rw [hstep, hhead]
          rfl
        · right
          intro rest
          rw [hstep, hnone, Option.map_map]
          congr 1
          funext head
          simp
      rcases escape_cases tables quote c with ⟨hesc, -, -⟩ | ⟨letter, digits, hesc, hletter, hdigits, hhex⟩
      · by_cases hmark : (!inWord && contextMark.isPrefixOf (c :: escaped tables quote text)) = true
        · left
          refine ⟨[], c :: text, rfl, List.cons_ne_nil _ _, fun rest => ?_⟩
          rw [escaped_cons, hesc, List.singleton_append, List.cons_append, headOf, ← List.cons_append,
            isPrefixOf_contextMark hquote, if_pos hmark]
          rfl
        · refine hgo (tools.isWord c) fun rest => ?_
          rw [escaped_cons, hesc, List.singleton_append, List.cons_append, headOf_step]
          · rfl
          · rw [← List.cons_append, isPrefixOf_contextMark hquote]
            exact Bool.eq_false_iff.mpr hmark
      · have hother : letter ≠ 'c' := by
          rcases hletter with rfl | rfl | hletter
          · decide
          · rcases hquote with rfl | rfl <;> decide
          · rintro rfl
            revert hletter
            decide
        refine hgo (tools.isWord letter) fun rest => ?_
        rw [escaped_cons, hesc, List.append_assoc, List.cons_append, List.cons_append,
          headOf_other (by decide), headOf_other hother]
        rcases hhex with rfl | hletter
        · rw [List.nil_append, Option.map_map]
          rfl
        · rw [isWord_of_alphanum hletter, headOf_word fun d hd => isWord_of_alphanum (hdigits d hd),
            Option.map_map, Option.map_map]
          rfl

/-- The mark of a context id stands in the literal of the text. -/
def Marked (tools : ReprTools) (text : List Char) : Prop :=
  (headOf tools false (literal tools.tables text)).isSome = true

/-- A literal has the first mark in it, whatever follows, or has none. -/
theorem headOf_literal (text : List Char) :
    (Marked tools text ∧ ∃ front back, text = front ++ back ∧ back ≠ [] ∧
      ∀ rest, headOf tools false (literal tools.tables text ++ rest) =
        some (quoteFor text :: escaped tools.tables (quoteFor text) front)) ∨
    ¬Marked tools text ∧ ∀ rest, headOf tools false (literal tools.tables text ++ rest) =
      (headOf tools false rest).map (literal tools.tables text ++ ·) := by
  have hquote := isQuote_quoteFor text
  have hc : quoteFor text ≠ 'c' := by rcases hquote with h | h <;> rw [h] <;> decide
  have hopen : ∀ rest, headOf tools false (literal tools.tables text ++ rest) =
      (headOf tools false (escaped tools.tables (quoteFor text) text ++ quoteFor text :: rest)).map
        (quoteFor text :: ·) := by
    intro rest
    rw [literal, List.cons_append, headOf_other hc, isWord_quote hquote, List.append_assoc,
      List.singleton_append]
  rcases headOf_escaped hquote text false with ⟨front, back, htext, hback, hhead⟩ | hnone
  · have hall : ∀ rest, headOf tools false (literal tools.tables text ++ rest) =
        some (quoteFor text :: escaped tools.tables (quoteFor text) front) := by
      intro rest
      rw [hopen, hhead]
      rfl
    refine Or.inl ⟨?_, front, back, htext, hback, hall⟩
    have hmarked := hall []
    rw [List.append_nil] at hmarked
    rw [Marked, hmarked]
    rfl
  · have hall : ∀ rest, headOf tools false (literal tools.tables text ++ rest) =
        (headOf tools false rest).map (literal tools.tables text ++ ·) := by
      intro rest
      rw [hopen, hnone, Option.map_map]
      congr 1
      funext head
      simp [literal]
    refine Or.inr ⟨fun hmarked => ?_, hall⟩
    have hunmarked := hall []
    rw [List.append_nil] at hunmarked
    rw [Marked, hunmarked, headOf] at hmarked
    cases hmarked

theorem mem_of_headOf {inWord : Bool} {text head : List Char} (h : headOf tools inWord text = some head) :
    '=' ∈ text := by
  induction text generalizing inWord head with
  | nil => cases h
  | cons c text ih =>
      rw [headOf] at h
      split at h
      · rename_i hmark
        have hpre := (Bool.and_eq_true_iff.mp hmark).2
        exact (List.isPrefixOf_iff_prefix.mp hpre).subset (by decide)
      · obtain ⟨rest, hrest, -⟩ := Option.map_eq_some_iff.mp h
        exact List.mem_cons_of_mem _ (ih hrest)

theorem sign_of_mem_escape {tables : Tables} {quote c : Char} (hquote : IsQuote quote)
    (h : '=' ∈ escape tables quote c) : c = '=' := by
  rcases escape_cases tables quote c with ⟨hesc, -, -⟩ | ⟨letter, digits, hesc, hletter, hdigits, -⟩
  · rw [hesc, List.mem_singleton] at h
    exact h.symm
  · rw [hesc] at h
    rcases List.mem_cons.mp h with h | h
    · exact absurd h (by decide)
    · rcases List.mem_cons.mp h with rfl | h
      · rcases hletter with h | rfl | h
        · exact absurd h (by decide)
        · rcases hquote with h | h <;> exact absurd h (by decide)
        · exact absurd h (by decide)
      · exact absurd (hdigits _ h) (by decide)

theorem mem_of_marked {text : List Char} (h : Marked tools text) : '=' ∈ text := by
  obtain ⟨head, hhead⟩ := Option.isSome_iff_exists.mp h
  have hquote := isQuote_quoteFor text
  have hne : '=' ≠ quoteFor text := by rcases hquote with h | h <;> rw [h] <;> decide
  have hmem := mem_of_headOf hhead
  rw [literal, List.mem_cons, List.mem_append, List.mem_singleton] at hmem
  obtain ⟨c, hc, hmem⟩ := List.mem_flatMap.mp ((hmem.resolve_left hne).resolve_right hne)
  rwa [sign_of_mem_escape hquote hmem] at hc

/-- A name that fields are written under. -/
structure FieldName (key : List Char) : Prop where
  nonempty : key ≠ []
  word : ∀ c ∈ key, (c.isAlphanum || c == '_') = true
  unmarked : ∀ text, contextMark.isPrefixOf (key ++ '=' :: text) = false

theorem headOf_key {key : List Char} (hkey : FieldName key) (text : List Char) :
    headOf tools false (key ++ '=' :: text) = (headOf tools false text).map (key ++ '=' :: ·) := by
  have hunmarked := hkey.unmarked text
  obtain ⟨c, word, rfl⟩ := List.exists_cons_of_ne_nil hkey.nonempty
  rw [List.cons_append] at hunmarked
  rw [List.cons_append, headOf_step (by rw [hunmarked]; rfl),
    isWord_of_ascii (hkey.word c List.mem_cons_self),
    headOf_word fun d hd => isWord_of_ascii (hkey.word d (List.mem_cons_of_mem _ hd)),
    headOf_other (by decide), Option.map_map, Option.map_map]
  rfl

theorem headOf_rendered {fields : List (List Char × List Char)}
    (hfields : ∀ field ∈ fields, FieldName field.1 ∧ ¬Marked tools field.2) (text : List Char) :
    headOf tools false (rendered tools.tables fields ++ text) =
      (headOf tools false text).map (rendered tools.tables fields ++ ·) := by
  induction fields with
  | nil => simp [rendered]
  | cons field fields ih =>
      obtain ⟨hkey, hunmarked⟩ := hfields field List.mem_cons_self
      have hrest := ih fun f hf => hfields f (List.mem_cons_of_mem _ hf)
      obtain ⟨-, hliteral⟩ := (headOf_literal field.2).resolve_left fun h => hunmarked h.1
      have hcons : ∀ more, rendered tools.tables (field :: fields) ++ more = field.1 ++ '=' ::
          (literal tools.tables field.2 ++ ',' :: ' ' :: (rendered tools.tables fields ++ more)) := by
        intro more
        simp [rendered]
      have hcomma : ∀ more, headOf tools false (',' :: ' ' :: more) =
          (headOf tools false more).map (',' :: ' ' :: ·) := by
        intro more
        rw [headOf_other (by decide), headOf_other (by decide), Option.map_map]
        rfl
      rw [hcons, headOf_key hkey, hliteral, hcomma, hrest, Option.map_map, Option.map_map, Option.map_map]
      congr 1
      funext head
      exact (hcons head).symm

/-! ### Fields -/

theorem assignments_word {run word text : List Char} (hword : ∀ c ∈ word, tools.isWord c = true) :
    assignments tools run (word ++ text) = assignments tools (run ++ word) text := by
  induction word generalizing run with
  | nil => rw [List.nil_append, List.append_nil]
  | cons c word ih =>
      rw [List.cons_append, assignments, if_pos (hword c List.mem_cons_self),
        ih fun d hd => hword d (List.mem_cons_of_mem _ hd), List.append_assoc, List.singleton_append]

theorem assignments_other {run text : List Char} {c : Char} (hword : tools.isWord c = false)
    (hc : c ≠ '=') : assignments tools run (c :: text) = assignments tools [] text := by
  rw [assignments, if_neg (by simp [hword]), if_neg fun h => hc h.1]

theorem assignments_quoted {run text : List Char} {found : Char × List Char × List Char} (hrun : run ≠ [])
    (h : quotedAt false text = some found) :
    assignments tools run ('=' :: text) =
      ⟨run, found.1, found.2.1⟩ :: assignments tools [] found.2.2 := by
  rw [assignments, if_neg (by simp [ReprTools.isWord]), if_pos ⟨rfl, hrun⟩]
  split
  · rename_i found' hfound
    rw [h] at hfound
    obtain rfl := Option.some.inj hfound
    rfl
  · rename_i hnone
    rw [h] at hnone
    cases hnone

theorem assignments_unquoted {run text : List Char} (h : run = [] ∨ quotedAt false text = none) :
    assignments tools run ('=' :: text) = assignments tools [] text := by
  rw [assignments, if_neg (by simp [ReprTools.isWord])]
  split
  · rename_i hrun
    split
    · rename_i found hfound
      rw [h.resolve_left hrun.2] at hfound
      cases hfound
    · rfl
  · rfl

theorem assignments_append {front : List Char} (hfront : ∀ c ∈ front, c ≠ '=') (run : List Char) :
    ∃ run', ∀ text, assignments tools run (front ++ text) = assignments tools run' text := by
  induction front generalizing run with
  | nil => exact ⟨run, fun _ => rfl⟩
  | cons c front ih =>
      have hrest : ∀ d ∈ front, d ≠ '=' := fun d hd => hfront d (List.mem_cons_of_mem _ hd)
      cases hword : tools.isWord c with
      | true =>
          obtain ⟨run', hrun'⟩ := ih hrest (run ++ [c])
          refine ⟨run', fun text => ?_⟩
          rw [List.cons_append, assignments, if_pos hword, hrun']
      | false =>
          obtain ⟨run', hrun'⟩ := ih hrest []
          refine ⟨run', fun text => ?_⟩
          rw [List.cons_append, assignments_other hword (hfront c List.mem_cons_self), hrun']

theorem quotedAt_quote {multiline : Bool} {quote : Char} (hquote : IsQuote quote) (text : List Char) :
    quotedAt multiline (quote :: text) =
      (close multiline quote text).map fun closed => (quote, closed) := by
  unfold IsQuote at hquote
  rw [quotedAt, if_pos hquote]

theorem quotedAt_literal {multiline : Bool} {tables : Tables} (value text : List Char) :
    quotedAt multiline (literal tables value ++ text) =
      some (quoteFor value, escaped tables (quoteFor value) value, text) := by
  rw [literal, List.cons_append, quotedAt_quote (isQuote_quoteFor value), List.append_assoc,
    List.singleton_append, close_escaped (isQuote_quoteFor value)]
  rfl

/-- The field as it is found. -/
def foundField (tools : ReprTools) (field : List Char × List Char) : Assignment :=
  ⟨field.1, quoteFor field.2, escaped tools.tables (quoteFor field.2) field.2⟩

theorem value_foundField (field : List Char × List Char) :
    (foundField tools field).value tools = field.2 := by
  rw [Assignment.value, literalValue, foundField, unescape_escaped (isQuote_quoteFor field.2),
    Option.getD_some]

/-- Fields that are written are found, and the rest is read as if they were not there. -/
theorem assignments_rendered {fields : List (List Char × List Char)}
    (hfields : ∀ field ∈ fields, FieldName field.1) (text : List Char) :
    assignments tools [] (rendered tools.tables fields ++ text) =
      fields.map (foundField tools) ++ assignments tools [] text := by
  induction fields with
  | nil => rfl
  | cons field fields ih =>
      have hkey := hfields field List.mem_cons_self
      have hcons : rendered tools.tables (field :: fields) ++ text = field.1 ++ '=' ::
          (literal tools.tables field.2 ++ ',' :: ' ' :: (rendered tools.tables fields ++ text)) := by
        simp [rendered]
      rw [hcons, assignments_word fun c hc => isWord_of_ascii (hkey.word c hc), List.nil_append,
        assignments_quoted hkey.nonempty (quotedAt_literal _ _), assignments_other rfl (by decide),
        assignments_other rfl (by decide), ih fun f hf => hfields f (List.mem_cons_of_mem _ hf)]
      rfl

/-- Inside a text between quotes, a literal begins with a quote of the other kind and ends with the
next one. -/
theorem quotedAt_escaped {tables : Tables} {quote : Char} (hquote : IsQuote quote) {text : List Char}
    {found : Char × List Char × List Char} (h : quotedAt false (escaped tables quote text) = some found) :
    ∃ d front back, text = d :: (front ++ d :: back) ∧
      found = (d, escaped tables quote front, escaped tables quote back) := by
  cases text with
  | nil => cases h
  | cons d text =>
      rw [escaped_cons] at h
      rcases escape_cases tables quote d with ⟨hesc, -, hne⟩ | ⟨letter, digits, hesc, -⟩
      · rw [hesc, List.singleton_append, quotedAt] at h
        split at h
        · rename_i hd
          obtain ⟨closed, hclosed, rfl⟩ := Option.map_eq_some_iff.mp h
          by_cases hin : d ∈ text
          · obtain ⟨front, back, rfl, hfront⟩ := List.eq_append_cons_of_mem hin
            rw [close_other hquote hd hne hfront] at hclosed
            obtain rfl := Option.some.inj hclosed
            exact ⟨d, front, back, rfl, rfl⟩
          · have hopen : close false d (escaped tables quote text ++ []) = none :=
              close_escaped_append hquote hd (Or.inl hin)
            rw [List.append_nil, hclosed] at hopen
            cases hopen
        · cases h
      · rw [hesc] at h
        cases h

/-- What is found inside a text between quotes is a part of the text. -/
theorem content_of_mem {quote : Char} (hquote : IsQuote quote) (text run : List Char) :
    ∀ found ∈ assignments tools run (escaped tools.tables quote text),
      ∃ part, found.content = escaped tools.tables quote part ∧ part.length < text.length := by
  induction hlen : text.length using Nat.strong_induction_on generalizing text run with
  | _ n ih =>
      cases text with
      | nil =>
          intro found hmem
          rw [escaped_nil, assignments] at hmem
          cases hmem
      | cons c text =>
          have hlen : text.length + 1 = n := hlen
          have hlt : text.length < n := by omega
          -- The rest, after another run.
          have hrest : ∀ run, ∀ found ∈ assignments tools run (escaped tools.tables quote text),
              ∃ part, found.content = escaped tools.tables quote part ∧ part.length < n := by
            intro run found hmem
            obtain ⟨part, hcontent, hpart⟩ := ih _ hlt text run rfl found hmem
            exact ⟨part, hcontent, hpart.trans hlt⟩
          intro found hmem
          rw [escaped_cons] at hmem
          by_cases hsign : c = '='
          · subst hsign
            have hesc : escape tools.tables quote '=' = ['='] := by
              rcases hquote with rfl | rfl <;> rfl
            rw [hesc, List.singleton_append] at hmem
            by_cases hquoted : run = [] ∨ quotedAt false (escaped tools.tables quote text) = none
            · rw [assignments_unquoted hquoted] at hmem
              exact hrest [] found hmem
            · obtain ⟨hrun, hsome⟩ := not_or.mp hquoted
              obtain ⟨hit, hhit⟩ := Option.ne_none_iff_exists'.mp hsome
              rw [assignments_quoted hrun hhit] at hmem
              obtain ⟨d, front, back, rfl, rfl⟩ := quotedAt_escaped hquote hhit
              simp only [List.length_cons, List.length_append] at hlen
              rcases List.mem_cons.mp hmem with rfl | hmem
              · exact ⟨front, rfl, by omega⟩
              · obtain ⟨part, hcontent, hpart⟩ := ih back.length (by omega) back [] rfl found hmem
                exact ⟨part, hcontent, by omega⟩
          · have hfront : ∀ d ∈ escape tools.tables quote c, d ≠ '=' := by
              intro d hd
              rintro rfl
              exact hsign (sign_of_mem_escape hquote hd)
            obtain ⟨run', hrun'⟩ := assignments_append hfront run
            rw [hrun'] at hmem
            exact hrest run' found hmem

theorem assignments_broken {key : List Char} (hkey : FieldName key) {quote : Char} (hquote : IsQuote quote)
    (front : List Char) :
    assignments tools [] (key ++ '=' :: quote :: escaped tools.tables quote front) =
      assignments tools [] (quote :: escaped tools.tables quote front) := by
  have hopen : close false quote (escaped tools.tables quote front ++ []) = none :=
    close_escaped_append hquote hquote (Or.inr rfl)
  rw [List.append_nil] at hopen
  rw [assignments_word fun c hc => isWord_of_ascii (hkey.word c hc), List.nil_append, assignments_unquoted]
  right
  rw [quotedAt_quote hquote, hopen]
  rfl

theorem length_of_lastOf {quote : Char} (hquote : IsQuote quote) {front key value : List Char}
    (h : lastOf tools key (assignments tools [] (quote :: escaped tools.tables quote front)) = some value) :
    value.length < front.length := by
  have hc : quote ≠ '=' := by rcases hquote with rfl | rfl <;> decide
  rw [assignments_other (isWord_quote hquote) hc] at h
  obtain ⟨found, hfound, rfl⟩ := Option.map_eq_some_iff.mp h
  have hmem := List.mem_reverse.mp (List.mem_of_find?_eq_some hfound)
  obtain ⟨part, hcontent, hpart⟩ := content_of_mem hquote front [] found hmem
  rwa [Assignment.value, literalValue, hcontent, unescape_escaped hquote, Option.getD_some]

theorem lastOf_nil (key : List Char) : lastOf tools key [] = none := rfl

theorem lastOf_append (key : List Char) (found more : List Assignment) :
    lastOf tools key (found ++ more) = (lastOf tools key more).or (lastOf tools key found) := by
  unfold lastOf
  rw [List.reverse_append, List.find?_append, Option.map_or]

theorem lastOf_fields (key : List Char) (fields : List (List Char × List Char)) :
    lastOf tools key (fields.map (foundField tools)) =
      (fields.reverse.find? fun field => field.1 == key).map Prod.snd := by
  unfold lastOf
  rw [← List.map_reverse, List.find?_map, Option.map_map]
  congr 1
  funext field
  exact value_foundField field

/-! ### Messages -/

theorem mem_of_close {multiline : Bool} {quote quote' : Char} (hquote : IsQuote quote)
    {front text content rest : List Char}
    (h : close multiline quote' (front ++ '=' :: quote :: (text ++ [quote])) = some (content, rest)) :
    quote ∈ rest := by
  by_cases hsame : quote' = quote
  · subst hsame
    have hne : '=' ≠ quote' := by rcases hquote with rfl | rfl <;> decide
    obtain ⟨between, rfl⟩ := close_before hne (by decide) h
    simp
  · have hall := eq_of_close h
    rcases List.eq_nil_or_concat rest with rfl | ⟨init, last, rfl⟩
    · have hends : (front ++ '=' :: quote :: text) ++ [quote] = content ++ [quote'] := by
        simpa using hall
      exact absurd (List.cons.inj (List.append_inj' hends rfl).2).1.symm hsame
    · have hends : (front ++ '=' :: quote :: text) ++ [quote] = (content ++ quote' :: init) ++ [last] := by
        simpa using hall
      rw [(List.cons.inj (List.append_inj' hends rfl).2).1]
      simp

theorem messageAt_literal {tables : Tables} (message : List Char) :
    messageAt (messageMark ++ literal tables message) =
      some (quoteFor message, escaped tables (quoteFor message) message) := by
  have hquoted : quotedAt true (literal tables message ++ []) = _ := quotedAt_literal message []
  rw [List.append_nil] at hquoted
  rw [messageAt, if_pos (List.isPrefixOf_iff_prefix.mpr (List.prefix_append _ _)), List.drop_left, hquoted]
  rfl

theorem messageMark_append (text : List Char) :
    messageMark ++ text = 'm' :: ("essage=".toList ++ text) := rfl

theorem messageMark_before {front tail text : List Char} {c : Char} (hne : front ≠ []) (hc : c ≠ 'm')
    (h : messageMark ++ c :: tail = front ++ (messageMark ++ text)) :
    ∃ before, tail = before ++ '=' :: text := by
  rcases List.append_eq_append_iff.mp h with ⟨gap, hgap, hrest⟩ | ⟨gap, hgap, hrest⟩
  · cases gap with
    | nil =>
        rw [List.nil_append, messageMark_append] at hrest
        exact absurd (List.cons.inj hrest).1 hc
    | cons d gap =>
        refine ⟨gap ++ "message".toList, ?_⟩
        rw [(List.cons.inj hrest).2, List.append_assoc]
        rfl
  · -- The marks would overlap, but the letter that begins one is not in the rest of it.
    rw [messageMark_append] at hrest
    cases gap with
    | nil => exact absurd (List.cons.inj hrest).1.symm hc
    | cons d gap =>
        obtain rfl : 'm' = d := (List.cons.inj hrest).1
        obtain ⟨e, front, rfl⟩ := List.exists_cons_of_ne_nil hne
        have hmark : messageMark = 'm' :: "essage=".toList := rfl
        rw [hmark, List.cons_append] at hgap
        have hmem : 'm' ∈ "essage=".toList := by
          rw [(List.cons.inj hgap).2]
          simp
        exact absurd hmem (by decide)

theorem messageAt_before {tables : Tables} {front : List Char} (hne : front ≠ []) (message : List Char) :
    messageAt (front ++ (messageMark ++ literal tables message)) = none := by
  have hquote := isQuote_quoteFor message
  unfold messageAt
  split
  · rename_i hpre
    obtain ⟨tail, htail⟩ := List.isPrefixOf_iff_prefix.mp hpre
    rw [← htail, List.drop_left]
    split
    · rename_i found hfound
      cases tail with
      | nil => cases hfound
      | cons quote' tail =>
          rw [quotedAt] at hfound
          split at hfound
          · rename_i hquote'
            obtain ⟨closed, hclosed, rfl⟩ := Option.map_eq_some_iff.mp hfound
            have hm : quote' ≠ 'm' := by rcases hquote' with rfl | rfl <;> decide
            obtain ⟨before, rfl⟩ := messageMark_before hne hm htail
            have hmem : quoteFor message ∈ closed.2 := mem_of_close hquote hclosed
            rw [if_neg]
            intro hall
            have hspace := List.all_eq_true.mp hall _ hmem
            rcases hquote with h | h <;> rw [h] at hspace <;> exact absurd hspace (by decide)
          · cases hfound
    · rfl
  · rfl

/-- The message that is written is found. -/
theorem findMessage_append {tables : Tables} (front message : List Char) :
    findMessage (front ++ (messageMark ++ literal tables message)) =
      some (quoteFor message, escaped tables (quoteFor message) message) := by
  induction front with
  | nil =>
      have hcons : messageMark ++ literal tables message =
          'm' :: ("essage=".toList ++ literal tables message) := rfl
      rw [List.nil_append, hcons, findMessage, ← hcons, messageAt_literal]
  | cons c front ih =>
      rw [List.cons_append, findMessage, ← List.cons_append, messageAt_before (List.cons_ne_nil c front)]
      exact ih

/-! ### Errors of the taxonomy -/

theorem fieldName_of_mem {key : List Char}
    (h : key ∈ ["code", "failure_class", "provider", "reason", "port"].map String.toList) :
    FieldName key := by
  simp only [List.map_cons, List.map_nil, List.mem_cons, List.not_mem_nil, or_false] at h
  rcases h with rfl | rfl | rfl | rfl | rfl
  · exact ⟨by decide, List.all_eq_true.mp (by decide), fun _ => rfl⟩
  · exact ⟨by decide, List.all_eq_true.mp (by decide), fun _ => rfl⟩
  · exact ⟨by decide, List.all_eq_true.mp (by decide), fun _ => rfl⟩
  · exact ⟨by decide, List.all_eq_true.mp (by decide), fun _ => rfl⟩
  · exact ⟨by decide, List.all_eq_true.mp (by decide), fun _ => rfl⟩

namespace TaxonomyError

variable (error : TaxonomyError tools)

/-- The fields that an error of any class has. -/
def ownFields : List (List Char × List Char) := ("code".toList, error.code.value) :: error.classFields

theorem own_unmarked : ∀ field ∈ error.ownFields, FieldName field.1 ∧ ¬Marked tools field.2 := by
  have hcode : ∀ code : ErrorCode, '=' ∉ code.value := by
    intro code
    cases code <;> decide
  have hclass : ∀ failureClass : FailureClass, '=' ∉ classValue failureClass := by
    intro failureClass
    cases failureClass <;> decide
  intro field hmem
  rcases List.mem_cons.mp hmem with rfl | hmem
  · exact ⟨fieldName_of_mem (by simp), fun h => hcode _ (mem_of_marked h)⟩
  · unfold classFields at hmem
    split at hmem
    · obtain rfl := List.mem_singleton.mp hmem
      exact ⟨fieldName_of_mem (by simp), fun h => hclass _ (mem_of_marked h)⟩
    · cases hmem

/-- What the error should be read back as. -/
def stored : StoredError where
  errorType := some error.typeName.text
  failureClass := error.failureClass
  code := some error.code.value
  provider :=
    match error.reprFields with
    | .provider name _ => some name
    | _ => none
  reason :=
    match error.reprFields with
    | .provider _ reason => some reason
    | _ => none
  message := error.message

/-- What is found in a text changes nothing about the error. -/
structure Harmless (found : List Assignment) : Prop where
  code : ∀ value, lastOf tools "code".toList found = some value → value = error.code.value
  failureClass : ∀ value, lastOf tools "failure_class".toList found = some value →
    failureClassOf value = error.failureClass
  provider : lastOf tools "provider".toList found = none
  reason : lastOf tools "reason".toList found = none

/-- The type can be read back, and the mark of the context id is not in what the error says of itself;
in a port's name it may be, if no field stands before it. -/
def Recoverable : Prop :=
  error.typeName.Readable ∧
    match error.reprFields with
    | .nothing => True
    | .provider name reason => ¬Marked tools name ∧ ¬Marked tools reason
    | .port name => ∀ head, headOf tools false (literal tools.tables name) = some head →
        error.Harmless (assignments tools [] head)

/-- What is read from the fields before the context id. -/
def readFrom (found : List Assignment) : StoredError where
  errorType := some error.typeName.text
  failureClass := (lastOf tools "failure_class".toList found).bind failureClassOf
  code := lastOf tools "code".toList found
  provider := lastOf tools "provider".toList found
  reason := lastOf tools "reason".toList found
  message := error.message

theorem parse_repr {head : List Char} (hhead : headOf tools false error.reprBody = some head) :
    (error.typeName.Readable ∧
      parseStoredError tools error.repr = error.readFrom (assignments tools [] head)) ∨
      ¬error.typeName.Readable ∧ (parseStoredError tools error.repr).errorType = none := by
  have hmessage : findMessage error.reprBody = some (quoteFor error.message,
      escaped tools.tables (quoteFor error.message) error.message) := by
    have hbody : error.reprBody = (rendered tools.tables error.fields ++ (contextMark ++
        ((UUID.text error.contextId).toList ++ [',', ' ']))) ++
          (messageMark ++ literal tools.tables error.message) := by
      simp [reprBody]
    rw [hbody, findMessage_append]
  rcases reprParts_eq error.typeName error.reprBody with ⟨hread, hparts⟩ | ⟨hread, hparts⟩
  · left
    refine ⟨hread, ?_⟩
    rw [parseStoredError, repr, hparts]
    dsimp only
    rw [hhead, hmessage]
    dsimp only
    rw [literalValue, unescape_escaped (isQuote_quoteFor error.message)]
    rfl
  · right
    refine ⟨hread, ?_⟩
    rw [parseStoredError, repr, hparts]

theorem reprBody_eq : ∃ rest, error.reprBody =
    rendered tools.tables error.ownFields ++
      (rendered tools.tables error.reprFields.fields ++ (contextMark ++ rest)) := by
  refine ⟨(UUID.text error.contextId).toList ++
    (',' :: ' ' :: (messageMark ++ literal tools.tables error.message)), ?_⟩
  simp [reprBody, fields, ownFields, rendered]

theorem headOf_contextMark (rest : List Char) : headOf tools false (contextMark ++ rest) = some [] := by
  have hcons : contextMark ++ rest = 'c' :: ("ontext_id=".toList ++ rest) := rfl
  have hpre : contextMark.isPrefixOf (contextMark ++ rest) = true :=
    List.isPrefixOf_iff_prefix.mpr (List.prefix_append _ _)
  rw [hcons, headOf, ← hcons, hpre]
  rfl

theorem headOf_unmarked
    (h : ∀ field ∈ error.reprFields.fields, FieldName field.1 ∧ ¬Marked tools field.2) :
    ∃ head, headOf tools false error.reprBody = some head ∧ assignments tools [] head =
      (error.ownFields ++ error.reprFields.fields).map (foundField tools) := by
  obtain ⟨rest, hbody⟩ := error.reprBody_eq
  have hown := error.own_unmarked
  refine ⟨rendered tools.tables error.ownFields ++ (rendered tools.tables error.reprFields.fields ++ []), ?_, ?_⟩
  · rw [hbody, headOf_rendered hown, headOf_rendered h, headOf_contextMark]
    rfl
  · rw [assignments_rendered fun f hf => (hown f hf).1, assignments_rendered fun f hf => (h f hf).1,
      assignments, List.append_nil, List.map_append]

theorem headOf_marked {unmarked more : List (List Char × List Char)} {key value : List Char}
    (hfields : error.reprFields.fields = unmarked ++ (key, value) :: more)
    (hunmarked : ∀ field ∈ unmarked, FieldName field.1 ∧ ¬Marked tools field.2) (hkey : FieldName key)
    (hmarked : Marked tools value) :
    ∃ front back head, value = front ++ back ∧ back ≠ [] ∧
      headOf tools false (literal tools.tables value) =
        some (quoteFor value :: escaped tools.tables (quoteFor value) front) ∧
      headOf tools false error.reprBody = some head ∧ assignments tools [] head =
        (error.ownFields ++ unmarked).map (foundField tools) ++
          assignments tools [] (quoteFor value :: escaped tools.tables (quoteFor value) front) := by
  obtain ⟨rest, hbody⟩ := error.reprBody_eq
  have hown := error.own_unmarked
  obtain ⟨-, front, back, hvalue, hback, hhead⟩ :=
    (headOf_literal value).resolve_right fun h => h.1 hmarked
  have hsplit : ∀ text, rendered tools.tables error.reprFields.fields ++ text =
      rendered tools.tables unmarked ++ (key ++ '=' :: (literal tools.tables value ++
        (',' :: ' ' :: (rendered tools.tables more ++ text)))) := by
    intro text
    rw [hfields]
    simp [rendered]
  refine ⟨front, back, rendered tools.tables error.ownFields ++ (rendered tools.tables unmarked ++
    (key ++ '=' :: quoteFor value :: escaped tools.tables (quoteFor value) front)), hvalue, hback, ?_, ?_, ?_⟩
  · have halone := hhead []
    rwa [List.append_nil] at halone
  · rw [hbody, headOf_rendered hown, hsplit, headOf_rendered hunmarked, headOf_key hkey, hhead]
    rfl
  · rw [assignments_rendered fun f hf => (hown f hf).1,
      assignments_rendered fun f hf => (hunmarked f hf).1,
      assignments_broken hkey (isQuote_quoteFor value), List.map_append, List.append_assoc]

theorem failureClassOf_classValue (failureClass : FailureClass) :
    failureClassOf (classValue failureClass) = some failureClass := by
  cases failureClass <;> rfl

theorem own_class : (error.failureClass.map classValue).bind failureClassOf = error.failureClass := by
  cases error.failureClass with
  | none => rfl
  | some failureClass => exact failureClassOf_classValue failureClass

theorem readFrom_append (found : List Assignment) :
    error.readFrom (error.ownFields.map (foundField tools) ++ found) =
      { errorType := some error.typeName.text
        failureClass := ((lastOf tools "failure_class".toList found).or
          (error.failureClass.map classValue)).bind failureClassOf
        code := (lastOf tools "code".toList found).or (some error.code.value)
        provider := lastOf tools "provider".toList found
        reason := lastOf tools "reason".toList found
        message := error.message } := by
  have hcode : lastOf tools "code".toList (error.ownFields.map (foundField tools)) =
      some error.code.value := by
    rw [lastOf_fields, ownFields, classFields]
    cases error.failureClass <;> rfl
  have hclass : lastOf tools "failure_class".toList (error.ownFields.map (foundField tools)) =
      error.failureClass.map classValue := by
    rw [lastOf_fields, ownFields, classFields]
    cases error.failureClass <;> rfl
  have hprovider : lastOf tools "provider".toList (error.ownFields.map (foundField tools)) = none := by
    rw [lastOf_fields, ownFields, classFields]
    cases error.failureClass <;> rfl
  have hreason : lastOf tools "reason".toList (error.ownFields.map (foundField tools)) = none := by
    rw [lastOf_fields, ownFields, classFields]
    cases error.failureClass <;> rfl
  unfold readFrom
  rw [lastOf_append, lastOf_append, lastOf_append, lastOf_append, hcode, hclass, hprovider, hreason,
    Option.or_none, Option.or_none]

/-- Of an error without a provider, everything is read back when nothing else is found that changes
it. -/
theorem readFrom_iff_harmless (hprovider : error.stored.provider = none)
    (hreason : error.stored.reason = none) (found : List Assignment) :
    error.readFrom (error.ownFields.map (foundField tools) ++ found) = error.stored ↔
      error.Harmless found := by
  rw [readFrom_append]
  constructor
  · intro h
    have hcode := congrArg StoredError.code h
    have hclass := congrArg StoredError.failureClass h
    refine ⟨fun value hvalue => ?_, fun value hvalue => ?_,
      (congrArg StoredError.provider h).trans hprovider, (congrArg StoredError.reason h).trans hreason⟩
    · dsimp only at hcode
      rw [hvalue] at hcode
      exact Option.some.inj hcode
    · dsimp only at hclass
      rw [hvalue] at hclass
      exact hclass
  · intro h
    have hcode : (lastOf tools "code".toList found).or (some error.code.value) = error.stored.code := by
      cases hlast : lastOf tools "code".toList found with
      | none => rfl
      | some value =>
          rw [h.code value hlast]
          rfl
    have hclass : ((lastOf tools "failure_class".toList found).or
        (error.failureClass.map classValue)).bind failureClassOf = error.stored.failureClass := by
      cases hlast : lastOf tools "failure_class".toList found with
      | none => exact error.own_class
      | some value => exact h.failureClass value hlast
    have hprovider : lastOf tools "provider".toList found = error.stored.provider :=
      h.provider.trans hprovider.symm
    have hreason : lastOf tools "reason".toList found = error.stored.reason := h.reason.trans hreason.symm
    rw [hcode, hclass, hprovider, hreason]
    rfl

theorem parse_iff_of_head {head : List Char} (hhead : headOf tools false error.reprBody = some head) :
    parseStoredError tools error.repr = error.stored ↔ error.typeName.Readable ∧
      error.readFrom (assignments tools [] head) = error.stored := by
  rcases error.parse_repr hhead with ⟨hreadable, hparse⟩ | ⟨hreadable, hparse⟩
  · rw [hparse]
    exact (and_iff_right hreadable).symm
  · refine iff_of_false (fun h => ?_) fun h => hreadable h.1
    rw [h] at hparse
    cases hparse

theorem parse_iff_of_provider {name reason : List Char} (h : error.reprFields = .provider name reason) :
    parseStoredError tools error.repr = error.stored ↔
      error.typeName.Readable ∧ ¬Marked tools name ∧ ¬Marked tools reason := by
  have hprovider : FieldName "provider".toList := fieldName_of_mem (by simp)
  have hkey : FieldName "reason".toList := fieldName_of_mem (by simp)
  have hstored : error.stored.provider = some name ∧ error.stored.reason = some reason := by
    simp only [stored, h, and_self]
  have hfields : error.reprFields.fields = [("provider".toList, name), ("reason".toList, reason)] := by
    rw [h]
    rfl
  by_cases hname : Marked tools name
  · obtain ⟨front, back, head, hvalue, -, -, hhead, hfound⟩ :=
      error.headOf_marked hfields (fun _ hmem => absurd hmem List.not_mem_nil) hprovider hname
    rw [List.append_nil] at hfound
    rw [error.parse_iff_of_head hhead, hfound, readFrom_append]
    refine and_congr_right fun _ => iff_of_false (fun hsame => ?_) fun h => h.1 hname
    have hlast := (congrArg StoredError.provider hsame).trans hstored.1
    have hlength := length_of_lastOf (isQuote_quoteFor name) hlast
    rw [hvalue, List.length_append] at hlength
    omega
  by_cases hreason : Marked tools reason
  · have hsplit : error.reprFields.fields =
        [("provider".toList, name)] ++ ("reason".toList, reason) :: [] := hfields
    obtain ⟨front, back, head, hvalue, -, -, hhead, hfound⟩ :=
      error.headOf_marked hsplit (fun field hmem => List.mem_singleton.mp hmem ▸ ⟨hprovider, hname⟩) hkey hreason
    rw [List.map_append, List.append_assoc] at hfound
    rw [error.parse_iff_of_head hhead, hfound, readFrom_append]
    refine and_congr_right fun _ => iff_of_false (fun hsame => ?_) fun h => h.2 hreason
    have hlast := (congrArg StoredError.reason hsame).trans hstored.2
    have hbefore : lastOf tools "reason".toList
        ([("provider".toList, name)].map (foundField tools)) = none := by
      rw [lastOf_fields]
      rfl
    dsimp only at hlast
    rw [lastOf_append, hbefore, Option.or_none] at hlast
    have hlength := length_of_lastOf (isQuote_quoteFor reason) hlast
    rw [hvalue, List.length_append] at hlength
    omega
  · obtain ⟨head, hhead, hfound⟩ := error.headOf_unmarked fun field hmem => by
      rw [hfields, List.mem_pair] at hmem
      rcases hmem with rfl | rfl
      · exact ⟨hprovider, hname⟩
      · exact ⟨hkey, hreason⟩
    rw [List.map_append, hfields] at hfound
    have hclass : lastOf tools "failure_class".toList
        ([("provider".toList, name), ("reason".toList, reason)].map (foundField tools)) = none := by
      rw [lastOf_fields]
      rfl
    have hcode : lastOf tools "code".toList
        ([("provider".toList, name), ("reason".toList, reason)].map (foundField tools)) = none := by
      rw [lastOf_fields]
      rfl
    have hname' : lastOf tools "provider".toList
        ([("provider".toList, name), ("reason".toList, reason)].map (foundField tools)) = some name := by
      rw [lastOf_fields]
      rfl
    have hreason' : lastOf tools "reason".toList
        ([("provider".toList, name), ("reason".toList, reason)].map (foundField tools)) = some reason := by
      rw [lastOf_fields]
      rfl
    rw [error.parse_iff_of_head hhead, hfound, readFrom_append, hclass, hcode, hname', hreason',
      Option.none_or, Option.none_or, own_class]
    refine and_congr_right fun _ => iff_of_true ?_ ⟨hname, hreason⟩
    simp only [stored, h]

theorem parse_iff_of_port {name : List Char} (h : error.reprFields = .port name) :
    parseStoredError tools error.repr = error.stored ↔ error.typeName.Readable ∧
      ∀ head, headOf tools false (literal tools.tables name) = some head →
        error.Harmless (assignments tools [] head) := by
  have hkey : FieldName "port".toList := fieldName_of_mem (by simp)
  have hstored : error.stored.provider = none ∧ error.stored.reason = none := by
    simp only [stored, h, and_self]
  have hfields : error.reprFields.fields = [("port".toList, name)] := by
    rw [h]
    rfl
  by_cases hname : Marked tools name
  · obtain ⟨front, back, head, -, -, hliteral, hhead, hfound⟩ :=
      error.headOf_marked hfields (fun _ hmem => absurd hmem List.not_mem_nil) hkey hname
    rw [List.append_nil] at hfound
    rw [error.parse_iff_of_head hhead, hfound, error.readFrom_iff_harmless hstored.1 hstored.2]
    refine and_congr_right fun _ => ⟨fun hharmless head' hhead' => ?_, fun h => h _ hliteral⟩
    rw [hliteral] at hhead'
    obtain rfl := Option.some.inj hhead'
    exact hharmless
  · obtain ⟨head, hhead, hfound⟩ := error.headOf_unmarked fun field hmem => by
      rw [hfields] at hmem
      obtain rfl := List.mem_singleton.mp hmem
      exact ⟨hkey, hname⟩
    rw [List.map_append, hfields] at hfound
    rw [error.parse_iff_of_head hhead, hfound, error.readFrom_iff_harmless hstored.1 hstored.2]
    refine and_congr_right fun _ => iff_of_true ⟨?_, ?_, ?_, ?_⟩ fun head' hhead' => ?_
    · intro value hvalue
      rw [lastOf_fields] at hvalue
      cases hvalue
    · intro value hvalue
      rw [lastOf_fields] at hvalue
      cases hvalue
    · rw [lastOf_fields]
      rfl
    · rw [lastOf_fields]
      rfl
    · refine absurd ?_ hname
      rw [Marked, hhead']
      rfl

/-- **Round trip**: an error of the taxonomy is read back from its repr exactly when its type's name can
be read and no mark of the context id stands in what it says of itself. -/
theorem parse_iff : parseStoredError tools error.repr = error.stored ↔ error.Recoverable := by
  cases hfields : error.reprFields with
  | nothing =>
      have hnone : error.stored.provider = none ∧ error.stored.reason = none := by
        simp only [stored, hfields, and_self]
      obtain ⟨head, hhead, hfound⟩ := error.headOf_unmarked fun field hmem => by
        rw [hfields] at hmem
        cases hmem
      rw [hfields, ReprFields.fields, List.append_nil] at hfound
      rw [error.parse_iff_of_head hhead, hfound, ← List.append_nil (error.ownFields.map _),
        error.readFrom_iff_harmless hnone.1 hnone.2, Recoverable, hfields]
      refine and_congr_right fun _ => iff_of_true ⟨?_, ?_, rfl, rfl⟩ trivial
      · intro value hvalue
        rw [lastOf_nil] at hvalue
        cases hvalue
      · intro value hvalue
        rw [lastOf_nil] at hvalue
        cases hvalue
  | provider name reason =>
      rw [error.parse_iff_of_provider hfields, Recoverable, hfields]
  | port name =>
      rw [error.parse_iff_of_port hfields, Recoverable, hfields]

end TaxonomyError

end PersonalOS.Failures
