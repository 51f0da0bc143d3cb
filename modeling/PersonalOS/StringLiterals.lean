import Mathlib.Data.List.Infix
import Mathlib.Tactic.IntervalCases
import Mathlib.Tactic.Ring

/-! # String literals

The literal that a text is written as, between quotes and with escapes, and the text that a literal
is read as.

* **Writing.** `literal` takes single quotes unless double ones save escapes, and escapes what cannot
  be shown.  An escape is the character itself, or a backslash with a letter and digits
  (`escape_cases`).
* **Closing.** `close` finds the end of a literal.  What has been escaped is passed over whole
  (`close_escaped`), and a quote of the other kind ends it where it is a character of the text
  (`close_other`).
* **Reading.** `read` undoes the escapes (`unescape_escaped`). -/

namespace StringLiterals

/-- What is known of characters beyond ASCII. -/
structure Tables where
  /-- The character is shown as it is. -/
  printable : Char → Bool
  /-- The character of a name. -/
  named : List Char → Option Char

/-! ### Writing -/

/-- The last digits of a number, in base 16. -/
def hexText : ℕ → ℕ → List Char
  | 0, _ => []
  | width + 1, n => Nat.digitChar (n / 16 ^ width % 16) :: hexText width n

/-- The character is shown as it is. -/
def shown (tables : Tables) (c : Char) : Bool :=
  if c.toNat < 128 then decide (32 ≤ c.toNat ∧ c.toNat < 127) else tables.printable c

/-- A character between these quotes. -/
def escape (tables : Tables) (quote c : Char) : List Char :=
  if c = '\\' ∨ c = quote then ['\\', c]
  else if c = '\n' then ['\\', 'n']
  else if c = '\r' then ['\\', 'r']
  else if c = '\t' then ['\\', 't']
  else if shown tables c then [c]
  else if c.toNat < 16 ^ 2 then '\\' :: 'x' :: hexText 2 c.toNat
  else if c.toNat < 16 ^ 4 then '\\' :: 'u' :: hexText 4 c.toNat
  else '\\' :: 'U' :: hexText 8 c.toNat

def escaped (tables : Tables) (quote : Char) (text : List Char) : List Char :=
  text.flatMap (escape tables quote)

/-- Double quotes, if there are single ones in the text and no double ones. -/
def quoteFor (text : List Char) : Char :=
  if text.contains '\'' && !text.contains '"' then '"' else '\''

/-- A text as a literal. -/
def literal (tables : Tables) (text : List Char) : List Char :=
  quoteFor text :: (escaped tables (quoteFor text) text ++ [quoteFor text])

/-! ### Closing -/

/-- What stands before the closing quote, and what follows it.  A backslash takes the next character
with it, which may not be a newline in a literal on one line. -/
def close (multiline : Bool) (quote : Char) : List Char → Option (List Char × List Char)
  | [] => none
  | c :: text =>
      if c = quote then some ([], text)
      else if c = '\\' then
        match text with
        | [] => none
        | d :: text =>
            if d = '\n' ∧ !multiline then none
            else (close multiline quote text).map fun closed => (c :: d :: closed.1, closed.2)
      else (close multiline quote text).map fun closed => (c :: closed.1, closed.2)

/-! ### Reading -/

def hexDigit (c : Char) : Option ℕ :=
  if '0' ≤ c ∧ c ≤ '9' then some (c.toNat - 48)
  else if 'a' ≤ c ∧ c ≤ 'f' then some (c.toNat - 87)
  else if 'A' ≤ c ∧ c ≤ 'F' then some (c.toNat - 55)
  else none

def octalDigit (c : Char) : Option ℕ :=
  if '0' ≤ c ∧ c ≤ '7' then some (c.toNat - 48) else none

/-- The character of a number. -/
def charOf (n : ℕ) : Option Char := if n.isValidChar then some (Char.ofNat n) else none

/-- What has been read of an escape. -/
inductive Pending where
  /-- Nothing. -/
  | nothing
  /-- The backslash. -/
  | escape
  /-- Digits of a number, with so many more after the next. -/
  | hex (more value : ℕ)
  /-- Letters of a name. -/
  | name (letters : List Char)

/-- The characters of the one-letter escapes. -/
def shortEscapes : List (Char × Char) :=
  [('\\', '\\'), ('\'', '\''), ('"', '"'), ('a', '\x07'), ('b', '\x08'), ('f', '\x0c'), ('n', '\n'),
    ('r', '\r'), ('t', '\t'), ('v', '\x0b')]

/-- A character before what is read after it. -/
def before (c : Option Char) (text : Option (List Char)) : Option (List Char) :=
  c.bind fun c => text.map (c :: ·)

/-- What stands between the quotes of a literal, with the escapes undone. -/
def read (tables : Tables) : Pending → List Char → Option (List Char)
  | .nothing, [] => some []
  | .nothing, c :: text =>
      if c = '\\' then read tables .escape text
      else if c = '\n' ∨ c = '\r' ∨ c = '\x00' then none
      else before (some c) (read tables .nothing text)
  | .escape, [] => none
  | .escape, c :: text =>
      match shortEscapes.lookup c with
      | some short => before (some short) (read tables .nothing text)
      | none =>
          if c = 'x' then read tables (.hex 1 0) text
          else if c = 'u' then read tables (.hex 3 0) text
          else if c = 'U' then read tables (.hex 7 0) text
          else if c = 'N' then
            match text with
            | [] => none
            | brace :: text => if brace = '\x7b' then read tables (.name []) text else none
          else if c = '\n' then read tables .nothing text
          else if c = '\r' then
            match text with
            | [] => some []
            | d :: text =>
                if d = '\n' then read tables .nothing text else read tables .nothing (d :: text)
          else if c = '\x00' then none
          else
            match octalDigit c with
            | none => before (some '\\') (before (some c) (read tables .nothing text))
            | some high =>
                match text with
                | [] => before (charOf high) (some [])
                | d :: text =>
                    match octalDigit d with
                    | none => before (charOf high) (read tables .nothing (d :: text))
                    | some middle =>
                        match text with
                        | [] => before (charOf (8 * high + middle)) (some [])
                        | e :: text =>
                            match octalDigit e with
                            | none => before (charOf (8 * high + middle)) (read tables .nothing (e :: text))
                            | some low =>
                                before (charOf (8 * (8 * high + middle) + low))
                                  (read tables .nothing text)
  | .hex _ _, [] => none
  | .hex more value, c :: text =>
      match hexDigit c with
      | none => none
      | some digit =>
          match more with
          | 0 => before (charOf (16 * value + digit)) (read tables .nothing text)
          | more + 1 => read tables (.hex more (16 * value + digit)) text
  | .name _, [] => none
  | .name letters, c :: text =>
      if c = '\x7d' then before (tables.named letters) (read tables .nothing text)
      else read tables (.name (letters ++ [c])) text

def unescape (tables : Tables) (text : List Char) : Option (List Char) := read tables .nothing text

/-! ### Escapes -/

section escapes

variable {tables : Tables} {quote c : Char} {text rest : List Char}

/-- A quotation mark that literals stand between. -/
def IsQuote (c : Char) : Prop := c = '\'' ∨ c = '"'

theorem isQuote_quoteFor (text : List Char) : IsQuote (quoteFor text) := by
  unfold quoteFor
  split
  · exact Or.inr rfl
  · exact Or.inl rfl

theorem isAlphanum_digitChar {n : ℕ} (h : n < 16) : (Nat.digitChar n).isAlphanum = true := by
  interval_cases n <;> decide

theorem isAlphanum_hexText {width n : ℕ} : ∀ d ∈ hexText width n, d.isAlphanum = true := by
  induction width with
  | zero => exact fun d hd => absurd hd List.not_mem_nil
  | succ width ih =>
      intro d hd
      rcases List.mem_cons.mp hd with rfl | hd
      · exact isAlphanum_digitChar (Nat.mod_lt _ (by decide))
      · exact ih d hd

/-- A character is written as it is, or as a backslash, a letter that it takes with it, and digits. -/
theorem escape_cases (tables : Tables) (quote c : Char) :
    escape tables quote c = [c] ∧ c ≠ '\\' ∧ c ≠ quote ∨
    ∃ letter digits, escape tables quote c = '\\' :: letter :: digits ∧
      (letter = '\\' ∨ letter = quote ∨ letter ∈ ['n', 'r', 't', 'x', 'u', 'U']) ∧
      (∀ d ∈ digits, d.isAlphanum = true) ∧ (digits = [] ∨ letter.isAlphanum = true) := by
  unfold escape
  split
  · rename_i hc
    rcases hc with rfl | rfl
    · exact Or.inr ⟨_, [], rfl, Or.inl rfl, by simp, Or.inl rfl⟩
    · exact Or.inr ⟨_, [], rfl, Or.inr (Or.inl rfl), by simp, Or.inl rfl⟩
  · rename_i hc
    split
    · exact Or.inr ⟨'n', [], rfl, by simp, by simp, Or.inl rfl⟩
    split
    · exact Or.inr ⟨'r', [], rfl, by simp, by simp, Or.inl rfl⟩
    split
    · exact Or.inr ⟨'t', [], rfl, by simp, by simp, Or.inl rfl⟩
    split
    · exact Or.inl ⟨rfl, fun h => hc (Or.inl h), fun h => hc (Or.inr h)⟩
    split
    · exact Or.inr ⟨'x', _, rfl, by simp, isAlphanum_hexText, Or.inr (by decide)⟩
    split
    · exact Or.inr ⟨'u', _, rfl, by simp, isAlphanum_hexText, Or.inr (by decide)⟩
    · exact Or.inr ⟨'U', _, rfl, by simp, isAlphanum_hexText, Or.inr (by decide)⟩

theorem escape_other {quote' : Char} (hquote : IsQuote quote) (hquote' : IsQuote quote')
    (hne : quote' ≠ quote) : escape tables quote quote' = [quote'] := by
  rcases hquote with rfl | rfl <;> rcases hquote' with rfl | rfl
  · exact absurd rfl hne
  · rfl
  · rfl
  · exact absurd rfl hne

@[simp] theorem escaped_nil : escaped tables quote [] = [] := rfl

@[simp] theorem escaped_cons :
    escaped tables quote (c :: text) = escape tables quote c ++ escaped tables quote text := rfl

@[simp] theorem escaped_append :
    escaped tables quote (text ++ rest) = escaped tables quote text ++ escaped tables quote rest :=
  List.flatMap_append

/-! ### Where a literal ends -/

variable {multiline : Bool}

theorem close_plain (hquote : c ≠ quote) (hslash : c ≠ '\\') :
    close multiline quote (c :: text) =
      (close multiline quote text).map fun closed => (c :: closed.1, closed.2) := by
  rw [close.eq_def]
  dsimp only
  rw [if_neg hquote, if_neg hslash]

theorem close_pair (hquote : '\\' ≠ quote) (hc : c ≠ '\n') :
    close multiline quote ('\\' :: c :: text) =
      (close multiline quote text).map fun closed => ('\\' :: c :: closed.1, closed.2) := by
  rw [close.eq_def]
  dsimp only
  rw [if_neg hquote, if_pos rfl, if_neg (by simp [hc])]

theorem close_append {front : List Char} (hfront : ∀ d ∈ front, d ≠ quote ∧ d ≠ '\\') :
    close multiline quote (front ++ text) =
      (close multiline quote text).map fun closed => (front ++ closed.1, closed.2) := by
  induction front with
  | nil => simp
  | cons d front ih =>
      obtain ⟨hquote, hslash⟩ := hfront d List.mem_cons_self
      rw [List.cons_append, close_plain hquote hslash,
        ih fun e he => hfront e (List.mem_cons_of_mem _ he), Option.map_map]
      rfl

theorem close_escape {quote' : Char} (hquote : IsQuote quote) (hquote' : IsQuote quote')
    (hc : c ≠ quote' ∨ quote' = quote) :
    close multiline quote' (escape tables quote c ++ text) =
      (close multiline quote' text).map fun closed => (escape tables quote c ++ closed.1, closed.2) := by
  rcases escape_cases tables quote c with ⟨hesc, hslash, hplain⟩ | ⟨letter, digits, hesc, hletter, hdigits, -⟩
  · rw [hesc, List.singleton_append, close_plain ?_ hslash]
    · rfl
    · rcases hc with hc | rfl
      · exact hc
      · exact hplain
  · have hslash : '\\' ≠ quote' := by rcases hquote' with rfl | rfl <;> decide
    have hnewline : letter ≠ '\n' := by
      rcases hletter with rfl | rfl | hletter
      · decide
      · rcases hquote with rfl | rfl <;> decide
      · rintro rfl
        revert hletter
        decide
    have hpass : ∀ d ∈ digits, d ≠ quote' ∧ d ≠ '\\' := by
      intro d hd
      have halnum := hdigits d hd
      constructor
      · rintro rfl
        rcases hquote' with rfl | rfl <;> exact absurd halnum (by decide)
      · rintro rfl
        exact absurd halnum (by decide)
    rw [hesc, List.cons_append, List.cons_append, close_pair hslash hnewline, close_append hpass,
      Option.map_map]
    rfl

theorem close_escaped_append {quote' : Char} (hquote : IsQuote quote) (hquote' : IsQuote quote')
    (htext : quote' ∉ text ∨ quote' = quote) :
    close multiline quote' (escaped tables quote text ++ rest) =
      (close multiline quote' rest).map fun closed => (escaped tables quote text ++ closed.1, closed.2) := by
  induction text with
  | nil => simp
  | cons c text ih =>
      have hc : c ≠ quote' ∨ quote' = quote :=
        htext.imp (fun h heq => h (heq ▸ List.mem_cons_self)) id
      have hrest : quote' ∉ text ∨ quote' = quote :=
        htext.imp (fun h hmem => h (List.mem_cons_of_mem _ hmem)) id
      rw [escaped_cons, List.append_assoc, close_escape hquote hquote' hc, ih hrest, Option.map_map]
      congr 1
      funext closed
      simp

theorem close_quote : close multiline quote (quote :: text) = some ([], text) := by
  rw [close.eq_def]
  dsimp only
  rw [if_pos rfl]

/-- A literal ends at the quote after the escaped text. -/
theorem close_escaped (hquote : IsQuote quote) :
    close multiline quote (escaped tables quote text ++ quote :: rest) =
      some (escaped tables quote text, rest) := by
  rw [close_escaped_append hquote hquote (Or.inr rfl), close_quote]
  simp

/-- A quote of the other kind finds its end at the next such character of the text. -/
theorem close_other {quote' : Char} (hquote : IsQuote quote) (hquote' : IsQuote quote')
    (hne : quote' ≠ quote) {front back : List Char} (hfront : quote' ∉ front) :
    close multiline quote' (escaped tables quote (front ++ quote' :: back)) =
      some (escaped tables quote front, escaped tables quote back) := by
  rw [escaped_append, escaped_cons, escape_other hquote hquote' hne, List.singleton_append,
    close_escaped_append hquote hquote' (Or.inl hfront), close_quote]
  simp

theorem eq_of_close {content : List Char} (h : close multiline quote text = some (content, rest)) :
    text = content ++ quote :: rest := by
  fun_induction close multiline quote text generalizing content with
  | case1 => cases h
  | case2 text =>
      cases h
      rfl
  | case3 => cases h
  | case4 => cases h
  | case5 d text hnewline hslash ih =>
      obtain ⟨closed, hclosed, heq⟩ := Option.map_eq_some_iff.mp h
      cases heq
      rw [ih hclosed]
      rfl
  | case6 d text hquote hslash ih =>
      obtain ⟨closed, hclosed, heq⟩ := Option.map_eq_some_iff.mp h
      cases heq
      rw [ih hclosed]
      rfl

theorem close_before {front content : List Char} (hc : c ≠ quote) (hslash : c ≠ '\\')
    (h : close multiline quote (front ++ c :: quote :: text) = some (content, rest)) :
    ∃ between, rest = between ++ text := by
  generalize hall : front ++ c :: quote :: text = all at h
  fun_induction close multiline quote all generalizing front content with
  | case1 => cases h
  | case2 tail =>
      cases h
      cases front with
      | nil => exact absurd (List.cons.inj hall).1 hc
      | cons d front =>
          refine ⟨front ++ [c, quote], ?_⟩
          rw [← (List.cons.inj hall).2]
          simp
  | case3 => cases h
  | case4 => cases h
  | case5 d tail hnewline hne ih =>
      obtain ⟨closed, hclosed, heq⟩ := Option.map_eq_some_iff.mp h
      cases heq
      cases front with
      | nil => exact absurd (List.cons.inj hall).1 hslash
      | cons e front =>
          have htail := (List.cons.inj hall).2
          cases front with
          | nil =>
              obtain rfl := (List.cons.inj htail).2
              rw [close_quote] at hclosed
              cases hclosed
              exact ⟨[], rfl⟩
          | cons e front => exact ih (List.cons.inj htail).2 hclosed
  | case6 d tail hquote hne ih =>
      obtain ⟨closed, hclosed, heq⟩ := Option.map_eq_some_iff.mp h
      cases heq
      cases front with
      | nil =>
          obtain rfl := (List.cons.inj hall).2
          rw [close_quote] at hclosed
          cases hclosed
          exact ⟨[], rfl⟩
      | cons e front => exact ih (List.cons.inj hall).2 hclosed

/-! ### What a literal is read as -/

theorem hexDigit_digitChar {n : ℕ} (h : n < 16) : hexDigit (Nat.digitChar n) = some n := by
  interval_cases n <;> decide

theorem read_hexText (width value n : ℕ) :
    read tables (.hex width value) (hexText (width + 1) n ++ text) =
      before (charOf (value * 16 ^ (width + 1) + n % 16 ^ (width + 1))) (read tables .nothing text) := by
  have hstep : ∀ (more value n : ℕ) (text : List Char),
      read tables (.hex more value) (Nat.digitChar (n % 16) :: text) =
        if more = 0 then before (charOf (16 * value + n % 16)) (read tables .nothing text)
        else read tables (.hex (more - 1) (16 * value + n % 16)) text := by
    intro more value n text
    rw [read, hexDigit_digitChar (Nat.mod_lt _ (by decide))]
    cases more with
    | zero => rfl
    | succ more => rfl
  induction width generalizing value with
  | zero =>
      rw [hexText, hexText, List.cons_append, hstep, if_pos rfl, pow_zero, Nat.div_one, zero_add, pow_one,
        mul_comm, List.nil_append]
  | succ width ih =>
      have hmod : n % 16 ^ (width + 2) =
          n % 16 ^ (width + 1) + 16 ^ (width + 1) * (n / 16 ^ (width + 1) % 16) := Nat.mod_pow_succ
      rw [hexText, List.cons_append, hstep, if_neg (Nat.succ_ne_zero _), Nat.add_sub_cancel, ih, hmod]
      congr 2
      ring

theorem charOf_toNat (c : Char) : charOf c.toNat = some c := by
  unfold charOf
  have hvalid : c.toNat.isValidChar := c.valid
  rw [if_pos hvalid, Char.ofNat_toNat]

theorem read_escape (hquote : IsQuote quote) :
    read tables .nothing (escape tables quote c ++ text) =
      before (some c) (read tables .nothing text) := by
  have hletter : ∀ (letter : Char) (short : Char), shortEscapes.lookup letter = some short →
      read tables .nothing ('\\' :: letter :: text) = before (some short) (read tables .nothing text) := by
    intro letter short hlookup
    rw [read, if_pos rfl, read.eq_def]
    dsimp only
    rw [hlookup]
  have hhex : ∀ (letter : Char) (width : ℕ), c.toNat < 16 ^ (width + 1) →
      (∀ text, read tables .escape (letter :: text) = read tables (.hex width 0) text) →
        read tables .nothing ('\\' :: letter :: (hexText (width + 1) c.toNat ++ text)) =
          before (some c) (read tables .nothing text) := by
    intro letter width hlt hopen
    rw [read, if_pos rfl, hopen, read_hexText, zero_mul, zero_add, Nat.mod_eq_of_lt hlt, charOf_toNat]
  unfold escape
  split
  · rename_i hc
    refine hletter c c ?_
    rcases hc with rfl | rfl
    · rfl
    · rcases hquote with rfl | rfl <;> rfl
  split
  · rename_i hc
    subst hc
    exact hletter 'n' '\n' rfl
  split
  · rename_i hc
    subst hc
    exact hletter 'r' '\r' rfl
  split
  · rename_i hc
    subst hc
    exact hletter 't' '\t' rfl
  split
  · rename_i hplain hnewline hreturn htab hshown
    have hnull : c ≠ '\x00' := by
      rintro rfl
      cases hshown
    rw [List.singleton_append, read, if_neg (fun h => hplain (Or.inl h)), if_neg]
    rintro (h | h | h)
    · exact hnewline h
    · exact hreturn h
    · exact hnull h
  split
  · rename_i hlt
    exact hhex 'x' 1 hlt fun text => by rw [read.eq_def]; rfl
  split
  · rename_i hlt
    exact hhex 'u' 3 hlt fun text => by rw [read.eq_def]; rfl
  · refine hhex 'U' 7 ?_ fun text => by rw [read.eq_def]; rfl
    have hvalid := c.valid
    have hbound : c.toNat < 0x110000 := by
      rcases hvalid with h | ⟨-, h⟩
      · exact lt_trans h (by decide)
      · exact h
    exact lt_trans hbound (by decide)

/-- An escaped text is read as the text. -/
theorem unescape_escaped (hquote : IsQuote quote) :
    unescape tables (escaped tables quote text) = some text := by
  induction text with
  | nil => rfl
  | cons c text ih =>
      rw [unescape, escaped_cons, read_escape hquote]
      unfold unescape at ih
      rw [ih]
      rfl

end escapes

end StringLiterals
