import Mathlib.Data.Nat.Digits.Defs
import Mathlib.Data.List.Forall2
import Mathlib.Data.Int.Notation
import Mathlib.Tactic.IntervalCases

/-! # The text of a JSON document

A document as it is written on one line, in ASCII: members separated by `, ` and `: `, strings
escaped.

* **Pieces.** A code unit is read back from its escape (`unescape_escape`), a number from its digits
  as long as none follow (`intText_append_inj`).
* **Documents.** The first character tells the kind of a document (`kind_text`), and a document is
  told from what follows it (`text_append_inj`); so different documents have different texts
  (`text_injective`). -/

namespace JsonText

/-- A UTF-16 code unit. -/
abbrev CodeUnit := Fin 65536

inductive Json where
  | null
  | bool (b : Bool)
  | num (n : ℤ)
  | str (units : List CodeUnit)
  | arr (items : List Json)
  | obj (members : List (List CodeUnit × Json))

/-! ### Texts -/

def quote : Char := Char.ofNat 0x22
def backslash : Char := Char.ofNat 0x5c

/-- The letters of the short escapes. -/
def shortEscapes : List (ℕ × Char) :=
  [(0x22, quote), (0x5c, backslash), (0x0a, 'n'), (0x0d, 'r'), (0x09, 't'), (0x0c, 'f'), (0x08, 'b')]

def hexText (unit : ℕ) : List Char :=
  [Nat.digitChar (unit / 4096), Nat.digitChar (unit / 256 % 16), Nat.digitChar (unit / 16 % 16),
    Nat.digitChar (unit % 16)]

/-- A code unit in a string: a short escape, itself if it is printable, or its number. -/
def escape (unit : CodeUnit) : List Char :=
  match shortEscapes.lookup unit.val with
  | some letter => [backslash, letter]
  | none =>
      if 0x20 ≤ unit.val ∧ unit.val ≤ 0x7e then [Char.ofNat unit.val]
      else backslash :: 'u' :: hexText unit.val

def stringText (units : List CodeUnit) : List Char := quote :: (units.flatMap escape ++ [quote])

def intText (n : ℤ) : List Char :=
  if n < 0 then '-' :: Nat.toDigits 10 n.natAbs else Nat.toDigits 10 n.natAbs

mutual

def text : Json → List Char
  | .null => "null".toList
  | .bool true => "true".toList
  | .bool false => "false".toList
  | .num n => intText n
  | .str units => stringText units
  | .arr [] => ['[', ']']
  | .arr (item :: items) => '[' :: (text item ++ itemsText items)
  | .obj [] => ['\x7b', '\x7d']
  | .obj ((key, value) :: members) =>
      '\x7b' :: (stringText key ++ (':' :: ' ' :: text value) ++ membersText members)

/-- The items after the first, and the end. -/
def itemsText : List Json → List Char
  | [] => [']']
  | item :: items => ',' :: ' ' :: (text item ++ itemsText items)

def membersText : List (List CodeUnit × Json) → List Char
  | [] => ['\x7d']
  | (key, value) :: members =>
      ',' :: ' ' :: (stringText key ++ (':' :: ' ' :: text value) ++ membersText members)

end

/-! ### Pieces -/

/-- What is of a class is told from what follows, if that does not begin with the class. -/
theorem append_inj_of_class {p : Char → Bool} {front front' rest rest' : List Char}
    (hfront : ∀ c ∈ front, p c = true) (hfront' : ∀ c ∈ front', p c = true)
    (hrest : ∀ c ∈ rest.head?, p c = false) (hrest' : ∀ c ∈ rest'.head?, p c = false)
    (h : front ++ rest = front' ++ rest') : front = front' ∧ rest = rest' := by
  induction front generalizing front' with
  | nil =>
      cases front' with
      | nil => exact ⟨rfl, h⟩
      | cons c front' =>
          have hc := hfront' c List.mem_cons_self
          rw [hrest c (by rw [show rest = _ from h]; rfl)] at hc
          cases hc
  | cons c front ih =>
      cases front' with
      | nil =>
          have hc := hfront c List.mem_cons_self
          rw [hrest' c (by rw [show rest' = _ from h.symm]; rfl)] at hc
          cases hc
      | cons c' front' =>
          obtain ⟨rfl, htail⟩ := List.cons.inj h
          obtain ⟨rfl, hsame⟩ := ih (fun d hd => hfront d (List.mem_cons_of_mem c hd))
            (fun d hd => hfront' d (List.mem_cons_of_mem c hd)) htail
          exact ⟨rfl, hsame⟩

/-- No digit comes next. -/
def Ends (rest : List Char) : Prop := ∀ c ∈ rest.head?, c.isDigit = false

theorem toDigits_append_inj {m n : ℕ} {rest rest' : List Char} (hrest : Ends rest)
    (hrest' : Ends rest') (h : Nat.toDigits 10 m ++ rest = Nat.toDigits 10 n ++ rest') :
    m = n ∧ rest = rest' := by
  have hdigits : ∀ k, ∀ c ∈ Nat.toDigits 10 k, c.isDigit = true := by
    intro k c hc
    exact Nat.isDigit_of_mem_toDigits (by decide) (by decide) hc
  obtain ⟨hsame, rfl⟩ := append_inj_of_class (hdigits m) (hdigits n) hrest hrest' h
  refine ⟨?_, rfl⟩
  rw [← Nat.ofDigitChars_ten_toDigits (n := m), hsame, Nat.ofDigitChars_ten_toDigits]

/-- The first digit of a number. -/
theorem toDigits_cons (n : ℕ) : ∃ c l, Nat.toDigits 10 n = c :: l ∧ c.isDigit = true := by
  cases hdigits : Nat.toDigits 10 n with
  | nil => exact absurd hdigits Nat.toDigits_ne_nil
  | cons c l =>
      refine ⟨c, l, rfl, ?_⟩
      exact Nat.isDigit_of_mem_toDigits (b := 10) (n := n) (by decide) (by decide)
        (by rw [hdigits]; exact List.mem_cons_self)

theorem intText_append_inj {m n : ℤ} {rest rest' : List Char} (hrest : Ends rest)
    (hrest' : Ends rest') (h : intText m ++ rest = intText n ++ rest') : m = n ∧ rest = rest' := by
  have hminus : ∀ (k : ℕ) (l l' : List Char), Nat.toDigits 10 k ++ l ≠ '-' :: l' := by
    intro k l l' heq
    obtain ⟨c, digits, hdigits, hc⟩ := toDigits_cons k
    rw [hdigits] at heq
    rw [(List.cons.inj heq).1] at hc
    exact absurd hc (by decide)
  unfold intText at h
  split at h
  · split at h
    · obtain ⟨hsame, rfl⟩ := toDigits_append_inj hrest hrest' (List.cons.inj h).2
      exact ⟨by omega, rfl⟩
    · exact absurd h.symm (hminus _ _ _)
  · split at h
    · exact absurd h (hminus _ _ _)
    · obtain ⟨hsame, rfl⟩ := toDigits_append_inj hrest hrest' h
      exact ⟨by omega, rfl⟩

def hexValue (c : Char) : ℕ := if c.toNat < 58 then c.toNat - 48 else c.toNat - 87

theorem hexValue_digitChar {d : ℕ} (h : d < 16) : hexValue (Nat.digitChar d) = d := by
  interval_cases d <;> rfl

/-- The number of the code unit at the beginning of a string, and what follows. -/
def unescape : List Char → ℕ × List Char
  | [] => (0, [])
  | [c] => (c.toNat, [])
  | c :: d :: rest =>
      if c = backslash then
        if d = 'u' then
          (4096 * hexValue (rest.getD 0 d) + 256 * hexValue (rest.getD 1 d) +
            16 * hexValue (rest.getD 2 d) + hexValue (rest.getD 3 d), rest.drop 4)
        else (((shortEscapes.find? fun short => short.2 == d).map (·.1)).getD 0, rest)
      else (c.toNat, d :: rest)

theorem shortEscapes_back : ∀ short ∈ shortEscapes, short.2 ≠ 'u' ∧
    (shortEscapes.find? fun other => other.2 == short.2).map (·.1) = some short.1 := by
  decide

theorem mem_of_lookup {α β : Type} [BEq α] [LawfulBEq α] {a : α} {b : β} {l : List (α × β)}
    (h : l.lookup a = some b) : (a, b) ∈ l := by
  induction l with
  | nil => cases h
  | cons first l ih =>
      obtain ⟨a', b'⟩ := first
      rw [List.lookup_cons] at h
      split at h
      · rename_i heq
        obtain rfl := Option.some.inj h
        rw [eq_of_beq heq]
        exact List.mem_cons_self
      · exact List.mem_cons_of_mem _ (ih h)

theorem printable_toNat : ∀ n < 127, (Char.ofNat n).toNat = n := by
  decide

theorem unescape_escape (unit : CodeUnit) (rest : List Char) :
    unescape (escape unit ++ rest) = (unit.val, rest) := by
  unfold escape
  cases hshort : shortEscapes.lookup unit.val with
  | some letter =>
      obtain ⟨hletter, hback⟩ := shortEscapes_back _ (mem_of_lookup hshort)
      show unescape (backslash :: letter :: rest) = _
      rw [unescape, if_pos rfl, if_neg hletter, hback, Option.getD_some]
  | none =>
      dsimp only
      split
      · rename_i hprintable
        have hnat : (Char.ofNat unit.val).toNat = unit.val := printable_toNat _ (by omega)
        have hbackslash : Char.ofNat unit.val ≠ backslash := by
          intro heq
          have hcode : unit.val = 0x5c := by
            rw [← hnat, heq]
            rfl
          rw [hcode] at hshort
          exact absurd hshort (by decide)
        cases rest with
        | nil => exact Prod.ext hnat rfl
        | cons d rest =>
            show unescape (Char.ofNat unit.val :: d :: rest) = _
            rw [unescape, if_neg hbackslash, hnat]
      · have hlt := unit.isLt
        show unescape (backslash :: 'u' :: (hexText unit.val ++ rest)) = _
        rw [unescape, if_pos rfl, if_pos rfl]
        unfold hexText
        refine Prod.ext ?_ rfl
        show 4096 * hexValue (Nat.digitChar (unit.val / 4096)) +
          256 * hexValue (Nat.digitChar (unit.val / 256 % 16)) +
          16 * hexValue (Nat.digitChar (unit.val / 16 % 16)) +
          hexValue (Nat.digitChar (unit.val % 16)) = unit.val
        rw [hexValue_digitChar (by omega), hexValue_digitChar (by omega),
          hexValue_digitChar (by omega), hexValue_digitChar (by omega)]
        omega

theorem escape_append_inj {unit unit' : CodeUnit} {rest rest' : List Char}
    (h : escape unit ++ rest = escape unit' ++ rest') : unit = unit' ∧ rest = rest' := by
  have hread := congrArg unescape h
  rw [unescape_escape, unescape_escape] at hread
  obtain ⟨hunit, hrest⟩ := Prod.mk.inj hread
  exact ⟨Fin.ext hunit, hrest⟩

/-- An escape is not empty, and does not begin with a quote. -/
theorem escape_cons (unit : CodeUnit) : ∃ c l, escape unit = c :: l ∧ c ≠ quote := by
  unfold escape
  cases hshort : shortEscapes.lookup unit.val with
  | some letter => exact ⟨backslash, [letter], rfl, by decide⟩
  | none =>
      dsimp only
      split
      · rename_i hprintable
        refine ⟨Char.ofNat unit.val, [], rfl, fun heq => ?_⟩
        have hcode : unit.val = 0x22 := by
          rw [← printable_toNat unit.val (by omega), heq]
          rfl
        rw [hcode] at hshort
        exact absurd hshort (by decide)
      · exact ⟨backslash, 'u' :: hexText unit.val, rfl, by decide⟩

theorem stringText_append_inj {units units' : List CodeUnit} {rest rest' : List Char}
    (h : stringText units ++ rest = stringText units' ++ rest') : units = units' ∧ rest = rest' := by
  have hbody : units.flatMap escape ++ [quote] ++ rest = units'.flatMap escape ++ [quote] ++ rest' :=
    (List.cons.inj h).2
  rw [List.append_assoc, List.append_assoc] at hbody
  clear h
  induction units generalizing units' with
  | nil =>
      cases units' with
      | nil => exact ⟨rfl, (List.cons.inj hbody).2⟩
      | cons unit' units' =>
          obtain ⟨c, l, hescape, hc⟩ := escape_cons unit'
          rw [List.flatMap_cons, hescape] at hbody
          exact absurd (List.cons.inj hbody).1.symm hc
  | cons unit units ih =>
      cases units' with
      | nil =>
          obtain ⟨c, l, hescape, hc⟩ := escape_cons unit
          rw [List.flatMap_cons, hescape] at hbody
          exact absurd (List.cons.inj hbody).1 hc
      | cons unit' units' =>
          rw [List.flatMap_cons, List.flatMap_cons, List.append_assoc, List.append_assoc] at hbody
          obtain ⟨rfl, htail⟩ := escape_append_inj hbody
          obtain ⟨rfl, hrest⟩ := ih htail
          exact ⟨rfl, hrest⟩

/-! ### Documents -/

/-- Induction over documents: what is in them comes first. -/
theorem Json.inductOn {P : Json → Prop} (json : Json) (null : P .null) (bool : ∀ b, P (.bool b))
    (num : ∀ n, P (.num n)) (str : ∀ units, P (.str units))
    (arr : ∀ items, (∀ item ∈ items, P item) → P (.arr items))
    (obj : ∀ members, (∀ member ∈ members, P member.2) → P (.obj members)) : P json := by
  have hnil : ∀ (α : Type) (p : α → Prop), ∀ x ∈ ([] : List α), p x := by
    intro α p x hx
    cases hx
  have hcons : ∀ (α : Type) (p : α → Prop) (x : α) (l : List α), p x → (∀ y ∈ l, p y) →
      ∀ y ∈ x :: l, p y := by
    intro α p x l hx hl y hy
    rcases List.mem_cons.mp hy with rfl | hy
    · exact hx
    · exact hl y hy
  exact @Json.rec P (fun items => ∀ item ∈ items, P item) (fun members => ∀ member ∈ members, P member.2)
    (fun member => P member.2) null bool num str arr obj (hnil _ _) (hcons _ P) (hnil _ _)
    (hcons (List CodeUnit × Json) fun member => P member.2) (fun _ _ h => h) json

def Json.kind : Json → ℕ
  | .null => 0
  | .bool true => 1
  | .bool false => 2
  | .num _ => 3
  | .str _ => 4
  | .arr _ => 5
  | .obj _ => 6

/-- The kind of document that begins with the character. -/
def kindOf (c : Char) : ℕ :=
  if c = 'n' then 0 else if c = 't' then 1 else if c = 'f' then 2 else if c = quote then 4
  else if c = '[' then 5 else if c = '\x7b' then 6 else if c = '-' ∨ c.isDigit = true then 3 else 7

/-- The first character tells the kind of a document. -/
theorem kind_text (json : Json) : ∃ c l, text json = c :: l ∧ kindOf c = json.kind := by
  have hdigit : ∀ c : Char, c.isDigit = true → kindOf c = 3 := by
    intro c hc
    unfold kindOf
    have hne : ∀ d : Char, d.isDigit = false → c ≠ d := by
      rintro d hd rfl
      rw [hc] at hd
      cases hd
    rw [if_neg (hne 'n' (by decide)), if_neg (hne 't' (by decide)), if_neg (hne 'f' (by decide)),
      if_neg (hne quote (by decide)), if_neg (hne '[' (by decide)), if_neg (hne '\x7b' (by decide)),
      if_pos (Or.inr hc)]
  cases json with
  | null => exact ⟨'n', _, rfl, rfl⟩
  | bool b =>
      cases b with
      | true => exact ⟨'t', _, rfl, rfl⟩
      | false => exact ⟨'f', _, rfl, rfl⟩
  | num n =>
      show ∃ c l, intText n = c :: l ∧ kindOf c = 3
      unfold intText
      split
      · exact ⟨'-', _, rfl, rfl⟩
      · obtain ⟨c, l, hdigits, hc⟩ := toDigits_cons n.natAbs
        exact ⟨c, l, hdigits, hdigit c hc⟩
  | str units => exact ⟨quote, _, rfl, rfl⟩
  | arr items =>
      cases items with
      | nil => exact ⟨'[', _, rfl, rfl⟩
      | cons item items => exact ⟨'[', _, rfl, rfl⟩
  | obj members =>
      cases members with
      | nil => exact ⟨'\x7b', _, rfl, rfl⟩
      | cons member members =>
          obtain ⟨key, value⟩ := member
          exact ⟨'\x7b', _, rfl, rfl⟩

theorem kind_eq {json json' : Json} {rest rest' : List Char}
    (h : text json ++ rest = text json' ++ rest') : json.kind = json'.kind := by
  obtain ⟨c, l, htext, hkind⟩ := kind_text json
  obtain ⟨c', l', htext', hkind'⟩ := kind_text json'
  rw [htext, htext'] at h
  rw [← hkind, ← hkind', (List.cons.inj h).1]

/-- No document begins with what closes one. -/
theorem text_ne_close {json : Json} {c : Char} {l rest : List Char} (hc : kindOf c = 7) :
    text json ++ rest ≠ c :: l := by
  intro h
  obtain ⟨c', l', htext, hkind⟩ := kind_text json
  rw [htext] at h
  rw [(List.cons.inj h).1, hc] at hkind
  cases json with
  | bool b => cases b with
    | true => cases hkind
    | false => cases hkind
  | null => cases hkind
  | num n => cases hkind
  | str units => cases hkind
  | arr items => cases hkind
  | obj members => cases hkind

/-- The document is told from what follows it. -/
def Told (json : Json) : Prop :=
  ∀ json' rest rest', Ends rest → Ends rest' → text json ++ rest = text json' ++ rest' →
    json = json' ∧ rest = rest'

theorem ends_itemsText (items : List Json) (rest : List Char) : Ends (itemsText items ++ rest) := by
  intro c hc
  cases items with
  | nil =>
      obtain rfl := Option.some.inj hc
      decide
  | cons item items =>
      obtain rfl := Option.some.inj hc
      decide

theorem ends_membersText (members : List (List CodeUnit × Json)) (rest : List Char) :
    Ends (membersText members ++ rest) := by
  intro c hc
  cases members with
  | nil =>
      obtain rfl := Option.some.inj hc
      decide
  | cons member members =>
      obtain rfl := Option.some.inj hc
      decide

theorem first_append_inj {item item' : Json} {items items' : List Json} {rest rest' : List Char}
    (hitem : Told item)
    (h : text item ++ itemsText items ++ rest = text item' ++ itemsText items' ++ rest') :
    item = item' ∧ itemsText items ++ rest = itemsText items' ++ rest' := by
  rw [List.append_assoc, List.append_assoc] at h
  exact hitem item' _ _ (ends_itemsText items rest) (ends_itemsText items' rest') h

theorem itemsText_append_inj {items items' : List Json} {rest rest' : List Char}
    (hitems : ∀ item ∈ items, Told item) (h : itemsText items ++ rest = itemsText items' ++ rest') :
    items = items' ∧ rest = rest' := by
  induction items generalizing items' with
  | nil =>
      cases items' with
      | nil => exact ⟨rfl, (List.cons.inj h).2⟩
      | cons item' items' => exact absurd (List.cons.inj h).1 (by decide)
  | cons item items ih =>
      cases items' with
      | nil => exact absurd (List.cons.inj h).1 (by decide)
      | cons item' items' =>
          obtain ⟨rfl, htail⟩ := first_append_inj (hitems item List.mem_cons_self)
            (List.cons.inj (List.cons.inj h).2).2
          obtain ⟨rfl, hrest⟩ := ih (fun other hother => hitems other (List.mem_cons_of_mem item hother))
            htail
          exact ⟨rfl, hrest⟩

theorem member_append_inj {key key' : List CodeUnit} {value value' : Json}
    {members members' : List (List CodeUnit × Json)} {rest rest' : List Char} (hvalue : Told value)
    (h : stringText key ++ (':' :: ' ' :: text value) ++ membersText members ++ rest =
      stringText key' ++ (':' :: ' ' :: text value') ++ membersText members' ++ rest') :
    (key, value) = (key', value') ∧ membersText members ++ rest = membersText members' ++ rest' := by
  rw [List.append_assoc, List.append_assoc, List.append_assoc, List.append_assoc] at h
  obtain ⟨rfl, hafter⟩ := stringText_append_inj h
  have hvalues : text value ++ (membersText members ++ rest) =
      text value' ++ (membersText members' ++ rest') :=
    (List.cons.inj (List.cons.inj hafter).2).2
  obtain ⟨rfl, htail⟩ := hvalue value' _ _ (ends_membersText members rest)
    (ends_membersText members' rest') hvalues
  exact ⟨rfl, htail⟩

theorem membersText_append_inj {members members' : List (List CodeUnit × Json)}
    {rest rest' : List Char} (hmembers : ∀ member ∈ members, Told member.2)
    (h : membersText members ++ rest = membersText members' ++ rest') :
    members = members' ∧ rest = rest' := by
  induction members generalizing members' with
  | nil =>
      cases members' with
      | nil => exact ⟨rfl, (List.cons.inj h).2⟩
      | cons member' members' => exact absurd (List.cons.inj h).1 (by decide)
  | cons member members ih =>
      cases members' with
      | nil => exact absurd (List.cons.inj h).1 (by decide)
      | cons member' members' =>
          obtain ⟨hsame, htail⟩ := member_append_inj (hmembers member List.mem_cons_self)
            (List.cons.inj (List.cons.inj h).2).2
          obtain ⟨rfl, hrest⟩ := ih
            (fun other hother => hmembers other (List.mem_cons_of_mem member hother)) htail
          exact ⟨congrArg (· :: members) hsame, hrest⟩

/-- **A document is told from what follows it**, unless that goes on with a digit. -/
theorem text_append_inj (json : Json) : Told json := by
  induction json using Json.inductOn with
  | null =>
      intro json' rest rest' _ _ h
      have hkind := kind_eq h
      cases json' with
      | null => exact ⟨rfl, List.append_cancel_left h⟩
      | bool b => cases b with
        | true => cases hkind
        | false => cases hkind
      | num n => cases hkind
      | str units => cases hkind
      | arr items => cases hkind
      | obj members => cases hkind
  | bool b =>
      intro json' rest rest' _ _ h
      have hkind := kind_eq h
      cases json' with
      | bool b' =>
          cases b with
          | true => cases b' with
            | true => exact ⟨rfl, List.append_cancel_left h⟩
            | false => cases hkind
          | false => cases b' with
            | true => cases hkind
            | false => exact ⟨rfl, List.append_cancel_left h⟩
      | null => cases b <;> cases hkind
      | num n => cases b <;> cases hkind
      | str units => cases b <;> cases hkind
      | arr items => cases b <;> cases hkind
      | obj members => cases b <;> cases hkind
  | num n =>
      intro json' rest rest' hrest hrest' h
      have hkind := kind_eq h
      cases json' with
      | num n' =>
          obtain ⟨rfl, hsame⟩ := intText_append_inj hrest hrest' h
          exact ⟨rfl, hsame⟩
      | bool b => cases b with
        | true => cases hkind
        | false => cases hkind
      | null => cases hkind
      | str units => cases hkind
      | arr items => cases hkind
      | obj members => cases hkind
  | str units =>
      intro json' rest rest' _ _ h
      have hkind := kind_eq h
      cases json' with
      | str units' =>
          obtain ⟨rfl, hsame⟩ := stringText_append_inj h
          exact ⟨rfl, hsame⟩
      | bool b => cases b with
        | true => cases hkind
        | false => cases hkind
      | null => cases hkind
      | num n => cases hkind
      | arr items => cases hkind
      | obj members => cases hkind
  | arr items ih =>
      intro json' rest rest' _ _ h
      have hkind := kind_eq h
      cases json' with
      | arr items' =>
          cases items with
          | nil =>
              cases items' with
              | nil => exact ⟨rfl, List.append_cancel_left h⟩
              | cons item' items' =>
                  have hclose : ']' :: rest = text item' ++ itemsText items' ++ rest' :=
                    (List.cons.inj h).2
                  rw [List.append_assoc] at hclose
                  exact absurd hclose.symm (text_ne_close (by decide))
          | cons item items =>
              cases items' with
              | nil =>
                  have hclose : text item ++ itemsText items ++ rest = ']' :: rest' :=
                    (List.cons.inj h).2
                  rw [List.append_assoc] at hclose
                  exact absurd hclose (text_ne_close (by decide))
              | cons item' items' =>
                  obtain ⟨rfl, htail⟩ := first_append_inj (ih item List.mem_cons_self)
                    (List.cons.inj h).2
                  obtain ⟨rfl, hsame⟩ := itemsText_append_inj
                    (fun other hother => ih other (List.mem_cons_of_mem item hother)) htail
                  exact ⟨rfl, hsame⟩
      | bool b => cases b with
        | true => cases hkind
        | false => cases hkind
      | null => cases hkind
      | num n => cases hkind
      | str units => cases hkind
      | obj members => cases hkind
  | obj members ih =>
      intro json' rest rest' _ _ h
      have hkind := kind_eq h
      cases json' with
      | obj members' =>
          cases members with
          | nil =>
              cases members' with
              | nil => exact ⟨rfl, List.append_cancel_left h⟩
              | cons member' members' => exact absurd (List.cons.inj (List.cons.inj h).2).1 (by decide)
          | cons member members =>
              cases members' with
              | nil => exact absurd (List.cons.inj (List.cons.inj h).2).1 (by decide)
              | cons member' members' =>
                  obtain ⟨hsame, htail⟩ := member_append_inj (ih member List.mem_cons_self)
                    (List.cons.inj h).2
                  obtain ⟨rfl, hrest⟩ := membersText_append_inj
                    (fun other hother => ih other (List.mem_cons_of_mem member hother)) htail
                  exact ⟨congrArg Json.obj (congrArg (· :: members) hsame), hrest⟩
      | bool b => cases b with
        | true => cases hkind
        | false => cases hkind
      | null => cases hkind
      | num n => cases hkind
      | str units => cases hkind
      | arr items => cases hkind

/-- **Different documents have different texts.** -/
theorem text_injective : Function.Injective text := by
  intro json json' h
  have hends : Ends [] := by
    intro c hc
    cases hc
  refine (text_append_inj json json' [] [] hends hends ?_).1
  rw [h]

end JsonText
