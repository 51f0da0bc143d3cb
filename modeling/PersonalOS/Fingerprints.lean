import PersonalOS.JsonText
import PersonalOS.Texts
import Mathlib.Data.List.Forall2

/-! # Fingerprints of arguments and payloads

`fingerprint_intent`, `ActionIntent.fingerprint` and `fingerprint_request` hash the JSON text of what
they are given, with sorted keys.

* **Encoding.** `document` is the document `json.dumps` writes.  Sorting the keys of a dict compares
  them, which raises unless they are all texts or all numbers; an integer with more digits than the
  interpreter writes raises as well.
* **Coercion.** A key is written as a text, so that `1` and `"1"` are written alike; a text is written
  by its UTF-16 code units (`Alike`).
* **Results.** What has a fingerprint is said by `document_eq_ok_iff`, and which values share one by
  `document_eq_iff`. -/

namespace PersonalOS

open JsonText

/-! ### Values -/

abbrev CodePoint := Fin 0x110000

/-- A Python string: code points, surrogates among them. -/
abbrev PyText := List CodePoint

def pyText (text : String) : PyText := text.toList.map fun c => Fin.ofNat 0x110000 c.toNat

/-- The keys of a dict. -/
inductive DictKey where
  | none
  | bool (b : Bool)
  | int (n : ℤ)
  | str (text : PyText)
deriving DecidableEq

/-- An argument or a payload.  Of any other object there is what `repr` says. -/
inductive PyTree where
  | none
  | bool (b : Bool)
  | int (n : ℤ)
  | str (text : PyText)
  | list (items : List PyTree)
  | dict (entries : List (DictKey × PyTree))
  | other (repr : PyText)

/-! ### Encoding -/

inductive EncodeError where
  | typeError
  | valueError
deriving DecidableEq, Repr

/-- The UTF-16 code units of a code point. -/
def utf16 (point : CodePoint) : List CodeUnit :=
  if point.val < 0x10000 then [Fin.ofNat 65536 point.val]
  else [Fin.ofNat 65536 (0xd800 + (point.val - 0x10000) / 0x400),
    Fin.ofNat 65536 (0xdc00 + (point.val - 0x10000) % 0x400)]

def units (text : PyText) : List CodeUnit := text.flatMap utf16

/-- The code units of a text in ASCII. -/
def asciiUnits (text : List Char) : List CodeUnit := text.map fun c => Fin.ofNat 65536 c.toNat

/-- The integer has more digits than the interpreter writes; 0 stands for no limit. -/
def tooLong (limit : ℕ) (n : ℤ) : Bool := limit != 0 && limit < (Nat.toDigits 10 n.natAbs).length

def textLt : PyText → PyText → Bool
  | [], [] => false
  | [], _ :: _ => true
  | _ :: _, [] => false
  | c :: s, d :: t => c.val < d.val || c.val == d.val && textLt s t

/-- The number a key is compared as. -/
def DictKey.number : DictKey → Option ℤ
  | .bool b => some (if b then 1 else 0)
  | .int n => some n
  | _ => Option.none

/-- `<` on keys, which are all different. -/
def keyLt : DictKey → DictKey → Except EncodeError Bool
  | .str s, .str t => .ok (textLt s t)
  | key, key' =>
      match key.number, key'.number with
      | some m, some n => .ok (decide (m < n))
      | _, _ => .error .typeError

section sort

variable {β : Type}

def insertItem (item : DictKey × β) : List (DictKey × β) → Except EncodeError (List (DictKey × β))
  | [] => .ok [item]
  | first :: items => do
      let smaller ← keyLt item.1 first.1
      if smaller then .ok (item :: first :: items) else (insertItem item items).map (first :: ·)

/-- The items by their keys.  Whatever sorts them has compared those that end up next to each other,
so that it raises on the same items. -/
def sortItems : List (DictKey × β) → Except EncodeError (List (DictKey × β))
  | [] => .ok []
  | item :: items => do
      let sorted ← sortItems items
      insertItem item sorted

end sort

/-- How a key is written. -/
def DictKey.units : DictKey → List CodeUnit
  | .none => asciiUnits "null".toList
  | .bool true => asciiUnits "true".toList
  | .bool false => asciiUnits "false".toList
  | .int n => asciiUnits (intText n)
  | .str text => PersonalOS.units text

def DictKey.tooLong (limit : ℕ) : DictKey → Bool
  | .int n => PersonalOS.tooLong limit n
  | _ => false

def writeMembers (limit : ℕ) : List (DictKey × Json) → Except EncodeError (List (List CodeUnit × Json))
  | [] => .ok []
  | (key, value) :: items =>
      if key.tooLong limit then .error .valueError
      else (writeMembers limit items).map ((key.units, value) :: ·)

mutual

/-- The document that `json.dumps` writes with sorted keys and `repr` for what it does not know. -/
def document (limit : ℕ) : PyTree → Except EncodeError Json
  | .none => .ok .null
  | .bool b => .ok (.bool b)
  | .int n => if tooLong limit n then .error .valueError else .ok (.num n)
  | .str text => .ok (.str (units text))
  | .list items => (documents limit items).map .arr
  | .dict entries => do
      let shown ← documentEntries limit entries
      let sorted ← sortItems shown
      (writeMembers limit sorted).map .obj
  | .other repr => .ok (.str (units repr))

def documents (limit : ℕ) : List PyTree → Except EncodeError (List Json)
  | [] => .ok []
  | item :: items => do
      let json ← document limit item
      (documents limit items).map (json :: ·)

def documentEntries (limit : ℕ) : List (DictKey × PyTree) → Except EncodeError (List (DictKey × Json))
  | [] => .ok []
  | (key, value) :: entries => do
      let json ← document limit value
      (documentEntries limit entries).map ((key, json) :: ·)

end

/-! ### Fingerprints -/

section fingerprints

variable {δ : Type} (sha256 : List Char → δ) (limit : ℕ)

/-- Stable SHA-256 of a JSON-ish value. -/
def canonicalJsonHash (payload : PyTree) : Except EncodeError δ :=
  (document limit payload).map fun json => sha256 (text json)

def fingerprintIntent (server tool : PyText) (arguments : PyTree) : Except EncodeError δ :=
  canonicalJsonHash sha256 limit (.dict [(.str (pyText "server"), .str server),
    (.str (pyText "tool"), .str tool), (.str (pyText "arguments"), arguments)])

/-- `ActionIntent.fingerprint`. -/
def fingerprintAction (kind target : PyText) (payload : PyTree) : Except EncodeError δ :=
  canonicalJsonHash sha256 limit (.dict [(.str (pyText "kind"), .str kind),
    (.str (pyText "target"), .str target), (.str (pyText "payload"), payload)])

def fingerprintRequest (operation : PyText) (params : PyTree) : Except EncodeError δ :=
  canonicalJsonHash sha256 limit (.dict [(.str (pyText "operation"), .str operation),
    (.str (pyText "params"), params)])

end fingerprints

/-! ### Sorting -/

/-- Whether a key is a text, if it is one or a number. -/
def DictKey.isText : DictKey → Option Bool
  | .none => Option.none
  | .bool _ => some false
  | .int _ => some false
  | .str _ => some true

/-- Both keys are texts, or both numbers. -/
def DictKey.Comparable (key key' : DictKey) : Prop :=
  ∃ isText, key.isText = some isText ∧ key'.isText = some isText

section sort

variable {β γ : Type} {item : DictKey × β} {items sorted : List (DictKey × β)}

theorem keyLt_ok_iff {key key' : DictKey} : (∃ b, keyLt key key' = .ok b) ↔ key.Comparable key' := by
  have hno : ∀ {error : EncodeError}, ¬ ∃ b : Bool, Except.error error = Except.ok b := by
    rintro error ⟨b, h⟩
    cases h
  have hdifferent : ∀ {b b' : Bool}, b ≠ b' →
      ¬ ∃ isText, some b = some isText ∧ some b' = some isText := by
    rintro b b' hne ⟨isText, h, h'⟩
    exact hne (Option.some.inj (h.trans h'.symm))
  have hnone : ∀ {p : Bool → Prop}, ¬ ∃ isText, Option.none = some isText ∧ p isText := by
    rintro p ⟨isText, h, -⟩
    cases h
  have hnone' : ∀ {p : Bool → Prop}, ¬ ∃ isText, p isText ∧ Option.none = some isText := by
    rintro p ⟨isText, -, h⟩
    cases h
  unfold DictKey.Comparable
  cases key with
  | none => cases key' <;> exact iff_of_false hno hnone
  | bool b =>
      cases key' with
      | none => exact iff_of_false hno hnone'
      | bool b' => exact iff_of_true ⟨_, rfl⟩ ⟨false, rfl, rfl⟩
      | int n' => exact iff_of_true ⟨_, rfl⟩ ⟨false, rfl, rfl⟩
      | str t' => exact iff_of_false hno (hdifferent (by decide))
  | int n =>
      cases key' with
      | none => exact iff_of_false hno hnone'
      | bool b' => exact iff_of_true ⟨_, rfl⟩ ⟨false, rfl, rfl⟩
      | int n' => exact iff_of_true ⟨_, rfl⟩ ⟨false, rfl, rfl⟩
      | str t' => exact iff_of_false hno (hdifferent (by decide))
  | str t =>
      cases key' with
      | none => exact iff_of_false hno hnone'
      | bool b' => exact iff_of_false hno (hdifferent (by decide))
      | int n' => exact iff_of_false hno (hdifferent (by decide))
      | str t' => exact iff_of_true ⟨_, rfl⟩ ⟨true, rfl, rfl⟩

theorem DictKey.Comparable.trans {key key' key'' : DictKey} (h : key.Comparable key')
    (h' : key'.Comparable key'') : key.Comparable key'' := by
  obtain ⟨isText, hkey, hkey'⟩ := h
  obtain ⟨isText', hsame, hkey''⟩ := h'
  obtain rfl := Option.some.inj (hkey'.symm.trans hsame)
  exact ⟨isText, hkey, hkey''⟩

theorem insertItem_perm (h : insertItem item items = .ok sorted) : sorted.Perm (item :: items) := by
  induction items generalizing sorted with
  | nil =>
      obtain rfl := Except.ok.inj h
      exact List.Perm.refl _
  | cons first items ih =>
      obtain ⟨smaller, -, hrest⟩ := bind_eq_ok h
      split at hrest
      · obtain rfl := Except.ok.inj hrest
        exact List.Perm.refl _
      · cases hinsert : insertItem item items with
        | error e =>
            rw [hinsert] at hrest
            cases hrest
        | ok sorted' =>
            rw [hinsert] at hrest
            obtain rfl := Except.ok.inj hrest
            exact ((ih hinsert).cons first).trans (List.Perm.swap item first items)

theorem insertItem_ok (h : ∀ other ∈ items, item.1.Comparable other.1) :
    ∃ sorted, insertItem item items = .ok sorted := by
  induction items with
  | nil => exact ⟨[item], rfl⟩
  | cons first items ih =>
      obtain ⟨smaller, hlt⟩ := keyLt_ok_iff.mpr (h first List.mem_cons_self)
      obtain ⟨sorted, hinsert⟩ := ih fun other hother => h other (List.mem_cons_of_mem first hother)
      rw [insertItem, hlt]
      cases smaller with
      | true => exact ⟨item :: first :: items, rfl⟩
      | false =>
          rw [hinsert]
          exact ⟨first :: sorted, rfl⟩

theorem comparable_of_insertItem (h : insertItem item items = .ok sorted)
    (hitems : items.Pairwise fun x y => x.1.Comparable y.1) :
    ∀ other ∈ items, item.1.Comparable other.1 := by
  cases items with
  | nil =>
      intro other hother
      cases hother
  | cons first items =>
      obtain ⟨smaller, hlt, -⟩ := bind_eq_ok h
      have hfirst := keyLt_ok_iff.mp ⟨smaller, hlt⟩
      intro other hother
      rcases List.mem_cons.mp hother with rfl | hother
      · exact hfirst
      · exact hfirst.trans ((List.pairwise_cons.mp hitems).1 other hother)

theorem sortItems_perm (h : sortItems items = .ok sorted) : sorted.Perm items := by
  induction items generalizing sorted with
  | nil =>
      obtain rfl := Except.ok.inj h
      exact List.Perm.refl _
  | cons item items ih =>
      obtain ⟨rest, hrest, hinsert⟩ := bind_eq_ok h
      exact (insertItem_perm hinsert).trans ((ih hrest).cons item)

/-- **Sorting** raises unless all keys can be compared. -/
theorem sortItems_ok_iff : (∃ sorted, sortItems items = .ok sorted) ↔
    items.Pairwise fun x y => x.1.Comparable y.1 := by
  induction items with
  | nil => exact iff_of_true ⟨[], rfl⟩ List.Pairwise.nil
  | cons item items ih =>
      rw [List.pairwise_cons, ← ih]
      have hsymm : ∀ {x y : DictKey × β}, x.1.Comparable y.1 → y.1.Comparable x.1 :=
        fun ⟨isText, h, h'⟩ => ⟨isText, h', h⟩
      constructor
      · rintro ⟨sorted, h⟩
        obtain ⟨rest, hrest, hinsert⟩ := bind_eq_ok h
        have hperm := sortItems_perm hrest
        have hpairwise := (hperm.pairwise_iff hsymm).mpr (ih.mp ⟨rest, hrest⟩)
        refine ⟨fun other hother => ?_, rest, hrest⟩
        exact comparable_of_insertItem hinsert hpairwise other (hperm.mem_iff.mpr hother)
      · rintro ⟨hitem, rest, hrest⟩
        have hall : ∀ other ∈ rest, item.1.Comparable other.1 := by
          intro other hother
          exact hitem other ((sortItems_perm hrest).mem_iff.mp hother)
        obtain ⟨sorted, hinsert⟩ := insertItem_ok hall
        refine ⟨sorted, ?_⟩
        rw [sortItems, hrest]
        exact hinsert

theorem insertItem_related {R : DictKey × β → DictKey × γ → Prop} {item' : DictKey × γ}
    {items' : List (DictKey × γ)} (hitem : item.1 = item'.1 ∧ R item item')
    (hitems : List.Forall₂ (fun x y => x.1 = y.1 ∧ R x y) items items')
    (h : insertItem item items = .ok sorted) :
    ∃ sorted', insertItem item' items' = .ok sorted' ∧
      List.Forall₂ (fun x y => x.1 = y.1 ∧ R x y) sorted sorted' := by
  induction hitems generalizing sorted with
  | nil =>
      obtain rfl := Except.ok.inj h
      exact ⟨[item'], rfl, List.Forall₂.cons hitem List.Forall₂.nil⟩
  | cons hfirst hrest ih =>
      rename_i first first' items items'
      obtain ⟨smaller, hlt, hinsert⟩ := bind_eq_ok h
      rw [hitem.1, hfirst.1] at hlt
      rw [insertItem, hlt]
      cases smaller with
      | true =>
          obtain rfl := Except.ok.inj hinsert
          exact ⟨_, rfl, List.Forall₂.cons hitem (List.Forall₂.cons hfirst hrest)⟩
      | false =>
          cases hinner : insertItem item items with
          | error e =>
              rw [hinner] at hinsert
              cases hinsert
          | ok sorted'' =>
              rw [hinner] at hinsert
              obtain rfl := Except.ok.inj hinsert
              obtain ⟨inner', hinner', hrelated⟩ := ih hinner
              rw [hinner']
              exact ⟨first' :: inner', rfl, List.Forall₂.cons hfirst hrelated⟩

theorem sortItems_related {R : DictKey × β → DictKey × γ → Prop} {items' : List (DictKey × γ)}
    (hitems : List.Forall₂ (fun x y => x.1 = y.1 ∧ R x y) items items')
    (h : sortItems items = .ok sorted) :
    ∃ sorted', sortItems items' = .ok sorted' ∧
      List.Forall₂ (fun x y => x.1 = y.1 ∧ R x y) sorted sorted' := by
  induction hitems generalizing sorted with
  | nil =>
      obtain rfl := Except.ok.inj h
      exact ⟨[], rfl, List.Forall₂.nil⟩
  | cons hitem hrest ih =>
      obtain ⟨rest, hsorted, hinsert⟩ := bind_eq_ok h
      obtain ⟨rest', hsorted', hrelated⟩ := ih hsorted
      rw [sortItems, hsorted']
      exact insertItem_related hitem hrelated hinsert

end sort

/-! ### What is encoded -/

theorem PyTree.inductOn {P : PyTree → Prop} (tree : PyTree) (none : P .none) (bool : ∀ b, P (.bool b))
    (int : ∀ n, P (.int n)) (str : ∀ text, P (.str text))
    (list : ∀ items, (∀ item ∈ items, P item) → P (.list items))
    (dict : ∀ entries, (∀ entry ∈ entries, P entry.2) → P (.dict entries))
    (other : ∀ repr, P (.other repr)) : P tree := by
  have hnil : ∀ (α : Type) (p : α → Prop), ∀ x ∈ ([] : List α), p x := by
    intro α p x hx
    cases hx
  have hcons : ∀ (α : Type) (p : α → Prop) (x : α) (l : List α), p x → (∀ y ∈ l, p y) →
      ∀ y ∈ x :: l, p y := by
    intro α p x l hx hl y hy
    rcases List.mem_cons.mp hy with rfl | hy
    · exact hx
    · exact hl y hy
  exact @PyTree.rec P (fun items => ∀ item ∈ items, P item) (fun entries => ∀ entry ∈ entries, P entry.2)
    (fun entry => P entry.2) none bool int str list dict other (hnil _ _) (hcons _ P) (hnil _ _)
    (hcons (DictKey × PyTree) fun entry => P entry.2) (fun _ _ h => h) tree

/-- The keys of each dict can be compared, and no integer is too long. -/
inductive PyTree.Encodable (limit : ℕ) : PyTree → Prop where
  | none : Encodable limit .none
  | bool (b : Bool) : Encodable limit (.bool b)
  | int {n : ℤ} (h : tooLong limit n = false) : Encodable limit (.int n)
  | str (text : PyText) : Encodable limit (.str text)
  | list {items : List PyTree} (h : ∀ item ∈ items, Encodable limit item) : Encodable limit (.list items)
  | dict {entries : List (DictKey × PyTree)}
      (hkeys : entries.Pairwise fun x y => x.1.Comparable y.1)
      (hlong : ∀ entry ∈ entries, entry.1.tooLong limit = false)
      (h : ∀ entry ∈ entries, Encodable limit entry.2) : Encodable limit (.dict entries)
  | other (repr : PyText) : Encodable limit (.other repr)

section document

variable {limit : ℕ}

theorem map_eq_ok {α β : Type} {x : Except EncodeError α} {f : α → β} {b : β}
    (h : x.map f = .ok b) : ∃ a, x = .ok a ∧ f a = b := by
  cases x with
  | error e => cases h
  | ok a => exact ⟨a, rfl, Except.ok.inj h⟩

theorem documents_eq_ok {items : List PyTree} {jsons : List Json} : documents limit items = .ok jsons ↔
    List.Forall₂ (fun item json => document limit item = .ok json) items jsons := by
  induction items generalizing jsons with
  | nil =>
      rw [List.forall₂_nil_left_iff, documents]
      exact ⟨fun h => (Except.ok.inj h).symm, fun h => by rw [h]⟩
  | cons item items ih =>
      rw [documents, List.forall₂_cons_left_iff]
      constructor
      · intro h
        obtain ⟨json, hjson, hrest⟩ := bind_eq_ok h
        obtain ⟨jsons, hjsons, rfl⟩ := map_eq_ok hrest
        exact ⟨json, jsons, hjson, ih.mp hjsons, rfl⟩
      · rintro ⟨json, jsons, hjson, hjsons, rfl⟩
        rw [hjson, ih.mpr hjsons]
        rfl

theorem documentEntries_eq_ok {entries : List (DictKey × PyTree)} {shown : List (DictKey × Json)} :
    documentEntries limit entries = .ok shown ↔
      List.Forall₂ (fun x y => x.1 = y.1 ∧ document limit x.2 = .ok y.2) entries shown := by
  induction entries generalizing shown with
  | nil =>
      rw [List.forall₂_nil_left_iff, documentEntries]
      exact ⟨fun h => (Except.ok.inj h).symm, fun h => by rw [h]⟩
  | cons entry entries ih =>
      obtain ⟨key, value⟩ := entry
      rw [documentEntries, List.forall₂_cons_left_iff]
      constructor
      · intro h
        obtain ⟨json, hjson, hrest⟩ := bind_eq_ok h
        obtain ⟨shown, hshown, rfl⟩ := map_eq_ok hrest
        exact ⟨(key, json), shown, ⟨rfl, hjson⟩, ih.mp hshown, rfl⟩
      · rintro ⟨⟨key', json⟩, shown, ⟨hkey, hjson⟩, hshown, rfl⟩
        dsimp only at hkey hjson
        rw [hjson, ih.mpr hshown, hkey]
        rfl

theorem writeMembers_eq_ok {items : List (DictKey × Json)} {members : List (List CodeUnit × Json)} :
    writeMembers limit items = .ok members ↔
      (∀ item ∈ items, item.1.tooLong limit = false) ∧
        members = items.map fun item => (item.1.units, item.2) := by
  induction items generalizing members with
  | nil =>
      rw [writeMembers]
      constructor
      · intro h
        exact ⟨fun item hitem => (by cases hitem), (Except.ok.inj h).symm⟩
      · rintro ⟨-, rfl⟩
        rfl
  | cons item items ih =>
      obtain ⟨key, value⟩ := item
      rw [writeMembers, List.forall_mem_cons, List.map_cons]
      cases hlong : key.tooLong limit with
      | true =>
          rw [if_pos rfl]
          constructor
          · intro h
            cases h
          · rintro ⟨⟨h, -⟩, -⟩
            cases h
      | false =>
          rw [if_neg Bool.false_ne_true]
          constructor
          · intro h
            obtain ⟨rest, hrest, rfl⟩ := map_eq_ok h
            obtain ⟨hall, rfl⟩ := ih.mp hrest
            exact ⟨⟨rfl, hall⟩, rfl⟩
          · rintro ⟨⟨-, hall⟩, rfl⟩
            rw [ih.mpr ⟨hall, rfl⟩]
            rfl

theorem document_dict_eq_ok {entries : List (DictKey × PyTree)} {json : Json} :
    document limit (.dict entries) = .ok json ↔ ∃ shown sorted,
      List.Forall₂ (fun x y => x.1 = y.1 ∧ document limit x.2 = .ok y.2) entries shown ∧
      sortItems shown = .ok sorted ∧ (∀ item ∈ sorted, item.1.tooLong limit = false) ∧
      json = .obj (sorted.map fun item => (item.1.units, item.2)) := by
  rw [document]
  constructor
  · intro h
    obtain ⟨shown, hshown, hrest⟩ := bind_eq_ok h
    obtain ⟨sorted, hsorted, hwrite⟩ := bind_eq_ok hrest
    obtain ⟨members, hmembers, rfl⟩ := map_eq_ok hwrite
    obtain ⟨hlong, rfl⟩ := writeMembers_eq_ok.mp hmembers
    exact ⟨shown, sorted, documentEntries_eq_ok.mp hshown, hsorted, hlong, rfl⟩
  · rintro ⟨shown, sorted, hshown, hsorted, hlong, rfl⟩
    rw [documentEntries_eq_ok.mpr hshown]
    show (sortItems shown >>= fun sorted => (writeMembers limit sorted).map Json.obj) = _
    rw [hsorted]
    show (writeMembers limit sorted).map Json.obj = _
    rw [writeMembers_eq_ok.mpr ⟨hlong, rfl⟩]
    rfl

theorem exists_forall₂ {α β : Type} {R : α → β → Prop} {l : List α} (h : ∀ a ∈ l, ∃ b, R a b) :
    ∃ l', List.Forall₂ R l l' := by
  induction l with
  | nil => exact ⟨[], List.Forall₂.nil⟩
  | cons a l ih =>
      obtain ⟨b, hb⟩ := h a List.mem_cons_self
      obtain ⟨l', hl'⟩ := ih fun a' ha' => h a' (List.mem_cons_of_mem a ha')
      exact ⟨b :: l', List.Forall₂.cons hb hl'⟩

theorem exists_of_forall₂ {α β : Type} {R : α → β → Prop} {l : List α} {l' : List β}
    (h : List.Forall₂ R l l') {a : α} (ha : a ∈ l) : ∃ b ∈ l', R a b := by
  induction h with
  | nil => cases ha
  | cons hab _ ih =>
      rcases List.mem_cons.mp ha with rfl | ha
      · exact ⟨_, List.mem_cons_self, hab⟩
      · obtain ⟨b, hb, hr⟩ := ih ha
        exact ⟨b, List.mem_cons_of_mem _ hb, hr⟩

theorem exists_of_forall₂_right {α β : Type} {R : α → β → Prop} {l : List α} {l' : List β}
    (h : List.Forall₂ R l l') {b : β} (hb : b ∈ l') : ∃ a ∈ l, R a b := by
  induction h with
  | nil => cases hb
  | cons hab _ ih =>
      rcases List.mem_cons.mp hb with rfl | hb
      · exact ⟨_, List.mem_cons_self, hab⟩
      · obtain ⟨a, ha, hr⟩ := ih hb
        exact ⟨a, List.mem_cons_of_mem _ ha, hr⟩

theorem pairwise_comparable_iff {β γ : Type} {R : DictKey × β → DictKey × γ → Prop}
    {items : List (DictKey × β)} {items' : List (DictKey × γ)}
    (h : List.Forall₂ (fun x y => x.1 = y.1 ∧ R x y) items items') :
    (items.Pairwise fun x y => x.1.Comparable y.1) ↔ items'.Pairwise fun x y => x.1.Comparable y.1 := by
  have hkeys : items.map (·.1) = items'.map (·.1) := by
    induction h with
    | nil => rfl
    | cons hitem _ ih => rw [List.map_cons, List.map_cons, hitem.1, ih]
  rw [← List.pairwise_map (f := fun item : DictKey × β => item.1) (R := DictKey.Comparable), hkeys,
    List.pairwise_map]

/-- **What is encoded**: the values whose keys can be compared, dict by dict, and whose integers are
not too long. -/
theorem document_ok_iff (tree : PyTree) :
    (∃ json, document limit tree = .ok json) ↔ tree.Encodable limit := by
  induction tree using PyTree.inductOn with
  | none => exact iff_of_true ⟨_, rfl⟩ .none
  | bool b => exact iff_of_true ⟨_, rfl⟩ (.bool b)
  | int n =>
      rw [document]
      cases hlong : tooLong limit n with
      | true =>
          refine iff_of_false ?_ fun h => ?_
          · rintro ⟨json, h⟩
            cases h
          · cases h with
            | int hshort =>
                rw [hlong] at hshort
                cases hshort
      | false => exact iff_of_true ⟨_, rfl⟩ (.int hlong)
  | str text => exact iff_of_true ⟨_, rfl⟩ (.str text)
  | list items ih =>
      rw [document]
      constructor
      · rintro ⟨json, h⟩
        obtain ⟨jsons, hjsons, -⟩ := map_eq_ok h
        refine .list fun item hitem => (ih item hitem).mp ?_
        obtain ⟨json, -, hjson⟩ := exists_of_forall₂ (documents_eq_ok.mp hjsons) hitem
        exact ⟨json, hjson⟩
      · intro h
        cases h with
        | list hitems =>
            obtain ⟨jsons, hjsons⟩ := exists_forall₂ fun item hitem =>
              (ih item hitem).mpr (hitems item hitem)
            rw [documents_eq_ok.mpr hjsons]
            exact ⟨_, rfl⟩
  | dict entries ih =>
      constructor
      · rintro ⟨json, h⟩
        obtain ⟨shown, sorted, hshown, hsorted, hlong, -⟩ := document_dict_eq_ok.mp h
        refine .dict ((pairwise_comparable_iff hshown).mpr (sortItems_ok_iff.mp ⟨sorted, hsorted⟩))
          (fun entry hentry => ?_) fun entry hentry => (ih entry hentry).mp ?_
        · obtain ⟨item, hitem, hkey, -⟩ := exists_of_forall₂ hshown hentry
          rw [hkey]
          exact hlong item ((sortItems_perm hsorted).mem_iff.mpr hitem)
        · obtain ⟨item, -, -, hjson⟩ := exists_of_forall₂ hshown hentry
          exact ⟨item.2, hjson⟩
      · intro h
        cases h with
        | dict hkeys hlong hvalues =>
            have hall : ∀ entry ∈ entries, ∃ item : DictKey × Json,
                entry.1 = item.1 ∧ document limit entry.2 = .ok item.2 := by
              intro entry hentry
              obtain ⟨json, hjson⟩ := (ih entry hentry).mpr (hvalues entry hentry)
              exact ⟨(entry.1, json), rfl, hjson⟩
            obtain ⟨shown, hshown⟩ := exists_forall₂ hall
            obtain ⟨sorted, hsorted⟩ := sortItems_ok_iff.mpr ((pairwise_comparable_iff hshown).mp hkeys)
            refine ⟨_, document_dict_eq_ok.mpr ⟨shown, sorted, hshown, hsorted, fun item hitem => ?_, rfl⟩⟩
            obtain ⟨entry, hentry, hkey, -⟩ :=
              exists_of_forall₂_right hshown ((sortItems_perm hsorted).mem_iff.mp hitem)
            rw [← hkey]
            exact hlong entry hentry
  | other repr => exact iff_of_true ⟨_, rfl⟩ (.other repr)

end document

/-! ### What is written alike -/

/-- What is written as a text. -/
def PyTree.shown : PyTree → Option PyText
  | .str text => some text
  | .other repr => some repr
  | _ => Option.none

/-- The values are written alike: texts of the same code units, and dicts whose keys, in their order,
are written with the same code units. -/
inductive Alike : PyTree → PyTree → Prop where
  | none : Alike .none .none
  | bool (b : Bool) : Alike (.bool b) (.bool b)
  | int (n : ℤ) : Alike (.int n) (.int n)
  | text {a b : PyTree} {s t : PyText} (ha : a.shown = some s) (hb : b.shown = some t)
      (h : units s = units t) : Alike a b
  | list {items items' : List PyTree} (h : List.Forall₂ Alike items items') :
      Alike (.list items) (.list items')
  | dict {entries entries' sorted sorted' : List (DictKey × PyTree)}
      (hsorted : sortItems entries = .ok sorted) (hsorted' : sortItems entries' = .ok sorted')
      (hkeys : sorted.map (·.1.units) = sorted'.map (·.1.units))
      (hvalues : List.Forall₂ Alike (sorted.map (·.2)) (sorted'.map (·.2))) :
      Alike (.dict entries) (.dict entries')

section alike

variable {limit : ℕ}

theorem document_dict_sorted {entries : List (DictKey × PyTree)} {json : Json}
    (h : document limit (.dict entries) = .ok json) : ∃ sorted values,
      sortItems entries = .ok sorted ∧
      List.Forall₂ (fun value json => document limit value = .ok json) (sorted.map (·.2)) values ∧
      json = .obj ((sorted.map (·.1.units)).zip values) := by
  obtain ⟨shown, sorted, hshown, hsorted, -, rfl⟩ := document_dict_eq_ok.mp h
  have hflip : List.Forall₂ (fun x y => x.1 = y.1 ∧ document limit y.2 = .ok x.2) shown entries := by
    refine List.Forall₂.flip (hshown.imp fun x y hxy => ?_)
    exact ⟨hxy.1.symm, hxy.2⟩
  obtain ⟨sorted', hsorted', hrelated⟩ := sortItems_related hflip hsorted
  refine ⟨sorted', sorted.map (·.2), hsorted', ?_, ?_⟩
  · rw [List.forall₂_map_left_iff, List.forall₂_map_right_iff]
    exact List.Forall₂.flip (hrelated.imp fun x y hxy => hxy.2)
  · refine congrArg Json.obj ?_
    clear h hsorted hsorted'
    induction hrelated with
    | nil => rfl
    | cons hxy _ ih =>
        rw [List.map_cons, ih, List.map_cons, List.map_cons, List.zip_cons_cons, hxy.1]

theorem document_cases {tree : PyTree} {json : Json} (h : document limit tree = .ok json) :
    tree = .none ∧ json = .null ∨ (∃ b, tree = .bool b ∧ json = .bool b) ∨
    (∃ n, tree = .int n ∧ json = .num n) ∨ (∃ s, tree.shown = some s ∧ json = .str (units s)) ∨
    (∃ items jsons, tree = .list items ∧ json = .arr jsons ∧
      List.Forall₂ (fun item json => document limit item = .ok json) items jsons) ∨
    ∃ entries sorted values, tree = .dict entries ∧ json = .obj ((sorted.map (·.1.units)).zip values) ∧
      sortItems entries = .ok sorted ∧
      List.Forall₂ (fun value json => document limit value = .ok json) (sorted.map (·.2)) values := by
  cases tree with
  | none => exact Or.inl ⟨rfl, (Except.ok.inj h).symm⟩
  | bool b => exact Or.inr (Or.inl ⟨b, rfl, (Except.ok.inj h).symm⟩)
  | int n =>
      rw [document] at h
      split at h
      · cases h
      · exact Or.inr (Or.inr (Or.inl ⟨n, rfl, (Except.ok.inj h).symm⟩))
  | str text => exact Or.inr (Or.inr (Or.inr (Or.inl ⟨text, rfl, (Except.ok.inj h).symm⟩)))
  | list items =>
      rw [document] at h
      obtain ⟨jsons, hjsons, rfl⟩ := map_eq_ok h
      exact Or.inr (Or.inr (Or.inr (Or.inr (Or.inl ⟨items, jsons, rfl, rfl, documents_eq_ok.mp hjsons⟩))))
  | dict entries =>
      obtain ⟨sorted, values, hsorted, hvalues, rfl⟩ := document_dict_sorted h
      exact Or.inr (Or.inr (Or.inr (Or.inr (Or.inr ⟨entries, sorted, values, rfl, rfl, hsorted, hvalues⟩))))
  | other repr => exact Or.inr (Or.inr (Or.inr (Or.inl ⟨repr, rfl, (Except.ok.inj h).symm⟩)))

theorem shown_document {tree : PyTree} {s : PyText} {json : Json} (hs : tree.shown = some s)
    (h : document limit tree = .ok json) : json = .str (units s) := by
  rcases document_cases h with ⟨rfl, -⟩ | ⟨_, rfl, -⟩ | ⟨_, rfl, -⟩ | ⟨s', hs', h⟩ | ⟨_, _, rfl, -, -⟩ |
    ⟨_, _, _, rfl, -, -, -⟩
  · cases hs
  · cases hs
  · cases hs
  · rw [h, Option.some.inj (hs'.symm.trans hs)]
  · cases hs
  · cases hs

theorem forall₂_of_common {α β γ : Type} {R : α → γ → Prop} {S : β → γ → Prop} {T : α → β → Prop}
    {l : List α} {l' : List β} {m : List γ} (h : List.Forall₂ R l m) (h' : List.Forall₂ S l' m)
    (hT : ∀ a ∈ l, ∀ b c, R a c → S b c → T a b) : List.Forall₂ T l l' := by
  induction h generalizing l' with
  | nil =>
      cases h'
      exact List.Forall₂.nil
  | cons hab _ ih =>
      cases h' with
      | cons hcb hrest =>
          refine List.Forall₂.cons (hT _ List.mem_cons_self _ _ hab hcb) (ih hrest fun a ha => ?_)
          exact hT a (List.mem_cons_of_mem _ ha)

theorem zip_inj {α β : Type} {l l' : List α} {m m' : List β} (hlength : l.length = m.length)
    (hlength' : l'.length = m'.length) (h : l.zip m = l'.zip m') : l = l' ∧ m = m' := by
  constructor
  · rw [← List.map_fst_zip hlength.le, h, List.map_fst_zip hlength'.le]
  · rw [← List.map_snd_zip hlength.ge, h, List.map_snd_zip hlength'.ge]

theorem alike_of_same (a : PyTree) : ∀ {b : PyTree} {json : Json},
    document limit a = .ok json → document limit b = .ok json → Alike a b := by
  induction a using PyTree.inductOn with
  | none =>
      intro b json ha hb
      obtain rfl := Except.ok.inj ha
      rcases document_cases hb with ⟨rfl, -⟩ | ⟨_, -, h⟩ | ⟨_, -, h⟩ | ⟨_, -, h⟩ | ⟨_, _, -, h, -⟩ |
        ⟨_, _, _, -, h, -⟩
      · exact .none
      · cases h
      · cases h
      · cases h
      · cases h
      · cases h
  | bool x =>
      intro b json ha hb
      obtain rfl := Except.ok.inj ha
      rcases document_cases hb with ⟨-, h⟩ | ⟨_, rfl, h⟩ | ⟨_, -, h⟩ | ⟨_, -, h⟩ | ⟨_, _, -, h, -⟩ |
        ⟨_, _, _, -, h, -⟩
      · cases h
      · obtain rfl := Json.bool.inj h
        exact .bool x
      · cases h
      · cases h
      · cases h
      · cases h
  | int n =>
      intro b json ha hb
      rw [document] at ha
      split at ha
      · cases ha
      · obtain rfl := Except.ok.inj ha
        rcases document_cases hb with ⟨-, h⟩ | ⟨_, -, h⟩ | ⟨_, rfl, h⟩ | ⟨_, -, h⟩ | ⟨_, _, -, h, -⟩ |
          ⟨_, _, _, -, h, -⟩
        · cases h
        · cases h
        · obtain rfl := Json.num.inj h
          exact .int n
        · cases h
        · cases h
        · cases h
  | str text =>
      intro b json ha hb
      obtain rfl := Except.ok.inj ha
      rcases document_cases hb with ⟨-, h⟩ | ⟨_, -, h⟩ | ⟨_, -, h⟩ | ⟨s, hs, h⟩ | ⟨_, _, -, h, -⟩ |
        ⟨_, _, _, -, h, -⟩
      · cases h
      · cases h
      · cases h
      · exact .text rfl hs (Json.str.inj h)
      · cases h
      · cases h
  | other repr =>
      intro b json ha hb
      obtain rfl := Except.ok.inj ha
      rcases document_cases hb with ⟨-, h⟩ | ⟨_, -, h⟩ | ⟨_, -, h⟩ | ⟨s, hs, h⟩ | ⟨_, _, -, h, -⟩ |
        ⟨_, _, _, -, h, -⟩
      · cases h
      · cases h
      · cases h
      · exact .text rfl hs (Json.str.inj h)
      · cases h
      · cases h
  | list items ih =>
      intro b json ha hb
      rw [document] at ha
      obtain ⟨jsons, hjsons, rfl⟩ := map_eq_ok ha
      rcases document_cases hb with ⟨-, h⟩ | ⟨_, -, h⟩ | ⟨_, -, h⟩ | ⟨_, -, h⟩ | ⟨items', _, rfl, h, hitems'⟩ |
        ⟨_, _, _, -, h, -⟩
      · cases h
      · cases h
      · cases h
      · cases h
      · obtain rfl := Json.arr.inj h
        exact .list (forall₂_of_common (documents_eq_ok.mp hjsons) hitems'
          fun item hitem item' json hjson hjson' => ih item hitem hjson hjson')
      · cases h
  | dict entries ih =>
      intro b json ha hb
      obtain ⟨sorted, values, hsorted, hvalues, rfl⟩ := document_dict_sorted ha
      rcases document_cases hb with ⟨-, h⟩ | ⟨_, -, h⟩ | ⟨_, -, h⟩ | ⟨_, -, h⟩ | ⟨_, _, -, h, -⟩ |
        ⟨entries', sorted', values', rfl, h, hsorted', hvalues'⟩
      · cases h
      · cases h
      · cases h
      · cases h
      · cases h
      · have hlength : (sorted.map (·.1.units)).length = values.length := by
          rw [← hvalues.length_eq, List.length_map, List.length_map]
        have hlength' : (sorted'.map (·.1.units)).length = values'.length := by
          rw [← hvalues'.length_eq, List.length_map, List.length_map]
        obtain ⟨hkeys, rfl⟩ := zip_inj hlength hlength' (Json.obj.inj h)
        refine .dict hsorted hsorted' hkeys (forall₂_of_common hvalues hvalues' ?_)
        intro value hvalue value' json hjson hjson'
        obtain ⟨entry, hentry, rfl⟩ := List.mem_map.mp hvalue
        exact ih entry ((sortItems_perm hsorted).mem_iff.mp hentry) hjson hjson'

theorem same_of_alike (a : PyTree) : ∀ {b : PyTree} {json json' : Json}, Alike a b →
    document limit a = .ok json → document limit b = .ok json' → json = json' := by
  have hall : ∀ {items items' : List PyTree} {jsons jsons' : List Json},
      (∀ item ∈ items, ∀ {b : PyTree} {json json' : Json}, Alike item b →
        document limit item = .ok json → document limit b = .ok json' → json = json') →
      List.Forall₂ Alike items items' →
      List.Forall₂ (fun item json => document limit item = .ok json) items jsons →
      List.Forall₂ (fun item json => document limit item = .ok json) items' jsons' → jsons = jsons' := by
    intro items items' jsons jsons' hitems halike hjsons hjsons'
    induction halike generalizing jsons jsons' with
    | nil =>
        cases hjsons
        cases hjsons'
        rfl
    | cons hitem _ ih =>
        cases hjsons with
        | cons hjson hrest => cases hjsons' with
          | cons hjson' hrest' =>
              rw [hitems _ List.mem_cons_self hitem hjson hjson',
                ih (fun item hmem => hitems item (List.mem_cons_of_mem _ hmem)) hrest hrest']
  induction a using PyTree.inductOn with
  | none =>
      intro b json json' h ha hb
      cases h with
      | none => exact Except.ok.inj (ha.symm.trans hb)
      | text hs _ _ => cases hs
  | bool x =>
      intro b json json' h ha hb
      cases h with
      | bool _ => exact Except.ok.inj (ha.symm.trans hb)
      | text hs _ _ => cases hs
  | int n =>
      intro b json json' h ha hb
      cases h with
      | int _ => exact Except.ok.inj (ha.symm.trans hb)
      | text hs _ _ => cases hs
  | str text =>
      intro b json json' h ha hb
      cases h with
      | text hs ht hunits => rw [shown_document hs ha, shown_document ht hb, hunits]
  | other repr =>
      intro b json json' h ha hb
      cases h with
      | text hs ht hunits => rw [shown_document hs ha, shown_document ht hb, hunits]
  | list items ih =>
      intro b json json' h ha hb
      cases h with
      | text hs _ _ => cases hs
      | list halike =>
          rw [document] at ha hb
          obtain ⟨jsons, hjsons, rfl⟩ := map_eq_ok ha
          obtain ⟨jsons', hjsons', rfl⟩ := map_eq_ok hb
          rw [hall (fun item hitem => ih item hitem) halike (documents_eq_ok.mp hjsons)
            (documents_eq_ok.mp hjsons')]
  | dict entries ih =>
      intro b json json' h ha hb
      cases h with
      | text hs _ _ => cases hs
      | dict hsorted hsorted' hkeys halike =>
          obtain ⟨sortedA, values, hsortedA, hvalues, rfl⟩ := document_dict_sorted ha
          obtain ⟨sortedB, values', hsortedB, hvalues', rfl⟩ := document_dict_sorted hb
          obtain rfl := Except.ok.inj (hsorted.symm.trans hsortedA)
          obtain rfl := Except.ok.inj (hsorted'.symm.trans hsortedB)
          rw [hkeys, hall (fun value hvalue => ?_) halike hvalues hvalues']
          obtain ⟨entry, hentry, rfl⟩ := List.mem_map.mp hvalue
          exact ih entry ((sortItems_perm hsorted).mem_iff.mp hentry)

/-- **What is written alike**: values that are encoded have one document exactly if they are. -/
theorem document_eq_iff {a b : PyTree} {json : Json} (ha : document limit a = .ok json) :
    document limit b = .ok json ↔ b.Encodable limit ∧ Alike a b := by
  constructor
  · intro hb
    exact ⟨(document_ok_iff b).mp ⟨json, hb⟩, alike_of_same a ha hb⟩
  · rintro ⟨hencodable, halike⟩
    obtain ⟨json', hb⟩ := (document_ok_iff b).mpr hencodable
    rw [hb, same_of_alike a halike ha hb]

end alike

/-! ### Fingerprints -/

/-- One of the functions, with what it is given besides the arguments or the payload. -/
inductive Fingerprinter where
  | intent (server tool : PyText)
  | action (kind target : PyText)
  | request (operation : PyText)

namespace Fingerprinter

/-- The entries that are hashed, around the value. -/
def entries (f : Fingerprinter) (tree : PyTree) : List (DictKey × PyTree) :=
  match f with
  | intent server tool => [(.str (pyText "server"), .str server), (.str (pyText "tool"), .str tool),
      (.str (pyText "arguments"), tree)]
  | action kind target => [(.str (pyText "kind"), .str kind), (.str (pyText "target"), .str target),
      (.str (pyText "payload"), tree)]
  | request operation => [(.str (pyText "operation"), .str operation), (.str (pyText "params"), tree)]

def fingerprint {δ : Type} (sha256 : List Char → δ) (limit : ℕ) (f : Fingerprinter) (tree : PyTree) :
    Except EncodeError δ :=
  match f with
  | intent server tool => fingerprintIntent sha256 limit server tool tree
  | action kind target => fingerprintAction sha256 limit kind target tree
  | request operation => fingerprintRequest sha256 limit operation tree

theorem fingerprint_eq {δ : Type} (sha256 : List Char → δ) (limit : ℕ) (f : Fingerprinter)
    (tree : PyTree) :
    f.fingerprint sha256 limit tree = canonicalJsonHash sha256 limit (.dict (f.entries tree)) := by
  cases f with
  | intent server tool => rfl
  | action kind target => rfl
  | request operation => rfl

/-- What comes before the value when the entries are sorted, its key, and what comes after. -/
def frame : Fingerprinter → List (DictKey × PyTree) × DictKey × List (DictKey × PyTree)
  | intent server tool => ([], .str (pyText "arguments"),
      [(.str (pyText "server"), .str server), (.str (pyText "tool"), .str tool)])
  | action kind target => ([(.str (pyText "kind"), .str kind)], .str (pyText "payload"),
      [(.str (pyText "target"), .str target)])
  | request operation => ([(.str (pyText "operation"), .str operation)], .str (pyText "params"), [])

theorem sortItems_entries (f : Fingerprinter) (tree : PyTree) :
    sortItems (f.entries tree) = .ok (f.frame.1 ++ (f.frame.2.1, tree) :: f.frame.2.2) := by
  cases f with
  | intent server tool => rfl
  | action kind target => rfl
  | request operation => rfl

theorem encodable_entries {limit : ℕ} (f : Fingerprinter) (tree : PyTree) :
    (PyTree.dict (f.entries tree)).Encodable limit ↔ tree.Encodable limit := by
  constructor
  · intro h
    have hmem : ∃ key, (key, tree) ∈ f.entries tree := by
      cases f with
      | intent server tool => exact ⟨_, List.mem_cons_of_mem _ (List.mem_cons_of_mem _ List.mem_cons_self)⟩
      | action kind target => exact ⟨_, List.mem_cons_of_mem _ (List.mem_cons_of_mem _ List.mem_cons_self)⟩
      | request operation => exact ⟨_, List.mem_cons_of_mem _ List.mem_cons_self⟩
    obtain ⟨key, hmem⟩ := hmem
    cases h with
    | dict hkeys hlong hvalues => exact hvalues _ hmem
  · intro h
    have hkeys := sortItems_ok_iff.mp ⟨_, f.sortItems_entries tree⟩
    refine .dict hkeys (fun entry hentry => ?_) fun entry hentry => ?_
    · cases f with
      | intent server tool =>
          simp only [entries, List.mem_cons, List.not_mem_nil, or_false] at hentry
          rcases hentry with rfl | rfl | rfl <;> rfl
      | action kind target =>
          simp only [entries, List.mem_cons, List.not_mem_nil, or_false] at hentry
          rcases hentry with rfl | rfl | rfl <;> rfl
      | request operation =>
          simp only [entries, List.mem_cons, List.not_mem_nil, or_false] at hentry
          rcases hentry with rfl | rfl <;> rfl
    · cases f with
      | intent server tool =>
          simp only [entries, List.mem_cons, List.not_mem_nil, or_false] at hentry
          rcases hentry with rfl | rfl | rfl
          · exact .str server
          · exact .str tool
          · exact h
      | action kind target =>
          simp only [entries, List.mem_cons, List.not_mem_nil, or_false] at hentry
          rcases hentry with rfl | rfl | rfl
          · exact .str kind
          · exact .str target
          · exact h
      | request operation =>
          simp only [entries, List.mem_cons, List.not_mem_nil, or_false] at hentry
          rcases hentry with rfl | rfl
          · exact .str operation
          · exact h

theorem alike_entries (f : Fingerprinter) (a b : PyTree) :
    Alike (.dict (f.entries a)) (.dict (f.entries b)) ↔ Alike a b := by
  have htext : ∀ text : PyText, Alike (.str text) (.str text) := fun text => .text rfl rfl rfl
  constructor
  · intro h
    cases h with
    | text hs _ _ => cases hs
    | dict hsorted hsorted' hkeys hvalues =>
        rw [sortItems_entries] at hsorted hsorted'
        obtain rfl := Except.ok.inj hsorted
        obtain rfl := Except.ok.inj hsorted'
        rw [List.map_append, List.map_append] at hvalues
        have hdropped := List.forall₂_drop_append _ _ _ hvalues
        rw [List.drop_left] at hdropped
        cases hdropped with
        | cons hvalue _ => exact hvalue
  · intro h
    refine .dict (f.sortItems_entries a) (f.sortItems_entries b) ?_ ?_
    · rw [List.map_append, List.map_append, List.map_cons, List.map_cons]
    · cases f with
      | intent server tool => exact .cons h (.cons (htext server) (.cons (htext tool) .nil))
      | action kind target => exact .cons (htext kind) (.cons h (.cons (htext target) .nil))
      | request operation => exact .cons (htext operation) (.cons h .nil)

end Fingerprinter

mutual

/-- The values are equal up to the order of their keys. -/
def PyTree.Equal : PyTree → PyTree → Prop
  | .list items, tree' => ∃ items', tree' = .list items' ∧ PyTree.EqualItems items items'
  | .dict entries, tree' => ∃ entries', tree' = .dict entries' ∧
      entries.length = entries'.length ∧ PyTree.EqualEntries entries entries'
  | tree, tree' => tree' = tree
termination_by structural tree => tree

def PyTree.EqualItems : List PyTree → List PyTree → Prop
  | [], items' => items' = []
  | item :: items, items' => ∃ item' rest', items' = item' :: rest' ∧ PyTree.Equal item item' ∧
      PyTree.EqualItems items rest'
termination_by structural items => items

/-- Each entry is, with an equal value, among the others. -/
def PyTree.EqualEntries : List (DictKey × PyTree) → List (DictKey × PyTree) → Prop
  | [], _ => True
  | (key, value) :: entries, entries' => (∃ value', (key, value') ∈ entries' ∧
      PyTree.Equal value value') ∧ PyTree.EqualEntries entries entries'
termination_by structural entries => entries

end

open Fingerprinter

/-- **Fingerprints**: each function returns exactly for the values of which each dict has keys that
can be compared, and whose integers are not too long; and a fingerprint tells a value from another
one unless they are written alike without being equal. -/
theorem fingerprints_iff {δ : Type} (sha256 : List Char → δ) (hsha256 : Function.Injective sha256)
    (limit : ℕ) (f : Fingerprinter) (a b : PyTree) :
    ((∃ digest, f.fingerprint sha256 limit a = .ok digest) ↔ a.Encodable limit) ∧
    ((∀ digest, f.fingerprint sha256 limit a = .ok digest →
        f.fingerprint sha256 limit b = .ok digest → a.Equal b) ↔
      (a.Encodable limit → b.Encodable limit → Alike a b → a.Equal b)) := by
  have hok : ∀ tree digest, f.fingerprint sha256 limit tree = .ok digest ↔
      ∃ json, document limit (.dict (f.entries tree)) = .ok json ∧ sha256 (text json) = digest := by
    intro tree digest
    rw [fingerprint_eq, canonicalJsonHash]
    constructor
    · exact map_eq_ok
    · rintro ⟨json, hjson, rfl⟩
      rw [hjson]
      rfl
  have hencodable : ∀ tree, (∃ json, document limit (.dict (f.entries tree)) = .ok json) ↔
      tree.Encodable limit := by
    intro tree
    rw [document_ok_iff, encodable_entries]
  refine ⟨?_, fun h ha hb halike => ?_, fun h digest ha hb => ?_⟩
  · rw [← hencodable]
    constructor
    · rintro ⟨digest, h⟩
      obtain ⟨json, hjson, -⟩ := (hok a digest).mp h
      exact ⟨json, hjson⟩
    · rintro ⟨json, hjson⟩
      exact ⟨_, (hok a _).mpr ⟨json, hjson, rfl⟩⟩
  · obtain ⟨json, hjson⟩ := (hencodable a).mpr ha
    have hsame : document limit (.dict (f.entries b)) = .ok json :=
      (document_eq_iff hjson).mpr ⟨(encodable_entries f b).mpr hb, (alike_entries f a b).mpr halike⟩
    exact h _ ((hok a _).mpr ⟨json, hjson, rfl⟩) ((hok b _).mpr ⟨json, hsame, rfl⟩)
  · obtain ⟨json, hjson, rfl⟩ := (hok a digest).mp ha
    obtain ⟨json', hjson', hdigest⟩ := (hok b _).mp hb
    obtain rfl := text_injective (hsha256 hdigest)
    obtain ⟨-, halike⟩ := (document_eq_iff hjson).mp hjson'
    exact h ((hencodable a).mp ⟨json', hjson⟩) ((hencodable b).mp ⟨json', hjson'⟩)
      ((alike_entries f a b).mp halike)

/-- A number for a key, and the text of the number. -/
def numberKeyed : PyTree := .dict [(.int 1, .str (pyText "cv.pdf"))]
def textKeyed : PyTree := .dict [(.str (pyText "1"), .str (pyText "cv.pdf"))]

theorem fingerprints_iff_numberKeyed :
    ((∃ digest, (request (pyText "upload")).fingerprint id 4300 numberKeyed = .ok digest) ↔
      numberKeyed.Encodable 4300) ∧
    ((∀ digest, (request (pyText "upload")).fingerprint id 4300 numberKeyed = .ok digest →
        (request (pyText "upload")).fingerprint id 4300 textKeyed = .ok digest →
        numberKeyed.Equal textKeyed) ↔
      (numberKeyed.Encodable 4300 → textKeyed.Encodable 4300 → Alike numberKeyed textKeyed →
        numberKeyed.Equal textKeyed)) :=
  fingerprints_iff id Function.injective_id 4300 _ numberKeyed textKeyed

/-- Keys of two kinds in one dict, and no fingerprint. -/
theorem mixed_keys_raise :
    ¬ ∀ (sha256 : List Char → List Char), Function.Injective sha256 → ∀ limit (f : Fingerprinter),
      (∀ tree, ∃ digest, f.fingerprint sha256 limit tree = .ok digest) ∧
      ∀ a b digest, f.fingerprint sha256 limit a = .ok digest →
        f.fingerprint sha256 limit b = .ok digest → a.Equal b := by
  intro h
  obtain ⟨digest, hdigest⟩ := (h id Function.injective_id 4300 (request (pyText "upload"))).1
    (.dict [(.int 1, .none), (.str (pyText "a"), .none)])
  cases hdigest

end PersonalOS
