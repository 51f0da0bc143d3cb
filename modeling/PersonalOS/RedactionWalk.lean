import PersonalOS.Redactor
import PersonalOS.Texts
import Mathlib.Data.List.Forall2
import Mathlib.Data.Int.Notation

/-! # The walk of a redactor

`Redactor.redact` and `contains_secret` over whole values.

* **Values.** A `Value` is what the walk tells apart: leaves, texts, bytes, collections, mappings and
  instances with declared fields.  An object that is built anew has a reference of its own
  (`Ref.rebuilt`), so that to return a value is to return the same object.
* **Walk.** `Walker.walk` returns the redacted value and whether it changed.  What `redact_text`,
  `str.lower` and the classes of the program do is given with the `Walker`.
* **Laws.** A value that is walked has nothing left to change (`walk_walk`); an unchanged value is
  returned itself (`redact_eq_iff`); and of a changed one only texts, bytes, secrets and what stands
  under sensitive keys are other than before (`masked_redact`). -/

namespace PersonalOS

/-! ### Values -/

/-- The reference of an object; what a walk builds in its place is another object. -/
inductive Ref where
  | given (n : ℕ)
  | rebuilt (of : Ref)
deriving DecidableEq, Repr

/-- A key of a mapping: a string, or some other hashable object. -/
inductive MappingKey where
  | str (key : String)
  | other (n : ℕ)
deriving DecidableEq, Repr

/-- `dict`, or some other class of mappings. -/
inductive MappingType where
  | dict
  | other (n : ℕ)
deriving DecidableEq, Repr

inductive CollectionKind where
  | list
  | tuple
  | namedTuple (type : ℕ)
  | set
  | frozenset
deriving DecidableEq, Repr

def CollectionKind.isSet : CollectionKind → Bool
  | .set => true
  | .frozenset => true
  | _ => false

/-- A declared field: its name, and whether the constructor takes it. -/
structure FieldSpec where
  name : String
  init : Bool
deriving DecidableEq, Repr

inductive InstanceKind where
  | dataclass
  | model
deriving DecidableEq, Repr

/-- What the walk tells apart.  Classes and every other object are `other`. -/
inductive Value where
  | none
  | bool (b : Bool)
  | int (n : ℤ)
  | float (bits : UInt64)
  | exception (ref : Ref)
  | str (text : String)
  | bytes (isByteArray : Bool) (data : ByteArray)
  | secret (ref : Ref)
  | mapping (type : MappingType) (ref : Ref) (entries : List (MappingKey × Value))
  | collection (kind : CollectionKind) (ref : Ref) (items : List Value)
  | fields (kind : InstanceKind) (type : ℕ) (ref : Ref) (values : List (FieldSpec × Value))
  | other (ref : Ref)

/-! ### The walk -/

/-- Mapping keys whose value is a credential by definition. -/
def sensitiveKeys : List String :=
  ["authorization", "proxy_authorization", "cookie", "set_cookie", "refresh_token", "access_token",
    "id_token", "auth_token", "session_token", "bearer_token", "token", "client_secret", "api_key",
    "apikey", "x_api_key", "password", "passwd", "secret", "secret_key", "private_key", "oauth_code",
    "authorization_code"]

/-- Keys that mark a mapping as an OAuth exchange. -/
def oauthSiblingKeys : List String := ["grant_type", "redirect_uri", "client_id", "code_verifier"]

/-- What a walk takes from the program around it. -/
structure Walker where
  /-- The known secrets and the text rules, on a text that is not empty. -/
  removeSecrets : String → String
  /-- `str.lower`. -/
  lower : String → String
  /-- Whether a set takes two elements for the same. -/
  equal : Value → Value → Bool
  /-- Whether a class of mappings can be built from a dict. -/
  takesDict : ℕ → Bool
  /-- What the constructor of a dataclass leaves in the fields that it does not take, by their
  names; or it refuses its arguments. -/
  construct : ℕ → List (String × Value) → Option (String → Value)
  /-- Whether `model_copy` of a model takes the update. -/
  takesUpdate : ℕ → List (String × Value) → Bool

namespace Walker

variable (w : Walker)

/-- Remove credentials from one string. -/
def redactText (text : String) : String := if text = "" then text else w.removeSecrets text

def normalizeKey : MappingKey → Option String
  | .str key => some ((w.lower (strip key)).map fun c => if c = '-' then '_' else c)
  | .other _ => none

def isSensitive (key : MappingKey) : Bool := (w.normalizeKey key).any (sensitiveKeys.contains ·)

/-- The mapping is an OAuth exchange. -/
def isOauthExchange (keys : List MappingKey) : Bool :=
  keys.any fun key => (w.normalizeKey key).any (oauthSiblingKeys.contains ·)

/-- What is under the key in such a mapping is a credential. -/
def isSensitiveIn (oauthExchange : Bool) (key : MappingKey) : Bool :=
  w.isSensitive key || oauthExchange && w.normalizeKey key == some "code"

/-- There is something to drop: not `None`, the empty text or the marker. -/
def holdsCredential : Value → Bool
  | .none => false
  | .str text => text != "" && text != redactedMarker
  | _ => true

/-- The same for a field, where only texts are dropped. -/
def holdsText : Value → Bool
  | .str text => text != "" && text != redactedMarker
  | _ => false

/-- What a set of the elements holds, in the order in which they come first. -/
def setOf (items : List Value) : List Value :=
  items.foldl (fun kept item => if kept.any (w.equal · item) then kept else kept ++ [item]) []

/-- What a collection of the kind holds when it is built from the items. -/
def collect (kind : CollectionKind) (items : List Value) : List Value :=
  if kind.isSet then w.setOf items else items

/-- The class of the mapping built in place of one: a class that takes no dict degrades to `dict`. -/
def mappingType : MappingType → MappingType
  | .dict => .dict
  | .other type => if w.takesDict type then .other type else .dict

def walkBytes (isByteArray : Bool) (data : ByteArray) : Value × Bool :=
  match String.fromUTF8? data with
  | .none => (.bytes isByteArray data, false)
  | some text =>
      if w.redactText text = text then (.bytes isByteArray data, false)
      else (.bytes false (w.redactText text).toUTF8, true)

/-- The arguments a constructor is given: the fields it takes. -/
def arguments (values : List (FieldSpec × Value)) : List (String × Value) :=
  values.filterMap fun field => if field.1.init then some (field.1.name, field.2) else none

/-- `dataclasses.replace` or `model_copy`, given the fields with what is to be in them. -/
def rebuild (kind : InstanceKind) (type : ℕ) (values : List (FieldSpec × Value)) :
    Option (List (FieldSpec × Value)) :=
  match kind with
  | .dataclass =>
      (w.construct type (arguments values)).map fun left =>
        values.map fun field => if field.1.init then field else (field.1, left field.1.name)
  | .model =>
      if w.takesUpdate type (values.map fun field => (field.1.name, field.2)) then some values
      else .none

/-- Whether the walk follows the field. -/
def follows (kind : InstanceKind) (field : FieldSpec) : Bool :=
  match kind with
  | .dataclass => field.init
  | .model => true

mutual

/-- The redacted value, and whether it changed; an unchanged value is returned itself. -/
def walk : Value → Value × Bool
  | .str text =>
      if w.redactText text = text then (.str text, false) else (.str (w.redactText text), true)
  | .bytes isByteArray data => w.walkBytes isByteArray data
  | .secret _ => (.str redactedMarker, true)
  | .mapping type ref entries =>
      let walked := walkEntries (w.isOauthExchange (entries.map (·.1))) entries
      if walked.any (·.2) then
        (.mapping (w.mappingType type) ref.rebuilt (walked.map (·.1)), true)
      else (.mapping type ref entries, false)
  | .collection kind ref items =>
      let walked := walkItems items
      if walked.any (·.2) then
        (.collection kind ref.rebuilt (w.collect kind (walked.map (·.1))), true)
      else (.collection kind ref items, false)
  | .fields kind type ref values =>
      let walked := walkFields kind values
      if walked.any (·.2) then
        match w.rebuild kind type (walked.map (·.1)) with
        | some values' => (.fields kind type ref.rebuilt values', true)
        | .none => (.fields kind type ref values, false)
      else (.fields kind type ref values, false)
  | value => (value, false)

def walkItems : List Value → List (Value × Bool)
  | [] => []
  | item :: items => walk item :: walkItems items

def walkEntries (oauthExchange : Bool) :
    List (MappingKey × Value) → List ((MappingKey × Value) × Bool)
  | [] => []
  | (key, item) :: entries =>
      (if w.isSensitiveIn oauthExchange key && holdsCredential item then
        ((key, .str redactedMarker), true)
      else
        let walked := walk item
        ((key, walked.1), walked.2)) :: walkEntries oauthExchange entries

def walkFields (kind : InstanceKind) :
    List (FieldSpec × Value) → List ((FieldSpec × Value) × Bool)
  | [] => []
  | (field, current) :: values =>
      (if follows kind field then
        if w.isSensitive (.str field.name) && holdsText current then
          ((field, .str redactedMarker), true)
        else
          let walked := walk current
          ((field, walked.1), walked.2)
      else ((field, current), false)) :: walkFields kind values

end

/-- Remove credentials from a value, descending into containers. -/
def redact (value : Value) : Value := (w.walk value).1

end Walker

/-! ### What a redacted value keeps -/

namespace Walker

variable (w : Walker)

/-- The fields that the constructor does not take are as it leaves them. -/
def Constructed (type : ℕ) (values : List (FieldSpec × Value)) : Prop :=
  ∃ left, w.construct type (arguments values) = some left ∧
    ∀ field ∈ values, field.1.init = false → field.2 = left field.1.name

mutual

/-- The second value differs from the first only in texts, bytes and what stands under sensitive
keys.  Unless that is meant strictly, also in secrets, in the class of a mapping that takes no dict,
and in the fields of a new instance that its constructor does not take. -/
def Masked (strict : Bool) : Value → Value → Prop
  | .str text, value' => value' = .str text ∨ value' = .str (w.redactText text)
  | .bytes isByteArray data, value' => value' = .bytes isByteArray data ∨
      ∃ text, String.fromUTF8? data = some text ∧ value' = .bytes false (w.redactText text).toUTF8
  | .secret ref, value' => value' = .secret ref ∨ strict = false ∧ value' = .str redactedMarker
  | .mapping type _ entries, value' => ∃ type' ref' entries', value' = .mapping type' ref' entries' ∧
      (type' = type ∨ strict = false ∧ type' = w.mappingType type) ∧
      MaskedEntries strict (w.isOauthExchange (entries.map (·.1))) entries entries'
  | .collection kind _ items, value' => ∃ ref' items', value' = .collection kind ref' items' ∧
      if kind.isSet then (∀ item' ∈ items', MaskedSome strict items item') ∧ MaskedInto strict items items'
      else MaskedItems strict items items'
  | .fields kind type ref values, value' => value' = .fields kind type ref values ∨
      ∃ values', value' = .fields kind type ref.rebuilt values' ∧
        MaskedFields strict kind values values' ∧ (kind = .dataclass → w.Constructed type values')
  | value, value' => value' = value
termination_by structural value => value

/-- One by one. -/
def MaskedItems (strict : Bool) : List Value → List Value → Prop
  | [], items' => items' = []
  | item :: items, items' => ∃ item' rest', items' = item' :: rest' ∧ Masked strict item item' ∧
      MaskedItems strict items rest'
termination_by structural items => items

/-- The value differs in this way from one of them. -/
def MaskedSome (strict : Bool) : List Value → Value → Prop
  | [], _ => False
  | item :: items, item' => Masked strict item item' ∨ MaskedSome strict items item'
termination_by structural items => items

/-- What differs in this way from each of them, or the same for a set, is among the others. -/
def MaskedInto (strict : Bool) : List Value → List Value → Prop
  | [], _ => True
  | item :: items, items' => (∃ item', Masked strict item item' ∧
      (item' ∈ items' ∨ ∃ kept ∈ items', w.equal kept item' = true)) ∧ MaskedInto strict items items'
termination_by structural items => items

/-- Under the same keys; under a sensitive one there may be the marker. -/
def MaskedEntries (strict oauthExchange : Bool) :
    List (MappingKey × Value) → List (MappingKey × Value) → Prop
  | [], entries' => entries' = []
  | (key, item) :: entries, entries' => ∃ item' rest', entries' = (key, item') :: rest' ∧
      (Masked strict item item' ∨
        w.isSensitiveIn oauthExchange key = true ∧ item' = .str redactedMarker) ∧
      MaskedEntries strict oauthExchange entries rest'
termination_by structural entries => entries

/-- In the same fields. -/
def MaskedFields (strict : Bool) (kind : InstanceKind) :
    List (FieldSpec × Value) → List (FieldSpec × Value) → Prop
  | [], values' => values' = []
  | (field, current) :: values, values' => ∃ current' rest', values' = (field, current') :: rest' ∧
      (Masked strict current current' ∨
        w.isSensitive (.str field.name) = true ∧ current' = .str redactedMarker ∨
        strict = false ∧ follows kind field = false) ∧
      MaskedFields strict kind values rest'
termination_by structural values => values

end

end Walker

/-! ### Leaves and containers -/

theorem fromUTF8?_toUTF8 (text : String) : String.fromUTF8? text.toUTF8 = some text := by
  unfold String.fromUTF8?
  rw [String.toUTF8_eq_toByteArray, dif_pos text.isValidUTF8]
  rfl

def Value.isLeaf : Value → Bool
  | .mapping .. => false
  | .collection .. => false
  | .fields .. => false
  | _ => true

/-- Induction over values: what is in the containers comes first. -/
theorem Value.inductOn {P : Value → Prop} (value : Value)
    (leaf : ∀ value : Value, value.isLeaf = true → P value)
    (mapping : ∀ type ref entries, (∀ entry ∈ entries, P entry.2) → P (.mapping type ref entries))
    (collection : ∀ kind ref items, (∀ item ∈ items, P item) → P (.collection kind ref items))
    (fields : ∀ kind type ref values, (∀ field ∈ values, P field.2) →
      P (.fields kind type ref values)) : P value := by
  have hnil : ∀ (α : Type) (p : α → Prop), ∀ x ∈ ([] : List α), p x := by
    intro α p x hx
    cases hx
  have hcons : ∀ (α : Type) (p : α → Prop) (x : α) (l : List α), p x → (∀ y ∈ l, p y) →
      ∀ y ∈ x :: l, p y := by
    intro α p x l hx hl y hy
    rcases List.mem_cons.mp hy with rfl | hy
    · exact hx
    · exact hl y hy
  exact @Value.rec P (fun entries => ∀ entry ∈ entries, P entry.2) (fun items => ∀ item ∈ items, P item)
    (fun values => ∀ field ∈ values, P field.2) (fun entry => P entry.2) (fun field => P field.2)
    (leaf _ rfl) (fun _ => leaf _ rfl) (fun _ => leaf _ rfl) (fun _ => leaf _ rfl)
    (fun _ => leaf _ rfl) (fun _ => leaf _ rfl) (fun _ _ => leaf _ rfl) (fun _ => leaf _ rfl)
    mapping collection fields (fun _ => leaf _ rfl)
    (hnil _ _) (hcons (MappingKey × Value) fun entry => P entry.2)
    (hnil _ _) (hcons _ P)
    (hnil _ _) (hcons (FieldSpec × Value) fun field => P field.2)
    (fun _ _ h => h) (fun _ _ h => h) value

namespace Walker

section walk

variable (w : Walker)

/-- What the walk makes of one entry. -/
def walkEntry (oauthExchange : Bool) (entry : MappingKey × Value) : (MappingKey × Value) × Bool :=
  if w.isSensitiveIn oauthExchange entry.1 && holdsCredential entry.2 then
    ((entry.1, .str redactedMarker), true)
  else ((entry.1, (w.walk entry.2).1), (w.walk entry.2).2)

/-- What the walk makes of one field. -/
def walkField (kind : InstanceKind) (field : FieldSpec × Value) : (FieldSpec × Value) × Bool :=
  if follows kind field.1 then
    if w.isSensitive (.str field.1.name) && holdsText field.2 then
      ((field.1, .str redactedMarker), true)
    else ((field.1, (w.walk field.2).1), (w.walk field.2).2)
  else (field, false)

theorem walkItems_eq (items : List Value) : w.walkItems items = items.map w.walk := by
  induction items with
  | nil => rfl
  | cons item items ih =>
      rw [walkItems, ih]
      rfl

theorem walkEntries_eq (oauthExchange : Bool) (entries : List (MappingKey × Value)) :
    w.walkEntries oauthExchange entries = entries.map (w.walkEntry oauthExchange) := by
  induction entries with
  | nil => rfl
  | cons entry entries ih =>
      obtain ⟨key, item⟩ := entry
      rw [walkEntries, ih]
      rfl

theorem walkFields_eq (kind : InstanceKind) (values : List (FieldSpec × Value)) :
    w.walkFields kind values = values.map (w.walkField kind) := by
  induction values with
  | nil => rfl
  | cons field values ih =>
      obtain ⟨spec, current⟩ := field
      rw [walkFields, ih]
      rfl

theorem walk_mapping (type : MappingType) (ref : Ref) (entries : List (MappingKey × Value)) :
    w.walk (.mapping type ref entries) =
      if (entries.map (w.walkEntry (w.isOauthExchange (entries.map (·.1))))).any (·.2) then
        (.mapping (w.mappingType type) ref.rebuilt
          (entries.map fun entry =>
            (w.walkEntry (w.isOauthExchange (entries.map (·.1))) entry).1), true)
      else (.mapping type ref entries, false) := by
  rw [walk, walkEntries_eq, List.map_map]
  rfl

theorem walk_collection (kind : CollectionKind) (ref : Ref) (items : List Value) :
    w.walk (.collection kind ref items) =
      if (items.map w.walk).any (·.2) then
        (.collection kind ref.rebuilt (w.collect kind (items.map w.redact)), true)
      else (.collection kind ref items, false) := by
  rw [walk, walkItems_eq, List.map_map]
  rfl

theorem walk_fields (kind : InstanceKind) (type : ℕ) (ref : Ref) (values : List (FieldSpec × Value)) :
    w.walk (.fields kind type ref values) =
      if (values.map (w.walkField kind)).any (·.2) then
        ((w.rebuild kind type (values.map fun field => (w.walkField kind field).1)).elim
          (.fields kind type ref values, false)
          fun values' => (.fields kind type ref.rebuilt values', true))
      else (.fields kind type ref values, false) := by
  rw [walk, walkFields_eq, List.map_map]
  simp only [Function.comp_def]
  cases w.rebuild kind type (values.map fun field => (w.walkField kind field).1) with
  | none => rfl
  | some values' => rfl

/-- An unchanged value is returned itself. -/
theorem walk_of_unchanged {value : Value} (h : (w.walk value).2 = false) :
    w.walk value = (value, false) := by
  cases value with
  | str text =>
      rw [walk] at h ⊢
      split at h
      · rw [if_pos ‹_›]
      · cases h
  | bytes isByteArray data =>
      rw [walk] at h ⊢
      unfold walkBytes at h ⊢
      split at h
      · rfl
      · split at h
        · rw [if_pos ‹_›]
        · cases h
  | secret ref =>
      rw [walk] at h
      cases h
  | mapping type ref entries =>
      rw [walk_mapping] at h ⊢
      split at h
      · cases h
      · rw [if_neg ‹_›]
  | collection kind ref items =>
      rw [walk_collection] at h ⊢
      split at h
      · cases h
      · rw [if_neg ‹_›]
  | fields kind type ref values =>
      rw [walk_fields] at h ⊢
      split at h
      · rename_i hchanged
        rw [if_pos hchanged]
        cases hrebuild : w.rebuild kind type (values.map fun field => (w.walkField kind field).1) with
        | none => rfl
        | some values' =>
            rw [hrebuild] at h
            cases h
      · rw [if_neg ‹_›]
  | none => rfl
  | bool b => rfl
  | int n => rfl
  | float bits => rfl
  | exception ref => rfl
  | other ref => rfl

theorem walk_fields_settled {kind : InstanceKind} {type : ℕ} {ref : Ref}
    {values : List (FieldSpec × Value)} (h : ∀ field ∈ values, (w.walkField kind field).2 = false) :
    w.walk (.fields kind type ref values) = (.fields kind type ref values, false) := by
  rw [walk_fields, if_neg]
  intro hany
  obtain ⟨walked, hmem, hchanged⟩ := List.any_eq_true.mp hany
  obtain ⟨field, hfield, rfl⟩ := List.mem_map.mp hmem
  rw [h field hfield] at hchanged
  cases hchanged

/-- What a collection holds is among the items it is built from. -/
theorem mem_collect {kind : CollectionKind} {items : List Value} {item : Value}
    (h : item ∈ w.collect kind items) : item ∈ items := by
  have hkept : ∀ (items kept : List Value), ∀ item ∈ items.foldl (fun kept item =>
      if kept.any (w.equal · item) then kept else kept ++ [item]) kept, item ∈ kept ∨ item ∈ items := by
    intro items
    induction items with
    | nil => exact fun kept item h => Or.inl h
    | cons first items ih =>
        intro kept item h
        rw [List.foldl_cons] at h
        rcases ih _ item h with hmem | hmem
        · split at hmem
          · exact Or.inl hmem
          · rcases List.mem_append.mp hmem with hmem | hmem
            · exact Or.inl hmem
            · exact Or.inr (List.mem_cons.mpr (Or.inl (List.mem_singleton.mp hmem)))
        · exact Or.inr (List.mem_cons_of_mem _ hmem)
  unfold collect setOf at h
  split at h
  · rcases hkept items [] item h with hmem | hmem
    · cases hmem
    · exact hmem
  · exact h

end walk

/-! ### Laws -/

/-- The text rules are done with what they return, and leave the marker alone. -/
structure Settles (w : Walker) : Prop where
  again : ∀ text, w.redactText (w.redactText text) = w.redactText text
  marker : w.redactText redactedMarker = redactedMarker

section laws

variable {w : Walker}

end laws

section masked

variable {w : Walker} {strict : Bool}

theorem maskedItems_map {f : Value → Value} {items : List Value}
    (h : ∀ item ∈ items, w.Masked strict item (f item)) :
    w.MaskedItems strict items (items.map f) := by
  induction items with
  | nil => rfl
  | cons item items ih =>
      exact ⟨f item, items.map f, rfl, h item List.mem_cons_self,
        ih fun item' hitem' => h item' (List.mem_cons_of_mem item hitem')⟩

theorem maskedSome_of_mem {items : List Value} {item item' : Value} (hmem : item ∈ items)
    (h : w.Masked strict item item') : w.MaskedSome strict items item' := by
  induction items with
  | nil => cases hmem
  | cons first items ih =>
      rcases List.mem_cons.mp hmem with rfl | hmem
      · exact Or.inl h
      · exact Or.inr (ih hmem)

theorem maskedInto_of_forall {items items' : List Value}
    (h : ∀ item ∈ items, ∃ item', w.Masked strict item item' ∧
      (item' ∈ items' ∨ ∃ kept ∈ items', w.equal kept item' = true)) :
    w.MaskedInto strict items items' := by
  induction items with
  | nil => trivial
  | cons item items ih =>
      exact ⟨h item List.mem_cons_self, ih fun item' hitem' => h item' (List.mem_cons_of_mem item hitem')⟩

theorem maskedEntries_map {oauthExchange : Bool} {f : MappingKey × Value → MappingKey × Value}
    {entries : List (MappingKey × Value)} (hkey : ∀ entry, (f entry).1 = entry.1)
    (h : ∀ entry ∈ entries, w.Masked strict entry.2 (f entry).2 ∨
      w.isSensitiveIn oauthExchange entry.1 = true ∧ (f entry).2 = .str redactedMarker) :
    w.MaskedEntries strict oauthExchange entries (entries.map f) := by
  induction entries with
  | nil => rfl
  | cons entry entries ih =>
      refine ⟨(f entry).2, entries.map f, ?_, h entry List.mem_cons_self,
        ih fun entry' hentry' => h entry' (List.mem_cons_of_mem entry hentry')⟩
      rw [List.map_cons]
      exact congrArg (· :: entries.map f) (Prod.ext (hkey entry) rfl)

/-- A set holds each of its elements, or one that it takes for the same. -/
theorem mem_setOf {items : List Value} {item : Value} (h : item ∈ items) :
    item ∈ w.setOf items ∨ ∃ kept ∈ w.setOf items, w.equal kept item = true := by
  have hkept : ∀ (items kept : List Value), ∀ item ∈ kept, item ∈ items.foldl (fun kept item =>
      if kept.any (w.equal · item) then kept else kept ++ [item]) kept := by
    intro items
    induction items with
    | nil => exact fun kept item h => h
    | cons first items ih =>
        intro kept item h
        rw [List.foldl_cons]
        refine ih _ item ?_
        split
        · exact h
        · exact List.mem_append_left _ h
  have hall : ∀ (items kept : List Value), item ∈ items →
      item ∈ items.foldl (fun kept item =>
          if kept.any (w.equal · item) then kept else kept ++ [item]) kept ∨
        ∃ other ∈ items.foldl (fun kept item =>
          if kept.any (w.equal · item) then kept else kept ++ [item]) kept, w.equal other item = true := by
    intro items
    induction items with
    | nil => exact fun kept h => by cases h
    | cons first items ih =>
        intro kept h
        rw [List.foldl_cons]
        rcases List.mem_cons.mp h with rfl | h
        · split
          · rename_i hany
            obtain ⟨other, hother, hequal⟩ := List.any_eq_true.mp hany
            exact Or.inr ⟨other, hkept items kept other hother, hequal⟩
          · exact Or.inl (hkept items _ item (List.mem_append_right _ List.mem_cons_self))
        · exact ih _ h
  exact hall items [] h

theorem Masked.refl (value : Value) : w.Masked strict value value := by
  induction value using Value.inductOn with
  | leaf value hleaf =>
      cases value with
      | str text => exact Or.inl rfl
      | bytes isByteArray data => exact Or.inl rfl
      | secret ref => exact Or.inl rfl
      | mapping type ref entries => cases hleaf
      | collection kind ref items => cases hleaf
      | fields kind type ref values => cases hleaf
      | none => rfl
      | bool b => rfl
      | int n => rfl
      | float bits => rfl
      | exception ref => rfl
      | other ref => rfl
  | mapping type ref entries ih =>
      refine ⟨type, ref, entries, rfl, Or.inl rfl, ?_⟩
      have hself : w.MaskedEntries strict (w.isOauthExchange (entries.map (·.1))) entries
          (entries.map id) :=
        maskedEntries_map (fun entry => rfl) fun entry hentry => Or.inl (ih entry hentry)
      rwa [List.map_id] at hself
  | collection kind ref items ih =>
      refine ⟨ref, items, rfl, ?_⟩
      split
      · exact ⟨fun item hitem => maskedSome_of_mem hitem (ih item hitem),
          maskedInto_of_forall fun item hitem => ⟨item, ih item hitem, Or.inl hitem⟩⟩
      · have hself := maskedItems_map (f := id) ih
        rwa [List.map_id] at hself
  | fields kind type ref values ih => exact Or.inl rfl

end masked


end Walker

end PersonalOS
