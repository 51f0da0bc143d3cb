import PersonalOS.RedactionWalk
import PersonalOS.SecretRemoval

/-! # What redaction leaves of a known secret

The texts with some property, such as to contain a secret, that are left in a redacted value when the
text rules leave none.

* **Texts in a value.** `Shows` finds them in strings, in what bytes hold and in the keys of mappings.
* **What is walked.** `Redacts` finds the texts that the walk redacts and the credentials that it drops.
* **Where they are left.** `Leaves`: the walk passes over keys, and over fields that no constructor takes
  when it finds nothing else to change (`shows_redact_iff`). -/

namespace PersonalOS

/-! ### Texts in a value -/

/-- Some text in the value has the property. -/
inductive Value.Shows (p : String → Prop) : Value → Prop
  | str {text : String} (h : p text) : Shows p (.str text)
  | bytes {isByteArray : Bool} {data : ByteArray} {text : String}
      (hdecode : String.fromUTF8? data = some text) (h : p text) : Shows p (.bytes isByteArray data)
  | key {type : MappingType} {ref : Ref} {entries : List (MappingKey × Value)} {key : String}
      {item : Value} (hmem : (.str key, item) ∈ entries) (h : p key) :
      Shows p (.mapping type ref entries)
  | entry {type : MappingType} {ref : Ref} {entries : List (MappingKey × Value)}
      {entry : MappingKey × Value} (hmem : entry ∈ entries) (h : Shows p entry.2) :
      Shows p (.mapping type ref entries)
  | item {kind : CollectionKind} {ref : Ref} {items : List Value} {item : Value} (hmem : item ∈ items)
      (h : Shows p item) : Shows p (.collection kind ref items)
  | field {kind : InstanceKind} {type : ℕ} {ref : Ref} {values : List (FieldSpec × Value)}
      {field : FieldSpec × Value} (hmem : field ∈ values) (h : Shows p field.2) :
      Shows p (.fields kind type ref values)

namespace Walker

variable (w : Walker) (p : String → Prop)

/-- What redaction leaves in place. -/
inductive Leaves : Value → Prop
  | key {type : MappingType} {ref : Ref} {entries : List (MappingKey × Value)} {key : String}
      {item : Value} (hmem : (.str key, item) ∈ entries) (h : p key) :
      Leaves (.mapping type ref entries)
  | entry {type : MappingType} {ref : Ref} {entries : List (MappingKey × Value)}
      {entry : MappingKey × Value} (hmem : entry ∈ entries)
      (hwalked : (w.isSensitiveIn (w.isOauthExchange (entries.map (·.1))) entry.1 &&
        holdsCredential entry.2) = false) (h : Leaves entry.2) : Leaves (.mapping type ref entries)
  | item {kind : CollectionKind} {ref : Ref} {items : List Value} {item : Value} (hmem : item ∈ items)
      (h : Leaves item) : Leaves (.collection kind ref items)
  | followed {kind : InstanceKind} {type : ℕ} {ref : Ref} {values : List (FieldSpec × Value)}
      {field : FieldSpec × Value} (hmem : field ∈ values) (hfollows : follows kind field.1 = true)
      (hwalked : (w.isSensitive (.str field.1.name) && holdsText field.2) = false)
      (h : Leaves field.2) : Leaves (.fields kind type ref values)
  | untaken {kind : InstanceKind} {type : ℕ} {ref : Ref} {values : List (FieldSpec × Value)}
      {field : FieldSpec × Value} (hmem : field ∈ values) (hfollows : follows kind field.1 = false)
      (hsame : ∀ other ∈ values, (w.walkField kind other).2 = false) (h : field.2.Shows p) :
      Leaves (.fields kind type ref values)

/-- The walk redacts the text, or drops a credential whole. -/
inductive Redacts : Value → Option String → Prop
  | str (text : String) : Redacts (.str text) (some text)
  | bytes {isByteArray : Bool} {data : ByteArray} {text : String}
      (hdecode : String.fromUTF8? data = some text) : Redacts (.bytes isByteArray data) (some text)
  | secret (ref : Ref) : Redacts (.secret ref) none
  | dropped {type : MappingType} {ref : Ref} {entries : List (MappingKey × Value)}
      {entry : MappingKey × Value} (hmem : entry ∈ entries)
      (hdropped : (w.isSensitiveIn (w.isOauthExchange (entries.map (·.1))) entry.1 &&
        holdsCredential entry.2) = true) : Redacts (.mapping type ref entries) none
  | entry {type : MappingType} {ref : Ref} {entries : List (MappingKey × Value)}
      {entry : MappingKey × Value} {text : Option String} (hmem : entry ∈ entries)
      (hwalked : (w.isSensitiveIn (w.isOauthExchange (entries.map (·.1))) entry.1 &&
        holdsCredential entry.2) = false) (h : Redacts entry.2 text) :
      Redacts (.mapping type ref entries) text
  | item {kind : CollectionKind} {ref : Ref} {items : List Value} {item : Value} {text : Option String}
      (hmem : item ∈ items) (h : Redacts item text) : Redacts (.collection kind ref items) text
  | droppedField {kind : InstanceKind} {type : ℕ} {ref : Ref} {values : List (FieldSpec × Value)}
      {field : FieldSpec × Value} (hmem : field ∈ values) (hfollows : follows kind field.1 = true)
      (hdropped : (w.isSensitive (.str field.1.name) && holdsText field.2) = true) :
      Redacts (.fields kind type ref values) none
  | field {kind : InstanceKind} {type : ℕ} {ref : Ref} {values : List (FieldSpec × Value)}
      {field : FieldSpec × Value} {text : Option String} (hmem : field ∈ values)
      (hfollows : follows kind field.1 = true)
      (hwalked : (w.isSensitive (.str field.1.name) && holdsText field.2) = false)
      (h : Redacts field.2 text) : Redacts (.fields kind type ref values) text

/-- What the walk writes there. -/
def written : Option String → String
  | some text => w.redactText text
  | .none => redactedMarker

/-- The classes of the program as far as such texts go: instances accept replacement, a constructor makes
up no such text, and what a set takes for the same has such a text in common. -/
structure Transparent : Prop where
  rebuilds : ∀ kind type values, (w.rebuild kind type values).isSome = true
  construct : ∀ type given left, w.construct type given = some left →
    (∀ argument ∈ given, ¬argument.2.Shows p) → ∀ name, ¬(left name).Shows p
  equal : ∀ kept item, w.equal kept item = true → item.Shows p → kept.Shows p

variable {w} {p}

/-! ### Containers -/

theorem walkEntry_unchanged {oauthExchange : Bool} {entry : MappingKey × Value}
    (h : (w.walkEntry oauthExchange entry).2 = false) : (w.walkEntry oauthExchange entry).1 = entry := by
  unfold walkEntry at h ⊢
  split
  · rw [if_pos ‹_›] at h
    cases h
  · rw [if_neg ‹_›] at h
    rw [w.walk_of_unchanged h]

theorem walkField_unchanged {kind : InstanceKind} {field : FieldSpec × Value}
    (h : (w.walkField kind field).2 = false) : (w.walkField kind field).1 = field := by
  unfold walkField at h ⊢
  split
  · rw [if_pos ‹_›] at h
    split
    · rw [if_pos ‹_›] at h
      cases h
    · rw [if_neg ‹_›] at h
      rw [w.walk_of_unchanged h]
  · rfl

theorem walkEntry_key (oauthExchange : Bool) (entry : MappingKey × Value) :
    (w.walkEntry oauthExchange entry).1.1 = entry.1 := by
  unfold walkEntry
  split
  · rfl
  · rfl

variable (w) in
theorem redact_mapping (type : MappingType) (ref : Ref) (entries : List (MappingKey × Value)) :
    ∃ type' ref', w.redact (.mapping type ref entries) = .mapping type' ref'
      (entries.map fun entry => (w.walkEntry (w.isOauthExchange (entries.map (·.1))) entry).1) := by
  unfold redact
  rw [walk_mapping]
  split
  · exact ⟨_, _, rfl⟩
  · rename_i hsame
    have hentries : entries.map (fun entry =>
        (w.walkEntry (w.isOauthExchange (entries.map (·.1))) entry).1) = entries := by
      refine (List.map_congr_left fun entry hentry => walkEntry_unchanged ?_).trans (List.map_id _)
      refine Bool.eq_false_of_not_eq_true fun hchanged => hsame ?_
      exact List.any_eq_true.mpr ⟨_, List.mem_map_of_mem hentry, hchanged⟩
    exact ⟨type, ref, by rw [hentries]⟩

variable (w) in
theorem redact_collection (kind : CollectionKind) (ref : Ref) (items : List Value) :
    ∃ ref' items', w.redact (.collection kind ref items) = .collection kind ref' items' ∧
      (∀ item' ∈ items', ∃ item ∈ items, item' = w.redact item) ∧
      ∀ item ∈ items, w.redact item ∈ items' ∨ ∃ kept ∈ items', w.equal kept (w.redact item) = true := by
  have hcollect : w.redact (.collection kind ref items) =
      if (items.map w.walk).any (·.2) then
        .collection kind ref.rebuilt (w.collect kind (items.map w.redact))
      else .collection kind ref items := by
    unfold redact
    rw [walk_collection]
    split
    · rfl
    · rfl
  rw [hcollect]
  split
  · refine ⟨_, _, rfl, fun item' hitem' => ?_, fun item hitem => ?_⟩
    · obtain ⟨item, hitem, rfl⟩ := List.mem_map.mp (w.mem_collect hitem')
      exact ⟨item, hitem, rfl⟩
    · have hmem : w.redact item ∈ items.map w.redact := List.mem_map_of_mem hitem
      unfold collect
      split
      · exact mem_setOf hmem
      · exact Or.inl hmem
  · rename_i hsame
    have hredact : ∀ item ∈ items, w.redact item = item := by
      intro item hitem
      have hitem : (w.walk item).2 = false := by
        refine Bool.eq_false_of_not_eq_true fun hchanged => hsame ?_
        exact List.any_eq_true.mpr ⟨_, List.mem_map_of_mem hitem, hchanged⟩
      exact congrArg Prod.fst (w.walk_of_unchanged hitem)
    refine ⟨ref, items, rfl, fun item hitem => ⟨item, hitem, (hredact item hitem).symm⟩, ?_⟩
    intro item hitem
    rw [hredact item hitem]
    exact Or.inl hitem

/-! ### What is left -/

theorem shows_str {text : String} : (Value.str text).Shows p ↔ p text := by
  refine ⟨fun h => ?_, .str⟩
  cases h with
  | str h => exact h

theorem shows_walkEntry {oauthExchange : Bool} {entry : MappingKey × Value}
    (hmarker : (w.isSensitiveIn oauthExchange entry.1 && holdsCredential entry.2) = true →
      ¬p redactedMarker)
    (ih : (w.isSensitiveIn oauthExchange entry.1 && holdsCredential entry.2) = false →
      ((w.redact entry.2).Shows p ↔ w.Leaves p entry.2)) :
    (w.walkEntry oauthExchange entry).1.2.Shows p ↔
      (w.isSensitiveIn oauthExchange entry.1 && holdsCredential entry.2) = false ∧ w.Leaves p entry.2 := by
  unfold walkEntry
  split
  · rename_i hdropped
    rw [shows_str]
    exact iff_of_false (hmarker hdropped) fun h => Bool.noConfusion (h.1.symm.trans hdropped)
  · rename_i hwalked
    have hwalked := Bool.eq_false_of_not_eq_true hwalked
    exact (ih hwalked).trans (and_iff_right hwalked).symm

theorem shows_walkField {kind : InstanceKind} {field : FieldSpec × Value}
    (hfollows : follows kind field.1 = true)
    (hmarker : (w.isSensitive (.str field.1.name) && holdsText field.2) = true → ¬p redactedMarker)
    (ih : (w.isSensitive (.str field.1.name) && holdsText field.2) = false →
      ((w.redact field.2).Shows p ↔ w.Leaves p field.2)) :
    (w.walkField kind field).1.2.Shows p ↔
      (w.isSensitive (.str field.1.name) && holdsText field.2) = false ∧ w.Leaves p field.2 := by
  unfold walkField
  rw [if_pos hfollows]
  split
  · rename_i hdropped
    rw [shows_str]
    exact iff_of_false (hmarker hdropped) fun h => Bool.noConfusion (h.1.symm.trans hdropped)
  · rename_i hwalked
    have hwalked := Bool.eq_false_of_not_eq_true hwalked
    exact (ih hwalked).trans (and_iff_right hwalked).symm

theorem shows_rebuild (hw : w.Transparent p) {kind : InstanceKind} {type : ℕ}
    {walked values' : List (FieldSpec × Value)} (h : w.rebuild kind type walked = some values') :
    (∃ field ∈ values', field.2.Shows p) ↔
      ∃ field ∈ walked, follows kind field.1 = true ∧ field.2.Shows p := by
  cases kind with
  | dataclass =>
      obtain ⟨left, hleft, rfl⟩ := Option.map_eq_some_iff.mp h
      constructor
      · rintro ⟨field', hfield', hshows⟩
        obtain ⟨field, hfield, rfl⟩ := List.mem_map.mp hfield'
        by_cases hinit : field.1.init = true
        · rw [if_pos hinit] at hshows
          exact ⟨field, hfield, hinit, hshows⟩
        · rw [if_neg hinit] at hshows
          have hsome : ∃ argument ∈ arguments walked, argument.2.Shows p := by
            by_contra hnone
            exact hw.construct type _ left hleft
              (fun argument hargument h => hnone ⟨argument, hargument, h⟩) _ hshows
          obtain ⟨argument, hargument, hshows⟩ := hsome
          obtain ⟨taken, htaken, hargument⟩ := List.mem_filterMap.mp hargument
          obtain ⟨htakes, heq⟩ := Option.ite_none_right_eq_some.mp hargument
          obtain rfl := Option.some.inj heq
          exact ⟨taken, htaken, htakes, hshows⟩
      · rintro ⟨field, hfield, hinit, hshows⟩
        refine ⟨_, List.mem_map_of_mem hfield, ?_⟩
        have htaken : field.1.init = true := hinit
        rw [if_pos htaken]
        exact hshows
  | model =>
      obtain ⟨-, heq⟩ := Option.ite_none_right_eq_some.mp h
      obtain rfl := Option.some.inj heq
      constructor
      · rintro ⟨field, hfield, hshows⟩
        exact ⟨field, hfield, rfl, hshows⟩
      · rintro ⟨field, hfield, -, hshows⟩
        exact ⟨field, hfield, hshows⟩

theorem shows_fields {kind : InstanceKind} {type : ℕ} {ref : Ref} {values : List (FieldSpec × Value)} :
    (Value.fields kind type ref values).Shows p ↔ ∃ field ∈ values, field.2.Shows p := by
  constructor
  · intro h
    cases h with
    | field hmem h => exact ⟨_, hmem, h⟩
  · rintro ⟨field, hmem, h⟩
    exact .field hmem h

theorem shows_redact_fields (hw : w.Transparent p) {kind : InstanceKind} {type : ℕ} {ref : Ref}
    {values : List (FieldSpec × Value)}
    (hwritten : ∀ text, w.Redacts (.fields kind type ref values) text → ¬p (w.written text))
    (ih : ∀ field ∈ values, (∀ text, w.Redacts field.2 text → ¬p (w.written text)) →
      ((w.redact field.2).Shows p ↔ w.Leaves p field.2)) :
    (w.redact (.fields kind type ref values)).Shows p ↔ w.Leaves p (.fields kind type ref values) := by
  have hshows : ∀ field ∈ values, follows kind field.1 = true →
      ((w.walkField kind field).1.2.Shows p ↔
        (w.isSensitive (.str field.1.name) && holdsText field.2) = false ∧ w.Leaves p field.2) := by
    intro field hmem hfollows
    refine shows_walkField hfollows (fun hdropped => hwritten none (.droppedField hmem hfollows hdropped))
      fun hwalked => ih field hmem fun text htext => hwritten text (.field hmem hfollows hwalked htext)
  by_cases hchanged : (values.map (w.walkField kind)).any (·.2) = true
  · obtain ⟨values', hrebuild⟩ := Option.isSome_iff_exists.mp
      (hw.rebuilds kind type (values.map fun field => (w.walkField kind field).1))
    have hredact : w.redact (.fields kind type ref values) = .fields kind type ref.rebuilt values' := by
      rw [redact, walk_fields, if_pos hchanged, hrebuild]
      rfl
    have hspec : ∀ field, (w.walkField kind field).1.1 = field.1 := by
      intro field
      unfold walkField
      split
      · split
        · rfl
        · rfl
      · rfl
    rw [hredact, shows_fields, shows_rebuild hw hrebuild]
    constructor
    · rintro ⟨field', hfield', hfollows, hfieldShows⟩
      obtain ⟨field, hfield, rfl⟩ := List.mem_map.mp hfield'
      rw [hspec] at hfollows
      obtain ⟨hwalked, hleaves⟩ := (hshows field hfield hfollows).mp hfieldShows
      exact .followed hfield hfollows hwalked hleaves
    · intro hleaves
      cases hleaves with
      | followed hfield hfollows hwalked hleaves =>
          refine ⟨_, List.mem_map_of_mem hfield, (congrArg _ (hspec _)).trans hfollows, ?_⟩
          exact (hshows _ hfield hfollows).mpr ⟨hwalked, hleaves⟩
      | untaken _ _ hsame _ =>
          obtain ⟨_, hwalked, hother⟩ := List.any_eq_true.mp hchanged
          obtain ⟨other, hmem, rfl⟩ := List.mem_map.mp hwalked
          rw [hsame other hmem] at hother
          cases hother
  · have hsame : ∀ field ∈ values, (w.walkField kind field).2 = false := by
      intro field hfield
      refine Bool.eq_false_of_not_eq_true fun hfieldChanged => hchanged ?_
      exact List.any_eq_true.mpr ⟨_, List.mem_map_of_mem hfield, hfieldChanged⟩
    have hwalk : w.walk (.fields kind type ref values) = (.fields kind type ref values, false) :=
      w.walk_fields_settled hsame
    rw [redact, hwalk, shows_fields]
    have hfield : ∀ field ∈ values, follows kind field.1 = true →
        (field.2.Shows p ↔ (w.isSensitive (.str field.1.name) && holdsText field.2) = false ∧
          w.Leaves p field.2) := by
      intro field hfield hfollows
      have hwalkedShows := hshows field hfield hfollows
      rwa [walkField_unchanged (hsame field hfield)] at hwalkedShows
    constructor
    · rintro ⟨field, hmem, hfieldShows⟩
      by_cases hfollows : follows kind field.1 = true
      · obtain ⟨hwalked, hleaves⟩ := (hfield field hmem hfollows).mp hfieldShows
        exact .followed hmem hfollows hwalked hleaves
      · exact .untaken hmem (Bool.eq_false_of_not_eq_true hfollows) hsame hfieldShows
    · intro hleaves
      cases hleaves with
      | followed hmem hfollows hwalked hleaves =>
          exact ⟨_, hmem, (hfield _ hmem hfollows).mpr ⟨hwalked, hleaves⟩⟩
      | untaken hmem _ _ hshows => exact ⟨_, hmem, hshows⟩

/-- A leaf that is written anew has nothing left. -/
theorem not_shows_redact_leaf {value : Value} (hleaf : value.isLeaf = true)
    (hwritten : ∀ text, w.Redacts value text → ¬p (w.written text)) : ¬(w.redact value).Shows p := by
  intro hshows
  cases value with
  | str text =>
      have hredact : w.redact (.str text) = .str (w.redactText text) := by
        rw [redact, walk]
        split
        · rename_i hsame
          rw [hsame]
        · rfl
      rw [hredact, shows_str] at hshows
      exact hwritten _ (.str text) hshows
  | bytes isByteArray data =>
      rw [redact, walk] at hshows
      unfold walkBytes at hshows
      split at hshows
      · rename_i hdecode
        cases hshows with
        | bytes hdecode' _ => cases hdecode.symm.trans hdecode'
      · rename_i text hdecode
        split at hshows
        · rename_i hsame
          cases hshows with
          | bytes hdecode' h =>
              obtain rfl := Option.some.inj (hdecode.symm.trans hdecode')
              have hwritten : ¬p (w.redactText text) := hwritten _ (.bytes hdecode)
              rw [hsame] at hwritten
              exact hwritten h
        · cases hshows with
          | bytes hdecode' h =>
              obtain rfl := Option.some.inj ((fromUTF8?_toUTF8 _).symm.trans hdecode')
              exact hwritten _ (.bytes hdecode) h
  | secret ref => exact hwritten _ (.secret ref) (shows_str.mp hshows)
  | mapping type ref entries => cases hleaf
  | collection kind ref items => cases hleaf
  | fields kind type ref values => cases hleaf
  | none => cases hshows
  | bool b => cases hshows
  | int n => cases hshows
  | float bits => cases hshows
  | exception ref => cases hshows
  | other ref => cases hshows

theorem shows_redact_mapping {type : MappingType} {ref : Ref} {entries : List (MappingKey × Value)}
    (hwritten : ∀ text, w.Redacts (.mapping type ref entries) text → ¬p (w.written text))
    (ih : ∀ entry ∈ entries, (∀ text, w.Redacts entry.2 text → ¬p (w.written text)) →
      ((w.redact entry.2).Shows p ↔ w.Leaves p entry.2)) :
    (w.redact (.mapping type ref entries)).Shows p ↔ w.Leaves p (.mapping type ref entries) := by
  obtain ⟨type', ref', hredact⟩ := w.redact_mapping type ref entries
  have hshows : ∀ entry ∈ entries,
      (w.walkEntry (w.isOauthExchange (entries.map (·.1))) entry).1.2.Shows p ↔
        (w.isSensitiveIn (w.isOauthExchange (entries.map (·.1))) entry.1 &&
          holdsCredential entry.2) = false ∧ w.Leaves p entry.2 := by
    intro entry hmem
    refine shows_walkEntry (fun hdropped => hwritten none (.dropped hmem hdropped))
      fun hwalked => ih entry hmem fun text htext => hwritten text (.entry hmem hwalked htext)
  rw [hredact]
  constructor
  · intro hleft
    cases hleft with
    | @key _ _ _ key item hmem h =>
        obtain ⟨entry, hentry, heq⟩ := List.mem_map.mp hmem
        have hkey : entry.1 = .str key := (walkEntry_key _ entry).symm.trans (congrArg Prod.fst heq)
        have hkeyed : (MappingKey.str key, entry.2) ∈ entries := hkey ▸ hentry
        exact .key hkeyed h
    | entry hmem h =>
        obtain ⟨entry, hentry, rfl⟩ := List.mem_map.mp hmem
        obtain ⟨hwalked, hleaves⟩ := (hshows entry hentry).mp h
        exact .entry hentry hwalked hleaves
  · intro hleaves
    cases hleaves with
    | @key _ _ _ key item hmem h =>
        have hwalked := List.mem_map_of_mem
          (f := fun entry => (w.walkEntry (w.isOauthExchange (entries.map (·.1))) entry).1) hmem
        have hentry : (w.walkEntry (w.isOauthExchange (entries.map (·.1))) (.str key, item)).1 =
            (.str key, (w.walkEntry (w.isOauthExchange (entries.map (·.1))) (.str key, item)).1.2) :=
          Prod.ext (walkEntry_key _ _) rfl
        rw [hentry] at hwalked
        exact .key hwalked h
    | entry hmem hwalked h =>
        exact .entry (List.mem_map_of_mem hmem) ((hshows _ hmem).mpr ⟨hwalked, h⟩)

/-- **Redaction leaves** the property where `Leaves` says so and nowhere else, if nothing that the walk
writes has it. -/
theorem shows_redact_iff (hw : w.Transparent p) (value : Value)
    (hwritten : ∀ text, w.Redacts value text → ¬p (w.written text)) :
    (w.redact value).Shows p ↔ w.Leaves p value := by
  induction value using Value.inductOn with
  | leaf value hleaf =>
      refine iff_of_false (not_shows_redact_leaf hleaf hwritten) fun hleaves => ?_
      cases hleaves <;> cases hleaf
  | mapping type ref entries ih => exact shows_redact_mapping hwritten ih
  | collection kind ref items ih =>
      obtain ⟨ref', items', hredact, hfrom, hinto⟩ := w.redact_collection kind ref items
      have hshows : ∀ item ∈ items, (w.redact item).Shows p ↔ w.Leaves p item :=
        fun item hmem => ih item hmem fun text htext => hwritten text (.item hmem htext)
      rw [hredact]
      constructor
      · intro hleft
        cases hleft with
        | item hmem h =>
            obtain ⟨item, hitem, rfl⟩ := hfrom _ hmem
            exact .item hitem ((hshows item hitem).mp h)
      · intro hleaves
        cases hleaves with
        | item hmem h =>
            have hshows := (hshows _ hmem).mpr h
            rcases hinto _ hmem with hkept | ⟨kept, hkept, hequal⟩
            · exact .item hkept hshows
            · exact .item hkept (hw.equal kept _ hequal hshows)
  | fields kind type ref values ih => exact shows_redact_fields hw hwritten ih

end Walker

/-! ### Known secrets -/

/-- The walk with the text rules and what this redactor knows. -/
def Walker.removing (w : Walker) (table : WordTable) (redactor : Redactor) : Walker :=
  { w with removeSecrets := redactor.removeSecrets table }

/-- The secret occurs in the text. -/
def Contains (secret text : String) : Prop := secret.toList <:+: text.toList

instance (secret text : String) : Decidable (Contains secret text) :=
  inferInstanceAs (Decidable (_ <:+: _))

theorem not_contains_marker {table : WordTable} {secret : String}
    (hlong : minKnownSecretLength ≤ secret.length) (hjoins : ¬Joins table secret) :
    ¬Contains secret redactedMarker := by
  rintro ⟨front, back, hsplit⟩
  rw [List.append_assoc] at hsplit
  refine hjoins (Or.inl (joinsMarker_of_begun hsplit.symm ?_ (Or.inl (List.prefix_append _ _))))
  exact List.append_ne_nil_of_left_ne_nil (ne_nil_of_long hlong) _

/-- The redactor puts something in: into a text, or the marker in place of a credential. -/
def PutsIn (table : WordTable) (redactor : Redactor) : Option String → Prop
  | some text => Altered table redactor text
  | none => True

theorem not_contains_written {table : WordTable} {calls : List Registration} {w : Walker} {secret : String}
    (hknown : (registerAll calls .empty).knows secret = true) {text : Option String}
    (hjoins : PutsIn table (registerAll calls .empty) text → ¬Joins table secret) :
    ¬Contains secret ((w.removing table (registerAll calls .empty)).written text) := by
  cases text with
  | some text => exact not_contains_redactText table calls hknown text hjoins
  | none => exact not_contains_marker (known_of_knows hknown).2 (hjoins trivial)

/-- **Known secrets** are left in a redacted value only where the walk does not look: in a key, or in a
field that no constructor takes.  Where something is put in, the secret is one that cannot be made so. -/
theorem known_secret_removed_iff (table : WordTable) (calls : List Registration) (w : Walker)
    (secret : String) (hknown : (registerAll calls .empty).knows secret = true)
    (hw : (w.removing table (registerAll calls .empty)).Transparent (Contains secret)) (value : Value)
    (hjoins : ∀ text, (w.removing table (registerAll calls .empty)).Redacts value text →
      PutsIn table (registerAll calls .empty) text → ¬Joins table secret) :
    ¬((w.removing table (registerAll calls .empty)).redact value).Shows (Contains secret) ↔
      ¬(w.removing table (registerAll calls .empty)).Leaves (Contains secret) value := by
  exact not_congr (Walker.shows_redact_iff hw value fun text htext =>
    not_contains_written hknown (hjoins text htext))

/-! ### A registered token -/

def asciiWords : WordTable := ⟨fun c => c.isAlphanum || c == '_', fun _ _ => rfl⟩

/-- Objects without classes of their own. -/
def plainWalker : Walker where
  removeSecrets := id
  lower := String.toLower
  equal _ _ := false
  takesDict _ := true
  construct _ _ := some fun _ => .none
  takesUpdate _ _ := true

theorem plainWalker_transparent (table : WordTable) (redactor : Redactor) (p : String → Prop) :
    (plainWalker.removing table redactor).Transparent p where
  rebuilds kind _ _ := by
    cases kind with
    | dataclass => rfl
    | model => rfl
  construct type given left hleft _ name hshows := by
    obtain rfl := Option.some.inj hleft
    cases hshows
  equal _ _ h := by cases h

def tokenRegistered : List Registration := [⟨"refresh-abcd", none, 0⟩]

/-- A note that quotes the token. -/
def quotedToken : Value := .mapping .dict (.given 0) [(.str "note", .str "got refresh-abcd")]

theorem known_secret_removed_iff_quotedToken :
    ¬((plainWalker.removing asciiWords (registerAll tokenRegistered .empty)).redact quotedToken).Shows
      (Contains "refresh-abcd") := by
  refine (known_secret_removed_iff asciiWords tokenRegistered plainWalker "refresh-abcd"
    (by decide +kernel) (plainWalker_transparent _ _ _) quotedToken
    fun _ _ _ => by decide +kernel).mpr fun hleaves => ?_
  cases hleaves with
  | key hmem h =>
      obtain ⟨hkey, -⟩ := Prod.mk.inj (List.mem_singleton.mp hmem)
      obtain rfl := MappingKey.str.inj hkey
      exact absurd h (by decide +kernel)
  | entry hmem _ h =>
      obtain rfl := List.mem_singleton.mp hmem
      cases h

/-- A token that is a key stays. -/
theorem token_as_key_stays :
    ¬∀ (table : WordTable) (calls : List Registration) (w : Walker) (secret : String),
      (registerAll calls .empty).knows secret = true →
      (w.removing table (registerAll calls .empty)).Transparent (Contains secret) →
      ∀ value, ¬((w.removing table (registerAll calls .empty)).redact value).Shows (Contains secret) := by
  intro h
  have hknown : (registerAll tokenRegistered .empty).knows "refresh-abcd" = true := by decide +kernel
  have hjoins : ¬Joins asciiWords "refresh-abcd" := by decide +kernel
  refine h asciiWords tokenRegistered plainWalker _ hknown (plainWalker_transparent _ _ _)
    (.mapping .dict (.given 0) [(.str "refresh-abcd", .none)]) ?_
  refine (Walker.shows_redact_iff (plainWalker_transparent _ _ _) _ fun _ _ =>
    not_contains_written hknown fun _ => hjoins).mpr ?_
  exact .key List.mem_cons_self (List.infix_refl _)

end PersonalOS
