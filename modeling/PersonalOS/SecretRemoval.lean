import PersonalOS.TextRules

/-! # The removal of known secrets from a text

A text that `redact_text` returns contains no known secret.

* **Insertions.** Rules and replacements put the marker into a text, and one rule a word before it.  A
  secret that can stand across such an insertion may be made by it (`Joins`); no other secret is
  (`apart_of_not_joins`).
* **Texts.** Replacing removes every occurrence of a secret, and nothing that follows brings one back
  (`not_contains_redactText`).  A text that is not `Altered` is returned as it is. -/

namespace PersonalOS

open Regex Splices

/-! ### Insertions -/

/-- The word that is put before the marker of a bearer token. -/
def bearerWord : List Char := "Bearer ".toList

/-- What is put into a text: the marker, and behind a character that is in no word the marker of a bearer
token. -/
def Inserts (table : WordTable) (prev : Option Char) (word : List Char) : Prop :=
  word = redactedMarker.toList ∨
    word = bearerWord ++ redactedMarker.toList ∧ prev.any table.isWord = false

/-- The secret can stand across a marker. -/
def JoinsMarker (secret : List Char) : Prop :=
  (∃ n < redactedMarker.toList.length, Agree secret (redactedMarker.toList.drop n)) ∨
    ∃ n < secret.length, Agree (secret.drop n) redactedMarker.toList

/-- The secret ends in a beginning of `Bearer `, behind a character that is in no word. -/
def JoinsBearer (table : WordTable) (secret : List Char) : Prop :=
  ∃ n < secret.length, 0 < n ∧ (secret.take n).getLast?.any table.isWord = false ∧
    secret.drop n <+: bearerWord

/-- The secret can be made by an insertion. -/
def Joins (table : WordTable) (secret : String) : Prop :=
  JoinsMarker secret.toList ∨ JoinsBearer table secret.toList

instance (secret : List Char) : Decidable (JoinsMarker secret) := inferInstanceAs (Decidable (_ ∨ _))

instance (table : WordTable) (secret : List Char) : Decidable (JoinsBearer table secret) :=
  inferInstanceAs (Decidable (∃ n < secret.length, 0 < n ∧
    (secret.take n).getLast?.any table.isWord = false ∧ secret.drop n <+: bearerWord))

instance (table : WordTable) (secret : String) : Decidable (Joins table secret) :=
  inferInstanceAs (Decidable (_ ∨ _))

section insertions

variable {table : WordTable} {secret : List Char}

theorem joinsMarker_of_append {front back : List Char} (hsecret : secret = front ++ back) (hne : back ≠ [])
    (h : Agree back redactedMarker.toList) : JoinsMarker secret := by
  refine Or.inr ⟨front.length, ?_, ?_⟩
  · rw [hsecret, List.length_append]
    exact Nat.lt_add_of_pos_right (List.length_pos_iff.mpr hne)
  · rwa [hsecret, List.drop_left]

theorem joinsMarker_of_begun {front back : List Char} (hmarker : redactedMarker.toList = front ++ back)
    (hne : back ≠ []) (h : Agree secret back) : JoinsMarker secret := by
  refine Or.inl ⟨front.length, ?_, ?_⟩
  · rw [hmarker, List.length_append]
    exact Nat.lt_add_of_pos_right (List.length_pos_iff.mpr hne)
  · rwa [hmarker, List.drop_left]

theorem bearerWord_length : bearerWord.length = 7 := by decide +kernel

/-- A secret that joins nothing can stand across no insertion. -/
theorem apart_of_not_joins (hlength : minKnownSecretLength ≤ secret.length) (hmarker : ¬JoinsMarker secret)
    (hbearer : ¬JoinsBearer table secret) : Apart (Inserts table) secret where
  begun prev w hput front back hw hne hagree := by
    rcases hput with rfl | ⟨rfl, -⟩
    · exact hmarker (joinsMarker_of_begun hw hne hagree)
    · rcases List.append_eq_append_iff.mp hw with ⟨more, rfl, hback⟩ | ⟨more, hword, rfl⟩
      · exact hmarker (joinsMarker_of_begun hback hne hagree)
      · have hshort : more.length < secret.length := by
          have hle : more.length ≤ bearerWord.length := by
            rw [hword, List.length_append]
            exact Nat.le_add_left _ _
          rw [bearerWord_length] at hle
          exact lt_of_lt_of_le (Nat.lt_succ_of_le hle) hlength
        obtain ⟨rest, hsecret, hrest, hagree⟩ := hagree.of_append hshort
        exact hmarker (joinsMarker_of_append hsecret hrest hagree)
  begins w front a back hput hsecret hne hagree := by
    have hsplit : secret = (front ++ [a]) ++ back := by rw [hsecret, List.append_assoc]; rfl
    rcases hput with rfl | ⟨rfl, hprev⟩
    · exact hmarker (joinsMarker_of_append hsplit hne hagree)
    · rcases Nat.lt_or_ge bearerWord.length back.length with hlong | hshort
      · obtain ⟨rest, hback, hrest, hagree⟩ := hagree.of_append hlong
        rw [hback, ← List.append_assoc] at hsplit
        exact hmarker (joinsMarker_of_append hsplit hrest hagree)
      · refine hbearer ⟨(front ++ [a]).length, ?_, ?_, ?_, ?_⟩
        · have hsum : secret.length = (front ++ [a]).length + back.length := by
            rw [hsplit, ← List.length_append]
          exact hsum ▸ Nat.lt_add_of_pos_right (List.length_pos_iff.mpr hne)
        · rw [List.length_append]
          exact Nat.succ_pos _
        · rw [hsplit, List.take_left, List.getLast?_concat]
          exact hprev
        · rw [hsplit, List.drop_left]
          exact hagree.prefix_of_le hshort

end insertions

/-! ### Texts -/

section rules

variable (table : WordTable)

/-- A rule makes insertions only. -/
def InsertsOnly (rule : Regex.Rule) : Prop :=
  ∀ prev text, Spliced (fun _ => True) (Inserts table) prev text (rule.sub prev 0 text)

theorem markRule_insertsOnly (lead value : Regex) (solid : value.Solid) :
    InsertsOnly table (markRule lead value solid) := by
  refine fun prev text => Rule.spliced ?_ prev text
  intro prev text front back _
  exact ⟨front, [], redactedMarker.toList, (List.append_nil _).symm, rfl, Or.inl rfl⟩

theorem isWord_of_sameLetter_b {c : Char} (h : sameLetter 'b' c = true) : table.isWord c = true := by
  have hc : c = 'b' ∨ c = 'B' := by simpa [sameLetter] using h
  rcases hc with rfl | rfl
  · exact (table.ascii _ (by decide)).trans (by decide)
  · exact (table.ascii _ (by decide)).trans (by decide)

theorem bearerRule_insertsOnly : InsertsOnly table (bearerRule table) := by
  refine fun prev text => Rule.spliced ?_ prev text
  intro prev text front back hfound
  obtain ⟨middle, rest, hlead, hvalue, htext⟩ := Rule.found_eq_some hfound
  obtain ⟨hboundary, hfront⟩ := mem_boundary.mp hlead
  obtain ⟨rfl, rfl⟩ := Prod.mk.inj hfront
  refine ⟨[], [], _, rfl, rfl, Or.inr ⟨rfl, ?_⟩⟩
  obtain ⟨word, _, _, hword, -, -⟩ := mem_seq.mp (List.mem_of_head? hvalue)
  obtain ⟨letter, _, _, hletter, -, -⟩ := mem_seq.mp hword
  obtain ⟨c, hc, -, hhead⟩ := mem_char.mp hletter
  rw [hhead, List.head?_cons, Option.any_some, isWord_of_sameLetter_b table hc] at hboundary
  exact Bool.eq_false_of_not_eq_true hboundary

/-- **The rules** make insertions only. -/
theorem textRules_insertOnly : ∀ rule ∈ textRules table, InsertsOnly table rule := by
  intro rule hrule
  have hmark : ∀ lead value (solid : value.Solid), InsertsOnly table (markRule lead value solid) :=
    markRule_insertsOnly table
  simp only [textRules, List.mem_cons, List.not_mem_nil, or_false] at hrule
  rcases hrule with rfl | rfl | rfl | rfl | rfl | rfl | rfl | rfl | rfl | rfl | rfl | rfl | rfl | rfl |
    rfl | rfl | rfl
  case inr.inr.inr.inl => exact bearerRule_insertsOnly table
  all_goals exact hmark _ _ _

end rules

section texts

variable {table : WordTable} {secret : List Char} {text : List Char}

theorem not_infix_applyRules {rules : List Regex.Rule} (hrules : ∀ rule ∈ rules, InsertsOnly table rule)
    (hapart : Apart (Inserts table) secret) (hne : secret ≠ []) (h : ¬secret <:+: text) :
    ¬secret <:+: applyRules rules text := by
  induction rules generalizing text with
  | nil => exact h
  | cons rule rules ih =>
      refine ih (fun rule hrule => hrules rule (List.mem_cons_of_mem _ hrule)) fun hoccurs => h ?_
      exact (hrules rule List.mem_cons_self none text).occurs hapart hne hoccurs

theorem inserts_replaceFrom {old : List Char} (hold : old ≠ []) :
    Spliced (fun rest => ¬old <+: rest) (Inserts table) none text
      (replaceFrom old redactedMarker.toList 0 text) :=
  (spliced_replaceFrom hold none text).imp_put fun _ _ hword => Or.inl hword

theorem not_infix_replaceFrom {old : List Char} (hold : old ≠ []) (hapart : Apart (Inserts table) secret)
    (hne : secret ≠ []) (h : ¬secret <:+: text) :
    ¬secret <:+: replaceFrom old redactedMarker.toList 0 text :=
  fun hoccurs => h ((inserts_replaceFrom hold).occurs hapart hne hoccurs)

theorem not_infix_replaced (hapart : Apart (Inserts table) secret) (hne : secret ≠ []) :
    ¬secret <:+: replaceFrom secret redactedMarker.toList 0 text := by
  intro hoccurs
  obtain ⟨rest, -, hkept, hprefix⟩ := (inserts_replaceFrom hne).kept_of_occurs hapart hne hoccurs
  exact hkept hprefix

theorem not_infix_replaceKnown {secrets : List String} {known : String}
    (hsolid : ∀ other ∈ secrets, other.toList ≠ []) (hapart : Apart (Inserts table) known.toList)
    (h : known ∈ secrets ∨ ¬known.toList <:+: text) (hne : known.toList ≠ []) :
    ¬known.toList <:+: replaceKnown secrets text := by
  induction secrets generalizing text with
  | nil => exact h.resolve_left List.not_mem_nil
  | cons other secrets ih =>
      refine ih (fun other hother => hsolid other (List.mem_cons_of_mem _ hother)) ?_
      rcases h with h | h
      · rcases List.mem_cons.mp h with rfl | h
        · exact Or.inr (not_infix_replaced hapart hne)
        · exact Or.inl h
      · exact Or.inr (not_infix_replaceFrom (hsolid other List.mem_cons_self) hapart hne h)

end texts

theorem registerAll_long (calls : List Registration) :
    ∀ secret ∈ (registerAll calls .empty).known, minKnownSecretLength ≤ secret.value.length := by
  induction calls using List.reverseRecOn with
  | nil =>
      intro secret hsecret
      cases hsecret
  | append_singleton calls last ih =>
      rw [registerAll_concat]
      unfold Registration.apply Redactor.registerSecret
      split
      · exact ih
      · rename_i hlong
        intro secret hsecret
        rcases Keyed.mem_upsert hsecret with rfl | ⟨hsecret, -⟩
        · exact not_lt.mp hlong
        · exact ih secret (List.mem_of_mem_filter hsecret)

theorem ne_nil_of_long {secret : String} (h : minKnownSecretLength ≤ secret.length) : secret.toList ≠ [] := by
  intro hnil
  rw [← String.length_toList, hnil] at h
  exact absurd h (by decide)

theorem known_of_knows {calls : List Registration} {secret : String}
    (h : (registerAll calls .empty).knows secret = true) :
    secret ∈ (registerAll calls .empty).known.map (·.value) ∧ minKnownSecretLength ≤ secret.length := by
  obtain ⟨held, hlookup⟩ := Option.isSome_iff_exists.mp (Option.isSome_map.symm.trans h)
  obtain ⟨hmem, rfl⟩ := Keyed.lookup_eq_some hlookup
  exact ⟨List.mem_map_of_mem hmem, registerAll_long calls held hmem⟩

theorem mem_longestFirst {redactor : Redactor} {value : String} :
    value ∈ redactor.longestFirst ↔ value ∈ redactor.known.map (·.value) :=
  List.mem_insertionSort _

/-! ### Altered texts -/

/-- Something is put into the text: a known secret occurs in it, or a rule matches. -/
def Altered (table : WordTable) (redactor : Redactor) (text : String) : Prop :=
  (∃ known ∈ redactor.known.map (·.value), known.toList <:+: text.toList) ∨
    ∃ rule ∈ textRules table, rule.Matches none text.toList = true

instance (table : WordTable) (redactor : Redactor) (text : String) :
    Decidable (Altered table redactor text) := inferInstanceAs (Decidable (_ ∨ _))

theorem replaceKnown_of_absent {secrets : List String} {text : List Char}
    (h : ∀ known ∈ secrets, ¬known.toList <:+: text) : replaceKnown secrets text = text := by
  induction secrets with
  | nil => rfl
  | cons known secrets ih =>
      rw [replaceKnown, List.foldl_cons, replaceFrom_of_absent (h known List.mem_cons_self)]
      exact ih fun other hother => h other (List.mem_cons_of_mem _ hother)

theorem applyRules_of_not_matches {rules : List Regex.Rule} {text : List Char}
    (h : ∀ rule ∈ rules, rule.Matches none text = false) : applyRules rules text = text := by
  induction rules with
  | nil => rfl
  | cons rule rules ih =>
      rw [applyRules, List.foldl_cons, Regex.Rule.sub_of_not_matches (h rule List.mem_cons_self)]
      exact ih fun other hother => h other (List.mem_cons_of_mem _ hother)

theorem redactText_of_not_altered {table : WordTable} {redactor : Redactor} {text : String}
    (h : ¬Altered table redactor text) : redactor.redactText table text = text := by
  unfold Altered at h
  push Not at h
  obtain ⟨hknown, hrules⟩ := h
  unfold Redactor.redactText Redactor.removeSecrets
  rw [replaceKnown_of_absent fun known hmem => hknown known (mem_longestFirst.mp hmem),
    applyRules_of_not_matches fun rule hrule => Bool.eq_false_of_not_eq_true (hrules rule hrule),
    String.ofList_toList, ite_self]

/-- **Texts**: what `redact_text` returns contains no known secret, unless something is put into the text
and can make the secret. -/
theorem not_contains_redactText (table : WordTable) (calls : List Registration) {secret : String}
    (hknown : (registerAll calls .empty).knows secret = true) (text : String)
    (hjoins : Altered table (registerAll calls .empty) text → ¬Joins table secret) :
    ¬secret.toList <:+: ((registerAll calls .empty).redactText table text).toList := by
  obtain ⟨hmem, hlong⟩ := known_of_knows hknown
  by_cases haltered : Altered table (registerAll calls .empty) text
  case neg =>
    rw [redactText_of_not_altered haltered]
    exact fun hoccurs => haltered (Or.inl ⟨secret, hmem, hoccurs⟩)
  have hjoins := hjoins haltered
  have hne := ne_nil_of_long hlong
  have hapart : Apart (Inserts table) secret.toList :=
    apart_of_not_joins (String.length_toList.symm ▸ hlong) (fun h => hjoins (Or.inl h))
      fun h => hjoins (Or.inr h)
  unfold Redactor.redactText
  split
  · rename_i hempty
    rw [hempty]
    exact fun hoccurs => hne (List.infix_nil.mp hoccurs)
  · unfold Redactor.removeSecrets
    rw [String.toList_ofList]
    refine not_infix_applyRules (textRules_insertOnly table) hapart hne
      (not_infix_replaceKnown ?_ hapart (Or.inl (mem_longestFirst.mpr hmem)) hne)
    intro other hother
    obtain ⟨held, hheld, rfl⟩ := List.mem_map.mp (mem_longestFirst.mp hother)
    exact ne_nil_of_long (registerAll_long calls held hheld)

end PersonalOS
