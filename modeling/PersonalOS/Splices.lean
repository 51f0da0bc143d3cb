import Mathlib.Data.List.Infix

/-! # Words and what is put into a text

When a text is copied and other words are put in place of some of its parts, a word that stands in the
copy stood in the text before, unless it can stand across one of the words put in.

* **Splices.** `Spliced` relates a text and the copy; the insertions may depend on the last character
  that stands before them in the text, and the places that are kept may be known to have a property.
* **Words.** `Apart` says that a word can stand across no insertion; then it is found again at a place
  that was kept (`Spliced.kept_of_occurs`). -/

namespace Splices

variable {α : Type*}

/-- The copy of a text, with insertions in place of parts that are cut out. -/
inductive Spliced (kept : List α → Prop) (put : Option α → List α → Prop) :
    Option α → List α → List α → Prop
  | nil (prev : Option α) : Spliced kept put prev [] []
  | keep {prev : Option α} {a : α} {text copy : List α} (here : kept (a :: text))
      (rest : Spliced kept put (some a) text copy) : Spliced kept put prev (a :: text) (a :: copy)
  | put {prev next : Option α} {cut word text copy : List α} (here : put prev word)
      (rest : Spliced kept put next text copy) : Spliced kept put prev (cut ++ text) (word ++ copy)

/-- One of the words begins with the other. -/
def Agree (v w : List α) : Prop := v <+: w ∨ w <+: v

instance [DecidableEq α] (v w : List α) : Decidable (Agree v w) := inferInstanceAs (Decidable (_ ∨ _))

/-- The word can stand across no insertion: none that has begun where it begins, and none that begins
inside it, behind the character that is then before. -/
structure Apart (put : Option α → List α → Prop) (word : List α) : Prop where
  begun : ∀ prev w, put prev w → ∀ front back, w = front ++ back → back ≠ [] → ¬Agree word back
  begins : ∀ w front a back, put (some a) w → word = front ++ a :: back → back ≠ [] → ¬Agree back w

variable {kept : List α → Prop} {put : Option α → List α → Prop} {prev : Option α}
  {text copy word : List α}

theorem agree_of_prefix_append {v w rest : List α} (h : v <+: w ++ rest) : Agree v w :=
  List.prefix_or_prefix_of_prefix h (List.prefix_append w rest)

theorem Spliced.imp_put {put' : Option α → List α → Prop} (h : Spliced kept put prev text copy)
    (himp : ∀ prev word, put prev word → put' prev word) : Spliced kept put' prev text copy := by
  induction h with
  | nil => exact .nil _
  | keep here _ ih => exact .keep here ih
  | put here _ ih => exact .put (himp _ _ here) ih

theorem Agree.of_append {v front rest : List α} (h : Agree v (front ++ rest))
    (hlength : front.length < v.length) : ∃ back, v = front ++ back ∧ back ≠ [] ∧ Agree back rest := by
  have hfront : front <+: v := by
    rcases h with h | h
    · exact List.prefix_of_prefix_length_le (List.prefix_append _ _) h hlength.le
    · exact (List.prefix_append _ _).trans h
  obtain ⟨back, rfl⟩ := hfront
  refine ⟨back, rfl, ?_, ?_⟩
  · rintro rfl
    rw [List.append_nil] at hlength
    exact lt_irrefl _ hlength
  · rcases h with h | h
    · exact Or.inl ((List.prefix_append_right_inj _).mp h)
    · exact Or.inr ((List.prefix_append_right_inj _).mp h)

theorem Agree.prefix_of_le {v front rest : List α} (h : Agree v (front ++ rest))
    (hlength : v.length ≤ front.length) : v <+: front := by
  rcases h with h | h
  · exact List.prefix_of_prefix_length_le h (List.prefix_append _ _) hlength
  · have hfront : front <+: v := (List.prefix_append _ _).trans h
    exact (hfront.eq_of_length (le_antisymm hfront.length_le hlength)).symm ▸ List.prefix_refl _

theorem Spliced.prefix_of_begun (h : Spliced kept put prev text copy) (hapart : Apart put word) {front : List α}
    {a : α} {back : List α} (hprev : prev = some a) (hword : word = front ++ a :: back)
    (hback : back <+: copy) : back <+: text := by
  induction h generalizing front a back with
  | nil => exact hback
  | @keep _ b text copy _ _ ih =>
      cases back with
      | nil => exact List.nil_prefix
      | cons c back =>
          obtain ⟨rfl, hrest⟩ := List.cons_prefix_cons.mp hback
          have hword' : word = (front ++ [a]) ++ c :: back := by rw [hword, List.append_assoc]; rfl
          exact List.cons_prefix_cons.mpr ⟨rfl, ih rfl hword' hrest⟩
  | @put _ _ cut w text copy hput _ _ =>
      cases back with
      | nil => exact List.nil_prefix
      | cons c back =>
          rw [hprev] at hput
          exact absurd (agree_of_prefix_append hback)
            (hapart.begins w front a (c :: back) hput hword (List.cons_ne_nil _ _))

/-- **A word of the copy** stands in the text, at a place that was kept. -/
theorem Spliced.kept_of_occurs (h : Spliced kept put prev text copy) (hapart : Apart put word)
    (hne : word ≠ []) (hoccurs : word <:+: copy) :
    ∃ rest, rest <:+ text ∧ kept rest ∧ word <+: rest := by
  induction h with
  | nil => exact absurd (List.infix_nil.mp hoccurs) hne
  | @keep _ a text copy here hrest ih =>
      rcases List.infix_cons_iff.mp hoccurs with hprefix | hoccurs
      · obtain ⟨b, back, rfl⟩ := List.exists_cons_of_ne_nil hne
        obtain ⟨rfl, hback⟩ := List.cons_prefix_cons.mp hprefix
        have hstays : back <+: text := hrest.prefix_of_begun hapart rfl (List.nil_append _).symm hback
        exact ⟨b :: text, List.suffix_refl _, here, List.cons_prefix_cons.mpr ⟨rfl, hstays⟩⟩
      · obtain ⟨rest, hsuffix, hkept, hword⟩ := ih hoccurs
        exact ⟨rest, hsuffix.trans (List.suffix_cons _ _), hkept, hword⟩
  | @put prev next cut w text copy hput _ ih =>
      have hcopy : word <:+: copy := by
        have hsplit : ∀ front back : List α, w = front ++ back → word <:+: back ++ copy →
            word <:+: copy := by
          intro front back hw hoccurs
          induction back generalizing front with
          | nil => exact hoccurs
          | cons b back ihback =>
              rcases List.infix_cons_iff.mp hoccurs with hprefix | hoccurs
              · exact absurd (agree_of_prefix_append hprefix)
                  (hapart.begun prev w hput front (b :: back) hw (List.cons_ne_nil _ _))
              · refine ihback (front ++ [b]) ?_ hoccurs
                rw [hw, List.append_assoc]
                rfl
        exact hsplit [] w rfl hoccurs
      obtain ⟨rest, hsuffix, hkept, hword⟩ := ih hcopy
      exact ⟨rest, hsuffix.trans (List.suffix_append _ _), hkept, hword⟩

theorem Spliced.occurs (h : Spliced kept put prev text copy) (hapart : Apart put word) (hne : word ≠ [])
    (hoccurs : word <:+: copy) : word <:+: text := by
  obtain ⟨rest, hsuffix, -, hword⟩ := h.kept_of_occurs hapart hne hoccurs
  exact hword.isInfix.trans hsuffix.isInfix

theorem Spliced.keepAll (front : List α) (hkept : ∀ a rest, kept (a :: rest))
    (h : ∀ last, last = front.getLast?.or prev → Spliced kept put last text copy) :
    Spliced kept put prev (front ++ text) (front ++ copy) := by
  induction front generalizing prev with
  | nil => exact h prev rfl
  | cons a front ih =>
      refine .keep (hkept a _) (ih fun last hlast => h last ?_)
      rw [hlast, List.getLast?_cons]
      cases front.getLast? with
      | none => rfl
      | some d => rfl

/-! ### Replacing every occurrence -/

section replace

variable [DecidableEq α]

/-- `str.replace`; so many characters belong to the last occurrence still. -/
def replaceFrom (old new : List α) : ℕ → List α → List α
  | _, [] => []
  | n + 1, _ :: text => replaceFrom old new n text
  | 0, a :: text =>
      if old.isPrefixOf (a :: text) then new ++ replaceFrom old new (old.length - 1) text
      else a :: replaceFrom old new 0 text

theorem replaceFrom_skip {old new : List α} (taken text : List α) :
    replaceFrom old new taken.length (taken ++ text) = replaceFrom old new 0 text := by
  induction taken with
  | nil => rfl
  | cons a taken ih => exact ih

theorem replaceFrom_of_absent {old new text : List α} (h : ¬old <:+: text) :
    replaceFrom old new 0 text = text := by
  induction text with
  | nil => rfl
  | cons a text ih =>
      rw [replaceFrom, if_neg fun hprefix => h (List.isPrefixOf_iff_prefix.mp hprefix).isInfix,
        ih fun hoccurs => h (List.infix_cons hoccurs)]

theorem spliced_replaceFrom {old new : List α} (hold : old ≠ []) (prev : Option α) (text : List α) :
    Spliced (fun rest => ¬old <+: rest) (fun _ w => w = new) prev text (replaceFrom old new 0 text) := by
  induction hn : text.length using Nat.strong_induction_on generalizing prev text with
  | h n ih =>
      subst hn
      cases text with
      | nil => exact .nil prev
      | cons a text =>
          rw [replaceFrom]
          split
          · rename_i hprefix
            obtain ⟨rest, hrest⟩ := List.isPrefixOf_iff_prefix.mp hprefix
            obtain ⟨b, taken, rfl⟩ := List.exists_cons_of_ne_nil hold
            obtain ⟨rfl, rfl⟩ : b = a ∧ taken ++ rest = text := List.cons.inj hrest
            show Spliced _ _ prev (b :: taken ++ rest)
              (new ++ replaceFrom (b :: taken) new taken.length (taken ++ rest))
            rw [replaceFrom_skip]
            refine .put rfl (ih rest.length ?_ none rest rfl)
            simp only [List.length_cons, List.length_append]
            omega
          · rename_i hprefix
            refine .keep (fun h => hprefix (List.isPrefixOf_iff_prefix.mpr h)) ?_
            exact ih text.length (Nat.lt_succ_self _) _ text rfl

end replace

end Splices
