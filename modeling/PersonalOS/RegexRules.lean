import PersonalOS.Regexes
import PersonalOS.Splices

/-! # Replacement of what a pattern matches

* **Rules.** A `Rule` is a pattern in two parts.  `sub` looks for it from left to right and puts in place
  of a match what is made of its first part; behind a match the search goes on.  What comes out is the
  text with insertions (`Rule.spliced`). -/

namespace Regex

variable {prev : Option Char} {text : List Char}

/-- A pattern in two parts, of which the second takes something, and what is put in place of a match
with this first part. -/
structure Rule where
  lead : Regex
  value : Regex
  rewrite : List Char → List Char
  solid : value.Solid

namespace Rule

/-- The two parts of the match from here, if there is one. -/
def found (rule : Rule) (prev : Option Char) (text : List Char) : Option (List Char × List Char) :=
  ((rule.lead.runs prev text).flatMap fun x =>
    (rule.value.runs (lastOf prev x.1) x.2).map fun y => (x.1, y.1)).head?

/-- `re.sub`; so many characters belong to the last match still. -/
def sub (rule : Rule) : Option Char → ℕ → List Char → List Char
  | _, _, [] => []
  | _, n + 1, c :: text => rule.sub (some c) n text
  | prev, 0, c :: text =>
      match rule.found prev (c :: text) with
      | some (front, back) =>
          rule.rewrite front ++ rule.sub (some c) (front.length + back.length - 1) text
      | none => c :: rule.sub (some c) 0 text

/-- The pattern matches somewhere. -/
def Matches (rule : Rule) : Option Char → List Char → Bool
  | _, [] => false
  | prev, c :: text => (rule.found prev (c :: text)).isSome || rule.Matches (some c) text

variable {rule : Rule}

theorem found_eq_some {front back : List Char} (h : rule.found prev text = some (front, back)) :
    ∃ middle rest, (front, middle) ∈ rule.lead.runs prev text ∧
      (rule.value.runs (lastOf prev front) middle).head? = some (back, rest) ∧
      text = front ++ (back ++ rest) := by
  rw [found, List.head?_flatMap] at h
  obtain ⟨⟨front', middle⟩, hfront, hhead⟩ := List.exists_of_findSome?_eq_some h
  rw [List.head?_map, Option.map_eq_some_iff] at hhead
  obtain ⟨⟨back', rest⟩, hback, heq⟩ := hhead
  obtain ⟨rfl, rfl⟩ := Prod.mk.inj heq
  refine ⟨middle, rest, hfront, hback, ?_⟩
  have hmiddle : back' ++ rest = middle := append_of_mem (List.mem_of_head? hback)
  rw [hmiddle]
  exact (append_of_mem hfront).symm

theorem sub_skip (n : ℕ) (prev : Option Char) (taken text : List Char) (h : taken.length = n) :
    rule.sub prev n (taken ++ text) = rule.sub (lastOf prev taken) 0 text := by
  induction n generalizing prev taken with
  | zero =>
      obtain rfl := List.length_eq_zero_iff.mp h
      rfl
  | succ n ih =>
      obtain ⟨c, taken, rfl⟩ := List.exists_cons_of_length_eq_add_one h
      rw [List.cons_append, sub, ih (some c) taken (Nat.succ.inj h), lastOf_cons]

theorem sub_of_found {front back rest : List Char}
    (h : rule.found prev (front ++ (back ++ rest)) = some (front, back)) (hback : back ≠ []) :
    rule.sub prev 0 (front ++ (back ++ rest)) =
      rule.rewrite front ++ rule.sub (lastOf prev (front ++ back)) 0 rest := by
  have hne : front ++ back ≠ [] := List.append_ne_nil_of_right_ne_nil _ hback
  obtain ⟨c, taken, htaken⟩ := List.exists_cons_of_ne_nil hne
  have htext : front ++ (back ++ rest) = c :: (taken ++ rest) := by
    rw [← List.append_assoc, htaken, List.cons_append]
  have hlength : front.length + back.length - 1 = taken.length := by
    rw [← List.length_append, htaken, List.length_cons, Nat.add_sub_cancel]
  rw [htext] at h ⊢
  rw [sub, h]
  dsimp only
  rw [hlength, sub_skip taken.length (some c) taken rest rfl, ← lastOf_cons prev, htaken]

theorem sub_of_none {c : Char} (h : rule.found prev (c :: text) = none) :
    rule.sub prev 0 (c :: text) = c :: rule.sub (some c) 0 text := by
  rw [sub, h]

theorem sub_of_not_matches (h : rule.Matches prev text = false) : rule.sub prev 0 text = text := by
  induction text generalizing prev with
  | nil => rfl
  | cons c text ih =>
      obtain ⟨hhere, hlater⟩ := Bool.or_eq_false_iff.mp h
      rw [sub_of_none (Option.isSome_eq_false_iff.mp hhere |> Option.isNone_iff_eq_none.mp), ih hlater]

/-- **What comes out** has an insertion for each match, behind what is kept of its first part. -/
theorem spliced {put : Option Char → List Char → Prop}
    (hput : ∀ prev text front back, rule.found prev text = some (front, back) → ∃ lead rest word,
      front = lead ++ rest ∧ rule.rewrite front = lead ++ word ∧ put (lastOf prev lead) word)
    (prev : Option Char) (text : List Char) :
    Splices.Spliced (fun _ => True) put prev text (rule.sub prev 0 text) := by
  induction hn : text.length using Nat.strong_induction_on generalizing prev text with
  | h n ih =>
      subst hn
      cases text with
      | nil => exact .nil prev
      | cons c text =>
          cases hfound : rule.found prev (c :: text) with
          | none =>
              rw [sub_of_none hfound]
              exact .keep trivial (ih text.length (Nat.lt_succ_self _) _ text rfl)
          | some parts =>
              obtain ⟨front, back⟩ := parts
              obtain ⟨lead, cut, word, rfl, hrewrite, hword⟩ := hput _ _ _ _ hfound
              obtain ⟨middle, rest, -, hback, htext⟩ := found_eq_some hfound
              have hne : back ≠ [] := rule.solid _ _ _ (List.mem_of_head? hback)
              have hshorter : rest.length < (c :: text).length := by
                have hpos : 0 < back.length := List.length_pos_iff.mpr hne
                rw [htext]
                simp only [List.length_append]
                omega
              rw [htext] at hfound
              rw [htext, sub_of_found hfound hne, hrewrite, List.append_assoc, List.append_assoc,
                ← List.append_assoc cut]
              refine Splices.Spliced.keepAll lead (fun _ _ => trivial) fun last hlast => ?_
              rw [hlast]
              exact .put hword (ih rest.length hshorter _ rest rfl)

end Rule

end Regex
