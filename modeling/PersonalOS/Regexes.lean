import Mathlib.Data.List.Infix
import Mathlib.Data.List.TakeWhile

/-! # Patterns that are matched by backtracking

Regular expressions whose repetitions are of single characters, as a backtracking engine takes them.

* **Runs.** `runs` lists the ways in which a pattern can match from a place, in the order in which they
  are tried; each is what is taken and what is left.  What stands before the place is given by its last
  character.
* **Parts.** What a pattern takes and what it leaves are the text (`append_of_mem`). -/

/-- A pattern; `many` takes as much as it can at first, `few` as little. -/
inductive Regex where
  | empty
  | char (p : Char → Bool)
  | many (p : Char → Bool) (least : ℕ)
  | few (p : Char → Bool)
  | seq (r s : Regex)
  | either (r s : Regex)
  | notAhead (r : Regex)
  | notBehind (p : Char → Bool)
  | boundary (isWord : Char → Bool)

namespace Regex

/-- The character before the place that is reached over the front. -/
def lastOf (prev : Option Char) (front : List Char) : Option Char := front.getLast?.or prev

theorem lastOf_cons (prev : Option Char) (c : Char) (front : List Char) :
    lastOf prev (c :: front) = lastOf (some c) front := by
  rw [lastOf, lastOf, List.getLast?_cons]
  cases front.getLast? with
  | none => rfl
  | some d => rfl

/-- What is taken and what is left, in the order of the attempts. -/
@[simp]
def runs : Regex → Option Char → List Char → List (List Char × List Char)
  | empty, _, text => [([], text)]
  | char _, _, [] => []
  | char p, _, c :: text => if p c then [([c], text)] else []
  | many p least, _, text =>
      ((List.range ((text.takeWhile p).length + 1)).reverse.filter (least ≤ ·)).map fun n =>
        (text.take n, text.drop n)
  | few p, _, text =>
      (List.range ((text.takeWhile p).length + 1)).map fun n => (text.take n, text.drop n)
  | seq r s, prev, text =>
      (r.runs prev text).flatMap fun x =>
        (s.runs (lastOf prev x.1) x.2).map fun y => (x.1 ++ y.1, y.2)
  | either r s, prev, text => r.runs prev text ++ s.runs prev text
  | notAhead r, prev, text => if (r.runs prev text).isEmpty then [([], text)] else []
  | notBehind p, prev, text => if prev.any p then [] else [([], text)]
  | boundary isWord, prev, text =>
      if prev.any isWord != text.head?.any isWord then [([], text)] else []

/-- The pattern may be left out. -/
def optional (r : Regex) : Regex := either r empty

/-- One pattern behind another. -/
def inTurn (patterns : List Regex) : Regex := patterns.foldr seq empty

/-- The first of the patterns that leads to a match. -/
def oneOf (first : Regex) (others : List Regex) : Regex := others.foldl either first

/-- No match is empty. -/
def Solid (r : Regex) : Prop := ∀ prev text, ∀ x ∈ r.runs prev text, x.1 ≠ []

variable {r s : Regex} {prev : Option Char} {text : List Char} {x : List Char × List Char}

theorem mem_seq : x ∈ (seq r s).runs prev text ↔ ∃ front middle back,
    (front, middle) ∈ r.runs prev text ∧ (back, x.2) ∈ s.runs (lastOf prev front) middle ∧
      x.1 = front ++ back := by
  simp only [runs, List.mem_flatMap, List.mem_map]
  constructor
  · rintro ⟨⟨front, middle⟩, hfront, ⟨back, rest⟩, hback, rfl⟩
    exact ⟨front, middle, back, hfront, hback, rfl⟩
  · rintro ⟨front, middle, back, hfront, hback, hx⟩
    exact ⟨(front, middle), hfront, (back, x.2), hback, by rw [← hx]⟩

theorem mem_empty : x ∈ empty.runs prev text ↔ x = ([], text) := List.mem_singleton

theorem mem_either : x ∈ (either r s).runs prev text ↔ x ∈ r.runs prev text ∨ x ∈ s.runs prev text :=
  List.mem_append

theorem mem_splits {p : Char → Bool} {n : ℕ} :
    (∃ m, (m ≤ (text.takeWhile p).length ∧ n ≤ m) ∧ (text.take m, text.drop m) = x) ↔
      x.1 ++ x.2 = text ∧ (∀ c ∈ x.1, p c = true) ∧ n ≤ x.1.length := by
  constructor
  · rintro ⟨m, ⟨hm, hn⟩, rfl⟩
    have hinitial : text.take m <+: text.takeWhile p :=
      List.prefix_of_prefix_length_le (List.take_prefix _ _) (List.takeWhile_prefix p)
        ((List.length_take_le _ _).trans hm)
    have hlength : m ≤ text.length := hm.trans (List.takeWhile_prefix p).length_le
    refine ⟨List.take_append_drop m text, fun c hc => ?_, ?_⟩
    · exact List.mem_takeWhile_imp (hinitial.subset hc)
    · rwa [List.length_take, Nat.min_eq_left hlength]
  · rintro ⟨rfl, hall, hn⟩
    refine ⟨x.1.length, ⟨?_, hn⟩, ?_⟩
    · rw [List.takeWhile_append_of_pos hall, List.length_append]
      exact Nat.le_add_right _ _
    · rw [List.take_left, List.drop_left]

theorem mem_many {p : Char → Bool} {least : ℕ} : x ∈ (many p least).runs prev text ↔
    x.1 ++ x.2 = text ∧ (∀ c ∈ x.1, p c = true) ∧ least ≤ x.1.length := by
  rw [← mem_splits]
  simp only [runs, List.mem_map, List.mem_filter, List.mem_reverse, List.mem_range, Nat.lt_succ_iff,
    decide_eq_true_eq]

theorem mem_few {p : Char → Bool} : x ∈ (few p).runs prev text ↔
    x.1 ++ x.2 = text ∧ ∀ c ∈ x.1, p c = true := by
  have hsplits : _ ↔ x.1 ++ x.2 = text ∧ (∀ c ∈ x.1, p c = true) ∧ 0 ≤ x.1.length := mem_splits
  simp only [Nat.zero_le, and_true] at hsplits
  rw [← hsplits]
  simp only [runs, List.mem_map, List.mem_range, Nat.lt_succ_iff]

theorem mem_notAhead :
    x ∈ (notAhead r).runs prev text ↔ r.runs prev text = [] ∧ x = ([], text) := by
  rw [runs]
  split
  · rename_i h
    rw [List.mem_singleton]
    exact (and_iff_right (List.isEmpty_iff.mp h)).symm
  · rename_i h
    exact iff_of_false List.not_mem_nil fun hx => h (List.isEmpty_iff.mpr hx.1)

theorem mem_notBehind {p : Char → Bool} :
    x ∈ (notBehind p).runs prev text ↔ prev.any p = false ∧ x = ([], text) := by
  rw [runs]
  split
  · rename_i h
    exact iff_of_false List.not_mem_nil fun hx => Bool.noConfusion (hx.1.symm.trans h)
  · rename_i h
    rw [List.mem_singleton]
    exact (and_iff_right (Bool.eq_false_iff.mpr h)).symm

theorem mem_char {p : Char → Bool} :
    x ∈ (char p).runs prev text ↔ ∃ c, p c = true ∧ x.1 = [c] ∧ text = c :: x.2 := by
  cases text with
  | nil => exact iff_of_false List.not_mem_nil fun ⟨c, _, _, h⟩ => by cases h
  | cons c text =>
      rw [runs]
      split
      · rename_i hc
        rw [List.mem_singleton]
        refine ⟨?_, ?_⟩
        · rintro rfl
          exact ⟨c, hc, rfl, rfl⟩
        · rintro ⟨d, -, hfront, htext⟩
          obtain ⟨rfl, rfl⟩ := List.cons.inj htext
          exact Prod.ext hfront rfl
      · rename_i hc
        refine iff_of_false List.not_mem_nil ?_
        rintro ⟨d, hd, -, htext⟩
        exact hc ((List.cons.inj htext).1 ▸ hd)

theorem mem_boundary {isWord : Char → Bool} : x ∈ (boundary isWord).runs prev text ↔
    prev.any isWord ≠ text.head?.any isWord ∧ x = ([], text) := by
  rw [runs]
  split
  · rename_i h
    rw [List.mem_singleton]
    exact (and_iff_right (bne_iff_ne.mp h)).symm
  · rename_i h
    exact iff_of_false List.not_mem_nil fun hx => h (bne_iff_ne.mpr hx.1)

/-- What is taken and what is left are the text. -/
theorem append_of_mem (h : x ∈ r.runs prev text) : x.1 ++ x.2 = text := by
  induction r generalizing prev text x with
  | empty =>
      obtain rfl := mem_empty.mp h
      rfl
  | char p =>
      obtain ⟨c, -, hfront, rfl⟩ := mem_char.mp h
      rw [hfront]
      rfl
  | many p least => exact (mem_many.mp h).1
  | few p => exact (mem_few.mp h).1
  | seq r s ihr ihs =>
      obtain ⟨front, middle, back, hfront, hback, hx⟩ := mem_seq.mp h
      rw [hx, List.append_assoc, ihs hback, ihr hfront]
  | either r s ihr ihs =>
      rcases mem_either.mp h with h | h
      · exact ihr h
      · exact ihs h
  | notAhead r _ =>
      obtain ⟨-, rfl⟩ := mem_notAhead.mp h
      rfl
  | notBehind p =>
      obtain ⟨-, rfl⟩ := mem_notBehind.mp h
      rfl
  | boundary isWord =>
      obtain ⟨-, rfl⟩ := mem_boundary.mp h
      rfl

/-! ### Patterns that take something -/

theorem solid_char (p : Char → Bool) : (char p).Solid := by
  intro prev text x h
  obtain ⟨c, -, hfront, -⟩ := mem_char.mp h
  rw [hfront]
  exact List.cons_ne_nil _ _

theorem solid_many (p : Char → Bool) {least : ℕ} (h : 0 < least) : (many p least).Solid := by
  intro prev text x hx hnil
  have hle := (mem_many.mp hx).2.2
  rw [hnil] at hle
  exact absurd (h.trans_le hle) (lt_irrefl 0)

theorem solid_seq_left (h : r.Solid) : (seq r s).Solid := by
  intro prev text x hx
  obtain ⟨front, middle, back, hfront, -, heq⟩ := mem_seq.mp hx
  rw [heq]
  exact List.append_ne_nil_of_left_ne_nil (h _ _ _ hfront) _

theorem solid_seq_right (h : s.Solid) : (seq r s).Solid := by
  intro prev text x hx
  obtain ⟨front, middle, back, -, hback, heq⟩ := mem_seq.mp hx
  rw [heq]
  exact List.append_ne_nil_of_right_ne_nil _ (h _ _ _ hback)

end Regex
