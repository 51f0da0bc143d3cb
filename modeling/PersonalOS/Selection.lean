import Mathlib.Data.List.Sort
import Mathlib.Data.List.Nodup

/-! # First copies and best elements of a list

Two ways to cut a list down, over any elements.

* **First copies.** `collapse` goes through a list and keeps the first element of each key; what it
  keeps is determined by which element is found first under each key (`mem_collapse`).
* **Best elements.** In a sorted list, what is not among the first elements comes after all of them
  (`after_take`); and two lists with the same elements sort to the same list when no two elements are
  equal in the order (`mergeSort_congr`). -/

namespace Selection

variable {α κ : Type}

/-! ### First copies -/

section collapse

variable [DecidableEq κ] (key : α → κ)

/-- Keep an element unless one with its key is kept already; the keys of the others are returned too. -/
def collapse (kept : List α) (duplicates : List κ) : List α → List α × List κ
  | [] => (kept, duplicates)
  | a :: as =>
      if kept.any fun b => key b = key a then collapse kept (duplicates ++ [key a]) as
      else collapse (kept ++ [a]) duplicates as

variable {key} {kept as bs : List α} {duplicates : List κ}

theorem mem_collapse {x : α} : x ∈ (collapse key kept duplicates as).1 ↔
    x ∈ kept ∨ (∀ b ∈ kept, key b ≠ key x) ∧ (as.find? fun a => key a = key x) = some x := by
  induction as generalizing kept duplicates with
  | nil => simp [collapse]
  | cons a as ih =>
      unfold collapse
      split
      · rename_i hany
        obtain ⟨b, hb, hkey⟩ := List.any_eq_true.mp hany
        have hkey : key b = key a := of_decide_eq_true hkey
        rw [ih]
        apply or_congr_right
        apply and_congr_right
        intro hnone
        -- The element itself does not count: one with its key is kept.
        have hne : key a ≠ key x := hkey ▸ hnone b hb
        rw [List.find?_cons_of_neg (by simpa using hne)]
      · rename_i hany
        have hfresh : ∀ b ∈ kept, key b ≠ key a := by simpa using hany
        rw [ih]
        simp only [List.mem_append, List.mem_singleton]
        by_cases hkey : key a = key x
        · rw [List.find?_cons_of_pos (by simpa using hkey)]
          constructor
          · rintro ((hx | rfl) | ⟨hnone, -⟩)
            · exact Or.inl hx
            · exact Or.inr ⟨hfresh, rfl⟩
            · exact absurd hkey (hnone a (Or.inr rfl))
          · rintro (hx | ⟨-, hsome⟩)
            · exact Or.inl (Or.inl hx)
            · exact Or.inl (Or.inr (Option.some.inj hsome).symm)
        · rw [List.find?_cons_of_neg (by simpa using hkey)]
          constructor
          · rintro ((hx | rfl) | ⟨hnone, hfind⟩)
            · exact Or.inl hx
            · exact absurd rfl hkey
            · exact Or.inr ⟨fun b hb => hnone b (Or.inl hb), hfind⟩
          · rintro (hx | ⟨hnone, hfind⟩)
            · exact Or.inl (Or.inl hx)
            · refine Or.inr ⟨?_, hfind⟩
              rintro b (hb | rfl)
              · exact hnone b hb
              · exact hkey

theorem nodup_collapse (h : (kept.map key).Nodup) :
    ((collapse key kept duplicates as).1.map key).Nodup := by
  induction as generalizing kept duplicates with
  | nil => exact h
  | cons a as ih =>
      unfold collapse
      split
      · exact ih h
      · rename_i hany
        have hfresh : ∀ b ∈ kept, key b ≠ key a := by simpa using hany
        apply ih
        rw [List.map_append, List.map_singleton, List.nodup_append]
        refine ⟨h, List.nodup_singleton _, ?_⟩
        intro k hk k' hk'
        obtain ⟨b, hb, rfl⟩ := List.mem_map.mp hk
        rw [List.mem_singleton.mp hk']
        exact hfresh b hb

variable (key as bs) in
/-- The first copies of a list. -/
def firsts : List α := (collapse key [] [] as).1

theorem mem_firsts {x : α} : x ∈ firsts key as ↔ (as.find? fun a => key a = key x) = some x := by
  unfold firsts
  rw [mem_collapse]
  simp

theorem nodup_firsts : ((firsts key as).map key).Nodup := nodup_collapse List.nodup_nil

end collapse

theorem perm_of_mem_iff {key : α → κ} {as bs : List α} (has : (as.map key).Nodup)
    (hbs : (bs.map key).Nodup) (h : ∀ x, x ∈ as ↔ x ∈ bs) : as.Perm bs :=
  (List.perm_ext_iff_of_nodup has.of_map hbs.of_map).mpr h

/-! ### Best elements -/

/-- What is in a sorted list and not among its first `k` elements comes after these, and there are
`k` of them. -/
theorem after_take {R : α → α → Prop} {as : List α} (h : as.Pairwise R) {k : ℕ} {x : α} (hx : x ∈ as)
    (hnot : x ∉ as.take k) : (as.take k).length = k ∧ ∀ y ∈ as.take k, R y x := by
  rw [← List.take_append_drop k as, List.mem_append] at hx
  have hdrop : x ∈ as.drop k := hx.resolve_left hnot
  constructor
  · rw [List.length_take]
    have hpos := List.length_pos_of_mem hdrop
    rw [List.length_drop] at hpos
    omega
  · intro y hy
    rw [← List.take_append_drop k as] at h
    exact (List.pairwise_append.mp h).2.2 y hy x hdrop

section sort

variable {le : α → α → Bool} (trans : ∀ a b c, le a b = true → le b c = true → le a c = true)
variable (total : ∀ a b, (le a b || le b a) = true)

include trans total in
theorem mergeSort_congr {as bs : List α} (h : as.Perm bs)
    (anti : ∀ a ∈ as, ∀ b ∈ as, le a b = true → le b a = true → a = b) :
    as.mergeSort le = bs.mergeSort le := by
  have hperm : (as.mergeSort le).Perm (bs.mergeSort le) :=
    (List.mergeSort_perm as le).trans (h.trans (List.mergeSort_perm bs le).symm)
  apply hperm.eq_of_pairwise _ (List.pairwise_mergeSort trans total as)
    (List.pairwise_mergeSort trans total bs)
  intro a b ha hb
  exact anti a (List.mem_mergeSort.mp ha) b (List.mem_mergeSort.mp (hperm.mem_iff.mpr hb))

end sort

end Selection
