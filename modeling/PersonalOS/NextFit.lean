import Mathlib.Algebra.BigOperators.Group.List.Basic
import Mathlib.Algebra.Ring.Nat
import Mathlib.Data.List.Chain
import Mathlib.Data.List.Infix
import Mathlib.Data.List.Induction

/-! # Next fit

Items of any kind are put into bins one after the other: a bin is closed when the next item does not fit
into it, and the item begins the next bin.

* **Beginnings.** `Begins` says at which items a bin begins, and `Takes` which items the bin takes that
  begins there: as many as fit, and one at least (`Takes.unique`).
* **Bins.** `Divided` relates the items to the bins.  A bin begins exactly where the bins before it end
  (`Divided.begins_iff`), and the bins before it are those that begin earlier (`Divided.mem_before_iff`). -/

namespace NextFit

variable {α : Type*} (size : α → ℕ) (budget : ℕ)

def total (items : List α) : ℕ := (items.map size).sum

/-- The items of a bin: they are within the budget, or there is only one. -/
def Fits (bin : List α) : Prop := total size bin ≤ budget ∨ bin.length ≤ 1

/-- The bin is closed before this item. -/
structure Closes (bin : List α) (item : α) : Prop where
  nonempty : bin ≠ []
  fits : Fits size budget bin
  full : budget < total size (bin ++ [item])

/-- A bin takes the first of the items that are left. -/
inductive Takes : List α → List α → Prop
  | all {bin : List α} (h : Fits size budget bin) : Takes bin bin
  | closed {bin : List α} {item : α} {rest : List α} (h : Closes size budget bin item) :
      Takes (bin ++ item :: rest) bin

/-- The items that are left where a bin begins. -/
inductive Begins (items : List α) : List α → Prop
  | first : Begins items items
  | next {bin : List α} {item : α} {rest : List α} (h : Begins items (bin ++ item :: rest))
      (hclosed : Closes size budget bin item) : Begins items (item :: rest)

/-- The items are divided into these bins. -/
inductive Divided : List α → List (List α) → Prop
  | last {bin : List α} (h : Fits size budget bin) : Divided bin [bin]
  | closed {bin : List α} {item : α} {rest : List α} {bins : List (List α)}
      (h : Closes size budget bin item) (hrest : Divided (item :: rest) bins) :
      Divided (bin ++ item :: rest) (bin :: bins)

variable {size budget} {items rest bin other : List α} {bins before after : List (List α)}

@[simp] theorem total_append (items items' : List α) :
    total size (items ++ items') = total size items + total size items' := by
  rw [total, List.map_append, List.sum_append]
  rfl

theorem total_mono (h : other <+: bin) : total size other ≤ total size bin := by
  obtain ⟨more, rfl⟩ := h
  rw [total_append]
  exact Nat.le_add_right _ _

theorem Takes.fits (h : Takes size budget rest bin) : Fits size budget bin := by
  cases h with
  | all h => exact h
  | closed h => exact h.fits

theorem Takes.isPrefix (h : Takes size budget rest bin) : bin <+: rest := by
  cases h with
  | all h => exact List.prefix_rfl
  | closed h => exact List.prefix_append _ _

theorem Takes.holds (h : Takes size budget rest bin) (hother : other <+: rest)
    (hfits : Fits size budget other) : other <+: bin := by
  cases h with
  | all h => exact hother
  | @closed bin item rest h =>
      rcases le_or_gt other.length bin.length with hle | hlt
      · exact List.prefix_of_prefix_length_le hother (List.prefix_append _ _) hle
      · -- The item that closed the bin would be among them.
        have hmore : bin ++ [item] <+: other := by
          refine List.prefix_of_prefix_length_le ⟨rest, by simp⟩ hother ?_
          rw [List.length_append]
          exact hlt
        have hfull := lt_of_lt_of_le h.full (total_mono hmore)
        have hpos := List.length_pos_iff.mpr h.nonempty
        rcases hfits with hfits | hfits
        · exact absurd hfits (Nat.not_le.mpr hfull)
        · omega

theorem Takes.unique (h : Takes size budget rest bin) (h' : Takes size budget rest other) :
    bin = other :=
  (h'.holds h.isPrefix h.fits).eq_of_length_le (h.holds h'.isPrefix h'.fits).length_le

/-! ### Bins -/

theorem Divided.flatten_eq (h : Divided size budget items bins) : bins.flatten = items := by
  induction h with
  | last h => simp
  | closed h hrest ih => rw [List.flatten_cons, ih]

theorem Divided.takes (h : Divided size budget items (bin :: bins)) : Takes size budget items bin := by
  cases h with
  | last h => exact .all h
  | closed h hrest => exact .closed h

theorem Divided.fits (h : Divided size budget items bins) : ∀ bin ∈ bins, Fits size budget bin := by
  induction h with
  | last h => exact List.forall_mem_singleton.mpr h
  | closed h hrest ih => exact List.forall_mem_cons.mpr ⟨h.fits, ih⟩

theorem Divided.ne_nil (h : Divided size budget items bins) (hne : items ≠ []) :
    ∀ bin ∈ bins, bin ≠ [] := by
  induction h with
  | last h => exact List.forall_mem_singleton.mpr hne
  | closed h hrest ih => exact List.forall_mem_cons.mpr ⟨h.nonempty, ih (List.cons_ne_nil _ _)⟩

theorem Divided.isChain (h : Divided size budget items bins) : bins.IsChain fun bin next =>
    ∃ item rest, next = item :: rest ∧ budget < total size bin + size item := by
  induction h with
  | last h => exact List.isChain_singleton _
  | @closed bin item rest bins h hrest ih =>
      refine List.isChain_cons.mpr ⟨fun next hnext => ?_, ih⟩
      obtain ⟨others, rfl⟩ := List.head?_eq_some_iff.mp hnext
      have hitem : ∃ rest, next = item :: rest := by
        cases next with
        | nil => exact absurd rfl (hrest.ne_nil (List.cons_ne_nil _ _) [] List.mem_cons_self)
        | cons first rest =>
            have hflat := hrest.flatten_eq
            rw [List.flatten_cons, List.cons_append] at hflat
            exact ⟨rest, by rw [(List.cons.inj hflat).1]⟩
      obtain ⟨rest, rfl⟩ := hitem
      have hfull := h.full
      rw [total_append] at hfull
      exact ⟨item, rest, rfl, by simpa [total] using hfull⟩

theorem Divided.suffix (h : Divided size budget items (before ++ bin :: after)) :
    Divided size budget (bin :: after).flatten (bin :: after) := by
  induction before generalizing items with
  | nil =>
      rw [List.nil_append] at h
      rwa [h.flatten_eq]
  | cons first before ih =>
      generalize hbins : first :: before ++ bin :: after = bins at h
      cases h with
      | last h => simp at hbins
      | closed h hrest =>
          obtain ⟨rfl, rfl⟩ := List.cons.inj hbins
          exact ih hrest

theorem Divided.closes (h : Divided size budget items (bin :: other :: bins)) :
    ∃ item rest, items = bin ++ item :: rest ∧ (other :: bins).flatten = item :: rest ∧
      Closes size budget bin item := by
  cases h with
  | closed h hrest => exact ⟨_, _, rfl, hrest.flatten_eq, h⟩

theorem Divided.begins (h : Divided size budget items (before ++ bin :: after)) :
    Begins size budget items (bin :: after).flatten := by
  induction before using List.reverseRecOn generalizing bin after with
  | nil =>
      rw [List.nil_append] at h
      rw [h.flatten_eq]
      exact .first
  | append_singleton before last ih =>
      rw [List.append_assoc, List.singleton_append] at h
      obtain ⟨item, rest, hitems, hnext, hclosed⟩ := h.suffix.closes
      have hlast := ih h
      rw [hitems] at hlast
      rw [hnext]
      exact hlast.next hclosed

/-- The beginnings of bins are where the bins before them end. -/
theorem Divided.begins_iff (h : Divided size budget items bins) : Begins size budget items rest ↔
    ∃ before bin after, bins = before ++ bin :: after ∧ (bin :: after).flatten = rest := by
  constructor
  · intro hbegins
    induction hbegins with
    | first =>
        cases h with
        | last hfits => exact ⟨[], _, [], rfl, by simp⟩
        | closed hclosed hrest => exact ⟨[], _, _, rfl, (Divided.closed hclosed hrest).flatten_eq⟩
    | @next taken item rest hbegins hclosed ih =>
        obtain ⟨before, bin, after, rfl, hrest⟩ := ih
        have hsuffix := h.suffix
        rw [hrest] at hsuffix
        obtain rfl := hsuffix.takes.unique (.closed hclosed)
        rw [List.flatten_cons, List.append_cancel_left_eq] at hrest
        cases after with
        | nil => cases hrest
        | cons next after => exact ⟨before ++ [bin], next, after, by simp, hrest⟩
  · rintro ⟨before, bin, after, rfl, rfl⟩
    exact h.begins

theorem Divided.mem_iff (h : Divided size budget items bins) :
    bin ∈ bins ↔ ∃ rest, Begins size budget items rest ∧ Takes size budget rest bin := by
  constructor
  · intro hmem
    obtain ⟨before, after, rfl⟩ := List.append_of_mem hmem
    exact ⟨_, h.begins, h.suffix.takes⟩
  · rintro ⟨rest, hbegins, htakes⟩
    obtain ⟨before, bin', after, rfl, rfl⟩ := h.begins_iff.mp hbegins
    obtain rfl := h.suffix.takes.unique htakes
    exact List.mem_append_right _ List.mem_cons_self

/-- The bins before a bin are those that begin earlier. -/
theorem Divided.mem_before_iff (h : Divided size budget items (before ++ bin :: after)) :
    other ∈ before ↔ ∃ rest, Begins size budget items rest ∧
      (bin :: after).flatten.length < rest.length ∧ Takes size budget rest other := by
  constructor
  · intro hmem
    obtain ⟨first, middle, rfl⟩ := List.append_of_mem hmem
    rw [List.append_assoc, List.cons_append] at h
    refine ⟨_, h.begins, ?_, h.suffix.takes⟩
    have hsuffix := h.suffix
    obtain ⟨next, others, hnext⟩ := List.exists_cons_of_ne_nil
      (List.append_ne_nil_of_right_ne_nil middle (List.cons_ne_nil bin after))
    rw [hnext] at hsuffix
    obtain ⟨item, rest, -, -, hclosed⟩ := hsuffix.closes
    have hpos := List.length_pos_iff.mpr hclosed.nonempty
    simp only [List.flatten_cons, List.flatten_append, List.length_append]
    omega
  · rintro ⟨rest, hbegins, hlonger, htakes⟩
    obtain ⟨before', bin', after', hbins, rfl⟩ := h.begins_iff.mp hbegins
    have hsuffix : Divided size budget (bin' :: after').flatten (bin' :: after') := by
      rw [hbins] at h
      exact h.suffix
    obtain rfl := hsuffix.takes.unique htakes
    rcases List.append_eq_append_iff.mp hbins with ⟨more, hbefore, hrest⟩ | ⟨more, hbefore, hrest⟩
    · rw [hrest, List.flatten_append, List.length_append] at hlonger
      omega
    · cases more with
      | nil =>
          rw [List.nil_append] at hrest
          rw [hrest] at hlonger
          exact absurd hlonger (lt_irrefl _)
      | cons first more =>
          rw [List.cons_append] at hrest
          obtain ⟨rfl, -⟩ := List.cons.inj hrest
          rw [hbefore]
          exact List.mem_append_right _ List.mem_cons_self

end NextFit
