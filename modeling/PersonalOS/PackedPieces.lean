import PersonalOS.ResumeParts
import Mathlib.Data.List.Chain

/-! # What the packer does with its items

`_pack` on lines and items of any kind, also on such as no resume has: blank ones, or such as begin with
whitespace.

* **Pieces.** `CutInto` relates an item to the pieces it is cut into: only items over the budget are cut,
  and only whitespace at the cuts is left out.
* **Runs.** `Packs` relates the items to the runs of pieces under the prefix: they hold the pieces in
  order, each within the budget, and a run ends only where its successor's first piece would not fit
  (`Overflows`). -/

namespace PersonalOS.Resume

/-- The pieces of an item, in order, with only whitespace left out between them. -/
inductive CutInto (budget : ℕ) : List Char → List (List Char) → Prop
  | nothing : CutInto budget [] []
  | whole {item : List Char} (hne : item ≠ []) (hfits : item.length ≤ budget) : CutInto budget item [item]
  | cut {item piece gap rest : List Char} {pieces : List (List Char)} (hlong : budget < item.length)
      (hitem : item = piece ++ (gap ++ rest)) (hgap : ∀ c ∈ gap, isSpace c = true)
      (hrest : CutInto budget rest pieces) : CutInto budget item (piece :: pieces)

/-- The first piece of the next run would have taken this one over the budget, with a newline for each
piece. -/
def Overflows (budget : ℕ) (run next : List (List Char)) : Prop :=
  ∃ piece pieces, next = piece :: pieces ∧ budget < lineTotal run + (piece.length + 1)

/-- The items are packed into these runs. -/
structure Packs (budget : ℕ) (items : List (List Char)) (runs : List (List (List Char))) : Prop where
  pieces : ∃ cuts, List.Forall₂ (CutInto budget) items cuts ∧ runs.flatten = cuts.flatten
  fits : ∀ run ∈ runs, (joinLines run).length ≤ budget
  full : runs.IsChain (Overflows budget)

section cutting

variable {budget : ℕ} (hbudget : 0 < budget)

theorem cut_eq (item : List Char) (n : ℕ) : ∃ gap, (∀ c ∈ gap, isSpace c = true) ∧
    item = rstrip (item.take n) ++ (gap ++ lstrip (item.drop n)) := by
  refine ⟨(item.take n).rtakeWhile isSpace ++ (item.drop n).takeWhile isSpace, fun c hc => ?_, ?_⟩
  · rcases List.mem_append.mp hc with hc | hc
    · exact List.mem_rtakeWhile_imp hc
    · exact List.mem_takeWhile_imp hc
  · rw [List.append_assoc, ← List.append_assoc, rstrip, List.rdropWhile_append_rtakeWhile, lstrip,
      List.takeWhile_append_dropWhile, List.take_append_drop]

theorem cutPieces_cutInto (item : List Char) : CutInto budget item (cutPieces budget hbudget item) := by
  induction item using cutPieces.induct budget hbudget with
  | case1 item hlong ih =>
      rw [cutPieces, if_pos hlong]
      obtain ⟨gap, hgap, hitem⟩ := cut_eq item (cutAt budget item)
      exact .cut hlong hitem hgap ih
  | case2 item hshort =>
      rw [cutPieces, if_neg hshort]
      cases item with
      | nil => exact .nothing
      | cons c text => exact .whole (List.cons_ne_nil c text) (Nat.le_of_not_lt hshort)

end cutting

theorem packs_runsOf (pre items : List (List Char)) : Packs (budgetOf pre) items (runsOf pre items) where
  pieces := by
    refine ⟨items.map (cutPieces (budgetOf pre) (budgetOf_pos pre)), ?_, ?_⟩
    · exact List.forall₂_map_right_iff.mpr (List.forall₂_same.mpr fun item _ => cutPieces_cutInto _ item)
    · rw [flatten_runsOf, piecesOf, List.flatMap_def]
  fits := by
    intro run hrun
    obtain ⟨hne, htotal⟩ := length_run_le hrun
    rw [← length_joinLines hne] at htotal
    exact Nat.le_of_succ_le_succ htotal
  full := by
    by_cases hne : piecesOf pre items = []
    · rw [runsOf_eq_nil_iff.mpr hne]
      exact List.isChain_nil
    · exact (runsOf_divided hne).isChain

theorem CutInto.eq_nil {budget : ℕ} {item : List Char} (h : CutInto budget item []) : item = [] := by
  cases h
  rfl

theorem Packs.eq_nil {budget : ℕ} {items : List (List Char)} (h : Packs budget items []) :
    ∀ item ∈ items, item = [] := by
  obtain ⟨cuts, hcuts, hflat⟩ := h.pieces
  have hnone : ∀ cut ∈ cuts, cut = [] := List.flatten_eq_nil_iff.mp hflat.symm
  clear hflat h
  induction hcuts with
  | nil => exact fun item hitem => absurd hitem List.not_mem_nil
  | cons hcut _ ih =>
      rw [hnone _ List.mem_cons_self] at hcut
      have hrest := ih fun cut hmem => hnone cut (List.mem_cons_of_mem _ hmem)
      exact List.forall_mem_cons.mpr ⟨hcut.eq_nil, hrest⟩

/-- **Packing**: the texts are the prefix lines with the runs that the items are packed into, and there is
none only if there is nothing to pack under no prefix. -/
theorem pack_packs (pre items : List (List Char)) :
    (∃ runs, pack pre items = runs.map (fun run => joinLines (pre ++ run)) ∧
      Packs (budgetOf pre) items runs) ∧
    (pack pre items = [] → pre = [] ∧ ∀ item ∈ items, item = []) := by
  have hpacks := packs_runsOf pre items
  unfold pack
  cases hruns : runsOf pre items with
  | nil =>
      rw [hruns] at hpacks
      have hnothing := hpacks.eq_nil
      dsimp only
      split
      · rename_i hpre
        exact ⟨⟨[], rfl, hpacks⟩, fun _ => ⟨List.isEmpty_iff.mp hpre, hnothing⟩⟩
      · refine ⟨⟨[[]], ?_, ?_, ?_, List.isChain_singleton _⟩, fun hnil => by cases hnil⟩
        · rw [List.map_singleton, List.append_nil]
        · exact hpacks.pieces
        · intro run hrun
          rw [List.mem_singleton.mp hrun]
          exact Nat.zero_le _
  | cons run runs =>
      rw [hruns] at hpacks
      exact ⟨⟨run :: runs, rfl, hpacks⟩, fun hnil => by cases hnil⟩

end PersonalOS.Resume
