import Mathlib.Data.List.Sort

/-! # Pages by offset

A reader asks for the rows of a table a page at a time, each time from the offset where the last page
ended, while others may add rows to the table.

* **Pages.** A `page` is a segment of the rows as they are; `nextOffset` is where the next one starts, and
  there is none after the last one.  A page with a next one after it is full (`page_append_drop`).
* **Reading.** `pending` is what a reader has before it: what is at its offset and after.  Added rows
  only push others to higher offsets, so it loses nothing (`Pending.grow`), and every page takes
  its rows off its front (`Pending.read`).
* **What stays.** When no rows are added, the pages are all the rows, each once and in order, and there are
  no more of them than rows (`Enumerates`).
* **Sorted rows.** Sorting what has fewer rows gives fewer rows in the same order
  (`insertionSort_sublist`); sorted rows are their columns one after another (`flatMap_filter_eq`). -/

namespace Paging

variable {α : Type}

/-- The rows from an offset on, as many as the limit. -/
def page (rows : List α) (offset limit : ℕ) : List α := (rows.drop offset).take limit

/-- Where the next page starts; none after the last one. -/
def nextOffset (rows : List α) (offset limit : ℕ) : Option ℕ :=
  let following := offset + (page rows offset limit).length
  if following < rows.length then some following else none

/-- What comes at the offset of a reader and after; nothing for one that is through. -/
def pending (rows : List α) : Option ℕ → List α
  | some offset => rows.drop offset
  | none => []

/-! ### Pages -/

theorem length_page (rows : List α) (offset limit : ℕ) :
    (page rows offset limit).length = min limit (rows.length - offset) := by
  rw [page, List.length_take, List.length_drop]

theorem page_sublist (rows : List α) (offset limit : ℕ) : (page rows offset limit).Sublist rows :=
  (List.take_sublist _ _).trans (List.drop_sublist _ _)

theorem nextOffset_eq (rows : List α) (offset limit : ℕ) : nextOffset rows offset limit =
    if offset + (page rows offset limit).length < rows.length then
      some (offset + (page rows offset limit).length)
    else none := rfl

theorem nextOffset_eq_some {rows : List α} {offset limit following : ℕ}
    (h : nextOffset rows offset limit = some following) :
    following = offset + limit ∧ following < rows.length := by
  rw [nextOffset] at h
  split at h
  case isTrue hlt =>
    have hlength := length_page rows offset limit
    have hfollowing := Option.some.inj h
    omega
  case isFalse => cases h

theorem page_append_pending (rows : List α) (offset limit : ℕ) :
    page rows offset limit ++ pending rows (nextOffset rows offset limit) =
      pending rows (some offset) := by
  cases h : nextOffset rows offset limit with
  | some following =>
      obtain ⟨rfl, -⟩ := nextOffset_eq_some h
      rw [page, pending, pending, ← List.drop_drop, List.take_append_drop]
  | none =>
      rw [nextOffset] at h
      split at h
      case isTrue => cases h
      case isFalse hge =>
        have hlength := length_page rows offset limit
        rw [pending, pending, List.append_nil, page]
        refine List.take_of_length_le ?_
        rw [List.length_drop]
        omega

theorem length_pending_nextOffset_lt {rows : List α} {offset limit : ℕ} (hlimit : 0 < limit)
    (h : nextOffset rows offset limit ≠ none) :
    (pending rows (nextOffset rows offset limit)).length < (pending rows (some offset)).length := by
  obtain ⟨following, hfollowing⟩ := Option.ne_none_iff_exists'.mp h
  obtain ⟨rfl, hlt⟩ := nextOffset_eq_some hfollowing
  rw [hfollowing, pending, pending, List.length_drop, List.length_drop]
  omega

theorem pending_nextOffset_ne_nil {rows : List α} {offset limit : ℕ}
    (h : nextOffset rows offset limit ≠ none) : pending rows (nextOffset rows offset limit) ≠ [] := by
  obtain ⟨following, hfollowing⟩ := Option.ne_none_iff_exists'.mp h
  obtain ⟨-, hlt⟩ := nextOffset_eq_some hfollowing
  rw [hfollowing, pending, ← List.length_pos_iff, List.length_drop]
  omega

theorem page_map {β : Type} (f : α → β) (rows : List α) (offset limit : ℕ) :
    page (rows.map f) offset limit = (page rows offset limit).map f := by
  rw [page, page, List.map_take, List.map_drop]

theorem nextOffset_map {β : Type} (f : α → β) (rows : List α) (offset limit : ℕ) :
    nextOffset (rows.map f) offset limit = nextOffset rows offset limit := by
  rw [nextOffset, nextOffset, page_map, List.length_map, List.length_map]

/-! ### Reading -/

/-- Of the rows there were at first, those that a reader has not been given are pending. -/
def Covers (first given rows : List α) (next : Option ℕ) : Prop :=
  first.Sublist (given ++ pending rows next)

theorem Covers.start (rows : List α) : Covers rows [] rows (some 0) := List.Sublist.refl _

/-- Rows are added to the table, wherever they come in its order. -/
theorem Covers.grow {first given rows rows' : List α} {next : Option ℕ}
    (h : Covers first given rows next) (hrows : rows.Sublist rows') : Covers first given rows' next := by
  refine List.Sublist.trans h ((List.Sublist.refl given).append ?_)
  cases next with
  | some offset => exact hrows.drop offset
  | none => exact List.Sublist.refl _

/-- The reader is given a page. -/
theorem Covers.read {first given rows : List α} {offset : ℕ} (limit : ℕ)
    (h : Covers first given rows (some offset)) :
    Covers first (given ++ page rows offset limit) rows (nextOffset rows offset limit) := by
  rwa [Covers, List.append_assoc, page_append_pending]

theorem Covers.done {first given rows : List α} (h : Covers first given rows none) :
    first.Sublist given := by
  rwa [Covers, pending, List.append_nil] at h

/-! ### Reading what stays as it is -/

/-- What was given and what is pending are all the rows; and the reader is through, or each of its requests
brought it some and there are more. -/
structure Enumerates (rows given : List α) (next : Option ℕ) (requests : ℕ) : Prop where
  exact : given ++ pending rows next = rows
  advances : next = none ∨ (pending rows next).length + requests ≤ rows.length
  unread : next = none ∨ requests = 0 ∨ pending rows next ≠ []

theorem Enumerates.start (rows : List α) : Enumerates rows [] (some 0) 0 :=
  ⟨rfl, Or.inr (Nat.le_refl _), Or.inr (Or.inl rfl)⟩

theorem Enumerates.read {rows given : List α} {offset limit requests : ℕ}
    (h : Enumerates rows given (some offset) requests) (hlimit : 0 < limit) :
    Enumerates rows (given ++ page rows offset limit) (nextOffset rows offset limit) (requests + 1) := by
  have hexact : given ++ page rows offset limit ++ pending rows (nextOffset rows offset limit) = rows := by
    rw [List.append_assoc, page_append_pending, h.exact]
  by_cases hlast : nextOffset rows offset limit = none
  · exact ⟨hexact, Or.inl hlast, Or.inl hlast⟩
  · refine ⟨hexact, Or.inr ?_, Or.inr (Or.inr (pending_nextOffset_ne_nil hlast))⟩
    have hlt := length_pending_nextOffset_lt hlimit hlast
    have hle := h.advances.resolve_left (Option.some_ne_none offset)
    omega

theorem Enumerates.idle {rows given : List α} {requests : ℕ} (h : Enumerates rows given none requests) :
    Enumerates rows given none (requests + 1) := ⟨h.exact, Or.inl rfl, Or.inl rfl⟩

theorem Enumerates.pending_eq_nil {rows given : List α} {next : Option ℕ} {requests : ℕ}
    (h : Enumerates rows given next requests) (hrequests : rows.length ≤ requests) :
    pending rows next = [] := by
  rcases h.advances with rfl | hle
  · rfl
  · exact List.eq_nil_of_length_eq_zero (by omega)

theorem Enumerates.through {rows given : List α} {next : Option ℕ} {requests : ℕ}
    (h : Enumerates rows given next requests) (hrequests : rows.length ≤ requests) :
    given = rows ∧ (0 < requests → next = none) := by
  have hnil := h.pending_eq_nil hrequests
  refine ⟨?_, fun hasked => ?_⟩
  · have hexact := h.exact
    rwa [hnil, List.append_nil] at hexact
  · rcases h.unread with hnext | hzero | hmore
    · exact hnext
    · exact absurd hzero (Nat.pos_iff_ne_zero.mp hasked)
    · exact absurd hnil hmore

/-! ### Sorted rows -/

/-- Fewer rows are fewer rows in the same order. -/
theorem insertionSort_sublist {r : α → α → Prop} [DecidableRel r] [Std.Total r] [IsTrans α r]
    {rows rows' : List α} (h : rows.Sublist rows') :
    (rows.insertionSort r).Sublist (rows'.insertionSort r) := by
  induction h with
  | slnil => exact List.Sublist.refl _
  | cons row h ih => exact ih.trans (List.sublist_orderedInsert row _)
  | cons_cons row h ih =>
      exact List.Sublist.orderedInsert_sublist row ih (List.pairwise_insertionSort r _)

/-! ### Columns -/

section columns

variable {κ : Type} [DecidableEq κ] {key : α → κ} {rank : κ → ℕ}

theorem filter_append_filter {rows : List α} {k : κ}
    (hsorted : rows.Pairwise fun x y => rank (key x) ≤ rank (key y))
    (hfirst : ∀ x ∈ rows, key x ≠ k → rank k < rank (key x)) :
    rows.filter (key · = k) ++ rows.filter (key · ≠ k) = rows := by
  induction rows with
  | nil => rfl
  | cons x rows ih =>
      obtain ⟨hx, hrest⟩ := List.pairwise_cons.mp hsorted
      have hrows := ih hrest fun y hy => hfirst y (List.mem_cons_of_mem x hy)
      by_cases hkey : key x = k
      · have hin : (x :: rows).filter (key · = k) = x :: rows.filter (key · = k) := by simp [hkey]
        have hout : (x :: rows).filter (key · ≠ k) = rows.filter (key · ≠ k) := by simp [hkey]
        rw [hin, hout, List.cons_append, hrows]
      · have hnone : ∀ y ∈ rows, key y ≠ k := by
          rintro y hy rfl
          have hlt := hfirst x List.mem_cons_self hkey
          exact absurd (hx y hy) (Nat.not_le.mpr hlt)
        have hall : ∀ y ∈ x :: rows, key y ≠ k := List.forall_mem_cons.mpr ⟨hkey, hnone⟩
        have hin : (x :: rows).filter (key · = k) = [] :=
          List.filter_eq_nil_iff.mpr fun y hy h => hall y hy (of_decide_eq_true h)
        have hout : (x :: rows).filter (key · ≠ k) = x :: rows :=
          List.filter_eq_self.mpr fun y hy => decide_eq_true (hall y hy)
        rw [hin, hout, List.nil_append]

/-- Rows that are in the order of the columns are their columns one after another. -/
theorem flatMap_filter_eq {order : List κ} (horder : order.Pairwise fun k k' => rank k < rank k')
    {rows : List α} (hsorted : rows.Pairwise fun x y => rank (key x) ≤ rank (key y))
    (hmem : ∀ x ∈ rows, key x ∈ order) : (order.flatMap fun k => rows.filter (key · = k)) = rows := by
  induction order generalizing rows with
  | nil =>
      cases rows with
      | nil => rfl
      | cons x rows => cases hmem x List.mem_cons_self
  | cons k order ih =>
      obtain ⟨hk, hrest⟩ := List.pairwise_cons.mp horder
      have hother : ∀ x ∈ rows, key x ≠ k → key x ∈ order := fun x hx hne =>
        (List.mem_cons.mp (hmem x hx)).resolve_left hne
      have hcolumns : (order.flatMap fun k' => rows.filter (key · = k')) =
          order.flatMap fun k' => (rows.filter (key · ≠ k)).filter (key · = k') := by
        refine List.flatMap_congr fun k' hk' => ?_
        rw [List.filter_filter]
        refine List.filter_congr fun x _ => ?_
        by_cases hx : key x = k'
        · have hne : k' ≠ k := by
            rintro rfl
            exact lt_irrefl _ (hk k' hk')
          simp [hx, hne]
        · simp [hx]
      rw [List.flatMap_cons, hcolumns, ih hrest (hsorted.filter _) fun x hx =>
        hother x (List.mem_filter.mp hx).1 (of_decide_eq_true (List.mem_filter.mp hx).2)]
      exact filter_append_filter hsorted fun x hx hne => hk _ (hother x hx hne)

end columns

end Paging
