import PersonalOS.ApplicationBoard
import PersonalOS.LifecycleLog

/-! # The board shows every application in its column

* **Status.** In every state that the lifecycle reaches, the status that the board reads is the one that
  is stored (`status_of_rowOf`).
* **Columns.** The cards of a page, column by column, are the rows of the page in order, and the totals of
  the columns are those of all the rows (`BoardShows`).
* **Pages.** A reader that follows `next_offset` while nothing changes is given each application that
  matches once, from left to right (`board_shows_every_application`). -/

namespace PersonalOS

open Concurrent

/-! ### Columns -/

theorem mem_boardColumnOrder (status : ApplicationStatus) : status ∈ boardColumnOrder := by
  cases status <;> decide

theorem boardColumnOrder_pairwise :
    boardColumnOrder.Pairwise fun status status' => columnRank status < columnRank status' := by
  decide

instance (tools : BoardTools) : Std.Total tools.Before where
  total row row' := by
    unfold BoardTools.Before
    unfold Time UUID at *
    omega

instance (tools : BoardTools) : IsTrans BoardRow tools.Before where
  trans row row' row'' h h' := by
    unfold BoardTools.Before at *
    unfold Time UUID at *
    omega

variable {τ : Type} {tools : BoardTools} {tables : BoardTables} {db : LifecycleDb τ}

/-! ### Rows -/

theorem rowOf_eq_some {application : BoardApplication} {row : BoardRow}
    (h : tables.rowOf db application = some row) :
    row.application = application ∧ db.applications application.id = some row.lifecycle ∧
      row.view = db.statusView application.id := by
  obtain ⟨lifecycle, hlifecycle, hrow⟩ := Option.bind_eq_some_iff.mp h
  obtain ⟨posting, -, rfl⟩ := Option.map_eq_some_iff.mp hrow
  exact ⟨rfl, hlifecycle, rfl⟩

/-- Where log and projection agree, the board reads the status that is stored. -/
theorem status_of_rowOf (hagrees : ∀ id, LogAgrees id db) {application : BoardApplication} {row : BoardRow}
    (h : tables.rowOf db application = some row) : row.status = row.lifecycle.status := by
  obtain ⟨-, hlifecycle, hview⟩ := rowOf_eq_some h
  have hlast := ((hagrees application.id).chained row.lifecycle hlifecycle).last
  rw [BoardRow.status, hview, (hagrees application.id).view]
  cases hevents : (db.eventLog.ofApplication application.id).getLast? with
  | none => rfl
  | some event =>
      rw [hevents] at hlast
      exact hlast.symm

theorem mem_matching {filter : BoardFilter} {row : BoardRow} :
    row ∈ tables.matching tools db filter ↔
      (∃ application ∈ tables.applications, tables.rowOf db application = some row) ∧
        BoardTables.matchesFilter tools filter row = true := by
  rw [BoardTables.matching, List.mem_insertionSort, List.mem_filter, BoardTables.joined, List.mem_filterMap]

theorem nodup_matching (filter : BoardFilter) :
    ((tables.matching tools db filter).map (·.application.id)).Nodup := by
  have hjoined : ((tables.joined db).map (·.application.id)).Nodup := by
    refine tables.nodup.sublist ?_
    rw [BoardTables.joined, List.map_filterMap]
    induction tables.applications with
    | nil => exact .slnil
    | cons application applications ih =>
        rw [List.filterMap_cons, List.map_cons]
        cases hrow : tables.rowOf db application with
        | none => exact ih.cons _
        | some row =>
            rw [Option.map_some, (rowOf_eq_some hrow).1]
            exact ih.cons_cons _
  refine ((List.perm_insertionSort tools.Before _).map _).nodup_iff.mpr ?_
  exact hjoined.sublist (List.filter_sublist.map _)

theorem matching_pairwise (filter : BoardFilter) : (tables.matching tools db filter).Pairwise
    fun row row' => columnRank row.status ≤ columnRank row'.status := by
  refine (List.pairwise_insertionSort tools.Before _).imp fun h => ?_
  rcases h with hlt | ⟨heq, -⟩
  · exact hlt.le
  · exact heq.le

/-- The columns that a query asks for. -/
def askedColumns (filter : BoardFilter) : List ApplicationStatus :=
  boardColumnOrder.filter (if filter.states.isEmpty then boardColumnOrder else filter.states).contains

theorem askedColumns_pairwise (filter : BoardFilter) :
    (askedColumns filter).Pairwise fun status status' => columnRank status < columnRank status' :=
  boardColumnOrder_pairwise.filter _

/-- What matches is in one of the columns that are asked for. -/
theorem status_mem_askedColumns {filter : BoardFilter} {row : BoardRow}
    (h : row ∈ tables.matching tools db filter) : row.status ∈ askedColumns filter := by
  refine List.mem_filter.mpr ⟨mem_boardColumnOrder _, List.contains_iff_mem.mpr ?_⟩
  have hmatches := (mem_matching.mp h).2
  rw [BoardTables.matchesFilter] at hmatches
  simp only [Bool.and_eq_true, Bool.or_eq_true] at hmatches
  split
  case isTrue => exact mem_boardColumnOrder _
  case isFalse hne =>
    rcases hmatches.1.1.1.1 with hempty | hcontains
    · exact absurd hempty hne
    · exact List.contains_iff_mem.mp hcontains

/-- The rows of the columns add up. -/
theorem sum_countP {order : List ApplicationStatus}
    (horder : order.Pairwise fun status status' => columnRank status < columnRank status')
    {rows : List BoardRow}
    (hsorted : rows.Pairwise fun row row' => columnRank row.status ≤ columnRank row'.status)
    (hmem : ∀ row ∈ rows, row.status ∈ order) :
    (order.map fun status => rows.countP (·.status = status)).sum = rows.length := by
  have hcolumns := congrArg List.length (Paging.flatMap_filter_eq horder hsorted hmem)
  rw [List.length_flatMap] at hcolumns
  rw [← hcolumns]
  refine congrArg List.sum (List.map_congr_left fun status _ => ?_)
  exact List.countP_eq_length_filter

/-! ### Pages -/

/-- The page that a query is answered with shows the rows of a page of what matches. -/
structure BoardShows (tools : BoardTools) (tables : BoardTables) (db : LifecycleDb τ) (query : BoardQuery)
    (board : ApplicationBoard) : Prop where
  columns : board.columns.map (·.status) = askedColumns query.toBoardFilter
  cards : board.columns.flatMap (·.applications) =
    (Paging.page (tables.matching tools db query.toBoardFilter) query.offset query.limit).map tables.cardOf
  placed : ∀ column ∈ board.columns, ∀ card ∈ column.applications, card.status = column.status ∧
    (db.applications card.applicationId).map (·.status) = some column.status
  totals : ∀ column ∈ board.columns, column.total =
    (tables.matching tools db query.toBoardFilter).countP (·.lifecycle.status = column.status)
  total : (board.columns.map (·.total)).sum = board.total ∧
    board.total = (tables.matching tools db query.toBoardFilter).length
  nextOffset : board.nextOffset =
    Paging.nextOffset (tables.matching tools db query.toBoardFilter) query.offset query.limit

theorem boardShows (hagrees : ∀ id, LogAgrees id db) (query : BoardQuery) :
    BoardShows tools tables db query (tables.board tools db query) := by
  have hsorted : (tables.matching tools db query.toBoardFilter).Pairwise fun row row' =>
      columnRank row.status ≤ columnRank row'.status := by
    exact matching_pairwise query.toBoardFilter
  have hpage := Paging.page_sublist (tables.matching tools db query.toBoardFilter) query.offset query.limit
  have htotal : (tables.board tools db query).total =
      (tables.matching tools db query.toBoardFilter).length :=
    sum_countP boardColumnOrder_pairwise hsorted fun row _ => mem_boardColumnOrder row.status
  refine
    { columns := ?_
      cards := ?_
      placed := ?_
      totals := ?_
      total := ⟨?_, htotal⟩
      nextOffset := ?_ }
  · rw [BoardTables.board, List.map_map]
    exact List.map_id _
  · rw [BoardTables.board, List.flatMap_map]
    refine @Paging.flatMap_filter_eq _ _ _ ApplicationCard.status _ _ (askedColumns_pairwise query.toBoardFilter) _
      (List.pairwise_map.mpr (hsorted.sublist hpage)) fun card hcard => ?_
    obtain ⟨row, hrow, rfl⟩ := List.mem_map.mp hcard
    exact status_mem_askedColumns (hpage.subset hrow)
  · intro column hcolumn card hcard
    obtain ⟨status, -, rfl⟩ := List.mem_map.mp hcolumn
    obtain ⟨hmem, hstatus⟩ := List.mem_filter.mp hcard
    obtain ⟨row, hrow, rfl⟩ := List.mem_map.mp hmem
    have hrowStatus : row.status = status := of_decide_eq_true hstatus
    obtain ⟨⟨application, -, hof⟩, -⟩ := mem_matching.mp (hpage.subset hrow)
    obtain ⟨happlication, hlifecycle, -⟩ := rowOf_eq_some hof
    refine ⟨hrowStatus, ?_⟩
    rw [BoardTables.cardOf, happlication, hlifecycle, Option.map_some, ← status_of_rowOf hagrees hof, hrowStatus]
  · intro column hcolumn
    obtain ⟨status, -, rfl⟩ := List.mem_map.mp hcolumn
    refine List.countP_congr fun row hrow => ?_
    obtain ⟨⟨application, -, hof⟩, -⟩ := mem_matching.mp hrow
    rw [status_of_rowOf hagrees hof]
  · rw [htotal, BoardTables.board, List.map_map]
    exact sum_countP (askedColumns_pairwise query.toBoardFilter) hsorted fun row => status_mem_askedColumns
  · have hnext : (tables.board tools db query).nextOffset =
        if query.offset + (Paging.page (tables.matching tools db query.toBoardFilter) query.offset
          query.limit).length < (tables.board tools db query).total then
          some (query.offset + (Paging.page (tables.matching tools db query.toBoardFilter) query.offset
            query.limit).length)
        else none := by
      rw [BoardTables.board]
    rw [hnext, htotal]
    exact (Paging.nextOffset_eq _ _ _).symm

/-- A client: the cards that it was given, column by column, and the offset of the next page. -/
structure BoardReader where
  given : List ApplicationCard := []
  next : Option ℕ := some 0

/-- The next page is asked for, unless the last one was the last. -/
def BoardReader.request (tools : BoardTools) (tables : BoardTables) (db : LifecycleDb τ) (filter : BoardFilter)
    (reader : BoardReader) (size : BoardPageSize) : BoardReader :=
  match reader.next with
  | none => reader
  | some offset =>
      let board := tables.board tools db { filter, size with offset }
      { given := reader.given ++ board.columns.flatMap (·.applications), next := board.nextOffset }

def BoardReader.run (tools : BoardTools) (tables : BoardTables) (db : LifecycleDb τ) (filter : BoardFilter)
    (sizes : List BoardPageSize) (reader : BoardReader) : BoardReader :=
  sizes.foldl (BoardReader.request tools tables db filter) reader

/-- What the reader has been given so far. -/
def BoardReader.Reads (cards : List ApplicationCard) (requests : ℕ) (reader : BoardReader) : Prop :=
  Paging.Enumerates cards reader.given reader.next requests

theorem BoardReader.Reads.request (hagrees : ∀ id, LogAgrees id db) {filter : BoardFilter} {requests : ℕ}
    {reader : BoardReader}
    (h : reader.Reads ((tables.matching tools db filter).map tables.cardOf) requests) (size : BoardPageSize) :
    (reader.request tools tables db filter size).Reads
      ((tables.matching tools db filter).map tables.cardOf) (requests + 1) := by
  unfold BoardReader.Reads at h
  rw [BoardReader.request]
  cases hnext : reader.next with
  | none =>
      rw [hnext] at h
      unfold BoardReader.Reads
      rw [hnext]
      exact h.idle
  | some offset =>
      rw [hnext] at h
      have hshows : BoardShows tools tables db { filter, size with offset } _ := boardShows hagrees _
      have hread := h.read size.pos
      rw [Paging.page_map, Paging.nextOffset_map] at hread
      unfold BoardReader.Reads
      dsimp only
      rw [hshows.cards, hshows.nextOffset]
      exact hread

theorem BoardReader.Reads.run (hagrees : ∀ id, LogAgrees id db) {filter : BoardFilter} {requests : ℕ}
    {reader : BoardReader}
    (h : reader.Reads ((tables.matching tools db filter).map tables.cardOf) requests)
    (sizes : List BoardPageSize) :
    (reader.run tools tables db filter sizes).Reads
      ((tables.matching tools db filter).map tables.cardOf) (requests + sizes.length) := by
  induction sizes generalizing reader requests with
  | nil => exact h
  | cons size sizes ih =>
      have hrun := ih (h.request hagrees size)
      rw [Nat.add_assoc, Nat.add_comm 1] at hrun
      exact hrun

/-- **The board shows every application once, in the column of its status.**  In every state that moves,
activities and stall checks lead to, in whichever order their steps come: each page shows its rows from
left to right, each card in the column of the stored status, with the totals of all that match; and a
client that follows the pages has been given each application that matches once after as many requests as
there are such applications, and there is no next page. -/
theorem board_shows_every_application [DecidableEq τ] (redactText : RedactText) (tasks : τ → LifecycleTask)
    (created : UUID → Option Time) (sched : List (τ × LifecycleInput)) (tools : BoardTools)
    (tables : BoardTables) (filter : BoardFilter) (sizes : List BoardPageSize) :
    let db := ((lifecyclePool redactText tasks created).run sched).state
    let rows := tables.matching tools db filter
    let reader := ({} : BoardReader).run tools tables db filter sizes
    (∀ query, BoardShows tools tables db query (tables.board tools db query)) ∧
      (rows.map (·.application.id)).Nodup ∧
      (∀ row, row ∈ rows ↔ (∃ application ∈ tables.applications, tables.rowOf db application = some row) ∧
        BoardTables.matchesFilter tools filter row = true) ∧
      reader.given ++ Paging.pending (rows.map tables.cardOf) reader.next = rows.map tables.cardOf ∧
      (rows.length ≤ sizes.length →
        reader.given = rows.map tables.cardOf ∧ (0 < sizes.length → reader.next = none)) := by
  intro db rows reader
  have hagrees : ∀ id, LogAgrees id db := lifecyclePool_agrees redactText tasks created sched
  have hstart : ({} : BoardReader).Reads (rows.map tables.cardOf) 0 := Paging.Enumerates.start _
  have hreads : Paging.Enumerates (rows.map tables.cardOf) reader.given reader.next (0 + sizes.length) :=
    BoardReader.Reads.run hagrees hstart sizes
  rw [Nat.zero_add] at hreads
  refine ⟨fun query => boardShows hagrees query, nodup_matching filter, fun row => mem_matching, hreads.exact,
    fun hlength => hreads.through ?_⟩
  rwa [List.length_map]

end PersonalOS
