import PersonalOS.UniqueRows
import PersonalOS.JobPostings

/-! # The catalog of discovered postings

`SqlPostingCatalog` of `personalos.persistence.job_postings`: any number of searches record what they found
in the table `job_postings`, one short transaction after the other.

* **One posting.** `recordOne` looks for the row under the posting's dedupe key, inserts one, and looks
  again when another search was faster.  The texts of a row are clipped to the widths of its columns.
* **Searches.** A search records its postings in order.  Whatever the interleaving, and whichever searches
  crash or lose their connection, a dedupe key has one row, which never changes, and it was created by one
  answer (`postings_recorded_once`).

How a posting is dumped to JSON is a parameter. -/

namespace PersonalOS

open Concurrent Concurrent.RowTable Matching

/-- A row of `job_postings`. -/
structure JobPostingRow (P δ : Type) where
  id : UUID
  source : String
  sourceJobId : Option String
  title : String
  company : String
  location : Option String
  url : Option String
  rawJson : P
  normalizedJson : δ
  descriptionHash : String
  dedupeKey : String
  postedAt : Option Time
deriving DecidableEq

/-- The table, with its unique index. -/
structure JobPostingTable (P δ : Type) where
  rows : List (JobPostingRow P δ)
  unique : (rows.map (·.dedupeKey)).Nodup

/-- The row a discovered posting resolved to. -/
structure PersistedPosting where
  jobPostingId : UUID
  dedupeKey : String
  created : Bool
deriving DecidableEq, Repr

/-- What a transaction is handed: the id of a row that is added, and whether the database fails, before or
after the commit. -/
structure CatalogInput where
  id : UUID
  failure : Option (String × Bool)

inductive CatalogError where
  | database (error : String)
  /-- A unique violation without a row. -/
  | integrity
deriving DecidableEq, Repr

/-- `text[:width]`. -/
def clip (width : ℕ) (text : String) : String := String.ofList (text.toList.take width)

/-- A text that may be missing, empty texts being as good as none. -/
def clipped (width : ℕ) (text : Option String) : Option String :=
  (text.filter (· ≠ "")).map (clip width)

namespace SqlPostingCatalog

variable {P δ τ : Type} (tools : TextTools) (dump : NormalizedPosting P → δ)

/-- Flatten a posting into its row, clipped to the column widths. -/
def toRow (posting : NormalizedPosting P) (id : UUID) : JobPostingRow P δ where
  id := id
  source := clip 100 posting.source
  sourceJobId := clipped 255 posting.sourceJobId
  title := clip 500 posting.title.val
  company := clip 255 posting.company.val
  location := clipped 255 posting.location
  url := posting.url
  rawJson := posting.raw
  normalizedJson := dump posting
  descriptionHash := posting.descriptionHash tools
  dedupeKey := posting.dedupeKey tools
  postedAt := posting.postedAt

def postings : RowTable (List (JobPostingRow P δ)) (JobPostingRow P δ) String where
  rows := id
  key := (·.dedupeKey)
  add row rows := rows ++ [row]
  rows_add _ _ := rfl

def failure (i : CatalogInput) : Option (CatalogError × Bool) :=
  i.failure.map fun (error, committed) => (.database error, committed)

abbrev CatalogProgram (P δ α : Type) := Prog CatalogInput (List (JobPostingRow P δ)) CatalogError α

/-- Store one posting, or find the row it resolves to. -/
def recordOne (posting : NormalizedPosting P) : CatalogProgram P δ PersistedPosting := do
  let key := posting.dedupeKey tools
  let (row, created) ← postings.getOrCreate failure .integrity key fun i => toRow tools dump posting i.id
  return { jobPostingId := row.id, dedupeKey := key, created }

/-- Store each posting once, returning the row every one resolved to. -/
def record : List (NormalizedPosting P) → CatalogProgram P δ (List PersistedPosting)
  | [] => return []
  | posting :: rest => do
      let answer ← recordOne tools dump posting
      let answers ← record rest
      return answer :: answers

/-- Searches that record their postings in one table. -/
def searches (calls : τ → List (NormalizedPosting P)) (table : JobPostingTable P δ) :
    Pool τ CatalogInput (List (JobPostingRow P δ)) CatalogError (List PersistedPosting) :=
  ⟨fun t => record tools dump (calls t), table.rows⟩

/-! ### One search among others -/

section record

variable [DecidableEq τ] {tools dump} (calls : τ → List (NormalizedPosting P)) {t : τ}

/-- The rows that a search may add. -/
def Wanted (tools : TextTools) (dump : NormalizedPosting P → δ) (t : τ) (_ : List (JobPostingRow P δ))
    (row : JobPostingRow P δ) : Prop :=
  ∃ posting ∈ calls t, ∃ id, row = toRow tools dump posting id

/-- What a search has answered: each answer names the row under its key, and the keys it created are those
it has noted. -/
def Answered (tools : TextTools) (t : τ) (noted : List String) (todo : List (NormalizedPosting P))
    (answers : List PersistedPosting) (x : List (JobPostingRow P δ) × List (τ × String)) : Prop :=
  answers.map (·.dedupeKey) = todo.map (·.dedupeKey tools) ∧
  (∀ answer ∈ answers, ∃ row, Keyed.lookup (·.dedupeKey) answer.dedupeKey x.1 = some row ∧
    row.id = answer.jobPostingId) ∧
  mine t x.2 = ((answers.filter (·.created)).map (·.dedupeKey)).reverse ++ noted

theorem record_wp {todo : List (NormalizedPosting P)} (htodo : ∀ posting ∈ todo, posting ∈ calls t)
    {x : List (JobPostingRow P δ) × List (τ × String)} :
    ((record tools dump todo).noting (postings.note t)).wp (postings.contract (Wanted calls tools dump) t)
      (Answered tools t (mine t x.2) todo) (fun e _ => e ≠ .integrity) x := by
  induction todo generalizing x with
  | nil =>
      intro x' hr
      exact ⟨rfl, fun _ h => absurd h List.not_mem_nil, hr.mine⟩
  | cons posting rest ih =>
      have hfailure : ∀ i e committed, failure i = some (e, committed) →
          ∀ _ : List (JobPostingRow P δ) × List (τ × String), e ≠ CatalogError.integrity := by
        intro i e committed hi _ heq
        obtain ⟨_, _, hpair⟩ := Option.map_eq_some_iff.mp hi
        rw [heq] at hpair
        cases (Prod.mk.inj hpair).1
      have hposting : posting ∈ calls t := htodo posting List.mem_cons_self
      show ((recordOne tools dump posting >>= fun answer =>
        record tools dump rest >>= fun answers => Prog.ret (answer :: answers)).noting (postings.note t)).wp _ _ _ x
      unfold recordOne
      rw [Prog.bind_assoc]
      refine wp_getOrCreate hfailure (fun i _ => ⟨rfl, posting, hposting, i.id, rfl⟩) ?_
      intro row created x₁ hrow hprefix hmine
      show ((record tools dump rest >>= fun answers => Prog.ret
        (⟨row.id, posting.dedupeKey tools, created⟩ :: answers)).noting (postings.note t)).wp _ _ _ x₁
      rw [noting_bind]
      have hrest := ih (x := x₁) fun posting hposting => htodo posting (List.mem_cons_of_mem _ hposting)
      refine Prog.wp_bind (Prog.wp_mono (wp_grows hrest List.prefix_rfl) (fun answers x₂ h₂ => ?_)
        fun _ _ h => h.1)
      obtain ⟨⟨hkeys, hrows, hnoted⟩, hgrown⟩ := h₂
      have hthere := lookup_of_isPrefix hgrown hrow
      intro x₃ hr₃
      refine ⟨congrArg (_ :: ·) hkeys, fun answer hanswer => ?_, ?_⟩
      · rcases List.mem_cons.mp hanswer with rfl | hanswer
        · exact ⟨row, lookup_of_isPrefix hr₃.rows hthere, rfl⟩
        · obtain ⟨row', hrow', hid⟩ := hrows answer hanswer
          exact ⟨row', lookup_of_isPrefix hr₃.rows hrow', hid⟩
      · rw [hr₃.mine, hnoted, hmine, List.filter_cons]
        cases created with
        | true => simp
        | false => rfl

end record

/-- However searches are interleaved, and whichever of them crash or lose the database: a dedupe key has one
row, and rows stay as they were added, each by a search for one of its postings.  A search that has
returned has for each posting, in order, the row of its key; no key is said to be created twice, or when
it was there from the start; and there is a row whenever the unique index refuses one. -/
theorem postings_recorded_once [DecidableEq τ] (calls : τ → List (NormalizedPosting P))
    (table : JobPostingTable P δ) (sched : List (τ × CatalogInput)) :
    ∃ rows, ((searches tools dump calls table).run sched).state = rows ∧
      (rows.map (·.dedupeKey)).Nodup ∧
      (∃ more, rows = table.rows ++ more ∧ ∀ row ∈ more, ∃ t, Wanted calls tools dump t [] row) ∧
      (∀ t answers, ((searches tools dump calls table).run sched).procs t = .ret answers →
        answers.map (·.dedupeKey) = (calls t).map (·.dedupeKey tools) ∧
        (∀ answer ∈ answers, ∃ row ∈ rows, row.dedupeKey = answer.dedupeKey ∧
          row.id = answer.jobPostingId) ∧
        ((answers.filter (·.created)).map (·.dedupeKey)).Nodup ∧
        (∀ answer ∈ answers, answer.created = true → ∀ row ∈ table.rows, row.dedupeKey ≠ answer.dedupeKey) ∧
        ∀ u answers', u ≠ t → ((searches tools dump calls table).run sched).procs u = .ret answers' →
          List.Disjoint ((answers.filter (·.created)).map (·.dedupeKey))
            ((answers'.filter (·.created)).map (·.dedupeKey))) ∧
      ∀ t, ((searches tools dump calls table).run sched).procs t ≠ .raise .integrity := by
  obtain ⟨notes, htally, hret, hraise⟩ := run_tallied (E := fun _ e _ => e ≠ CatalogError.integrity)
    (fun t => record_wp calls fun _ h => h) table.unique sched
  refine ⟨_, rfl, htally.nodup, ?_, fun t answers hanswers => ?_, fun t h => hraise t _ h rfl⟩
  · obtain ⟨more, hrows, -, hfrom⟩ := htally.added
    refine ⟨more, hrows, fun row hrow => ?_⟩
    obtain ⟨t, -, _, -, _, -, -, ht⟩ := Tally.mem_added hfrom hrow
    exact ⟨t, ht⟩
  · obtain ⟨hkeys, hrows, hmine⟩ := hret t answers hanswers
    have hcreated : ∀ u answers', ((searches tools dump calls table).run sched).procs u = .ret answers' →
        (answers'.filter (·.created)).map (·.dedupeKey) = (mine u notes).reverse := by
      intro u answers' hanswers'
      have hmine' : mine u notes = ((answers'.filter (·.created)).map (·.dedupeKey)).reverse ++ [] :=
        (hret u answers' hanswers').2.2
      rw [hmine', List.append_nil, List.reverse_reverse]
    have hnodup := (htally.mine_nodup (t := t) (u := t)).1
    refine ⟨hkeys, fun answer hanswer => ?_, ?_, fun answer hanswer hnew row hrow hkey => ?_, ?_⟩
    · obtain ⟨row, hrow, hid⟩ := hrows answer hanswer
      obtain ⟨hmem, hkey⟩ := Keyed.lookup_eq_some hrow
      exact ⟨row, hmem, hkey, hid⟩
    · rw [hcreated t answers hanswers]
      exact List.nodup_reverse.mpr hnodup
    · have hmem : answer.dedupeKey ∈ mine t notes := by
        rw [← List.mem_reverse, ← hcreated t answers hanswers]
        exact List.mem_map_of_mem (List.mem_filter.mpr ⟨hanswer, hnew⟩)
      refine htally.notes_nodup.2 row hrow ?_
      show row.dedupeKey ∈ _
      rw [hkey]
      exact List.mem_map_of_mem (mem_mine.mp hmem)
    · intro u answers' hne hanswers'
      rw [hcreated t answers hanswers, hcreated u answers' hanswers']
      intro k hk hk'
      exact htally.mine_nodup.2 (Ne.symm hne) (List.mem_reverse.mp hk) (List.mem_reverse.mp hk')

end SqlPostingCatalog

end PersonalOS
