import PersonalOS.Pool
import PersonalOS.Keyed
import Mathlib.Data.List.Infix

/-! # Rows under a unique key

Processes that read a table and add rows to it, when a unique index lets only the first row under a
key in.

* **Tables.** A `RowTable` is a list of rows within a larger state.  Rows are added at the end and stay as
  they are, so what was found under a key is found there ever after (`lookup_of_isPrefix`).  What every
  transaction keeps of the rest of the state is the relation `keeps`.
* **Transactions.** `find` reads the row under a key, `insert` adds a row or is refused, and
  `getOrCreate` looks, inserts and looks again when another process was faster.  A transaction may fail,
  having been committed or not.
* **Contracts.** With every row that a process adds its name is noted (`note`).  `wp_find`, `wp_insert` and
  `wp_getOrCreate` are the rules of the programs for a process among others of the kind; `run_tallied`
  takes the notes away again, and says that each key was noted once at most. -/

namespace Concurrent

open Prog

/-- A list of rows within a larger state. -/
structure RowTable (σ ρ κ : Type) where
  rows : σ → List ρ
  key : ρ → κ
  add : ρ → σ → σ
  rows_add : ∀ row s, rows (add row s) = rows s ++ [row]
  /-- What is kept of the rest of the state. -/
  keeps : σ → σ → Prop := fun _ _ => True
  keeps_refl : ∀ s, keeps s s := by intros; trivial
  keeps_trans : ∀ s s' s'', keeps s s' → keeps s' s'' → keeps s s'' := by intros; trivial
  keeps_add : ∀ row s, keeps s (add row s) := by intros; trivial

namespace RowTable

variable {ι σ ρ κ ε α β τ : Type} (T : RowTable σ ρ κ)

section programs

/-- One transaction: it may fail with an error, having been committed or not. -/
def transaction (failure : ι → Option (ε × Bool)) (f : ι → σ → β × σ) : Prog ι σ ε β :=
  .call (fun i s => match failure i with
    | none => (Except.ok (f i s).1, (f i s).2)
    | some (e, committed) => (Except.error e, if committed then (f i s).2 else s)) fun answer =>
      match answer with
      | .ok b => .ret b
      | .error e => .raise e

variable [DecidableEq κ] (failure : ι → Option (ε × Bool))

/-- Read the row under a key. -/
def find (k : κ) : Prog ι σ ε (Option ρ) :=
  transaction failure fun _ s => (Keyed.lookup T.key k (T.rows s), s)

/-- Add a row, unless there is one under its key. -/
def insert (new : ι → ρ) : Prog ι σ ε (Option ρ) :=
  transaction failure fun i s =>
    if Keyed.lookup T.key (T.key (new i)) (T.rows s) = none then (some (new i), T.add (new i) s)
    else (none, s)

/-- The row under a key, and whether it is a new one. -/
def getOrCreate (missing : ε) (k : κ) (new : ι → ρ) : Prog ι σ ε (ρ × Bool) := do
  match ← T.find failure k with
  | some row => return (row, false)
  | none =>
      match ← T.insert failure new with
      | some row => return (row, true)
      | none =>
          match ← T.find failure k with
          | some row => return (row, false)
          | none => .raise missing

end programs

/-! ### Notes -/

variable [DecidableEq τ]

/-- The keys that process `t` has noted, newest first. -/
def mine (t : τ) (notes : List (τ × κ)) : List κ := (notes.filter fun note => note.1 = t).map (·.2)

/-- Process `t` adds a row. -/
def note (t : τ) (_ : ι) (s s' : σ) : Option (τ × κ) :=
  ((T.rows s').drop (T.rows s).length).head?.map fun row => (t, T.key row)

/-- What a step of process `t` does: the rows stay, or one that it may add to them is added. -/
inductive Step [DecidableEq κ] (allowed : τ → σ → ρ → Prop) (t : τ) (x x' : σ × List (τ × κ)) : Prop where
  | kept : T.rows x'.1 = T.rows x.1 → T.keeps x.1 x'.1 → x'.2 = x.2 → Step allowed t x x'
  | added (row : ρ) : Keyed.lookup T.key (T.key row) (T.rows x.1) = none → allowed t x.1 row →
      T.rows x'.1 = T.rows x.1 ++ [row] → T.keeps x.1 x'.1 → x'.2 = (t, T.key row) :: x.2 →
        Step allowed t x x'

/-- What the others do to what process `t` counts on. -/
structure Leaves (t : τ) (x x' : σ × List (τ × κ)) : Prop where
  rows : T.rows x.1 <+: T.rows x'.1
  keeps : T.keeps x.1 x'.1
  mine : mine t x'.2 = mine t x.2

/-- Process `t`, which may, added the row to a state with these rows, before state `s`. -/
def AddedTo (allowed : τ → σ → ρ → Prop) (t : τ) (rows : List ρ) (row : ρ) (s : σ) : Prop :=
  ∃ s₁, T.rows s₁ = rows ∧ T.keeps s₁ s ∧ allowed t s₁ row

/-- After any steps: the rows that were added have keys of their own, the noted ones, and each was added to
the rows before it by the process that noted it, which may. -/
structure Tally (allowed : τ → σ → ρ → Prop) (rows₀ : List ρ) (x : σ × List (τ × κ)) : Prop where
  nodup : ((T.rows x.1).map T.key).Nodup
  added : ∃ more, T.rows x.1 = rows₀ ++ more ∧ more.map T.key = (x.2.map (·.2)).reverse ∧
    ∀ front row rest, more = front ++ row :: rest →
      ∃ t, (t, T.key row) ∈ x.2 ∧ T.AddedTo allowed t (rows₀ ++ front) row x.1

variable {T} {allowed : τ → σ → ρ → Prop} {t u : τ} {x x' x'' : σ × List (τ × κ)}

theorem lookup_of_isPrefix {κ ρ : Type} [DecidableEq κ] {key : ρ → κ} {rows rows' : List ρ} {k : κ} {row : ρ}
    (h : rows <+: rows') (hrow : Keyed.lookup key k rows = some row) : Keyed.lookup key k rows' = some row := by
  obtain ⟨more, rfl⟩ := h
  unfold Keyed.lookup at hrow ⊢
  rw [List.find?_append, hrow]
  rfl

theorem mine_cons (t u : τ) (k : κ) (notes : List (τ × κ)) :
    mine t ((u, k) :: notes) = if u = t then k :: mine t notes else mine t notes := by
  simp only [mine, List.filter_cons, decide_eq_true_eq]
  split
  · rfl
  · rfl

theorem Leaves.refl (x : σ × List (τ × κ)) : T.Leaves t x x := ⟨List.prefix_rfl, T.keeps_refl x.1, rfl⟩

theorem Leaves.trans (h : T.Leaves t x x') (h' : T.Leaves t x' x'') : T.Leaves t x x'' :=
  ⟨h.rows.trans h'.rows, T.keeps_trans _ _ _ h.keeps h'.keeps, h'.mine.trans h.mine⟩

omit [DecidableEq τ] in
theorem AddedTo.keeps {rows : List ρ} {row : ρ} {s s' : σ} (h : T.AddedTo allowed t rows row s)
    (hkeeps : T.keeps s s') : T.AddedTo allowed t rows row s' := by
  obtain ⟨s₁, hrows, hkept, hallowed⟩ := h
  exact ⟨s₁, hrows, T.keeps_trans _ _ _ hkept hkeeps, hallowed⟩

section steps

variable [DecidableEq κ]

omit [DecidableEq τ] in
theorem Step.rows (h : T.Step allowed t x x') : T.rows x.1 <+: T.rows x'.1 := by
  cases h with
  | kept hrows hkeeps hnotes => exact hrows ▸ List.prefix_rfl
  | added row hnew hallowed hrows hkeeps hnotes => exact hrows ▸ List.prefix_append _ _

theorem Step.leaves (h : T.Step allowed u x x') (hne : u ≠ t) : T.Leaves t x x' := by
  cases h with
  | kept hrows hkeeps hnotes => exact ⟨hrows ▸ List.prefix_rfl, hkeeps, hnotes ▸ rfl⟩
  | added row hnew hallowed hrows hkeeps hnotes =>
      refine ⟨hrows ▸ List.prefix_append _ _, hkeeps, ?_⟩
      rw [hnotes, mine_cons, if_neg hne]

omit [DecidableEq τ] in
theorem Step.tally {rows₀ : List ρ} (h : T.Step allowed t x x') (hx : T.Tally allowed rows₀ x) :
    T.Tally allowed rows₀ x' := by
  cases h with
  | kept hrows hkeeps hnotes =>
      obtain ⟨more, hmore, hkeys, hfrom⟩ := hx.added
      refine ⟨hrows ▸ hx.nodup, more, hrows.trans hmore, hnotes ▸ hkeys, fun front old rest hsplit => ?_⟩
      obtain ⟨u, hnote, hmay⟩ := hfrom front old rest hsplit
      exact ⟨u, hnotes ▸ hnote, hmay.keeps hkeeps⟩
  | added row hnew hallowed hrows hkeeps hnotes =>
      obtain ⟨more, hmore, hkeys, hfrom⟩ := hx.added
      refine ⟨?_, more ++ [row], ?_, ?_, ?_⟩
      · rw [hrows, List.map_append, List.nodup_append]
        refine ⟨hx.nodup, List.nodup_singleton _, ?_⟩
        intro k hk k' hk'
        obtain ⟨old, hold, rfl⟩ := List.mem_map.mp hk
        rw [List.mem_singleton.mp hk']
        exact Keyed.lookup_eq_none.mp hnew old hold
      · rw [hrows, hmore, List.append_assoc]
      · rw [List.map_append, hkeys, hnotes]
        simp
      · intro front old rest hsplit
        rcases List.eq_nil_or_concat rest with rfl | ⟨rest', last, rfl⟩
        · obtain ⟨rfl, hlast⟩ := List.append_inj' hsplit rfl
          obtain rfl : row = old := List.singleton_inj.mp hlast
          exact ⟨t, hnotes ▸ List.mem_cons_self, x.1, hmore, hkeeps, hallowed⟩
        · have hinit : more ++ [row] = (front ++ old :: rest') ++ [last] := by
            rw [hsplit]
            simp
          obtain ⟨u, hnote, hmay⟩ := hfrom front old rest' (List.append_inj' hinit rfl).1
          exact ⟨u, hnotes ▸ List.mem_cons_of_mem _ hnote, hmay.keeps hkeeps⟩

omit [DecidableEq κ] [DecidableEq τ] in
theorem Tally.mem_added {rows₀ more : List ρ} {notes : List (τ × κ)} {s : σ} (h : ∀ front row rest,
    more = front ++ row :: rest → ∃ t, (t, T.key row) ∈ notes ∧ T.AddedTo allowed t (rows₀ ++ front) row s) {row : ρ}
    (hrow : row ∈ more) : ∃ t, (t, T.key row) ∈ notes ∧
      ∃ front, front <+: more ∧ T.AddedTo allowed t (rows₀ ++ front) row s := by
  obtain ⟨front, rest, hsplit⟩ := List.append_of_mem hrow
  obtain ⟨t, hnote, ht⟩ := h front row rest hsplit
  exact ⟨t, hnote, front, ⟨row :: rest, hsplit.symm⟩, ht⟩

omit [DecidableEq κ] [DecidableEq τ] in
/-- What every row that may be added preserves holds of all of them. -/
theorem Tally.inv {rows₀ : List ρ} (h : T.Tally allowed rows₀ x) {J : List ρ → Prop} (h0 : J rows₀)
    (hJ : ∀ t s row, ((T.rows s ++ [row]).map T.key).Nodup → allowed t s row → J (T.rows s) →
      J (T.rows s ++ [row])) : J (T.rows x.1) := by
  obtain ⟨more, hrows, -, hfrom⟩ := h.added
  have hnodup := h.nodup
  rw [hrows] at hnodup ⊢
  clear hrows
  induction more using List.reverseRecOn with
  | nil => exact (List.append_nil rows₀).symm ▸ h0
  | append_singleton more row ih =>
      rw [← List.append_assoc] at hnodup ⊢
      obtain ⟨t, -, s₁, hs₁, -, ht⟩ := hfrom more row [] rfl
      rw [← hs₁] at hnodup ⊢
      refine hJ t s₁ row hnodup ht ?_
      rw [hs₁] at hnodup ⊢
      refine ih (fun front old rest hsplit => ?_) ?_
      · exact hfrom front old (rest ++ [row]) (by rw [hsplit, List.append_assoc]; rfl)
      · rw [List.map_append] at hnodup
        exact (List.nodup_append.mp hnodup).1

omit [DecidableEq κ] [DecidableEq τ] in
/-- Each key is noted once, and none that was there from the start. -/
theorem Tally.notes_nodup {rows₀ : List ρ} (h : T.Tally allowed rows₀ x) :
    (x.2.map (·.2)).Nodup ∧ ∀ row ∈ rows₀, T.key row ∉ x.2.map (·.2) := by
  obtain ⟨more, hrows, hkeys, -⟩ := h.added
  have hnodup := h.nodup
  rw [hrows, List.map_append, hkeys, List.nodup_append] at hnodup
  refine ⟨List.nodup_reverse.mp hnodup.2.1, fun row hrow hkey => ?_⟩
  exact hnodup.2.2 _ (List.mem_map_of_mem hrow) _ (List.mem_reverse.mpr hkey) rfl

omit [DecidableEq κ] in
theorem mem_mine {k : κ} {notes : List (τ × κ)} : k ∈ mine t notes ↔ (t, k) ∈ notes := by
  unfold mine
  rw [List.mem_map]
  constructor
  · rintro ⟨⟨u, k'⟩, hnote, rfl⟩
    obtain ⟨hmem, hu⟩ := List.mem_filter.mp hnote
    obtain rfl : u = t := of_decide_eq_true hu
    exact hmem
  · exact fun hmem => ⟨(t, k), List.mem_filter.mpr ⟨hmem, decide_eq_true rfl⟩, rfl⟩

omit [DecidableEq κ] in
/-- No process notes a key twice, and no two processes note the same. -/
theorem Tally.mine_nodup {rows₀ : List ρ} (h : T.Tally allowed rows₀ x) :
    (mine t x.2).Nodup ∧ (t ≠ u → List.Disjoint (mine t x.2) (mine u x.2)) := by
  refine ⟨h.notes_nodup.1.sublist (List.filter_sublist.map _), fun hne k ht hu => hne ?_⟩
  exact (Prod.mk.inj (Keyed.eq_of_key h.notes_nodup.1 (mem_mine.mp ht) (mem_mine.mp hu) rfl)).1

variable (T allowed t) in
/-- The contract of process `t`. -/
def contract : Contract (σ × List (τ × κ)) where
  rely := T.Leaves t
  guar := T.Step allowed t
  assume _ _ := True
  rely_refl := Leaves.refl
  rely_trans := Leaves.trans

end steps

/-! ### The rules of the programs -/

section rules

variable [DecidableEq κ] {failure : ι → Option (ε × Bool)} {Q : α → σ × List (τ × κ) → Prop}
variable {E : ε → σ × List (τ × κ) → Prop}

omit [DecidableEq κ] [DecidableEq τ] in
theorem note_kept {i : ι} {s s' : σ} (h : T.rows s' = T.rows s) : T.note t i s s' = none := by
  unfold note
  rw [h, List.drop_length]
  rfl

omit [DecidableEq κ] [DecidableEq τ] in
theorem note_added {i : ι} {s s' : σ} (row : ρ) (h : T.rows s' = T.rows s ++ [row]) :
    T.note t i s s' = some (t, T.key row) := by
  unfold note
  rw [h, List.drop_left]
  rfl

/-- A transaction that does one of the steps. -/
theorem wp_transaction (hE : ∀ i e committed, failure i = some (e, committed) → ∀ x, E e x)
    {f : ι → σ → β × σ} {k : β → Prog ι σ ε α}
    (h : ∀ x', T.Leaves t x x' → ∀ i,
      T.Step allowed t x' ((f i x'.1).2, (T.note t i x'.1 (f i x'.1).2).toList ++ x'.2) ∧
        ((k (f i x'.1).1).noting (T.note t)).wp (T.contract allowed t) Q E
          ((f i x'.1).2, (T.note t i x'.1 (f i x'.1).2).toList ++ x'.2)) :
    ((transaction failure f >>= k).noting (T.note t)).wp (T.contract allowed t) Q E x := by
  intro x' hr i _
  obtain ⟨hstep, hk⟩ := h x' hr i
  cases hfailure : failure i with
  | none =>
      simp only [hfailure]
      exact ⟨hstep, hk⟩
  | some failed =>
      obtain ⟨e, committed⟩ := failed
      simp only [hfailure]
      refine ⟨?_, fun _ _ => hE i e committed hfailure _⟩
      cases committed with
      | true => exact hstep
      | false =>
          refine .kept rfl (T.keeps_refl x'.1) ?_
          show (T.note t i x'.1 x'.1).toList ++ x'.2 = x'.2
          rw [note_kept rfl]
          rfl

/-- A transaction that leaves the rows alone. -/
theorem wp_keep (hE : ∀ i e committed, failure i = some (e, committed) → ∀ x, E e x)
    {f : ι → σ → β × σ} {k : β → Prog ι σ ε α}
    (hf : ∀ i s, T.rows (f i s).2 = T.rows s ∧ T.keeps s (f i s).2)
    (h : ∀ x', T.Leaves t x x' → ∀ i, ((k (f i x'.1).1).noting (T.note t)).wp (T.contract allowed t) Q E
      ((f i x'.1).2, x'.2)) :
    ((transaction failure f >>= k).noting (T.note t)).wp (T.contract allowed t) Q E x := by
  refine wp_transaction hE fun x' hr i => ?_
  rw [note_kept (hf i x'.1).1]
  exact ⟨.kept (hf i x'.1).1 (hf i x'.1).2 rfl, h x' hr i⟩

omit [DecidableEq κ] [DecidableEq τ] in
theorem noting_bind {note : ι → σ → σ → Option (τ × κ)} (p : Prog ι σ ε β) (k : β → Prog ι σ ε α) :
    (p >>= k).noting note = p.noting note >>= fun b => (k b).noting note := by
  induction p with
  | ret b => rfl
  | raise e => rfl
  | call f l ih =>
      show (Prog.call _ _ : Prog ι (σ × List (τ × κ)) ε α) = Prog.call _ _
      exact congrArg _ (funext ih)

omit [DecidableEq κ] [DecidableEq τ] in
theorem noting_attempt {ε' : Type} {note : ι → σ → σ → Option (τ × κ)} (p : Prog ι σ ε α) :
    (p.attempt : Prog ι σ ε' (Except ε α)).noting note = (p.noting note).attempt := by
  induction p with
  | ret a => rfl
  | raise e => rfl
  | call f l ih =>
      show (Prog.call _ _ : Prog ι (σ × List (τ × κ)) ε' (Except ε α)) = Prog.call _ _
      exact congrArg _ (funext ih)

/-- Rows that are there stay while a process goes on, however it ends. -/
theorem wp_grows {p : Prog ι (σ × List (τ × κ)) ε α} {rows₀ : List ρ}
    (h : p.wp (T.contract allowed t) Q E x) (hrows : rows₀ <+: T.rows x.1) :
    p.wp (T.contract allowed t) (fun a x' => Q a x' ∧ rows₀ <+: T.rows x'.1)
      (fun e x' => E e x' ∧ rows₀ <+: T.rows x'.1) x := by
  induction p generalizing x with
  | ret a => exact fun x' hr => ⟨h x' hr, hrows.trans hr.rows⟩
  | raise e => exact fun x' hr => ⟨h x' hr, hrows.trans hr.rows⟩
  | call f k ih =>
      intro x' hr i ha
      obtain ⟨hstep, hk⟩ := h x' hr i ha
      exact ⟨hstep, ih _ hk ((hrows.trans hr.rows).trans hstep.rows)⟩

theorem wp_find (hE : ∀ i e committed, failure i = some (e, committed) → ∀ x, E e x) {key : κ}
    {k : Option ρ → Prog ι σ ε α}
    (h : ∀ x', T.Leaves t x x' → ((k (Keyed.lookup T.key key (T.rows x'.1))).noting (T.note t)).wp
      (T.contract allowed t) Q E x') :
    ((T.find failure key >>= k).noting (T.note t)).wp (T.contract allowed t) Q E x :=
  wp_keep hE (fun _ s => ⟨rfl, T.keeps_refl s⟩) fun x' hr _ => h x' hr

theorem wp_insert (hE : ∀ i e committed, failure i = some (e, committed) → ∀ x, E e x) {new : ι → ρ}
    {k : Option ρ → Prog ι σ ε α} (hallowed : ∀ x', T.Leaves t x x' → ∀ i, allowed t x'.1 (new i))
    (hadded : ∀ x', T.Leaves t x x' → ∀ i, Keyed.lookup T.key (T.key (new i)) (T.rows x'.1) = none →
      ((k (some (new i))).noting (T.note t)).wp (T.contract allowed t) Q E
        (T.add (new i) x'.1, (t, T.key (new i)) :: x'.2))
    (hrefused : ∀ x', T.Leaves t x x' → ∀ i row,
      Keyed.lookup T.key (T.key (new i)) (T.rows x'.1) = some row →
      ((k none).noting (T.note t)).wp (T.contract allowed t) Q E x') :
    ((T.insert failure new >>= k).noting (T.note t)).wp (T.contract allowed t) Q E x := by
  refine wp_transaction hE fun x' hr i => ?_
  cases hlookup : Keyed.lookup T.key (T.key (new i)) (T.rows x'.1) with
  | none =>
      simp only [if_true, note_added (new i) (T.rows_add (new i) x'.1)]
      exact ⟨.added (new i) hlookup (hallowed x' hr i) (T.rows_add _ _) (T.keeps_add _ _) rfl,
        hadded x' hr i hlookup⟩
  | some row =>
      simp only [reduceCtorEq, if_false]
      rw [note_kept rfl]
      exact ⟨.kept rfl (T.keeps_refl x'.1) rfl, hrefused x' hr i row hlookup⟩

/-- Getting or creating the row under a key: it is there from then on, and its key is noted if this process
created it. -/
theorem wp_getOrCreate (hE : ∀ i e committed, failure i = some (e, committed) → ∀ x, E e x) {key : κ}
    {new : ι → ρ} {missing : ε} {k : ρ × Bool → Prog ι σ ε α}
    (hnew : ∀ i s, T.key (new i) = key ∧ allowed t s (new i))
    (h : ∀ row created x', Keyed.lookup T.key key (T.rows x'.1) = some row →
      T.rows x.1 <+: T.rows x'.1 → mine t x'.2 = (if created then key :: mine t x.2 else mine t x.2) →
      ((k (row, created)).noting (T.note t)).wp (T.contract allowed t) Q E x') :
    ((T.getOrCreate failure missing key new >>= k).noting (T.note t)).wp (T.contract allowed t) Q E x := by
  unfold getOrCreate
  rw [bind_assoc]
  refine wp_find hE fun x₁ hr₁ => ?_
  cases hfirst : Keyed.lookup T.key key (T.rows x₁.1) with
  | some row => exact h row false x₁ hfirst hr₁.rows hr₁.mine
  | none =>
      dsimp only
      rw [bind_assoc]
      refine wp_insert hE (fun x' _ i => (hnew i _).2) (fun x₂ hr₂ i hnone => ?_) fun x₂ hr₂ i row hrow => ?_
      · refine h (new i) true _ ?_ ?_ ?_
        · rw [T.rows_add, Keyed.lookup_concat hnone, if_pos (hnew i x₂.1).1.symm]
        · rw [T.rows_add]
          exact (hr₁.rows.trans hr₂.rows).trans (List.prefix_append _ _)
        · rw [mine_cons, if_pos rfl, if_pos rfl, (hnew i x₂.1).1, hr₂.mine, hr₁.mine]
      · dsimp only
        rw [bind_assoc]
        refine wp_find hE fun x₃ hr₃ => ?_
        have hthere : Keyed.lookup T.key key (T.rows x₃.1) = some row :=
          lookup_of_isPrefix hr₃.rows ((hnew i x₂.1).1 ▸ hrow)
        rw [hthere]
        refine h row false x₃ hthere (hr₁.rows.trans (hr₂.rows.trans hr₃.rows)) ?_
        exact hr₃.mine.trans (hr₂.mine.trans hr₁.mine)

/-- After any run the notes are a tally of the rows, and every process that has ended has what its rule says
of them. -/
theorem run_tallied {progs : τ → Prog ι σ ε α} {s₀ : σ} {Q : τ → α → σ × List (τ × κ) → Prop}
    {E : τ → ε → σ × List (τ × κ) → Prop}
    (h : ∀ t, ((progs t).noting (T.note t)).wp (T.contract allowed t) (Q t) (E t) (s₀, []))
    (hnodup : ((T.rows s₀).map T.key).Nodup) (sched : List (τ × ι)) :
    ∃ notes, T.Tally allowed (T.rows s₀) (((⟨progs, s₀⟩ : Pool τ ι σ ε α).run sched).state, notes) ∧
      (∀ t a, ((⟨progs, s₀⟩ : Pool τ ι σ ε α).run sched).procs t = .ret a →
        Q t a (((⟨progs, s₀⟩ : Pool τ ι σ ε α).run sched).state, notes)) ∧
      ∀ t e, ((⟨progs, s₀⟩ : Pool τ ι σ ε α).run sched).procs t = .raise e →
        E t e (((⟨progs, s₀⟩ : Pool τ ι σ ε α).run sched).state, notes) := by
  let c : Pool τ ι σ ε α := ⟨progs, s₀⟩
  let c' : Pool τ ι (σ × List (τ × κ)) ε α := ⟨fun t => (progs t).noting (T.note t), (s₀, [])⟩
  have hsound : Pool.Sound (fun t => T.contract allowed t) Q E c' := h
  have hG : ∀ t u, t ≠ u → ∀ x x', (T.contract allowed u).guar x x' → (T.contract allowed t).rely x x' :=
    fun t u hne x x' hstep => Step.leaves hstep (Ne.symm hne)
  have hrun := Pool.run_wp hsound (fun _ => rfl) hG (Pool.meets_true c' sched)
  have htally : T.Tally allowed (T.rows s₀) (c'.run sched).state := by
    refine Pool.run_inv hsound (fun _ => rfl) hG (fun _ _ _ _ _ hstep => hstep.tally)
      (Pool.meets_true c' sched) ⟨hnodup, [], (List.append_nil _).symm, rfl, ?_⟩
    exact fun front row rest hsplit =>
      absurd hsplit (List.append_ne_nil_of_right_ne_nil front (List.cons_ne_nil row rest)).symm
  have herases : ∀ t, Prog.Erases (c'.procs t) (c.procs t) := fun t => noting_erases _ _
  have hstate := Pool.run_erases herases rfl sched
  have hends := fun t => Pool.run_erases_procs herases rfl sched t
  refine ⟨(c'.run sched).state.2, ?_, fun t a ha => ?_, fun t e he => ?_⟩
  · rw [← hstate]
    exact htally
  · have hend := hends t
    rw [ha] at hend
    rw [← hstate]
    exact Pool.run_ret hrun hend
  · have hend := hends t
    rw [he] at hend
    rw [← hstate]
    exact Pool.run_raise hrun hend

end rules

end RowTable

end Concurrent
