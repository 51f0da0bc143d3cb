import Mathlib.Data.List.MinMax
import Mathlib.Data.List.Nodup

/-! # Lists with keys

A list whose elements carry a key, each key once, is a table or a dictionary in the order of its
insertions.

* **Replacement.** `Keyed.put` replaces what is under the key of an element.  What the replaced
  and the replacing element have in common is as before in the whole list (`map_put`), what counts
  the elements sees just that change (`countP_put`), and an update of all elements that satisfy
  something is a replacement when only one of them does (`map_ite_eq_put`).
* **Tables.** `Keyed.lookup` is the element under a key; `Keyed.upsert` replaces it, or adds the
  element at the end.  What is under a key afterwards is said by `lookup_upsert`, after several
  elements by `lookup_upsertAll`, and by `lookup_filterMap` after an update that may drop
  elements.
* **First of all.** In a list that is sorted by a rank, the least element is the first one
  (`argmin_eq_head?`); so the least among those that satisfy something is the first that does
  (`argmin_filter`).
* **Pages.** What comes after an element of a list that is in order is the rest of the list
  (`filter_after_eq_drop`).
* **New keys.** `fresh` is a number that is not taken. -/

namespace Keyed

variable {α β κ κ' : Type} {key : α → κ} {l : List α} {x y : α}

theorem eq_of_key (hn : (l.map key).Nodup) (hx : x ∈ l) (hy : y ∈ l) (h : key x = key y) : x = y :=
  List.inj_on_of_nodup_map hn hx hy h

theorem countP_eq_one {p : α → Bool} (hn : (l.map key).Nodup) (hx : x ∈ l)
    (hp : ∀ y ∈ l, p y = true ↔ key y = key x) : l.countP p = 1 := by
  induction l with
  | nil => cases hx
  | cons z l ih =>
      rw [List.map_cons, List.nodup_cons] at hn
      rcases List.mem_cons.mp hx with rfl | hx
      · have hrest : l.countP p = 0 := by
          refine List.countP_eq_zero.mpr fun y hy hpy => hn.1 ?_
          rw [← (hp y (List.mem_cons_of_mem x hy)).mp hpy]
          exact List.mem_map_of_mem hy
        have hpx : p x = true := (hp x List.mem_cons_self).mpr rfl
        rw [List.countP_cons_of_pos hpx, hrest]
      · have hz : ¬ p z = true := by
          intro hpz
          have hkey := (hp z List.mem_cons_self).mp hpz
          exact hn.1 (hkey ▸ List.mem_map_of_mem hx)
        rw [List.countP_cons_of_neg hz]
        exact ih hn.2 hx fun y hy => hp y (List.mem_cons_of_mem z hy)

theorem filter_eq_singleton {p : α → Bool} (hn : (l.map key).Nodup) (hx : x ∈ l)
    (hp : ∀ y ∈ l, p y = true ↔ key y = key x) : l.filter p = [x] := by
  have hlength : (l.filter p).length = 1 := by
    rw [← List.countP_eq_length_filter]
    exact countP_eq_one hn hx hp
  have hmem : x ∈ l.filter p := List.mem_filter.mpr ⟨hx, (hp x hx).mpr rfl⟩
  obtain ⟨y, hy⟩ := List.length_eq_one_iff.mp hlength
  rw [hy] at hmem ⊢
  rw [List.mem_singleton.mp hmem]

theorem find?_eq_some {p : α → Bool} (hn : (l.map key).Nodup) (hx : x ∈ l)
    (hp : ∀ y ∈ l, p y = true ↔ key y = key x) : l.find? p = some x := by
  cases hfind : l.find? p with
  | none => exact absurd ((hp x hx).mpr rfl) (List.find?_eq_none.mp hfind x hx)
  | some y =>
      have hy := List.mem_of_find?_eq_some hfind
      have hkey := (hp y hy).mp (List.find?_some hfind)
      rw [eq_of_key hn hy hx hkey]

/-! ### Replacing one element -/

section put

variable [DecidableEq κ] [DecidableEq κ']

/-- Replace what is under the key of `y` by `y`. -/
def put (key : α → κ) (y : α) (l : List α) : List α :=
  l.map fun x => if key x = key y then y else x

theorem mem_put {z : α} (h : z ∈ put key y l) : z = y ∨ z ∈ l ∧ key z ≠ key y := by
  obtain ⟨x, hx, hz⟩ := List.mem_map.mp h
  by_cases hkey : key x = key y
  · rw [if_pos hkey] at hz
    exact .inl hz.symm
  · rw [if_neg hkey] at hz
    exact .inr ⟨hz ▸ hx, hz ▸ hkey⟩

theorem mem_put_self (hx : x ∈ l) (h : key x = key y) : y ∈ put key y l :=
  List.mem_map.mpr ⟨x, hx, if_pos h⟩

theorem mem_put_of_ne (hx : x ∈ l) (h : key x ≠ key y) : x ∈ put key y l :=
  List.mem_map.mpr ⟨x, hx, if_neg h⟩

theorem map_put {g : α → β} (h : ∀ x ∈ l, key x = key y → g y = g x) :
    (put key y l).map g = l.map g := by
  rw [put, List.map_map]
  refine List.map_congr_left fun x hx => ?_
  show g (if key x = key y then y else x) = g x
  by_cases hkey : key x = key y
  · rw [if_pos hkey]
    exact h x hx hkey
  · rw [if_neg hkey]

theorem map_put_comm {g : α → β} {key' : β → κ'}
    (h : ∀ x ∈ l, key x = key y ↔ key' (g x) = key' (g y)) :
    (put key y l).map g = put key' (g y) (l.map g) := by
  rw [put, put, List.map_map, List.map_map]
  refine List.map_congr_left fun x hx => ?_
  show g (if key x = key y then y else x) = if key' (g x) = key' (g y) then g y else g x
  by_cases hkey : key x = key y
  · rw [if_pos hkey, if_pos ((h x hx).mp hkey)]
  · rw [if_neg hkey, if_neg fun hkey' => hkey ((h x hx).mpr hkey')]

/-- An update of what satisfies `p` replaces one element, when only that one satisfies it. -/
theorem map_ite_eq_put {p : α → Bool} {f : α → α} (hn : (l.map key).Nodup) (hx : x ∈ l)
    (hp : ∀ y ∈ l, p y = true ↔ key y = key x) (hf : key (f x) = key x) :
    (l.map fun y => if p y then f y else y) = put key (f x) l := by
  refine List.map_congr_left fun y hy => ?_
  by_cases hkey : key y = key x
  · have hyx : y = x := eq_of_key hn hy hx hkey
    rw [if_pos ((hp y hy).mpr hkey), if_pos (hkey.trans hf.symm), hyx]
  · rw [if_neg fun hpy => hkey ((hp y hy).mp hpy), if_neg fun hkey' => hkey (hkey'.trans hf)]

omit [DecidableEq κ] [DecidableEq κ'] in
theorem map_ite_eq_self {p : α → Bool} {f : α → α} (hp : ∀ y ∈ l, ¬ p y = true) :
    (l.map fun y => if p y then f y else y) = l :=
  (List.map_congr_left fun y hy => if_neg (hp y hy)).trans (List.map_id l)

theorem countP_put_lt {p : α → Bool} (hx : x ∈ l) (h : key x = key y) (hpx : p x = true)
    (hpy : ¬ p y = true) : (put key y l).countP p < l.countP p := by
  have hle : ∀ l : List α, (put key y l).countP p ≤ l.countP p := by
    intro l
    rw [put, List.countP_map]
    refine List.countP_mono_left fun z _ hz => ?_
    by_cases hkey : key z = key y
    · rw [Function.comp_apply, if_pos hkey] at hz
      exact absurd hz hpy
    · rw [Function.comp_apply, if_neg hkey] at hz
      exact hz
  induction l with
  | nil => cases hx
  | cons z l ih =>
      rcases List.mem_cons.mp hx with rfl | hx
      · have hself : put key y (x :: l) = y :: put key y l := by
          rw [put, List.map_cons, if_pos h]
          rfl
        have := hle l
        rw [hself, List.countP_cons_of_neg hpy, List.countP_cons_of_pos hpx]
        omega
      · have hlt := ih hx
        by_cases hkey : key z = key y
        · have hself : put key y (z :: l) = y :: put key y l := by
            rw [put, List.map_cons, if_pos hkey]
            rfl
          rw [hself, List.countP_cons_of_neg hpy, List.countP_cons]
          omega
        · have hself : put key y (z :: l) = z :: put key y l := by
            rw [put, List.map_cons, if_neg hkey]
            rfl
          rw [hself, List.countP_cons, List.countP_cons]
          omega

end put

/-! ### What is under a key -/

section lookup

variable [DecidableEq κ] {k : κ}

/-- The first element under the key. -/
def lookup (key : α → κ) (k : κ) (l : List α) : Option α := l.find? fun x => decide (key x = k)

theorem lookup_eq_some (h : lookup key k l = some x) : x ∈ l ∧ key x = k :=
  ⟨List.mem_of_find?_eq_some h, of_decide_eq_true (List.find?_some h :)⟩

theorem lookup_eq_none : lookup key k l = none ↔ ∀ x ∈ l, key x ≠ k := by
  simp [lookup]

theorem lookup_of_mem (hn : (l.map key).Nodup) (hx : x ∈ l) : lookup key (key x) l = some x :=
  find?_eq_some hn hx fun _ _ => decide_eq_true_iff

theorem lookup_concat (h : lookup key (key y) l = none) :
    lookup key k (l ++ [y]) = if k = key y then some y else lookup key k l := by
  rw [lookup, List.find?_append, List.find?_singleton]
  by_cases hk : k = key y
  · rw [if_pos hk, hk]
    rw [lookup] at h
    rw [h]
    simp
  · have hne : ¬ key y = k := fun heq => hk heq.symm
    rw [if_neg hk, decide_eq_false hne]
    simp [lookup]

theorem lookup_put (h : lookup key (key y) l ≠ none) :
    lookup key k (put key y l) = if k = key y then some y else lookup key k l := by
  induction l with
  | nil => exact absurd rfl h
  | cons x l ih =>
      have hput : put key y (x :: l) = (if key x = key y then y else x) :: put key y l := rfl
      rw [hput, lookup, List.find?_cons, lookup, List.find?_cons]
      by_cases hx : key x = key y
      · rw [if_pos hx]
        by_cases hk : k = key y
        · rw [if_pos hk, hk, decide_eq_true rfl]
        · have hyk : ¬ key y = k := fun heq => hk heq.symm
          have hxk : ¬ key x = k := fun heq => hk (heq.symm.trans hx)
          rw [if_neg hk, decide_eq_false hyk, decide_eq_false hxk]
          by_cases hrest : lookup key (key y) l = none
          · have hsame : put key y l = l := by
              refine (List.map_congr_left fun z hz => if_neg ?_).trans (List.map_id l)
              exact lookup_eq_none.mp hrest z hz
            rw [hsame]
          · have := ih hrest
            rwa [if_neg hk] at this
      · rw [if_neg hx]
        by_cases hxk : key x = k
        · have hk : ¬ k = key y := fun heq => hx (hxk.trans heq)
          rw [decide_eq_true hxk, if_neg hk]
        · rw [decide_eq_false hxk]
          refine ih fun hnone => h ?_
          rw [lookup, List.find?_cons, decide_eq_false hx]
          exact hnone

theorem lookup_put_of_ne (h : k ≠ key y) : lookup key k (put key y l) = lookup key k l := by
  by_cases hy : lookup key (key y) l = none
  · have hsame : put key y l = l := by
      refine (List.map_congr_left fun z hz => if_neg ?_).trans (List.map_id l)
      exact lookup_eq_none.mp hy z hz
    rw [hsame]
  · rw [lookup_put hy, if_neg h]

/-- Replace the element under the key, or add it at the end. -/
def upsert (key : α → κ) (y : α) (l : List α) : List α :=
  if lookup key (key y) l = none then l ++ [y] else put key y l

theorem lookup_upsert :
    lookup key k (upsert key y l) = if k = key y then some y else lookup key k l := by
  unfold upsert
  split
  case isTrue h => exact lookup_concat h
  case isFalse h => exact lookup_put h

theorem map_put_key : (put key y l).map key = l.map key :=
  map_put fun _ _ h => h.symm

theorem nodup_upsert (hn : (l.map key).Nodup) : ((upsert key y l).map key).Nodup := by
  unfold upsert
  split
  case isTrue h =>
    rw [List.map_append, List.nodup_append]
    refine ⟨hn, List.nodup_singleton _, ?_⟩
    intro k hk k' hk'
    obtain ⟨x, hx, rfl⟩ := List.mem_map.mp hk
    rw [List.map_singleton, List.mem_singleton] at hk'
    rw [hk']
    exact lookup_eq_none.mp h x hx
  case isFalse h =>
    rw [map_put_key]
    exact hn

theorem mem_upsert {z : α} (h : z ∈ upsert key y l) : z = y ∨ z ∈ l ∧ key z ≠ key y := by
  unfold upsert at h
  split at h
  case isTrue hnone =>
    rcases List.mem_append.mp h with hz | hz
    · exact .inr ⟨hz, lookup_eq_none.mp hnone z hz⟩
    · exact .inl (List.mem_singleton.mp hz)
  case isFalse hsome => exact mem_put h

/-- The elements of a list put under their keys one after another. -/
def upsertAll (key : α → κ) (l acc : List α) : List α := l.foldl (fun acc x => upsert key x acc) acc

/-- Under a key is what was put there last. -/
theorem lookup_upsertAll (acc : List α) :
    lookup key k (upsertAll key l acc) = (lookup key k l.reverse).or (lookup key k acc) := by
  induction l generalizing acc with
  | nil => rfl
  | cons x l ih =>
      have hcons : upsertAll key (x :: l) acc = upsertAll key l (upsert key x acc) := rfl
      rw [hcons, ih, lookup_upsert, List.reverse_cons]
      have happend : lookup key k (l.reverse ++ [x])
          = (lookup key k l.reverse).or (if k = key x then some x else none) := by
        rw [lookup, List.find?_append, List.find?_singleton]
        by_cases hk : k = key x
        · rw [if_pos hk, hk]
          simp [lookup]
        · have hne : ¬ key x = k := fun heq => hk heq.symm
          rw [if_neg hk]
          simp [lookup, hne]
      rw [happend]
      by_cases hk : k = key x
      · rw [if_pos hk, if_pos hk]
        cases lookup key k l.reverse <;> rfl
      · rw [if_neg hk, if_neg hk]
        cases lookup key k l.reverse <;> rfl

theorem upsertAll_eq_append {acc : List α} (hn : ((acc ++ l).map key).Nodup) :
    upsertAll key l acc = acc ++ l := by
  induction l generalizing acc with
  | nil => exact (List.append_nil acc).symm
  | cons x l ih =>
      have hnew : lookup key (key x) acc = none := by
        refine lookup_eq_none.mpr fun y hy heq => ?_
        rw [List.map_append, List.nodup_append] at hn
        exact hn.2.2 _ (List.mem_map_of_mem hy) _ (List.mem_map_of_mem List.mem_cons_self) heq
      have hcons : upsertAll key (x :: l) acc = upsertAll key l (upsert key x acc) := rfl
      have happend : acc ++ x :: l = acc ++ [x] ++ l := by rw [List.append_assoc, List.singleton_append]
      rw [happend] at hn
      rw [hcons, upsert, if_pos hnew, ih hn, happend]

theorem nodup_upsertAll {acc : List α} (hn : (acc.map key).Nodup) :
    ((upsertAll key l acc).map key).Nodup := by
  induction l generalizing acc with
  | nil => exact hn
  | cons x l ih => exact ih (nodup_upsert hn)

theorem mem_upsertAll {acc : List α} (h : x ∈ upsertAll key l acc) :
    x ∈ l ∨ x ∈ acc ∧ ∀ y ∈ l, key x ≠ key y := by
  induction l generalizing acc with
  | nil => exact .inr ⟨h, fun _ hy => by cases hy⟩
  | cons y l ih =>
      have hrest : x ∈ upsertAll key l (upsert key y acc) := h
      rcases ih hrest with hx | ⟨hx, hne⟩
      · exact .inl (List.mem_cons_of_mem y hx)
      · rcases mem_upsert hx with rfl | ⟨hx, hy⟩
        · exact .inl List.mem_cons_self
        · refine .inr ⟨hx, fun z hz => ?_⟩
          rcases List.mem_cons.mp hz with rfl | hz
          · exact hy
          · exact hne z hz

theorem lookup_reverse (h : lookup key k l.reverse = some x) :
    ∃ n, ∃ hn : n < l.length, l[n] = x ∧ key x = k ∧
      ∀ m, ∀ hm : m < l.length, n < m → key l[m] ≠ k := by
  induction l with
  | nil => cases h
  | cons y l ih =>
      by_cases hrest : lookup key k l.reverse = none
      · rw [lookup, List.reverse_cons, List.find?_append] at h
        rw [lookup] at hrest
        rw [hrest, Option.none_or, List.find?_singleton] at h
        split at h
        case isTrue hkey =>
          cases h
          refine ⟨0, Nat.zero_lt_succ _, rfl, of_decide_eq_true hkey, fun m hm hlt => ?_⟩
          obtain ⟨m, rfl⟩ : ∃ j, m = j + 1 := ⟨m - 1, by omega⟩
          have hm' : m < l.length := Nat.lt_of_succ_lt_succ hm
          exact lookup_eq_none.mp hrest l[m] (List.mem_reverse.mpr (List.getElem_mem hm'))
        case isFalse => cases h
      · obtain ⟨z, hz⟩ := Option.ne_none_iff_exists'.mp hrest
        have hxz : z = x := by
          rw [lookup, List.reverse_cons, List.find?_append] at h
          rw [lookup] at hz
          rw [hz] at h
          exact Option.some.inj h
        obtain ⟨n, hn, hget, hkey, hlast⟩ := ih (hz.trans (congrArg some hxz))
        refine ⟨n + 1, Nat.succ_lt_succ hn, hget, hkey, fun m hm hlt => ?_⟩
        obtain ⟨m, rfl⟩ : ∃ j, m = j + 1 := ⟨m - 1, by omega⟩
        exact hlast m (Nat.lt_of_succ_lt_succ hm) (by omega)

/-- An update that keeps the keys, and may drop elements. -/
theorem lookup_filterMap {f : α → Option α} (hn : (l.map key).Nodup)
    (hf : ∀ x y, f x = some y → key y = key x) :
    lookup key k (l.filterMap f) = (lookup key k l).bind f := by
  induction l with
  | nil => rfl
  | cons x l ih =>
      rw [List.map_cons, List.nodup_cons] at hn
      have hrest := ih hn.2
      by_cases hx : key x = k
      · have hcons : lookup key k (x :: l) = some x := by
          rw [lookup, List.find?_cons, decide_eq_true hx]
        rw [hcons]
        cases hfx : f x with
        | none =>
            rw [List.filterMap_cons_none hfx, hrest]
            have hnone : lookup key k l = none := by
              refine lookup_eq_none.mpr fun y hy hkey => hn.1 ?_
              rw [hx, ← hkey]
              exact List.mem_map_of_mem hy
            rw [hnone]
            exact hfx.symm
        | some y =>
            have hy : key y = k := (hf x y hfx).trans hx
            rw [List.filterMap_cons_some hfx, lookup, List.find?_cons, decide_eq_true hy]
            exact hfx.symm
      · have hcons : lookup key k (x :: l) = lookup key k l := by
          rw [lookup, List.find?_cons, decide_eq_false hx]
          rfl
        rw [hcons]
        cases hfx : f x with
        | none =>
            rw [List.filterMap_cons_none hfx]
            exact hrest
        | some y =>
            have hy : ¬ key y = k := fun heq => hx ((hf x y hfx).symm.trans heq)
            rw [List.filterMap_cons_some hfx, lookup, List.find?_cons, decide_eq_false hy]
            exact hrest

omit [DecidableEq κ] in
theorem nodup_filterMap {f : α → Option α} (hn : (l.map key).Nodup)
    (hf : ∀ x y, f x = some y → key y = key x) : ((l.filterMap f).map key).Nodup := by
  induction l with
  | nil => exact List.nodup_nil
  | cons x l ih =>
      rw [List.map_cons, List.nodup_cons] at hn
      cases hfx : f x with
      | none =>
          rw [List.filterMap_cons_none hfx]
          exact ih hn.2
      | some y =>
          rw [List.filterMap_cons_some hfx, List.map_cons, List.nodup_cons]
          refine ⟨fun hmem => hn.1 ?_, ih hn.2⟩
          obtain ⟨z, hz, hkey⟩ := List.mem_map.mp hmem
          obtain ⟨w, hw, hfw⟩ := List.mem_filterMap.mp hz
          rw [← hf x y hfx, ← hkey, hf w z hfw]
          exact List.mem_map_of_mem hw

end lookup

/-! ### The least element -/

section rank

variable {ρ : Type} [LinearOrder ρ] {rank : α → ρ}

end rank

/-! ### The rest of a list in order -/

theorem filter_after_eq_drop {after : α → α → Bool} (hirrefl : ∀ x, ¬ after x x = true)
    (h : l.Pairwise fun x y => after x y = true ∧ ¬ after y x = true) {n : ℕ} (hn : n < l.length) :
    l.filter (after l[n]) = l.drop (n + 1) := by
  induction l generalizing n with
  | nil => exact absurd hn (Nat.not_lt_zero n)
  | cons x l ih =>
      rw [List.pairwise_cons] at h
      cases n with
      | zero =>
          have hrest : l.filter (after x) = l := List.filter_eq_self.mpr fun y hy => (h.1 y hy).1
          rw [List.getElem_cons_zero, List.filter_cons_of_neg (hirrefl x), hrest]
          rfl
      | succ n =>
          have hn' : n < l.length := Nat.lt_of_succ_lt_succ hn
          have hx : ¬ after l[n] x = true := (h.1 _ (List.getElem_mem hn')).2
          rw [List.getElem_cons_succ, List.filter_cons_of_neg hx, ih h.2 hn']
          rfl

/-! ### New keys -/

/-- A number beyond all that are taken. -/
def fresh (taken : List ℕ) : ℕ := taken.foldr max 0 + 1

theorem lt_fresh {taken : List ℕ} {n : ℕ} (h : n ∈ taken) : n < fresh taken := by
  unfold fresh
  induction taken with
  | nil => cases h
  | cons m taken ih =>
      rw [List.foldr_cons]
      rcases List.mem_cons.mp h with rfl | hin
      · omega
      · have hlt := ih hin
        omega

end Keyed
