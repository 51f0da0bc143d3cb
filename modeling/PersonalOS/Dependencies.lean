import Mathlib.Data.Set.Finite.Basic
import Mathlib.Order.WellFounded

/-! # Dependencies

A relation that says what depends on what, and lists in which everything comes after what it depends
on.

* **Cycles.** `Cyclic`: something depends on itself, by way of others.  A list whose elements all depend
  on elements of the list has a cycle in it (`exists_cycle`).
* **Orders.** `DepsFirst`: such a list grows layer by layer (`DepsFirst.append`), and what can be listed
  in this way has no cycle (`DepsFirst.not_cyclic`). -/

namespace Dependencies

variable {α : Type*} {r : α → α → Prop} {order layer l : List α}

/-! ### Cycles -/

/-- Something depends on itself, by way of others. -/
def Cyclic (r : α → α → Prop) : Prop := ∃ a, Relation.TransGen r a a

/-- If every element of a list depends on one of them, there is a cycle. -/
theorem exists_cycle (hne : l ≠ []) (h : ∀ a ∈ l, ∃ b ∈ l, r a b) : Cyclic r := by
  by_contra hacyclic
  -- On the finitely many elements, without cycles, what is depended on could be descended to forever.
  let below (b a : { a // a ∈ l }) : Prop := Relation.TransGen r a.1 b.1
  have htrans : IsTrans { a // a ∈ l } below := ⟨fun a b c hab hbc => hbc.trans hab⟩
  have hirrefl : Std.Irrefl below := ⟨fun a ha => hacyclic ⟨a.1, ha⟩⟩
  have hfinite : Finite { a // a ∈ l } := List.finite_toSet l
  have hwf : WellFounded below := Finite.wellFounded_of_trans_of_irrefl below
  obtain ⟨a, ha⟩ := List.exists_mem_of_ne_nil l hne
  obtain ⟨least, -, hleast⟩ := hwf.has_min Set.univ ⟨⟨a, ha⟩, Set.mem_univ _⟩
  obtain ⟨b, hb, hdep⟩ := h least.1 least.2
  exact hleast ⟨b, hb⟩ (Set.mem_univ _) (Relation.TransGen.single hdep)

/-! ### Orders -/

/-- Everything in the list comes after all that it depends on. -/
def DepsFirst (r : α → α → Prop) (order : List α) : Prop :=
  ∀ before a after, order = before ++ a :: after → ∀ b, r a b → b ∈ before

theorem depsFirst_nil : DepsFirst r [] := by
  intro before a after h
  exact absurd h.symm (by simp)

/-- A layer of things whose dependencies are all listed may come next. -/
theorem DepsFirst.append (h : DepsFirst r order) (hlayer : ∀ a ∈ layer, ∀ b, r a b → b ∈ order) :
    DepsFirst r (order ++ layer) := by
  intro before a after heq b hdep
  rcases List.append_eq_append_iff.mp heq with ⟨front, rfl, hback⟩ | ⟨back, rfl, hback⟩
  · have hmem : a ∈ layer := by
      rw [hback]
      exact List.mem_append_right _ List.mem_cons_self
    exact List.mem_append_left _ (hlayer a hmem b hdep)
  · cases back with
    | nil =>
        have hmem : a ∈ layer := by
          rw [List.nil_append] at hback
          rw [← hback]
          exact List.mem_cons_self
        rw [List.append_nil] at hlayer
        exact hlayer a hmem b hdep
    | cons c back =>
        obtain ⟨rfl, -⟩ := List.cons.inj hback
        exact h before a back rfl b hdep

theorem DepsFirst.acc (h : DepsFirst r order) {a : α} (ha : a ∈ order) : Acc (Function.swap r) a := by
  obtain ⟨before, after, heq⟩ := List.append_of_mem ha
  -- By induction on how much is listed before.
  induction hn : before.length using Nat.strong_induction_on generalizing a before after with
  | _ n ih =>
      refine Acc.intro a fun b hdep => ?_
      obtain ⟨front, back, hbefore⟩ := List.append_of_mem (h before a after heq b hdep)
      refine ih front.length ?_ ?_ front (back ++ a :: after) ?_ rfl
      · rw [← hn, hbefore, List.length_append, List.length_cons]
        omega
      · rw [heq, hbefore]
        simp
      · rw [heq, hbefore, List.append_assoc, List.cons_append]

/-- Where everything that depends on something is listed, there is no cycle. -/
theorem DepsFirst.not_cyclic (h : DepsFirst r order) (hall : ∀ a b, r a b → a ∈ order) : ¬Cyclic r := by
  rintro ⟨a, hcycle⟩
  have hmem : a ∈ order := by
    obtain ⟨b, hdep, -⟩ := Relation.TransGen.head'_iff.mp hcycle
    exact hall a b hdep
  have hirrefl : ∀ a, Acc (Relation.TransGen (Function.swap r)) a →
      ¬Relation.TransGen (Function.swap r) a a := by
    intro a hacc
    induction hacc with
    | intro a _ ih => exact fun hself => ih a hself hself
  exact hirrefl a (h.acc hmem).transGen (Relation.transGen_swap.mpr hcycle)

end Dependencies
