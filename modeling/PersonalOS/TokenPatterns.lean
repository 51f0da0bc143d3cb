import Mathlib.Data.List.Infix
import Mathlib.Data.List.TakeWhile

/-! # Tokens of a text

The tokens that a pattern finds in a list, with what stands before each: a longest first run, then
parts that a joiner leads in, then marks.

* **One token.** `tokenAt` is the token at the head of a list.  No token goes beyond the end of a token
  (`Closed`).
* **Two patterns.** A pattern with fewer characters in its runs finds other pieces, but it finds every
  token again that has none of the characters it lacks, at the same place (`mem_tokens_of_narrower`). -/

namespace TokenPatterns

variable {α : Type*}

/-- The characters of first runs, those that lead in a part, and those that may stand in a part and at
the end as well. -/
structure Pattern (α : Type*) where
  first : α → Bool
  joiner : α → Bool
  mark : α → Bool
  mark_joins : ∀ c, mark c = true → joiner c = true
  first_not_joiner : ∀ c, first c = true → joiner c = false

namespace Pattern

/-- The characters of a part. -/
def part (p : Pattern α) (c : α) : Bool := p.first c || p.mark c

/-- What belongs to a token after its first run. -/
def tail (p : Pattern α) : List α → List α
  | [] => []
  | j :: text =>
      if p.joiner j && text.head?.any p.part then
        j :: (text.takeWhile p.part ++ tail p (text.dropWhile p.part))
      else (j :: text).takeWhile p.mark
termination_by text => text.length
decreasing_by
  exact Nat.lt_succ_of_le (List.dropWhile_suffix _).length_le

/-- The token at the head of a list. -/
def tokenAt (p : Pattern α) (text : List α) : List α :=
  text.takeWhile p.first ++ p.tail (text.dropWhile p.first)

end Pattern

variable {p q : Pattern α} {text rest front t : List α} {c : α}

theorem tokenAt_ne_nil (h : p.first c = true) : p.tokenAt (c :: text) ≠ [] := by
  rw [Pattern.tokenAt, List.takeWhile_cons_of_pos h]
  exact List.cons_ne_nil _ _

/-- A token, and what stands before it. -/
structure Occurrence (α : Type*) where
  before : List α
  token : List α
deriving DecidableEq, Repr

/-- The tokens of a list, from left to right, after what has been read. -/
def Pattern.tokens (p : Pattern α) (before : List α) : List α → List (Occurrence α)
  | [] => []
  | c :: text =>
      if p.first c then
        ⟨before, p.tokenAt (c :: text)⟩ :: tokens p (before ++ p.tokenAt (c :: text))
          ((c :: text).drop (p.tokenAt (c :: text)).length)
      else tokens p (before ++ [c]) text
termination_by text => text.length
decreasing_by
  · have hne : p.tokenAt (c :: text) ≠ [] := tokenAt_ne_nil ‹p.first c = true›
    have hpos := List.length_pos_iff.mpr hne
    rw [List.length_drop, List.length_cons]
    omega
  · exact Nat.lt_succ_self _

/-! ### Where a token ends -/

theorem takeWhile_append_of_head {f : α → Bool} (h : ∀ c ∈ rest.head?, f c = false) (text : List α) :
    (text ++ rest).takeWhile f = text.takeWhile f ∧
      (text ++ rest).dropWhile f = text.dropWhile f ++ rest := by
  induction text with
  | nil =>
      cases rest with
      | nil => exact ⟨rfl, rfl⟩
      | cons c rest =>
          have hc : ¬f c = true := by rw [h c rfl]; exact Bool.false_ne_true
          exact ⟨List.takeWhile_cons_of_neg hc, List.dropWhile_cons_of_neg hc⟩
  | cons c text ih =>
      cases hc : f c with
      | true =>
          rw [List.cons_append, List.takeWhile_cons_of_pos hc, List.dropWhile_cons_of_pos hc,
            List.takeWhile_cons_of_pos hc, List.dropWhile_cons_of_pos hc, ih.1, ih.2]
          exact ⟨rfl, rfl⟩
      | false =>
          have hc : ¬f c = true := by rw [hc]; exact Bool.false_ne_true
          rw [List.cons_append, List.takeWhile_cons_of_neg hc, List.dropWhile_cons_of_neg hc,
            List.takeWhile_cons_of_neg hc, List.dropWhile_cons_of_neg hc]
          exact ⟨rfl, rfl⟩

theorem head_dropWhile (f : α → Bool) (text : List α) :
    ∀ c ∈ (text.dropWhile f).head?, f c = false := by
  intro c hc
  have hnot := List.head?_dropWhile_not f text
  rw [Option.mem_def.mp hc] at hnot
  simpa using hnot

theorem part_of_first (h : p.first c = true) : p.part c = true := by
  rw [Pattern.part, h, Bool.true_or]

theorem part_of_mark (h : p.mark c = true) : p.part c = true := by
  rw [Pattern.part, h, Bool.or_true]

theorem not_first_of_part (h : p.part c = false) : p.first c = false := (Bool.or_eq_false_iff.mp h).1

theorem not_mark_of_part (h : p.part c = false) : p.mark c = false := (Bool.or_eq_false_iff.mp h).2

theorem not_mark_of_first (h : p.first c = true) : p.mark c = false := by
  cases hmark : p.mark c with
  | false => rfl
  | true =>
      have hjoins := p.mark_joins c hmark
      rw [p.first_not_joiner c h] at hjoins
      cases hjoins

/-- Here no part goes on and none is led in. -/
structure Blocked (p : Pattern α) (rest : List α) : Prop where
  head : ∀ c ∈ rest.head?, p.part c = false
  next : ∀ j more, rest = j :: more → p.joiner j = true → ∀ c ∈ more.head?, p.part c = false

/-- The pattern has fewer characters in its runs, and the same joiners and marks. -/
structure Narrower (p q : Pattern α) : Prop where
  first : ∀ c, p.first c = true → q.first c = true
  joiner : p.joiner = q.joiner
  mark : p.mark = q.mark

namespace Narrower

theorem refl (p : Pattern α) : Narrower p p := ⟨fun _ h => h, rfl, rfl⟩

variable (h : Narrower p q)
include h

theorem part (hc : p.part c = true) : q.part c = true := by
  rcases Bool.or_eq_true_iff.mp hc with hc | hc
  · exact part_of_first (h.first c hc)
  · rw [h.mark] at hc
    exact part_of_mark hc

theorem not_part (hc : q.part c = false) : p.part c = false := by
  cases hp : p.part c with
  | false => rfl
  | true => rw [h.part hp] at hc; cases hc

theorem blocked (hrest : Blocked q rest) : Blocked p rest := by
  refine ⟨fun c hc => h.not_part (hrest.head c hc), fun j more heq hj c hc => ?_⟩
  rw [h.joiner] at hj
  exact h.not_part (hrest.next j more heq hj c hc)

end Narrower

theorem tail_cons (j : α) (text : List α) : p.tail (j :: text) =
    if p.joiner j && text.head?.any p.part then
      j :: (text.takeWhile p.part ++ p.tail (text.dropWhile p.part))
    else (j :: text).takeWhile p.mark := by
  rw [Pattern.tail]

theorem tail_nil : p.tail [] = [] := by rw [Pattern.tail]

/-- The tail of a token does not go into a list that is blocked. -/
theorem tail_append (hrest : Blocked p rest) (text : List α) : p.tail (text ++ rest) = p.tail text := by
  have hmark : ∀ c ∈ rest.head?, p.mark c = false := fun c hc => not_mark_of_part (hrest.head c hc)
  induction hlen : text.length using Nat.strong_induction_on generalizing text with
  | _ n ih =>
      cases text with
      | nil =>
          rw [List.nil_append, tail_nil]
          cases rest with
          | nil => exact tail_nil
          | cons j more =>
              rw [tail_cons, if_neg, List.takeWhile_cons_of_neg]
              · rw [hmark j rfl]
                exact Bool.false_ne_true
              · rw [Bool.and_eq_true, Option.any_eq_true]
                rintro ⟨hj, c, hc, hpart⟩
                rw [hrest.next j more rfl hj c hc] at hpart
                cases hpart
      | cons j text =>
          have hhead : (text ++ rest).head?.any p.part = text.head?.any p.part := by
            cases text with
            | nil =>
                cases rest with
                | nil => rfl
                | cons c rest => exact hrest.head c rfl
            | cons c text => rfl
          rw [List.cons_append, tail_cons, tail_cons, hhead]
          obtain ⟨htake, hdrop⟩ := takeWhile_append_of_head hrest.head text
          have hlt : (text.dropWhile p.part).length < n := by
            rw [← hlen]
            exact Nat.lt_succ_of_le (List.dropWhile_suffix _).length_le
          have hmarks := (takeWhile_append_of_head hmark (j :: text)).1
          rw [List.cons_append] at hmarks
          rw [htake, hdrop, ih _ hlt _ rfl, hmarks]

theorem tokenAt_append (hrest : Blocked p rest) (text : List α) :
    p.tokenAt (text ++ rest) = p.tokenAt text := by
  have hfirst : ∀ c ∈ rest.head?, p.first c = false := fun c hc => not_first_of_part (hrest.head c hc)
  obtain ⟨htake, hdrop⟩ := takeWhile_append_of_head hfirst text
  rw [Pattern.tokenAt, htake, hdrop, tail_append hrest, Pattern.tokenAt]

/-- After its first run and some parts a token ends where nothing of it can go on. -/
theorem tail_blocked (h : ∀ c ∈ text.head?, p.part c = false) :
    ∃ rest, text = p.tail text ++ rest ∧ Blocked p rest := by
  induction hlen : text.length using Nat.strong_induction_on generalizing text with
  | _ n ih =>
      cases text with
      | nil =>
          refine ⟨[], by rw [tail_nil]; rfl, by simp, ?_⟩
          intro j more heq
          cases heq
      | cons j text =>
          rw [tail_cons]
          split
          · have hlt : (text.dropWhile p.part).length < n := by
              rw [← hlen]
              exact Nat.lt_succ_of_le (List.dropWhile_suffix _).length_le
            obtain ⟨rest, hrest, hblocked⟩ := ih _ hlt (head_dropWhile p.part text) rfl
            refine ⟨rest, ?_, hblocked⟩
            rw [List.cons_append, List.append_assoc, ← hrest, List.takeWhile_append_dropWhile]
          · rename_i hgroup
            have hj : p.part j = false := h j rfl
            rw [List.takeWhile_cons_of_neg (by rw [not_mark_of_part hj]; exact Bool.false_ne_true)]
            refine ⟨j :: text, rfl, h, ?_⟩
            rintro j' more heq hjoiner c hc
            obtain ⟨rfl, rfl⟩ := List.cons.inj heq
            rw [hjoiner, Bool.true_and, Option.any_eq_true] at hgroup
            cases hpart : p.part c with
            | false => rfl
            | true => exact absurd ⟨c, hc, hpart⟩ hgroup

/-- How a token ends: where nothing can go on, or with a mark after its first run. -/
def Ends (p : Pattern α) (token rest : List α) : Prop :=
  Blocked p rest ∨ ∃ run j, token = run ++ [j] ∧ (∀ c ∈ run, p.first c = true) ∧ p.mark j = true ∧
    ∀ c ∈ rest.head?, p.part c = false

theorem tokenAt_ends (text : List α) :
    ∃ rest, text = p.tokenAt text ++ rest ∧ Ends p (p.tokenAt text) rest := by
  have hfirst : ∀ d ∈ text.takeWhile p.first, p.first d = true := fun d hd => List.mem_takeWhile_imp hd
  have hsplit : text = text.takeWhile p.first ++ text.dropWhile p.first :=
    List.takeWhile_append_dropWhile.symm
  have htoken : p.tokenAt text = text.takeWhile p.first ++ p.tail (text.dropWhile p.first) := rfl
  cases hdrop : text.dropWhile p.first with
  | nil =>
      rw [hdrop, tail_nil] at htoken
      refine ⟨[], ?_, Or.inl ⟨by simp, fun j more heq => by cases heq⟩⟩
      rw [htoken, List.append_nil, List.append_nil, ← List.append_nil (text.takeWhile p.first), ← hdrop]
      exact hsplit
  | cons j more =>
      have hj : p.first j = false := head_dropWhile p.first text j (by rw [hdrop]; rfl)
      rw [hdrop] at htoken hsplit
      cases hmark : p.mark j with
      | false =>
          have hhead : ∀ d ∈ (j :: more).head?, p.part d = false := by
            intro d hd
            obtain rfl := Option.some.inj hd
            rw [Pattern.part, hj, hmark]
            rfl
          obtain ⟨rest, hrest, hblocked⟩ := tail_blocked hhead
          refine ⟨rest, ?_, Or.inl hblocked⟩
          rw [htoken, List.append_assoc, ← hrest]
          exact hsplit
      | true =>
          rw [tail_cons, p.mark_joins j hmark, Bool.true_and] at htoken
          split at htoken
          · obtain ⟨rest, hrest, hblocked⟩ := tail_blocked (head_dropWhile p.part more)
            refine ⟨rest, ?_, Or.inl hblocked⟩
            rw [htoken, List.append_assoc, List.cons_append, List.append_assoc, ← hrest,
              List.takeWhile_append_dropWhile]
            exact hsplit
          · rename_i hgroup
            have hnext : ∀ d ∈ more.head?, p.part d = false := by
              intro d hd
              cases hpart : p.part d with
              | false => rfl
              | true =>
                  rw [Option.any_eq_true] at hgroup
                  exact absurd ⟨d, hd, hpart⟩ hgroup
            have hmarks : (j :: more).takeWhile p.mark = [j] := by
              have hone := (takeWhile_append_of_head (fun d hd => not_mark_of_part (hnext d hd)) [j]).1
              rw [List.singleton_append] at hone
              rw [hone, List.takeWhile_cons_of_pos hmark]
              rfl
            rw [hmarks] at htoken
            refine ⟨more, ?_, Or.inr ⟨_, j, htoken, hfirst, hmark, hnext⟩⟩
            rw [htoken, List.append_assoc]
            exact hsplit

/-! ### Two patterns -/

variable (h : Narrower p q)
include h

/-- No token of a narrower pattern goes beyond the end of a token. -/
theorem tokenAt_closed (hends : Ends q t rest) {back : List α} (hback : back <:+ t) (hne : back ≠ []) :
    p.tokenAt (back ++ rest) = p.tokenAt back := by
  rcases hends with hblocked | ⟨run, j, rfl, hrun, hmark, hnext⟩
  · exact tokenAt_append (h.blocked hblocked) back
  · rcases List.suffix_concat_iff.mp hback with hnil | ⟨run', rfl, hsuffix⟩
    · exact absurd hnil hne
    have hpmark : p.mark j = true := by rw [h.mark]; exact hmark
    have hj : p.first j = false := by
      cases hfirst : p.first j with
      | false => rfl
      | true => rw [not_mark_of_first hfirst] at hpmark; cases hpmark
    have hpnext : ∀ d ∈ rest.head?, p.part d = false := fun d hd => h.not_part (hnext d hd)
    -- What follows the first run is either a character of the wider pattern or the mark.
    have htail : ∀ more, (∀ d ∈ more.head?, p.part d = false) →
        p.tail (run'.dropWhile p.first ++ j :: more) =
          if run'.dropWhile p.first = [] then [j] else [] := by
      intro more hmore
      cases hdrop : run'.dropWhile p.first with
      | nil =>
          have hmarks := (takeWhile_append_of_head (fun d hd => not_mark_of_part (hmore d hd)) [j]).1
          rw [List.nil_append, if_pos rfl, tail_cons, if_neg, ← List.singleton_append, hmarks,
            List.takeWhile_cons_of_pos hpmark]
          · rfl
          · rw [Bool.and_eq_true, Option.any_eq_true]
            rintro ⟨-, d, hd, hpart⟩
            rw [hmore d hd] at hpart
            cases hpart
      | cons d more' =>
          have hmem : d ∈ run' := (List.dropWhile_suffix p.first).subset (by rw [hdrop]; exact List.mem_cons_self)
          have hfirst : q.first d = true := hrun d (hsuffix.subset hmem)
          have hjoiner : p.joiner d = false := by rw [h.joiner]; exact q.first_not_joiner d hfirst
          have hunmarked : ¬p.mark d = true := by
            rw [h.mark, not_mark_of_first hfirst]
            exact Bool.false_ne_true
          rw [if_neg (List.cons_ne_nil _ _), List.cons_append, tail_cons, hjoiner, Bool.false_and,
            if_neg Bool.false_ne_true, List.takeWhile_cons_of_neg hunmarked]
    have hsplit : ∀ more, (∀ d ∈ more.head?, p.part d = false) →
        p.tokenAt (run' ++ j :: more) =
          run'.takeWhile p.first ++ if run'.dropWhile p.first = [] then [j] else [] := by
      intro more hmore
      have hhead : ∀ d ∈ (j :: more).head?, p.first d = false := by
        intro d hd
        obtain rfl := Option.some.inj hd
        exact hj
      obtain ⟨htake, hdrop⟩ := takeWhile_append_of_head hhead run'
      rw [Pattern.tokenAt, htake, hdrop, htail more hmore]
    rw [List.append_assoc, List.singleton_append, hsplit rest hpnext, hsplit [] (by simp)]

/-- What is found after the end of a token is found by the narrower pattern as well. -/
theorem mem_tokens_append (hends : Ends q t rest) {occurrence : Occurrence α} {back : List α}
    (hback : back <:+ t) {before : List α} (hmem : occurrence ∈ p.tokens (before ++ back) rest) :
    occurrence ∈ p.tokens before (back ++ rest) := by
  induction hlen : back.length using Nat.strong_induction_on generalizing back before with
  | _ n ih =>
      cases back with
      | nil => rwa [List.append_nil] at hmem
      | cons c back =>
          rw [List.cons_append, Pattern.tokens]
          split
          · rename_i hc
            have hclosed := tokenAt_closed h hends hback (List.cons_ne_nil c back)
            obtain ⟨rest', hrest', -⟩ := tokenAt_ends (p := p) (c :: back)
            rw [List.cons_append] at hclosed
            have hne : p.tokenAt (c :: back) ≠ [] := tokenAt_ne_nil hc
            have hpos := List.length_pos_iff.mpr hne
            have hdrop : ∀ token, c :: back = token ++ rest' →
                (c :: (back ++ rest)).drop token.length = rest' ++ rest := by
              intro token htoken
              rw [← List.cons_append, htoken, List.append_assoc, List.drop_left]
            rw [hclosed, hdrop _ hrest']
            refine List.mem_cons_of_mem _ (ih rest'.length ?_ ?_ ?_ rfl)
            · have hlength := congrArg List.length hrest'
              rw [List.length_append] at hlength
              omega
            · exact (hrest' ▸ List.suffix_append _ _ : rest' <:+ c :: back).trans hback
            · rwa [List.append_assoc, ← hrest']
          · refine ih back.length ?_ ((List.suffix_cons c back).trans hback) ?_ rfl
            · rw [← hlen]
              exact Nat.lt_succ_self _
            · rwa [List.append_assoc, List.singleton_append]

omit h in
theorem takeWhile_congr_of_mem {f g : α → Bool} (hsame : ∀ c ∈ text, f c = g c) :
    text.takeWhile f = text.takeWhile g ∧ text.dropWhile f = text.dropWhile g := by
  induction text with
  | nil => exact ⟨rfl, rfl⟩
  | cons c text ih =>
      obtain ⟨htake, hdrop⟩ := ih fun d hd => hsame d (List.mem_cons_of_mem _ hd)
      rw [List.takeWhile_cons, List.takeWhile_cons, List.dropWhile_cons, List.dropWhile_cons,
        hsame c List.mem_cons_self, htake, hdrop]
      exact ⟨rfl, rfl⟩

theorem tail_congr (hsame : ∀ c ∈ text, p.first c = q.first c) : p.tail text = q.tail text := by
  induction hlen : text.length using Nat.strong_induction_on generalizing text with
  | _ n ih =>
      cases text with
      | nil => rw [tail_nil, tail_nil]
      | cons j text =>
          have hpart : ∀ c ∈ text, p.part c = q.part c := by
            intro c hc
            rw [Pattern.part, Pattern.part, hsame c (List.mem_cons_of_mem _ hc), h.mark]
          have hhead : text.head?.any p.part = text.head?.any q.part := by
            cases text with
            | nil => rfl
            | cons c text => exact hpart c List.mem_cons_self
          obtain ⟨htake, hdrop⟩ := takeWhile_congr_of_mem hpart
          have hlt : (text.dropWhile q.part).length < n := by
            rw [← hlen]
            exact Nat.lt_succ_of_le (List.dropWhile_suffix _).length_le
          have hrest : p.tail (text.dropWhile q.part) = q.tail (text.dropWhile q.part) :=
            ih _ hlt (fun c hc => hsame c (List.mem_cons_of_mem _ ((List.dropWhile_suffix _).subset hc))) rfl
          rw [tail_cons, tail_cons, hhead, htake, hdrop, hrest, h.joiner, h.mark]

theorem tokenAt_congr (hsame : ∀ c ∈ text, p.first c = q.first c) : p.tokenAt text = q.tokenAt text := by
  obtain ⟨htake, hdrop⟩ := takeWhile_congr_of_mem hsame
  have htail : p.tail (text.dropWhile q.first) = q.tail (text.dropWhile q.first) :=
    tail_congr h fun c hc => hsame c ((List.dropWhile_suffix _).subset hc)
  rw [Pattern.tokenAt, Pattern.tokenAt, htake, hdrop, htail]

/-- A token without the characters that the narrower pattern lacks is found by it. -/
theorem mem_tokens_of_narrower {occurrence : Occurrence α} {before : List α}
    (hmem : occurrence ∈ q.tokens before text)
    (hsame : ∀ c ∈ occurrence.token, q.first c = true → p.first c = true) :
    occurrence ∈ p.tokens before text := by
  induction hlen : text.length using Nat.strong_induction_on generalizing text before with
  | _ n ih =>
      cases text with
      | nil =>
          rw [Pattern.tokens] at hmem
          cases hmem
      | cons c text =>
          rw [Pattern.tokens] at hmem
          split at hmem
          · rename_i hc
            obtain ⟨rest, hrest, hends⟩ := tokenAt_ends (p := q) (c :: text)
            have hne : q.tokenAt (c :: text) ≠ [] := tokenAt_ne_nil hc
            generalize htoken : q.tokenAt (c :: text) = t at hmem hrest hends hne
            have hdrop : (c :: text).drop t.length = rest := by rw [hrest, List.drop_left]
            rw [hdrop] at hmem
            rcases List.mem_cons.mp hmem with rfl | hmem
            · -- Both patterns find the token where it begins.
              have hagree : ∀ d ∈ t, p.first d = q.first d := by
                intro d hd
                cases hq : q.first d with
                | true => exact hsame d hd hq
                | false =>
                    cases hp : p.first d with
                    | false => rfl
                    | true => rw [h.first d hp] at hq; cases hq
              have hfound : p.tokenAt (c :: text) = t := by
                calc p.tokenAt (c :: text) = p.tokenAt (t ++ rest) := by rw [← hrest]
                  _ = p.tokenAt t := tokenAt_closed h hends List.suffix_rfl hne
                  _ = q.tokenAt t := tokenAt_congr h hagree
                  _ = q.tokenAt (t ++ rest) :=
                      (tokenAt_closed (Narrower.refl q) hends List.suffix_rfl hne).symm
                  _ = t := by rw [← hrest, htoken]
              have hmem : c ∈ t := by
                rw [← htoken, Pattern.tokenAt, List.takeWhile_cons_of_pos hc]
                exact List.mem_cons_self
              rw [Pattern.tokens, if_pos (hsame c hmem hc), hfound]
              exact List.mem_cons_self
            · have hpos := List.length_pos_iff.mpr hne
              have hlength := congrArg List.length hrest
              rw [List.length_append] at hlength
              have hlater : occurrence ∈ p.tokens (before ++ t) rest := ih rest.length (by omega) hmem rfl
              rw [hrest]
              exact mem_tokens_append h hends List.suffix_rfl hlater
          · rename_i hc
            have hp : ¬p.first c = true := fun hp => hc (h.first c hp)
            rw [Pattern.tokens, if_neg hp]
            exact ih text.length (by rw [← hlen]; exact Nat.lt_succ_self _) hmem rfl

end TokenPatterns
