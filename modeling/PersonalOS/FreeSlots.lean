import PersonalOS.ScheduleReconciliation
import PersonalOS.Texts

/-! # The latest free slot

`latestFreeSlot` walks back from the latest end and skips what cannot end a free slot.

* **Free slots.** `FreeSlot` is what a slot has to satisfy: its length, its window, the working hours
  of one day, and nothing busy that it overlaps.
* **Exchange.** No free slot ends between the latest end within working hours and the end asked for
  (`FreeSlot.le_latestEnd`), and none ends after the start of something that blocks the candidate
  (`FreeSlot.le_of_blocker`); so the search skips none.
* **Steps.** Whatever blocks a candidate starts no earlier than the next one ends, so it blocks no
  later candidate, and there are at most as many steps as busy intervals.
* **Range.** `latestFreeSlotChecked` raises where a sum leaves the range of datetimes.  Where it returns it
  returns the same (`latestFreeSlotChecked_ok`), and away from both ends of the range it does return
  (`latestFreeSlotChecked_returns`). -/

namespace PersonalOS

open Instant

/-! ### The search, as datetimes add -/

namespace WorkingHours

/-- The end of the working day, of the day before if the day is too young. -/
def snapBack (moment startsAt : Instant) (hours : WorkingHours) : Except OverflowError Instant :=
  if startsAt < combine (date moment) hours.startTime then
    (checked (combine (date moment - 1) 0)).map fun dayBefore => combine (date dayBefore) hours.endTime
  else .ok moment

/-- `latest_end`, which raises where a sum is out of range. -/
def latestEndChecked (endsAt duration : Instant) (hours : WorkingHours) : Except OverflowError Instant := do
  let moment ← checked (endsAt + hours.utcOffset)
  let dayEnd := combine (date moment) hours.endTime
  let moment := if dayEnd < moment then dayEnd else moment
  let startsAt ← checked (moment - duration)
  let moment ← hours.snapBack moment startsAt
  checked (moment - hours.utcOffset)

end WorkingHours

/-- `_latest_free_slot`, which raises where a sum is out of range. -/
def latestFreeSlotChecked (duration earliestStart : Instant) (busy : List (Instant × Instant))
    (hours : Option WorkingHours) : ℕ → Instant → Except OverflowError (Option (Instant × Instant))
  | 0, _ => return none
  | steps + 1, latestEnd => do
      let endsAt ← hours.elim (pure latestEnd) fun hours => hours.latestEndChecked latestEnd duration
      let startsAt ← checked (endsAt - duration)
      if startsAt < earliestStart then return none
      match busy.filter (overlaps startsAt endsAt) with
      | [] => return some (startsAt, endsAt)
      | blocker :: blockers =>
          latestFreeSlotChecked duration earliestStart busy hours steps
            ((blockers.map (·.1)).foldl min blocker.1)

/-- A slot of the duration asked for, in the window, within the working hours of one day if there are
any, and free. -/
structure FreeSlot (duration earliestStart : Instant) (busy : List (Instant × Instant))
    (hours : Option WorkingHours) (latestEnd : Instant) (slot : Instant × Instant) : Prop where
  length : slot.1 + duration = slot.2
  earliest : earliestStart ≤ slot.1
  latest : slot.2 ≤ latestEnd
  working : ∀ working, hours = some working → working.contains slot.1 slot.2 = true
  free : ∀ b ∈ busy, overlaps slot.1 slot.2 b = false

section freeSlots

variable {duration earliestStart latestEnd : Instant} {busy : List (Instant × Instant)}
variable {hours : Option WorkingHours} {slot : Instant × Instant}

/-- What lies within working hours and ends by a moment ends by the latest end before it. -/
theorem WorkingHours.le_latestEnd {working : WorkingHours} (h0 : 0 < duration)
    (hlength : slot.1 + duration = slot.2) (hlatest : slot.2 ≤ latestEnd)
    (hcontains : working.contains slot.1 slot.2 = true) :
    slot.2 ≤ working.latestEnd latestEnd duration := by
  obtain ⟨startTime, endTime, utcOffset, hstart, hbefore, hend⟩ := working
  unfold WorkingHours.contains WorkingHours.latestEnd WorkingHours.combine WorkingHours.date
    WorkingHours.time dayLength at *
  unfold Instant at *
  simp only [Bool.and_eq_true, beq_iff_eq, decide_eq_true_eq] at hcontains ⊢
  obtain ⟨⟨⟨hday, hfrom⟩, -⟩, hto⟩ := hcontains
  -- Its day is the day of the moment, or an earlier one.
  split
  · split
    · omega
    · omega
  · split
    · omega
    · omega

/-- No free slot ends after the latest end within working hours. -/
theorem FreeSlot.le_latestEnd (h : FreeSlot duration earliestStart busy hours latestEnd slot)
    (h0 : 0 < duration) :
    slot.2 ≤ hours.elim latestEnd fun hours => hours.latestEnd latestEnd duration := by
  cases hours with
  | none => exact h.latest
  | some working => exact working.le_latestEnd h0 h.length h.latest (h.working working rfl)

/-- A free slot that ends no later than a candidate ends no later than anything that blocks the
candidate starts: it cannot begin after it. -/
theorem FreeSlot.le_of_blocker (h : FreeSlot duration earliestStart busy hours latestEnd slot)
    {endsAt : Instant} (hle : slot.2 ≤ endsAt) {b : Instant × Instant} (hb : b ∈ busy)
    (hblocks : overlaps (endsAt - duration) endsAt b = true) : slot.2 ≤ b.1 := by
  have hfree := h.free b hb
  have hlength := h.length
  unfold overlaps at hfree hblocks
  simp only [Bool.and_eq_true, decide_eq_true_eq, Bool.and_eq_false_iff, decide_eq_false_iff_not] at *
  unfold Instant at *
  omega

theorem FreeSlot.mono (h : FreeSlot duration earliestStart busy hours latestEnd slot) {moment : Instant}
    (hle : latestEnd ≤ moment) : FreeSlot duration earliestStart busy hours moment slot :=
  { h with latest := h.latest.trans hle }

theorem FreeSlot.ending (h : FreeSlot duration earliestStart busy hours latestEnd slot)
    {moment : Instant} (hle : slot.2 ≤ moment) :
    FreeSlot duration earliestStart busy hours moment slot :=
  { h with latest := hle }

theorem le_foldl_min {bound first : Instant} {starts : List Instant} (hfirst : bound ≤ first)
    (h : ∀ start ∈ starts, bound ≤ start) : bound ≤ starts.foldl min first := by
  induction starts generalizing first with
  | nil => exact hfirst
  | cons start starts ih =>
      exact ih (le_min hfirst (h start List.mem_cons_self)) fun s hs => h s (List.mem_cons_of_mem _ hs)

theorem exists_foldl_min (first : Instant × Instant) (rest : List (Instant × Instant)) :
    ∃ b ∈ first :: rest, (rest.map (·.1)).foldl min first.1 = b.1 := by
  induction rest generalizing first with
  | nil => exact ⟨first, List.mem_cons_self, rfl⟩
  | cons second rest ih =>
      rw [List.map_cons, List.foldl_cons]
      rcases min_choice first.1 second.1 with hmin | hmin
      · obtain ⟨b, hb, heq⟩ := ih first
        rw [hmin]
        exact ⟨b, List.mem_cons.mpr ((List.mem_cons.mp hb).imp_right (List.mem_cons_of_mem second)), heq⟩
      · obtain ⟨b, hb, heq⟩ := ih second
        rw [hmin]
        exact ⟨b, List.mem_cons_of_mem first hb, heq⟩

theorem starting_before_lt {moment earlier : Instant} (hle : earlier ≤ moment) {b : Instant × Instant}
    (hb : b ∈ busy) (hbefore : b.1 < moment) (hafter : earlier ≤ b.1) :
    (busy.filter fun b => decide (b.1 < earlier)).length <
      (busy.filter fun b => decide (b.1 < moment)).length := by
  have hsub : (busy.filter fun b => decide (b.1 < earlier)) =
      (busy.filter fun b => decide (b.1 < moment)).filter fun b => decide (b.1 < earlier) := by
    rw [List.filter_filter]
    refine List.filter_congr fun c _ => ?_
    by_cases hc : c.1 < earlier
    · simp [hc, hc.trans_le hle]
    · simp [hc]
  rw [hsub, List.length_filter_lt_length_iff_exists]
  refine ⟨b, List.mem_filter.mpr ⟨hb, decide_eq_true hbefore⟩, ?_⟩
  simpa using hafter

variable (earliestStart) in
/-- **The search**: with a step for every busy interval that may still be in the way, what it finds
is the free slot that ends last, and if it finds none there is none. -/
theorem latestFreeSlot_spec (h0 : 0 < duration)
    (hlength : ∀ working, hours = some working → duration ≤ working.length) (steps : ℕ)
    (hsteps : (busy.filter fun b => decide (b.1 < latestEnd)).length < steps) :
    (∀ slot, latestFreeSlot duration earliestStart busy hours steps latestEnd = some slot →
      FreeSlot duration earliestStart busy hours latestEnd slot ∧
        ∀ other, FreeSlot duration earliestStart busy hours latestEnd other → other.2 ≤ slot.2) ∧
    (latestFreeSlot duration earliestStart busy hours steps latestEnd = none →
      ∀ other, ¬ FreeSlot duration earliestStart busy hours latestEnd other) := by
  induction steps generalizing latestEnd with
  | zero => exact absurd hsteps (Nat.not_lt_zero _)
  | succ steps ih =>
      have hskipped := fun other (hother : FreeSlot duration earliestStart busy hours latestEnd other) =>
        hother.le_latestEnd h0
      have hle : (hours.elim latestEnd fun hours => hours.latestEnd latestEnd duration) ≤ latestEnd := by
        cases hours with
        | none => exact le_refl _
        | some working => exact WorkingHours.latestEnd_le ..
      have hworking : ∀ working, hours = some working → working.contains
          ((hours.elim latestEnd fun hours => hours.latestEnd latestEnd duration) - duration)
          (hours.elim latestEnd fun hours => hours.latestEnd latestEnd duration) = true := by
        rintro working rfl
        exact WorkingHours.contains_latestEnd h0.le (hlength working rfl)
      unfold latestFreeSlot
      dsimp only
      generalize (hours.elim latestEnd fun hours => hours.latestEnd latestEnd duration) = endsAt at *
      split
      case isTrue hearly =>
        refine ⟨fun slot hslot => (by cases hslot), fun _ other hother => ?_⟩
        have hends := hskipped other hother
        have hstarts := hother.earliest
        have hlong := hother.length
        unfold Instant at *
        omega
      case isFalse hearly =>
        split
        · rename_i hfree
          refine ⟨fun slot hslot => ?_, fun hnone => by cases hnone⟩
          obtain rfl := Option.some.inj hslot
          refine ⟨⟨sub_add_cancel .., not_lt.mp hearly, hle, hworking, fun b hb => ?_⟩, hskipped⟩
          have hnot := List.filter_eq_nil_iff.mp hfree b hb
          simpa using hnot
        · rename_i blocker blockers hblocked
          have hblocks : ∀ b ∈ blocker :: blockers,
              b ∈ busy ∧ overlaps (endsAt - duration) endsAt b = true := by
            rw [← hblocked]
            exact fun b hb => List.mem_filter.mp hb
          have hmin : (blockers.map (·.1)).foldl min blocker.1 ≤ blocker.1 := foldl_min_le _ _
          obtain ⟨hbusy, hover⟩ := hblocks blocker List.mem_cons_self
          have hbefore : blocker.1 < endsAt := by
            unfold overlaps at hover
            simp only [Bool.and_eq_true, decide_eq_true_eq] at hover
            exact hover.1
          have hearlier : (blockers.map (·.1)).foldl min blocker.1 ≤ latestEnd :=
            hmin.trans (hbefore.le.trans hle)
          -- Every free slot ends where the first thing in the way begins, or before.
          have hends : ∀ other, FreeSlot duration earliestStart busy hours latestEnd other →
              FreeSlot duration earliestStart busy hours ((blockers.map (·.1)).foldl min blocker.1)
                other := by
            intro other hother
            refine hother.ending (le_foldl_min ?_ fun start hstart => ?_)
            · exact hother.le_of_blocker (hskipped other hother) hbusy hover
            · obtain ⟨b, hb, rfl⟩ := List.mem_map.mp hstart
              obtain ⟨hb, hblocks⟩ := hblocks b (List.mem_cons_of_mem _ hb)
              exact hother.le_of_blocker (hskipped other hother) hb hblocks
          have hfewer := starting_before_lt hearlier hbusy (hbefore.trans_le hle) hmin
          obtain ⟨hsome, hnone⟩ := ih (lt_of_lt_of_le hfewer (Nat.le_of_lt_succ hsteps))
          refine ⟨fun slot hslot => ?_, fun hslot other hother => hnone hslot other (hends other hother)⟩
          obtain ⟨hfound, hlast⟩ := hsome slot hslot
          exact ⟨hfound.mono hearlier, fun other hother => hlast other (hends other hother)⟩

/-! ### The range of datetimes -/

namespace WorkingHours

theorem date_combine_zero (day : ℤ) : date (combine day 0) = day := by
  unfold date combine dayLength
  unfold Instant
  omega

theorem snapBack_ok {working : WorkingHours} {moment startsAt found : Instant}
    (h : working.snapBack moment startsAt = .ok found) :
    found = if startsAt < combine (date moment) working.startTime then
      combine (date moment - 1) working.endTime else moment := by
  unfold snapBack at h
  split at h
  · next hearly =>
    cases hday : checked (combine (date moment - 1) 0) with
    | error failure =>
        rw [hday] at h
        cases h
    | ok dayBefore =>
        rw [hday] at h
        rw [if_pos hearly, ← Except.ok.inj h, checked_ok hday]
        dsimp only
        rw [date_combine_zero]
  · next hearly =>
    rw [if_neg hearly]
    exact (Except.ok.inj h).symm

theorem latestEndChecked_ok {working : WorkingHours} {endsAt found : Instant}
    (h : working.latestEndChecked endsAt duration = .ok found) : found = working.latestEnd endsAt duration := by
  obtain ⟨moment, hmoment, hday⟩ := bind_eq_ok h
  obtain ⟨startsAt, hstarts, hsnap⟩ := bind_eq_ok hday
  obtain ⟨moment', hmoment', hfound⟩ := bind_eq_ok hsnap
  obtain rfl := checked_ok hmoment
  obtain rfl := checked_ok hstarts
  rw [checked_ok hfound, latestEnd, snapBack_ok hmoment']

end WorkingHours

/-- Where the search returns, it returns what it finds in unbounded time. -/
theorem latestFreeSlotChecked_ok {steps : ℕ} {found : Option (Instant × Instant)}
    (h : latestFreeSlotChecked duration earliestStart busy hours steps latestEnd = .ok found) :
    found = latestFreeSlot duration earliestStart busy hours steps latestEnd := by
  induction steps generalizing latestEnd with
  | zero => exact (Except.ok.inj h).symm
  | succ steps ih =>
      obtain ⟨endsAt, hends, h⟩ := bind_eq_ok h
      obtain ⟨startsAt, hstarts, h⟩ := bind_eq_ok h
      have hlatest : endsAt = hours.elim latestEnd fun hours => hours.latestEnd latestEnd duration := by
        cases hours with
        | none => exact (Except.ok.inj hends).symm
        | some working => exact WorkingHours.latestEndChecked_ok hends
      obtain rfl := checked_ok hstarts
      rw [latestFreeSlot, ← hlatest]
      split at h
      · next hearly =>
        rw [if_pos hearly]
        exact (Except.ok.inj h).symm
      · next hearly =>
        rw [if_neg hearly]
        cases hblocked : busy.filter (overlaps (endsAt - duration) endsAt) with
        | nil =>
            rw [hblocked] at h
            exact (Except.ok.inj h).symm
        | cons blocker blockers =>
            rw [hblocked] at h
            exact ih h

/-- A datetime that a step of the search may begin at: it is in range, on the clock of the working hours too,
and so is what lies two days and the duration before it. -/
structure WithinRange (duration : Instant) (hours : Option WorkingHours) (moment : Instant) : Prop where
  after_first : first + 2 * dayLength + duration ≤ moment
  after_first_local : ∀ working, hours = some working →
    first + 2 * dayLength + duration ≤ moment + working.utcOffset
  before_last : moment ≤ last
  before_last_local : ∀ working, hours = some working → moment + working.utcOffset ≤ last

namespace WorkingHours

theorem snapBack_returns {working : WorkingHours} {moment : Instant} (startsAt : Instant)
    (hfirst : first + dayLength ≤ moment) (hlast : moment ≤ last) :
    working.snapBack moment startsAt = .ok (if startsAt < combine (date moment) working.startTime then
      combine (date moment - 1) working.endTime else moment) := by
  unfold snapBack
  split
  · have hday : checked (combine (date moment - 1) 0) = .ok (combine (date moment - 1) 0) := by
      refine checked_of_mem ?_ ?_
      · unfold combine date dayLength first at *
        unfold Instant at *
        omega
      · unfold combine date dayLength last at *
        unfold Instant at *
        omega
    rw [hday]
    exact congrArg (fun day => Except.ok (combine day working.endTime)) (date_combine_zero _)
  · rfl

theorem le_latestEnd_add (endsAt duration : Instant) (working : WorkingHours) :
    endsAt ≤ working.latestEnd endsAt duration + 2 * dayLength := by
  have hstart := working.start_nonneg.trans working.start_before_end.le
  unfold latestEnd combine date dayLength at *
  unfold Instant at *
  dsimp only
  split
  · split
    · omega
    · omega
  · split
    · omega
    · omega

theorem latestEndChecked_returns {working : WorkingHours} (h0 : 0 < duration)
    (h : WithinRange duration (some working) latestEnd) :
    working.latestEndChecked latestEnd duration = .ok (working.latestEnd latestEnd duration) := by
  have hfirst := h.after_first_local working rfl
  have hlast := h.before_last_local working rfl
  have hearliest := h.after_first
  have hlatest := h.before_last
  have hmoment : checked (latestEnd + working.utcOffset) = .ok (latestEnd + working.utcOffset) := by
    refine checked_of_mem ?_ hlast
    unfold dayLength at hfirst
    unfold Instant at *
    omega
  -- Both ends of the day of the moment are less than a day away.
  have hdayEnd : latestEnd + working.utcOffset - dayLength ≤
      combine (date (latestEnd + working.utcOffset)) working.endTime := by
    have hstart := working.start_nonneg.trans working.start_before_end.le
    unfold combine date dayLength at *
    unfold Instant at *
    omega
  have hends : ∀ local', local' = (if combine (date (latestEnd + working.utcOffset)) working.endTime <
      latestEnd + working.utcOffset then combine (date (latestEnd + working.utcOffset)) working.endTime
      else latestEnd + working.utcOffset) → first + dayLength + duration ≤ local' ∧ local' ≤ last := by
    rintro local' rfl
    unfold dayLength at *
    unfold Instant at *
    split
    · omega
    · omega
  obtain ⟨hlocal, hlocal'⟩ := hends _ rfl
  have hfrom := working.le_latestEnd_add latestEnd duration
  have hto := latestEnd_le latestEnd duration working
  rw [latestEndChecked, hmoment, ok_bind]
  dsimp only
  rw [checked_of_mem, ok_bind, snapBack_returns, ok_bind]
  · show checked (working.latestEnd latestEnd duration) = _
    refine checked_of_mem ?_ (hto.trans hlatest)
    unfold Instant at *
    omega
  · unfold Instant at *
    omega
  · exact hlocal'
  · unfold dayLength at hlocal
    unfold Instant at *
    omega
  · unfold Instant at *
    omega

end WorkingHours

/-- Away from the ends of the range the search returns. -/
theorem latestFreeSlotChecked_returns (h0 : 0 < duration) {steps : ℕ} (h : WithinRange duration hours latestEnd)
    (hbusy : ∀ b ∈ busy, b.1 < latestEnd → WithinRange duration hours b.1) :
    latestFreeSlotChecked duration earliestStart busy hours steps latestEnd =
      .ok (latestFreeSlot duration earliestStart busy hours steps latestEnd) := by
  induction steps generalizing latestEnd with
  | zero => rfl
  | succ steps ih =>
      have hends : (hours.elim (pure latestEnd) fun hours => hours.latestEndChecked latestEnd duration) =
          .ok (hours.elim latestEnd fun hours => hours.latestEnd latestEnd duration) := by
        cases hours with
        | none => rfl
        | some working => exact WorkingHours.latestEndChecked_returns h0 h
      have hrange : first + duration ≤ (hours.elim latestEnd fun hours => hours.latestEnd latestEnd duration) ∧
          (hours.elim latestEnd fun hours => hours.latestEnd latestEnd duration) ≤ latestEnd := by
        have hfirst := h.after_first
        cases hours with
        | none =>
            refine ⟨?_, le_refl _⟩
            show first + duration ≤ latestEnd
            unfold dayLength at hfirst
            unfold Instant at *
            omega
        | some working =>
            have hfrom := working.le_latestEnd_add latestEnd duration
            refine ⟨?_, WorkingHours.latestEnd_le latestEnd duration working⟩
            show first + duration ≤ working.latestEnd latestEnd duration
            unfold Instant at *
            omega
      rw [latestFreeSlotChecked, hends, ok_bind, latestFreeSlot]
      generalize (hours.elim latestEnd fun hours => hours.latestEnd latestEnd duration) = endsAt at hrange ⊢
      obtain ⟨hfrom, hto⟩ := hrange
      have hstarts : checked (endsAt - duration) = .ok (endsAt - duration) := by
        have hlast := h.before_last
        refine checked_of_mem ?_ ?_
        · exact le_sub_iff_add_le.mpr hfrom
        · exact (sub_le_self endsAt h0.le).trans (hto.trans hlast)
      rw [hstarts, ok_bind]
      split
      · rfl
      · cases hblocked : busy.filter (overlaps (endsAt - duration) endsAt) with
        | nil => rfl
        | cons blocker blockers =>
            have hblocks : ∀ b ∈ blocker :: blockers, b ∈ busy ∧ b.1 < latestEnd := by
              intro b hb
              rw [← hblocked] at hb
              obtain ⟨hmem, hover⟩ := List.mem_filter.mp hb
              unfold overlaps at hover
              simp only [Bool.and_eq_true, decide_eq_true_eq] at hover
              exact ⟨hmem, hover.1.trans_le hto⟩
            obtain ⟨b, hb, hmin⟩ := exists_foldl_min blocker blockers
            obtain ⟨hmem, hbefore⟩ := hblocks b hb
            dsimp only
            rw [hmin]
            exact ih (hbusy b hmem hbefore) fun b' hb' hbefore' => hbusy b' hb' (hbefore'.trans hbefore)

/-- **The latest free slot**: what the search returns, if no sum is out of range, is a slot exactly when there
is a free one, and none ends later; and it returns unless it comes near an end of the range. -/
theorem latestFreeSlot_optimal (duration earliestStart latestEnd : Instant)
    (busy : List (Instant × Instant)) (hours : Option WorkingHours) (h0 : 0 < duration)
    (hlength : ∀ working, hours = some working → duration ≤ working.length)
    (hbusy : busy.length < maxPlacementSteps) :
    (∀ found, latestFreeSlotChecked duration earliestStart busy hours maxPlacementSteps latestEnd = .ok found →
      ((∃ slot, found = some slot) ↔ ∃ slot, FreeSlot duration earliestStart busy hours latestEnd slot) ∧
      ∀ slot, found = some slot → FreeSlot duration earliestStart busy hours latestEnd slot ∧
        ∀ other, FreeSlot duration earliestStart busy hours latestEnd other → other.2 ≤ slot.2) ∧
    (WithinRange duration hours latestEnd → (∀ b ∈ busy, b.1 < latestEnd → WithinRange duration hours b.1) →
      ∃ found, latestFreeSlotChecked duration earliestStart busy hours maxPlacementSteps latestEnd =
        .ok found) := by
  have hsteps : (busy.filter fun b => decide (b.1 < latestEnd)).length < maxPlacementSteps :=
    (List.length_filter_le ..).trans_lt hbusy
  obtain ⟨hsome, hnone⟩ := latestFreeSlot_spec earliestStart h0 hlength _ hsteps
  refine ⟨fun found hreturns => ?_, fun hrange hbusy => ⟨_, latestFreeSlotChecked_returns h0 hrange hbusy⟩⟩
  obtain rfl := latestFreeSlotChecked_ok hreturns
  refine ⟨⟨?_, ?_⟩, hsome⟩
  · rintro ⟨slot, hslot⟩
    exact ⟨slot, (hsome slot hslot).1⟩
  · rintro ⟨slot, hslot⟩
    cases hfound : latestFreeSlot duration earliestStart busy hours maxPlacementSteps latestEnd with
    | none => exact absurd hslot (hnone hfound slot)
    | some found => exact ⟨found, rfl⟩

end freeSlots

/-- Between eight and twenty, with something in the way at the end of the day. -/
theorem latestFreeSlot_optimal_evening : ∃ slot,
    latestFreeSlotChecked (hours 1) 0 [(hours 19, hours 21)] (some .standard) maxPlacementSteps (hours 20) =
      .ok (some slot) := by
  have hrange : ∀ moment : Instant, hours 19 ≤ moment → moment ≤ hours 20 →
      WithinRange (hours 1) (some .standard) moment := by
    intro moment hfrom hto
    have hfirst : first + 2 * dayLength + hours 1 ≤ hours 19 := by decide
    have hlast : hours 20 ≤ last := by decide
    refine ⟨hfirst.trans hfrom, ?_, hto.trans hlast, ?_⟩
    · rintro working hworking
      obtain rfl := Option.some.inj hworking
      exact (hfirst.trans hfrom).trans_eq (add_zero moment).symm
    · rintro working hworking
      obtain rfl := Option.some.inj hworking
      exact (add_zero moment).trans_le (hto.trans hlast)
  obtain ⟨hoptimal, hreturns⟩ := latestFreeSlot_optimal (hours 1) 0 (hours 20) [(hours 19, hours 21)]
    (some .standard) (by decide) (by rintro working hworking; obtain rfl := Option.some.inj hworking; decide)
    (by decide)
  obtain ⟨found, hfound⟩ := hreturns (hrange _ (by decide) (by decide)) fun b hb _ => by
    obtain rfl := List.mem_singleton.mp hb
    exact hrange _ (by decide) (by decide)
  obtain ⟨slot, rfl⟩ := (hoptimal found hfound).1.mpr
    ⟨(hours 18, hours 19), by decide, by decide, by decide, by
      rintro working hworking
      obtain rfl := Option.some.inj hworking
      decide, by decide⟩
  exact ⟨slot, hfound⟩

/-- Midnight of the last day there is. -/
def lastDay : Instant := last - dayLength + 1

/-- From eight to twenty, in a zone that is an hour ahead. -/
def hourAhead : WorkingHours := { WorkingHours.standard with utcOffset := hours 1 }

/-- On the last evening there is no clock that is an hour ahead, so the search raises, with the whole day
free. -/
theorem last_evening_raises :
    ¬ ∀ (duration earliestStart latestEnd : Instant) (busy : List (Instant × Instant))
      (hours : Option WorkingHours), 0 < duration →
      (∀ working, hours = some working → duration ≤ working.length) → busy.length < maxPlacementSteps →
      ((∃ slot, latestFreeSlotChecked duration earliestStart busy hours maxPlacementSteps latestEnd =
          .ok (some slot)) ↔ ∃ slot, FreeSlot duration earliestStart busy hours latestEnd slot) := by
  intro h
  have hfree : FreeSlot (hours 1) lastDay [] (some hourAhead) (lastDay + hours 23 + minutes 30)
      (lastDay + hours 10, lastDay + hours 11) := by
    refine ⟨by decide, by decide, by decide, ?_, fun _ hb => absurd hb List.not_mem_nil⟩
    rintro working hworking
    obtain rfl := Option.some.inj hworking
    decide
  have hlength : ∀ working, some hourAhead = some working → hours 1 ≤ working.length := by
    rintro working hworking
    obtain rfl := Option.some.inj hworking
    decide
  obtain ⟨slot, hslot⟩ := (h (hours 1) lastDay (lastDay + hours 23 + minutes 30) [] (some hourAhead) (by decide)
    hlength (by decide)).mpr ⟨_, hfree⟩
  have hraises : latestFreeSlotChecked (hours 1) lastDay [] (some hourAhead) maxPlacementSteps
      (lastDay + hours 23 + minutes 30) = .error .outOfRange := by decide
  rw [hraises] at hslot
  cases hslot

end PersonalOS
