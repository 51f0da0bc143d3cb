import PersonalOS.ProviderCalendar
import Mathlib.Data.List.Perm.Basic
import Mathlib.Data.List.Pairwise

/-! # A plan is sound, and its own fixed point

* **Slots.** What `latestFreeSlot` finds lies in its window, within working hours and free of what
  is busy; a block that stays does so by the same test.
* **Plan.** `SoundPlan`: one change a logical key, a change or a conflict for every prep block, and
  every block that is not over where its spec wants it and free.
* **Again.** `Calendar.apply` makes the creations and moves of a plan; planning on what it leaves
  keeps everything where it is. -/

namespace PersonalOS

/-! ### Slots -/

theorem foldl_min_le (starts : List Instant) (first : Instant) : starts.foldl min first ≤ first := by
  induction starts generalizing first with
  | nil => exact Int.le_refl _
  | cons start starts ih => exact Int.le_trans (ih _) (Int.min_le_left ..)

/-- A slot that was found fits its window, and nothing that is busy overlaps it. -/
theorem latestFreeSlot_eq_some {duration earliestStart : Instant} {busy : List (Instant × Instant)}
    {hours : Option WorkingHours} {steps : ℕ} {latestEnd : Instant} {slot : Instant × Instant}
    (h : latestFreeSlot duration earliestStart busy hours steps latestEnd = some slot) :
    earliestStart ≤ slot.1 ∧ slot.2 ≤ latestEnd ∧ (∀ b ∈ busy, overlaps slot.1 slot.2 b = false) ∧
      ∀ working, hours = some working → ∃ bound, slot.2 = working.latestEnd bound duration ∧
        slot.1 = slot.2 - duration := by
  induction steps generalizing latestEnd with
  | zero => cases h
  | succ steps ih =>
      unfold latestFreeSlot at h
      dsimp only at h
      generalize hend : (hours.elim latestEnd fun hours => hours.latestEnd latestEnd duration) = endsAt
        at h
      have hle : endsAt ≤ latestEnd := by
        rw [← hend]
        cases hours with
        | none => exact Int.le_refl _
        | some working => exact WorkingHours.latestEnd_le ..
      split at h
      · cases h
      rename_i hearliest
      split at h
      · rename_i hfree
        obtain rfl := Option.some.inj h
        refine ⟨Int.not_lt.mp hearliest, hle, fun b hb => ?_, ?_⟩
        · have hnot := List.filter_eq_nil_iff.mp hfree b hb
          simpa using hnot
        · rintro working rfl
          exact ⟨latestEnd, hend.symm, rfl⟩
      · rename_i blocker blockers hblocked
        have hmem : blocker ∈ busy.filter (overlaps (endsAt - duration) endsAt) := by
          rw [hblocked]
          exact List.mem_cons_self
        have hover := (List.mem_filter.mp hmem).2
        have hbefore : blocker.1 < endsAt := by
          unfold overlaps at hover
          simp only [Bool.and_eq_true, decide_eq_true_eq] at hover
          exact hover.1
        obtain ⟨h₁, h₂, h₃, h₄⟩ := ih h
        have hmin := foldl_min_le (blockers.map (·.1)) blocker.1
        refine ⟨h₁, ?_, h₃, h₄⟩
        unfold Instant at *
        omega

section place

variable {request : InterviewRequest} {now : Instant} {hours : WorkingHours} {spec : PrepBlockSpec}
variable {busy : List (Instant × Instant)} {existing : Option (Instant × Instant)}
variable {slot : Instant × Instant}

/-- The block is where its spec wants it, and free. -/
structure PrepBlockSpec.Fits (request : InterviewRequest) (now : Instant) (hours : WorkingHours)
    (busy : List (Instant × Instant)) (slot : Instant × Instant) (spec : PrepBlockSpec) : Prop where
  horizon : request.startsAt - spec.horizon ≤ slot.1
  ahead : now ≤ slot.1
  lead : slot.2 ≤ request.startsAt - spec.lead
  working : spec.workingHoursOnly = true → hours.contains slot.1 slot.2 = true
  free : ∀ b ∈ busy, overlaps slot.1 slot.2 b = false

/-- The block is over, or where its spec wants it. -/
def PrepBlockSpec.Placed (request : InterviewRequest) (now : Instant) (hours : WorkingHours)
    (busy : List (Instant × Instant)) (slot : Instant × Instant) (spec : PrepBlockSpec) : Prop :=
  slot.2 ≤ now ∨ spec.Fits request now hours busy slot

theorem PrepBlockSpec.Placed.mono {busy' : List (Instant × Instant)}
    (h : spec.Placed request now hours busy' slot) (hsub : ∀ b ∈ busy, b ∈ busy') :
    spec.Placed request now hours busy slot := by
  rcases h with hover | hfits
  · exact Or.inl hover
  · exact Or.inr { hfits with free := fun b hb => hfits.free b (hsub b hb) }

theorem PrepBlockSpec.placed_of_stays (h : spec.stays request now hours busy slot = true) :
    spec.Placed request now hours busy slot := by
  unfold stays hoursOf earliestStart latestEnd at h
  simp only [Bool.or_eq_true, Bool.and_eq_true, decide_eq_true_eq, Bool.not_eq_true'] at h
  rcases h with hover | ⟨⟨⟨hearliest, hlatest⟩, hworking⟩, hfree⟩
  · exact Or.inl hover
  · refine Or.inr ⟨?_, ?_, hlatest, fun honly => ?_, fun b hb => ?_⟩
    · exact Int.le_trans (Int.le_max_left ..) hearliest
    · exact Int.le_trans (Int.le_max_right ..) hearliest
    · rw [if_pos honly] at hworking
      exact hworking
    · have hnot := List.any_eq_false.mp hfree b hb
      simpa using hnot

/-- Wherever a block is put, it is over, or where its spec wants it: as long as one that is to lie
within working hours has a length that is not negative. -/
theorem PrepBlockSpec.placed_of_place (h0 : spec.workingHoursOnly = true → 0 ≤ spec.duration)
    (hlength : spec.workingHoursOnly = true → spec.duration ≤ hours.length)
    (h : spec.place request now hours busy existing = some slot) :
    spec.Placed request now hours busy slot := by
  unfold place at h
  split at h
  · rename_i block hblock
    obtain rfl := Option.some.inj h
    exact placed_of_stays (Option.filter_eq_some_iff.mp hblock).2
  · obtain ⟨hearliest, hlatest, hfree, hworking⟩ := latestFreeSlot_eq_some h
    refine Or.inr ⟨?_, ?_, hlatest, fun honly => ?_, hfree⟩
    · exact Int.le_trans (Int.le_max_left ..) hearliest
    · exact Int.le_trans (Int.le_max_right ..) hearliest
    · obtain ⟨bound, hend, hstart⟩ := hworking hours (if_pos honly)
      rw [hstart, hend]
      exact WorkingHours.contains_latestEnd (h0 honly) (hlength honly)

/-- A block that is where it was put is put there again. -/
theorem PrepBlockSpec.place_again (h : spec.place request now hours busy existing = some slot) :
    spec.place request now hours busy (some slot) = some slot := by
  cases hstays : spec.stays request now hours busy slot with
  | true =>
      have hsome : (some slot).filter (fun block => spec.stays request now hours busy block) =
          some slot := by
        simp [hstays]
      unfold place
      rw [hsome]
  | false =>
      have hnone : (some slot).filter (fun block => spec.stays request now hours busy block) = none := by
        simp [hstays]
      unfold place at h ⊢
      rw [hnone]
      split at h
      · rename_i block hblock
        obtain rfl := Option.some.inj h
        rw [(Option.filter_eq_some_iff.mp hblock).2] at hstays
        cases hstays
      · exact h

end place

/-! ### Logical keys -/

theorem prepBlockKey_toList (applicationId : UUID) (slot : String) :
    (prepBlockKey applicationId slot).toList =
      "prep:".toList ++ ((UUID.text applicationId).toList ++ (":".toList ++ slot.toList)) := by
  change ("prep:" ++ UUID.text applicationId ++ ":" ++ slot).toList = _
  simp only [String.toList_append, List.append_assoc]

theorem interviewEventKey_toList (applicationId : UUID) :
    (interviewEventKey applicationId).toList =
      "interview:".toList ++ (UUID.text applicationId).toList := by
  change ("interview:" ++ UUID.text applicationId).toList = _
  simp only [String.toList_append]

theorem prepBlockKey_injective (applicationId : UUID) :
    Function.Injective (prepBlockKey applicationId) := by
  intro slot slot' h
  have hlist := congrArg String.toList h
  rw [prepBlockKey_toList, prepBlockKey_toList] at hlist
  simp only [List.append_cancel_left_eq] at hlist
  exact String.ext hlist

theorem prepBlockKey_ne_interviewEventKey (applicationId : UUID) (slot : String) :
    prepBlockKey applicationId slot ≠ interviewEventKey applicationId := by
  intro h
  have hlist := congrArg String.toList h
  rw [prepBlockKey_toList, interviewEventKey_toList] at hlist
  have hhead := congrArg List.head? hlist
  cases hhead

theorem prepBlockKey_ne_empty (applicationId : UUID) (slot : String) :
    prepBlockKey applicationId slot ≠ "" := by
  intro h
  have hlist := congrArg String.toList h
  rw [prepBlockKey_toList] at hlist
  cases hlist

theorem interviewEventKey_ne_empty (applicationId : UUID) : interviewEventKey applicationId ≠ "" := by
  intro h
  have hlist := congrArg String.toList h
  rw [interviewEventKey_toList] at hlist
  cases hlist

/-! ### The prep blocks -/

section prep

variable {isoformat : Instant → String} {request : InterviewRequest} {events : List CalendarEvent}
variable {now : Instant} {hours : WorkingHours} {spec : PrepBlockSpec} {specs : List PrepBlockSpec}
variable {busy : List (Instant × Instant)} {prep : List ScheduleChange × List ScheduleConflict}

/-- What planning the first of the blocks does: it finds no place and reports that, or it takes one
that the blocks after it plan around. -/
theorem planPrepBlocks_cons
    (h : planPrepBlocks isoformat request events now hours (spec :: specs) busy = .ok prep) :
    (spec.workingHoursOnly = true → spec.duration ≤ hours.length) ∧
      ((∃ rest, spec.place request now hours busy
          (ownTimes request events (prepBlockKey request.applicationId spec.slot)) = none ∧
        planPrepBlocks isoformat request events now hours specs busy = .ok rest ∧
        prep = (rest.1, spec.unplaceable isoformat request now
          (ownEvent request events (prepBlockKey request.applicationId spec.slot)) :: rest.2)) ∨
      ∃ rest slot, spec.place request now hours busy
          (ownTimes request events (prepBlockKey request.applicationId spec.slot)) = some slot ∧
        planPrepBlocks isoformat request events now hours specs (busy ++ [slot]) = .ok rest ∧
        prep = (scheduleChange (prepBlockKey request.applicationId spec.slot) .prep spec.title slot
          (ownEvent request events (prepBlockKey request.applicationId spec.slot)) :: rest.1,
            rest.2)) := by
  unfold planPrepBlocks at h
  dsimp only at h
  split at h
  · cases h
  rename_i hfits
  refine ⟨fun honly => ?_, ?_⟩
  · unfold PrepBlockSpec.hoursOf at hfits
    rw [if_pos honly] at hfits
    simpa using hfits
  split at h
  · rename_i hplace
    obtain ⟨rest, hrest, hprep⟩ := bind_eq_ok h
    exact Or.inl ⟨rest, hplace, hrest, (Except.ok.inj hprep).symm⟩
  · rename_i slot hplace
    obtain ⟨rest, hrest, hprep⟩ := bind_eq_ok h
    exact Or.inr ⟨rest, slot, hplace, hrest, (Except.ok.inj hprep).symm⟩

theorem hoursOf_any_eq_false
    (hfits : spec.workingHoursOnly = true → spec.duration ≤ hours.length) :
    ((spec.hoursOf hours).any fun hours => decide (hours.length < spec.duration)) = false := by
  unfold PrepBlockSpec.hoursOf
  split
  · rename_i honly
    simpa using hfits honly
  · rfl

theorem planPrepBlocks_of_place_none {rest : List ScheduleChange × List ScheduleConflict}
    (hfits : spec.workingHoursOnly = true → spec.duration ≤ hours.length)
    (hplace : spec.place request now hours busy
      (ownTimes request events (prepBlockKey request.applicationId spec.slot)) = none)
    (hrest : planPrepBlocks isoformat request events now hours specs busy = .ok rest) :
    planPrepBlocks isoformat request events now hours (spec :: specs) busy =
      .ok (rest.1, spec.unplaceable isoformat request now
        (ownEvent request events (prepBlockKey request.applicationId spec.slot)) :: rest.2) := by
  unfold ownTimes at hplace
  unfold planPrepBlocks
  dsimp only
  rw [hoursOf_any_eq_false hfits, hplace]
  dsimp only
  rw [hrest]
  rfl

theorem planPrepBlocks_of_place_some {rest : List ScheduleChange × List ScheduleConflict}
    {slot : Instant × Instant}
    (hfits : spec.workingHoursOnly = true → spec.duration ≤ hours.length)
    (hplace : spec.place request now hours busy
      (ownTimes request events (prepBlockKey request.applicationId spec.slot)) = some slot)
    (hrest : planPrepBlocks isoformat request events now hours specs (busy ++ [slot]) = .ok rest) :
    planPrepBlocks isoformat request events now hours (spec :: specs) busy =
      .ok (scheduleChange (prepBlockKey request.applicationId spec.slot) .prep spec.title slot
        (ownEvent request events (prepBlockKey request.applicationId spec.slot)) :: rest.1,
          rest.2) := by
  unfold ownTimes at hplace
  unfold planPrepBlocks
  dsimp only
  rw [hoursOf_any_eq_false hfits, hplace]
  dsimp only
  rw [hrest]
  rfl

@[simp] theorem scheduleChange_logicalKey (key : String) (role : CalendarEventRole) (title : String)
    (slot : Instant × Instant) (existing : Option CalendarEvent) :
    (scheduleChange key role title slot existing).logicalKey = key := by
  cases existing <;> rfl

@[simp] theorem scheduleChange_role (key : String) (role : CalendarEventRole) (title : String)
    (slot : Instant × Instant) (existing : Option CalendarEvent) :
    (scheduleChange key role title slot existing).role = role := by
  cases existing <;> rfl

@[simp] theorem scheduleChange_slot (key : String) (role : CalendarEventRole) (title : String)
    (slot : Instant × Instant) (existing : Option CalendarEvent) :
    (scheduleChange key role title slot existing).slot = slot := by
  cases existing <;> rfl

/-- A change keeps an event exactly where it is. -/
theorem scheduleChange_op_eq_keep {key title : String} {role : CalendarEventRole}
    {slot : Instant × Instant} {existing : Option CalendarEvent}
    (h : existing.map (fun event => (event.startsAt, event.endsAt)) = some slot) :
    (scheduleChange key role title slot existing).op = .keep := by
  obtain ⟨event, rfl, hslot⟩ := Option.map_eq_some_iff.mp h
  unfold scheduleChange
  exact if_neg (not_not.mpr hslot)

theorem reconciles_scheduleChange {key title : String} {role : CalendarEventRole}
    {slot : Instant × Instant} (hkey : key ≠ "") :
    (scheduleChange key role title slot (ownEvent request events key)).Reconciles request events := by
  unfold ScheduleChange.Reconciles
  rw [scheduleChange_logicalKey, scheduleChange_role, scheduleChange_slot]
  exact ⟨hkey, title, rfl⟩

/-- Two blocks that do not overlap, as far as the first is not over. -/
def ClearOf (now : Instant) (change other : ScheduleChange) : Prop :=
  change.endsAt ≤ now ∨ overlaps change.startsAt change.endsAt other.slot = false

theorem overlaps_comm (slot other : Instant × Instant) :
    overlaps slot.1 slot.2 other = overlaps other.1 other.2 slot := by
  unfold overlaps
  exact Bool.and_comm _ _

/-- Whichever of two blocks was placed around the other, neither is in the way of the other. -/
theorem clear_of_placed {change other : ScheduleChange} {spec' : PrepBlockSpec}
    {busy' : List (Instant × Instant)}
    (hchange : spec.Placed request now hours busy change.slot)
    (hother : spec'.Placed request now hours busy' other.slot) (hmem : change.slot ∈ busy') :
    ClearOf now change other ∧ ClearOf now other change := by
  rcases hother with hover | hfits
  · refine ⟨?_, Or.inl hover⟩
    rcases hchange with hover' | hfits'
    · exact Or.inl hover'
    · have hahead := hfits'.ahead
      have hnot : overlaps change.startsAt change.endsAt other.slot = false := by
        unfold overlaps ScheduleChange.slot at *
        unfold Instant at *
        simp only [Bool.and_eq_false_iff, decide_eq_false_iff_not]
        right
        omega
      exact Or.inr hnot
  · have hnot := hfits.free _ hmem
    refine ⟨Or.inr ?_, Or.inr hnot⟩
    rw [← hnot]
    exact overlaps_comm change.slot other.slot

/-- The changes and conflicts of the prep blocks: each is one spec's, every spec has one, and every
block is over or fits around what is busy and around the others. -/
structure SoundPrep (request : InterviewRequest) (events : List CalendarEvent) (now : Instant)
    (hours : WorkingHours) (specs : List PrepBlockSpec) (busy : List (Instant × Instant))
    (prep : List ScheduleChange × List ScheduleConflict) : Prop where
  accounted : (prep.1.map (·.logicalKey) ++ prep.2.map (·.logicalKey)).Perm
    (specs.map fun spec => prepBlockKey request.applicationId spec.slot)
  unplaceable : ∀ conflict ∈ prep.2, conflict.kind = .prepUnplaceable
  reconciles : ∀ change ∈ prep.1, change.role = .prep ∧ change.Reconciles request events
  placed : ∀ change ∈ prep.1, ∃ spec ∈ specs,
    change.logicalKey = prepBlockKey request.applicationId spec.slot ∧
      spec.Placed request now hours busy change.slot
  clear : prep.1.Pairwise fun change other => ClearOf now change other ∧ ClearOf now other change

theorem planPrepBlocks_sound (h0 : ∀ spec ∈ specs, spec.workingHoursOnly = true → 0 ≤ spec.duration)
    (h : planPrepBlocks isoformat request events now hours specs busy = .ok prep) :
    SoundPrep request events now hours specs busy prep := by
  induction specs generalizing busy prep with
  | nil =>
      obtain rfl := Except.ok.inj h
      exact ⟨List.Perm.refl _, by simp, by simp, by simp, List.Pairwise.nil⟩
  | cons spec specs ih =>
      have h0' := fun spec' hspec' => h0 spec' (List.mem_cons_of_mem _ hspec')
      obtain ⟨hlength, ⟨rest, -, hrest, rfl⟩ | ⟨rest, slot, hplace, hrest, rfl⟩⟩ :=
        planPrepBlocks_cons h
      · obtain ⟨haccounted, hunplaceable, hreconciles, hplaced, hclear⟩ := ih h0' hrest
        refine ⟨?_, ?_, hreconciles, fun change hchange => ?_, hclear⟩
        · rw [List.map_cons, List.map_cons]
          exact List.perm_middle.trans (haccounted.cons _)
        · intro conflict hconflict
          rcases List.mem_cons.mp hconflict with rfl | hin
          · rfl
          · exact hunplaceable conflict hin
        · obtain ⟨spec', hspec', hspot⟩ := hplaced change hchange
          exact ⟨spec', List.mem_cons_of_mem _ hspec', hspot⟩
      · obtain ⟨haccounted, hunplaceable, hreconciles, hplaced, hclear⟩ := ih h0' hrest
        have hhead : spec.Placed request now hours busy slot :=
          PrepBlockSpec.placed_of_place (h0 spec List.mem_cons_self) hlength hplace
        refine ⟨?_, hunplaceable, ?_, ?_, ?_⟩
        · rw [List.map_cons, List.map_cons, scheduleChange_logicalKey]
          exact haccounted.cons _
        · intro change hchange
          rcases List.mem_cons.mp hchange with rfl | hin
          · exact ⟨scheduleChange_role .., reconciles_scheduleChange (prepBlockKey_ne_empty _ _)⟩
          · exact hreconciles change hin
        · intro change hchange
          rcases List.mem_cons.mp hchange with rfl | hin
          · refine ⟨spec, List.mem_cons_self, scheduleChange_logicalKey .., ?_⟩
            rw [scheduleChange_slot]
            exact hhead
          · obtain ⟨spec', hspec', hkey, hspot⟩ := hplaced change hin
            refine ⟨spec', List.mem_cons_of_mem _ hspec', hkey, hspot.mono fun b hb => ?_⟩
            exact List.mem_append_left _ hb
        · refine List.pairwise_cons.mpr ⟨fun change hchange => ?_, hclear⟩
          obtain ⟨spec', -, -, hspot⟩ := hplaced change hchange
          rw [← scheduleChange_slot (prepBlockKey request.applicationId spec.slot) .prep spec.title
            slot (ownEvent request events (prepBlockKey request.applicationId spec.slot))] at hhead
          refine clear_of_placed hhead hspot ?_
          rw [scheduleChange_slot]
          exact List.mem_append_right _ List.mem_cons_self

/-- What a second planning does with the blocks of a first one: every block that has a place keeps
it, and every block that has none still has none. -/
structure SamePrep (prep again : List ScheduleChange × List ScheduleConflict) : Prop where
  keeps : ∀ change ∈ again.1, change.op = .keep
  slots : again.1.map (fun change => (change.logicalKey, change.slot)) =
    prep.1.map fun change => (change.logicalKey, change.slot)
  conflicts : again.2.map (fun conflict => (conflict.kind, conflict.logicalKey)) =
    prep.2.map fun conflict => (conflict.kind, conflict.logicalKey)

/-- Planned again on a calendar where every change was made and every other block is where it was,
the prep blocks stay. -/
theorem planPrepBlocks_again {events' : List CalendarEvent}
    (h : planPrepBlocks isoformat request events now hours specs busy = .ok prep)
    (hchanges : ∀ change ∈ prep.1, ownTimes request events' change.logicalKey = some change.slot)
    (hconflicts : ∀ conflict ∈ prep.2, ownTimes request events' conflict.logicalKey =
      ownTimes request events conflict.logicalKey) :
    ∃ again, planPrepBlocks isoformat request events' now hours specs busy = .ok again ∧
      SamePrep prep again := by
  induction specs generalizing busy prep with
  | nil =>
      obtain rfl := Except.ok.inj h
      exact ⟨([], []), rfl, by simp, rfl, rfl⟩
  | cons spec specs ih =>
      obtain ⟨hlength, ⟨rest, hplace, hrest, rfl⟩ | ⟨rest, slot, hplace, hrest, rfl⟩⟩ :=
        planPrepBlocks_cons h
      · obtain ⟨again, hagain, hkeeps, hslots, hsame⟩ := ih hrest hchanges
          fun conflict hconflict => hconflicts conflict (List.mem_cons_of_mem _ hconflict)
        have htimes := hconflicts _ List.mem_cons_self
        dsimp only [PrepBlockSpec.unplaceable] at htimes
        rw [← htimes] at hplace
        refine ⟨_, planPrepBlocks_of_place_none hlength hplace hagain, hkeeps, hslots, ?_⟩
        rw [List.map_cons, List.map_cons, hsame]
        rfl
      · obtain ⟨again, hagain, hkeeps, hslots, hsame⟩ := ih hrest
          (fun change hchange => hchanges change (List.mem_cons_of_mem _ hchange)) hconflicts
        have htimes := hchanges _ List.mem_cons_self
        rw [scheduleChange_logicalKey, scheduleChange_slot] at htimes
        -- The block is where the first planning put it, so it is put there again.
        have hplace' : spec.place request now hours busy
            (ownTimes request events' (prepBlockKey request.applicationId spec.slot)) = some slot := by
          rw [htimes]
          exact PrepBlockSpec.place_again hplace
        refine ⟨_, planPrepBlocks_of_place_some hlength hplace' hagain, ?_, ?_, hsame⟩
        · intro change hchange
          rcases List.mem_cons.mp hchange with rfl | hin
          · exact scheduleChange_op_eq_keep htimes
          · exact hkeeps change hin
        · rw [List.map_cons, List.map_cons, hslots, scheduleChange_logicalKey,
            scheduleChange_logicalKey, scheduleChange_slot, scheduleChange_slot]

end prep

/-! ### The plan -/

section plan

variable {isoformat : Instant → String} {request : InterviewRequest} {events : List CalendarEvent}
variable {now : Instant} {hours : WorkingHours} {prepBlocks : List PrepBlockSpec}
variable {plan : InterviewSchedulePlan}

/-- The interview's own change. -/
def interviewChange (request : InterviewRequest) (events : List CalendarEvent) : ScheduleChange :=
  scheduleChange (interviewEventKey request.applicationId) .interview request.title
    (request.startsAt, request.endsAt)
    (ownEvent request events (interviewEventKey request.applicationId))

/-- What is booked over the interview. -/
def interviewOverlaps (isoformat : Instant → String) (request : InterviewRequest)
    (foreign : List CalendarEvent) : List ScheduleConflict :=
  (foreign.filter fun event =>
    overlaps request.startsAt request.endsAt (event.startsAt, event.endsAt)).map
      (interviewOverlap isoformat request)

/-- What the prep blocks are placed around: what else is booked, and the interview. -/
def busySlots (request : InterviewRequest) (foreign : List CalendarEvent) : List (Instant × Instant) :=
  foreign.map (fun event => (event.startsAt, event.endsAt)) ++ [(request.startsAt, request.endsAt)]

/-- A plan for an interview that is ahead: its change, and the prep blocks around it. -/
theorem planInterviewSchedule_ok (hahead : now < request.startsAt) :
    planInterviewSchedule isoformat request events now hours prepBlocks = .ok plan ↔
      ∃ prep, planPrepBlocks isoformat request events now hours prepBlocks
          (busySlots request (foreignEvents request events)) = .ok prep ∧
        plan =
          { applicationId := request.applicationId
            interviewKey := interviewEventKey request.applicationId
            interviewStartsAt := request.startsAt
            interviewEndsAt := request.endsAt
            changes := interviewChange request events :: prep.1
            conflicts := interviewOverlaps isoformat request (foreignEvents request events) ++
              prep.2 } := by
  unfold planInterviewSchedule
  dsimp only
  rw [if_neg (not_le.mpr hahead)]
  constructor
  · intro h
    obtain ⟨prep, hprep, hplan⟩ := bind_eq_ok h
    exact ⟨prep, hprep, (Except.ok.inj hplan).symm⟩
  · rintro ⟨prep, hprep, rfl⟩
    unfold busySlots at hprep
    rw [hprep]
    rfl

/-- One change a logical key, a change or a conflict for every prep block, and every block that is
not over where its spec wants it and free. -/
structure SoundPlan (request : InterviewRequest) (events : List CalendarEvent) (now : Instant)
    (hours : WorkingHours) (prepBlocks : List PrepBlockSpec) (plan : InterviewSchedulePlan) :
    Prop where
  keys_nodup : (plan.changes.map (·.logicalKey)).Nodup
  accounted : ∀ spec ∈ prepBlocks, Xor
    (∃ change ∈ plan.changes, change.logicalKey = prepBlockKey request.applicationId spec.slot)
    (∃ conflict ∈ plan.conflicts, conflict.kind = .prepUnplaceable ∧
      conflict.logicalKey = prepBlockKey request.applicationId spec.slot)
  placed : ∀ change ∈ plan.changes, change.role = .prep → ∃ spec ∈ prepBlocks,
    change.logicalKey = prepBlockKey request.applicationId spec.slot ∧
      spec.Placed request now hours (busySlots request (foreignEvents request events)) change.slot
  clear : ∀ change ∈ plan.changes, change.role = .prep → ∀ other ∈ plan.changes, other.role = .prep →
    other.logicalKey ≠ change.logicalKey → ClearOf now change other

/-- A plan to which nothing is left to do: it keeps every event of a first plan where that put it,
and has its conflicts. -/
structure KeepsPlan (plan again : InterviewSchedulePlan) : Prop where
  keeps : ∀ change ∈ again.changes, change.op = .keep
  slots : again.changes.map (fun change => (change.logicalKey, change.slot)) =
    plan.changes.map fun change => (change.logicalKey, change.slot)
  conflicts : again.conflicts.map (fun conflict => (conflict.kind, conflict.logicalKey)) =
    plan.conflicts.map fun conflict => (conflict.kind, conflict.logicalKey)

theorem interviewChange_key : (interviewChange request events).logicalKey =
    interviewEventKey request.applicationId :=
  scheduleChange_logicalKey ..

/-- The logical keys of a plan's changes are all different, and none is that of a prep block with
nowhere to go. -/
theorem nodup_plan_keys {prep : List ScheduleChange × List ScheduleConflict}
    {busy : List (Instant × Instant)} (hslots : (prepBlocks.map (·.slot)).Nodup)
    (h : SoundPrep request events now hours prepBlocks busy prep) :
    (((interviewChange request events :: prep.1).map (·.logicalKey)) ++
      prep.2.map (·.logicalKey)).Nodup := by
  have hkeys : (prepBlocks.map fun spec => prepBlockKey request.applicationId spec.slot).Nodup := by
    have hmap := hslots.map (prepBlockKey_injective request.applicationId)
    rw [List.map_map] at hmap
    exact hmap
  have hprep := h.accounted.nodup_iff.mpr hkeys
  rw [List.map_cons, List.cons_append, List.nodup_cons]
  refine ⟨fun hmem => ?_, hprep⟩
  have hspec := h.accounted.mem_iff.mp hmem
  obtain ⟨spec, -, hspec⟩ := List.mem_map.mp hspec
  rw [interviewChange_key] at hspec
  exact prepBlockKey_ne_interviewEventKey _ _ hspec

theorem soundPlan_of_soundPrep {prep : List ScheduleChange × List ScheduleConflict}
    (hslots : (prepBlocks.map (·.slot)).Nodup)
    (h : SoundPrep request events now hours prepBlocks
      (busySlots request (foreignEvents request events)) prep)
    (hchanges : plan.changes = interviewChange request events :: prep.1)
    (hconflicts : plan.conflicts =
      interviewOverlaps isoformat request (foreignEvents request events) ++ prep.2) :
    SoundPlan request events now hours prepBlocks plan := by
  have hkeys := nodup_plan_keys hslots h
  have hinterview : (interviewChange request events).role = .interview := scheduleChange_role ..
  refine ⟨?_, fun spec hspec => ?_, ?_, ?_⟩
  · rw [hchanges]
    exact hkeys.of_append_left
  · -- A prep block's key is among the keys of its changes or among those of its conflicts.
    have hmem := h.accounted.mem_iff.mpr (List.mem_map_of_mem hspec)
    have hoverlap : ∀ conflict ∈ interviewOverlaps isoformat request (foreignEvents request events),
        conflict.kind = .interviewOverlap := by
      intro conflict hconflict
      obtain ⟨event, -, rfl⟩ := List.mem_map.mp hconflict
      rfl
    rw [hchanges, hconflicts]
    rcases List.mem_append.mp hmem with hin | hin
    · obtain ⟨change, hchange, hkey⟩ := List.mem_map.mp hin
      refine Or.inl ⟨⟨change, List.mem_cons_of_mem _ hchange, hkey⟩, ?_⟩
      rintro ⟨conflict, hconflict, hkind, hkey'⟩
      rcases List.mem_append.mp hconflict with hover | hunplaceable
      · rw [hoverlap conflict hover] at hkind
        cases hkind
      · refine List.disjoint_of_nodup_append hkeys
          (List.mem_map_of_mem (List.mem_cons_of_mem _ hchange)) ?_
        rw [hkey, ← hkey']
        exact List.mem_map_of_mem hunplaceable
    · obtain ⟨conflict, hconflict, hkey⟩ := List.mem_map.mp hin
      refine Or.inr ⟨⟨conflict, List.mem_append_right _ hconflict,
        h.unplaceable conflict hconflict, hkey⟩, ?_⟩
      rintro ⟨change, hchange, hkey'⟩
      refine List.disjoint_of_nodup_append hkeys (List.mem_map_of_mem hchange) ?_
      rw [hkey', ← hkey]
      exact List.mem_map_of_mem hconflict
  · rw [hchanges]
    intro change hchange hrole
    rcases List.mem_cons.mp hchange with rfl | hin
    · rw [hinterview] at hrole
      cases hrole
    · exact h.placed change hin
  · rw [hchanges]
    intro change hchange hrole other hother hrole' hne
    rcases List.mem_cons.mp hchange with rfl | hin
    · rw [hinterview] at hrole
      cases hrole
    rcases List.mem_cons.mp hother with rfl | hin'
    · rw [hinterview] at hrole'
      cases hrole'
    have hneq : change ≠ other := fun heq => hne (by rw [heq])
    have hsymm : Std.Symm fun change other => ClearOf now change other ∧ ClearOf now other change :=
      ⟨fun _ _ hboth => ⟨hboth.2, hboth.1⟩⟩
    exact (h.clear.forall hin hin' hneq).1

/-- Every change of a plan is the one for its logical key on the calendar it was planned on. -/
theorem applyChanges_reads (provider : CalendarProvider) (stamp : ScheduleChange → String)
    {changes : List ScheduleChange} (calendar : Calendar)
    (hnodup : (changes.map (·.logicalKey)).Nodup)
    (h : ∀ change ∈ changes, change.Reconciles request calendar.events) :
    let after := changes.foldl (Calendar.applyChange provider stamp request.applicationId) calendar
    foreignEvents request after.events = foreignEvents request calendar.events ∧
      (∀ key, key ∉ changes.map (·.logicalKey) →
        ownEvent request after.events key = ownEvent request calendar.events key) ∧
      ∀ change ∈ changes, ownTimes request after.events change.logicalKey = some change.slot := by
  induction changes generalizing calendar with
  | nil => exact ⟨rfl, fun _ _ => rfl, by simp⟩
  | cons change changes ih =>
      rw [List.map_cons, List.nodup_cons] at hnodup
      generalize hafter : calendar.applyChange provider stamp request.applicationId change = after
      have hreads := Calendar.applyChange_reads provider stamp (h change List.mem_cons_self)
      rw [hafter] at hreads
      obtain ⟨hforeign, hothers, hthis⟩ := hreads
      -- The other changes are still the ones for their keys.
      have hrest : ∀ other ∈ changes, other.Reconciles request after.events := by
        intro other hother
        obtain ⟨hkey, title, heq⟩ := h other (List.mem_cons_of_mem _ hother)
        have hne : other.logicalKey ≠ change.logicalKey := by
          intro hsame
          rw [← hsame] at hnodup
          exact hnodup.1 (List.mem_map_of_mem hother)
        refine ⟨hkey, title, ?_⟩
        rw [hothers _ hne]
        exact heq
      obtain ⟨hforeign', hothers', hthose⟩ := ih after hnodup.2 hrest
      dsimp only
      rw [List.foldl_cons, hafter]
      refine ⟨hforeign'.trans hforeign, fun key hkey => ?_, fun other hother => ?_⟩
      · rw [List.map_cons, List.mem_cons, not_or] at hkey
        exact (hothers' key hkey.2).trans (hothers key hkey.1)
      · rcases List.mem_cons.mp hother with rfl | hin
        · unfold ownTimes at hthis ⊢
          rw [hothers' _ hnodup.1]
          exact hthis
        · exact hthose other hin

/-- **A plan is sound and its own fixed point.** For an interview that is ahead, prep blocks with
different slots and any calendar, the plan has one change a logical key and a change or an
unplaceable conflict for every prep block; every prep block that is not over starts after its
horizon and now, ends its lead before the interview, lies within working hours where required, and
overlaps nothing else that is booked, not the interview and no other prep block.  Planned again
after the writes of the plan were made, everything stays where it is and the conflicts are the
same.  A block that is to lie within working hours has a duration that is not negative. -/
theorem planInterviewSchedule_settles {calendar : Calendar}
    (hslots : (prepBlocks.map (·.slot)).Nodup)
    (h0 : ∀ spec ∈ prepBlocks, spec.workingHoursOnly = true → 0 ≤ spec.duration)
    (hahead : now < request.startsAt)
    (h : planInterviewSchedule isoformat request calendar.events now hours prepBlocks = .ok plan) :
    SoundPlan request calendar.events now hours prepBlocks plan ∧
      ∀ provider stamp, ∃ again,
        planInterviewSchedule isoformat request (calendar.applyPlan provider stamp plan).events now
          hours prepBlocks = .ok again ∧ KeepsPlan plan again := by
  obtain ⟨prep, hprep, rfl⟩ := (planInterviewSchedule_ok hahead).mp h
  have hsound := planPrepBlocks_sound h0 hprep
  refine ⟨soundPlan_of_soundPrep hslots hsound rfl rfl, fun provider stamp => ?_⟩
  have hkeys := nodup_plan_keys hslots hsound
  have hreconciles : ∀ change ∈ interviewChange request calendar.events :: prep.1,
      change.Reconciles request calendar.events := by
    intro change hchange
    rcases List.mem_cons.mp hchange with rfl | hin
    · exact reconciles_scheduleChange (interviewEventKey_ne_empty _)
    · exact (hsound.reconciles change hin).2
  obtain ⟨hforeign, hothers, hthose⟩ := applyChanges_reads provider stamp calendar
    hkeys.of_append_left hreconciles
  unfold Calendar.applyPlan
  dsimp only
  generalize (interviewChange request calendar.events :: prep.1).foldl
    (Calendar.applyChange provider stamp request.applicationId) calendar = after at *
  have hchanges : ∀ change ∈ prep.1, ownTimes request after.events change.logicalKey =
      some change.slot := fun change hchange => hthose change (List.mem_cons_of_mem _ hchange)
  have hconflicts : ∀ conflict ∈ prep.2, ownTimes request after.events conflict.logicalKey =
      ownTimes request calendar.events conflict.logicalKey := by
    intro conflict hconflict
    unfold ownTimes
    rw [hothers _ fun hmem => List.disjoint_of_nodup_append hkeys hmem
      (List.mem_map_of_mem hconflict)]
  obtain ⟨again, hagain, hkeeps, hsame, hconflict⟩ := planPrepBlocks_again hprep hchanges hconflicts
  rw [← hforeign] at hagain
  refine ⟨_, (planInterviewSchedule_ok hahead).mpr ⟨again, hagain, rfl⟩, ?_, ?_, ?_⟩
  · intro change hchange
    rcases List.mem_cons.mp hchange with rfl | hin
    · have htimes := hthose _ List.mem_cons_self
      unfold interviewChange at htimes
      rw [scheduleChange_logicalKey, scheduleChange_slot] at htimes
      exact scheduleChange_op_eq_keep htimes
    · exact hkeeps change hin
  · dsimp only
    rw [List.map_cons, List.map_cons, hsame]
    unfold interviewChange
    rw [scheduleChange_logicalKey, scheduleChange_logicalKey, scheduleChange_slot,
      scheduleChange_slot]
  · dsimp only
    rw [List.map_append, List.map_append, hconflict, hforeign]

end plan

/-- A calendar with a meeting on the morning of the second day. -/
def meetingCalendar : Calendar where
  events :=
    [{ eventId := "standup", title := "Standup", startsAt := hours 33, endsAt := hours 35,
       properties := [], busy := true, etag := none }]
  writes := 0
  ids_nodup := by decide

/-- An interview at noon of the second day. -/
def noonInterview : InterviewRequest where
  applicationId := 7
  startsAt := hours 36
  duration := defaultInterviewDuration
  title := "Interview"
  sourceMessageId := none

theorem planInterviewSchedule_settles_noon :
    ∃ plan, planInterviewSchedule (fun _ => "") noonInterview meetingCalendar.events 0
        WorkingHours.standard defaultPrepBlocks = .ok plan ∧
      SoundPlan noonInterview meetingCalendar.events 0 WorkingHours.standard defaultPrepBlocks plan ∧
      ∀ provider stamp, ∃ again, planInterviewSchedule (fun _ => "") noonInterview
        (meetingCalendar.applyPlan provider stamp plan).events 0 WorkingHours.standard
          defaultPrepBlocks = .ok again ∧ KeepsPlan plan again := by
  have hok : (planInterviewSchedule (fun _ => "") noonInterview meetingCalendar.events 0
      WorkingHours.standard defaultPrepBlocks).isOk = true := by decide +kernel
  cases hplan : planInterviewSchedule (fun _ => "") noonInterview meetingCalendar.events 0
      WorkingHours.standard defaultPrepBlocks with
  | error error =>
      rw [hplan] at hok
      cases hok
  | ok plan =>
      exact ⟨plan, rfl, planInterviewSchedule_settles (by decide) (by decide) (by decide) hplan⟩

/-- A block of minus half an hour, within working hours, before an interview at noon: it ends at
noon and starts after that. -/
theorem negative_prep_block_misplaced :
    ¬ ∀ (request : InterviewRequest) (calendar : Calendar) (now : Instant) (hours : WorkingHours)
        (prepBlocks : List PrepBlockSpec) (plan : InterviewSchedulePlan),
        (prepBlocks.map (·.slot)).Nodup → now < request.startsAt →
          planInterviewSchedule (fun _ => "") request calendar.events now hours prepBlocks = .ok plan →
            SoundPlan request calendar.events now hours prepBlocks plan := by
  intro hclaim
  let block : PrepBlockSpec :=
    { slot := "deep_prep", title := "Interview prep", duration := -minutes 30, lead := 0,
      horizon := hours 24, workingHoursOnly := true }
  obtain ⟨plan, hplan, change, hchange, hrole, hslot⟩ : ∃ plan,
      planInterviewSchedule (fun _ => "") noonInterview meetingCalendar.events 0
        WorkingHours.standard [block] = .ok plan ∧
      ∃ change ∈ plan.changes, change.role = .prep ∧
        change.slot = (hours 36 + minutes 30, hours 36) := by
    refine ⟨_, rfl, _, List.mem_cons_of_mem _ List.mem_cons_self, ?_, ?_⟩
    · rfl
    · decide +kernel
  obtain ⟨spec, hspec, -, hplaced⟩ := (hclaim noonInterview meetingCalendar 0 WorkingHours.standard
    [block] plan (by decide) (by decide) hplan).placed change hchange hrole
  obtain rfl := List.mem_singleton.mp hspec
  rw [hslot] at hplaced
  rcases hplaced with hover | hfits
  · revert hover
    decide
  · have hworking := hfits.working rfl
    revert hworking
    decide

end PersonalOS
