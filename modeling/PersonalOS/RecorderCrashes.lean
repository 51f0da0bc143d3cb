import PersonalOS.RecordedMessages

/-! # Recording recruiter messages again after a crash

* **Crash.** The node dies after any number of its steps, and what they stored stays; the run that
  comes after it executes the node again from the same checkpoint.
* **Lost.** A message that the first run stored is skipped by the second, with the review, the
  interview and the reply it had coming: `CrashSafe` is that it had none.
* **Survival.** The second run finds the same follow-ups and leaves the same tables exactly if the
  crash was safe. -/

namespace PersonalOS

open Concurrent

/-- What others act on of one round. -/
structure FollowUps where
  reviews : List RecruiterEventReview
  pendingActions : List (ActionIntent ReplyPayload)
  interviewRequests : List InterviewRequest
deriving DecidableEq, Repr

def RecorderUpdate.followUps (update : RecorderUpdate) : FollowUps :=
  ⟨update.reviews, update.pendingActions, update.interviewRequests⟩

/-- The same of one round. -/
def RecordRound.followUps (round : RecordRound) :
    Option RecruiterEventReview × Option (ActionIntent ReplyPayload) × Option InterviewRequest :=
  (round.review, round.intent, round.interview)

/-- How many follow-ups a round has. -/
def RecordRound.count (round : RecordRound) : ℕ :=
  round.review.toList.length + round.intent.toList.length + round.interview.toList.length

def totalFollowUps (rounds : List RecordRound) : ℕ := (rounds.map (·.count)).sum

/-- How many follow-ups there are. -/
def FollowUps.count (followUps : FollowUps) : ℕ :=
  followUps.reviews.length + followUps.pendingActions.length + followUps.interviewRequests.length

theorem RecordRound.count_congr {round round' : RecordRound} (h : round.followUps = round'.followUps) :
    round.count = round'.count := by
  unfold followUps at h
  simp only [Prod.mk.injEq] at h
  unfold count
  rw [h.1, h.2.1, h.2.2]

theorem RecordRound.followUps_of_count_eq_zero {round : RecordRound} (h : round.count = 0) :
    round.followUps = empty.followUps := by
  unfold count at h
  have hreview : round.review = none := by
    cases hsome : round.review with
    | none => rfl
    | some review => simp [hsome] at h
  have hintent : round.intent = none := by
    cases hsome : round.intent with
    | none => rfl
    | some intent => simp [hsome] at h
  have hinterview : round.interview = none := by
    cases hsome : round.interview with
    | none => rfl
    | some interview => simp [hsome] at h
  unfold followUps
  rw [hreview, hintent, hinterview]
  rfl

theorem totalFollowUps_congr {rounds rounds' : List RecordRound}
    (h : rounds.map (·.followUps) = rounds'.map (·.followUps)) :
    totalFollowUps rounds = totalFollowUps rounds' := by
  unfold totalFollowUps
  induction rounds generalizing rounds' with
  | nil =>
      obtain rfl := List.map_eq_nil_iff.mp h.symm
      rfl
  | cons round rounds ih =>
      cases rounds' with
      | nil => cases h
      | cons round' rounds' =>
          rw [List.map_cons, List.map_cons] at h
          obtain ⟨hhead, htail⟩ := List.cons.inj h
          rw [List.map_cons, List.map_cons, List.sum_cons, List.sum_cons,
            RecordRound.count_congr hhead, ih htail]

theorem length_filterMap_cons {α β : Type} (f : α → Option β) (a : α) (l : List α) :
    ((a :: l).filterMap f).length = (f a).toList.length + (l.filterMap f).length := by
  rw [List.filterMap_cons]
  cases f a with
  | none => simp
  | some b => simp [Nat.add_comm]

theorem count_followUps_of (emitted : List EmittedEvent) (rounds : List RecordRound) :
    (RecorderUpdate.of emitted rounds).followUps.count = totalFollowUps rounds := by
  unfold RecorderUpdate.followUps RecorderUpdate.of FollowUps.count totalFollowUps
  dsimp only
  induction rounds with
  | nil => rfl
  | cons round rounds ih =>
      rw [length_filterMap_cons, length_filterMap_cons, length_filterMap_cons, List.map_cons,
        List.sum_cons, ← ih]
      unfold RecordRound.count
      omega

/-- The follow-ups of an update are those of its rounds. -/
theorem followUps_of_congr {emitted : List EmittedEvent} {rounds rounds' : List RecordRound}
    (h : rounds.map (·.followUps) = rounds'.map (·.followUps)) :
    (RecorderUpdate.of emitted rounds).followUps = (RecorderUpdate.of emitted rounds').followUps := by
  have hparts : ∀ rounds : List RecordRound, (RecorderUpdate.of emitted rounds).followUps =
      ⟨(rounds.map (·.followUps)).filterMap (·.1), (rounds.map (·.followUps)).filterMap (·.2.1),
        (rounds.map (·.followUps)).filterMap (·.2.2)⟩ := by
    intro rounds
    unfold RecorderUpdate.followUps RecorderUpdate.of
    simp only [List.filterMap_map]
    rfl
  rw [hparts, hparts, h]

section safe

variable (surroundings : RecruiterSurroundings)

/-- A message that is stored now has a review, an interview or a reply coming. -/
def hasFollowUp (event : RecruiterEvent) (db : RecruiterDb) : Bool :=
  let decision := triage surroundings.reading surroundings.minClassificationConfidence event
  decision.reviewReason.isSome || event.requiresReply ||
    event.correlation.applicationId.any fun applicationId =>
      (db.lifecycle.applications applicationId).any (refusesMove · decision.transition) ||
        (interviewRequestsFor surroundings event decision applicationId).isSome

/-- The message is not stored yet. -/
def isNew (event : RecruiterEvent) (db : RecruiterDb) : Bool :=
  (event.dedupeKey surroundings.reading).toOption.all fun key => (db.getByDedupeKey key).isNone

/-- No message that a run stores in its first `steps` steps has a follow-up coming. -/
def CrashSafe : List RecruiterEvent → ℕ → RecruiterDb → Prop
  | [], _, _ => True
  | _, 0, _ => True
  | event :: events, steps + 1, db =>
      let decision := triage surroundings.reading surroundings.minClassificationConfidence event
      match decision.action with
      | .ignore => CrashSafe events (steps + 1) db
      | .review => CrashSafe events steps ((recordRound surroundings event).finish () db).2
      | .record =>
          (isNew surroundings event db = true → hasFollowUp surroundings event db = false) ∧
            CrashSafe events steps ((recordRound surroundings event).finish () db).2

end safe

/-! ### One round -/

section round

variable {surroundings : RecruiterSurroundings} {event : RecruiterEvent} {db after : RecruiterDb}
variable {decision : RecruiterEventTriage} {key : String} {outgoing : List EmittedEvent}
variable {round : RecordRound} {applicationId : UUID}

theorem reviewReason_of_review
    (h : (triage surroundings.reading surroundings.minClassificationConfidence event).action =
      .review) :
    (triage surroundings.reading surroundings.minClassificationConfidence event).reviewReason.isSome =
      true := by
  unfold triage at h ⊢
  dsimp only at h ⊢
  split at h
  · split at h
    · rename_i hunrelated
      simp only [hunrelated, if_true, Option.isSome_some]
    · split at h
      · cases h
      · cases h
  · split at h
    · cases h
    · rename_i hunrelated
      rw [if_neg hunrelated]
      rfl
  · split at h
    · cases h
    · rename_i hunrelated
      rw [if_neg hunrelated]
      rfl

/-- What follows is a review event and a review, or it is no step at all. -/
theorem followUp_cases (decision : RecruiterEventTriage) (outgoing : List EmittedEvent)
    (record : Option RecruiterEventRecord)
    (hkey : event.dedupeKey surroundings.reading = .ok key) :
    (∃ reason round, reviewReasonOf decision record = some reason ∧ round.count = 1 ∧
      followUp surroundings event decision record outgoing =
        .call (fun _ db => ((), db.stage surroundings
          (reviewEvent surroundings (event.review key reason record)))) fun _ => .ret round) ∨
      ∃ round, reviewReasonOf decision record = none ∧
        round.intent.isSome = (record.isSome && event.requiresReply) ∧
        round.interview = (record.bind fun record =>
          interviewRequestsFor surroundings event decision record.applicationId) ∧
        round.review = none ∧
        followUp surroundings event decision record outgoing = .ret round := by
  unfold followUp
  cases hreason : reviewReasonOf decision record with
  | some reason =>
      left
      dsimp only
      rw [hkey]
      exact ⟨reason, _, rfl, rfl, rfl⟩
  | none =>
      right
      refine ⟨_, rfl, ?_, ?_, rfl, rfl⟩
      · cases record with
        | none => rfl
        | some record =>
            cases hreply : event.requiresReply with
            | true => simp
            | false => simp
      · rfl

/-- Every step extends the tables. -/
theorem followUp_extends (record : Option RecruiterEventRecord) :
    (followUp surroundings event decision record outgoing).stepsOnly RecruiterDb.Extends := by
  unfold followUp
  split
  · split
    · trivial
    · exact ⟨fun _ db => RecruiterDb.stage_extends surroundings _ db, fun _ => trivial⟩
  · trivial

theorem recordRound_extends (event : RecruiterEvent) :
    (recordRound surroundings event).stepsOnly RecruiterDb.Extends := by
  unfold recordRound
  dsimp only
  split
  · trivial
  · exact followUp_extends none
  · split
    · trivial
    · refine Prog.stepsOnly_bind (RecruiterProgram.attempting_stepsOnly fun db =>
        RecruiterDb.record_extends ..) fun record => ?_
      split
      · trivial
      · exact followUp_extends _

theorem recordRounds_extends (events : List RecruiterEvent) :
    (recordRounds surroundings events).stepsOnly RecruiterDb.Extends := by
  induction events with
  | nil => trivial
  | cons event events ih =>
      unfold recordRounds
      exact Prog.stepsOnly_bind (recordRound_extends event) fun _ =>
        Prog.stepsOnly_bind ih fun _ => trivial

/-- However far a run came, what was stored before is stored. -/
theorem crashed_extends (surroundings : RecruiterSurroundings) (events : List RecruiterEvent)
    (inputs : List Unit) (db : RecruiterDb) :
    RecruiterDb.Extends db ((recordRounds surroundings events).exec inputs db).2 :=
  Prog.exec_stepsOnly RecruiterDb.Extends.refl (fun _ _ _ => RecruiterDb.Extends.trans)
    (recordRounds_extends events) inputs db

/-- What a program answers, and what it stores, does not depend on the outbox. -/
def IgnoresOutbox {α : Type} (p : RecruiterProgram α) : Prop :=
  ∀ db db' a after, RecruiterDb.SameRows db db' → p.finish () db = (.ok a, after) →
    ∃ after', p.finish () db' = (.ok a, after') ∧ RecruiterDb.SameRows after after'

theorem IgnoresOutbox.bind {α β : Type} {p : RecruiterProgram α} {g : α → RecruiterProgram β}
    (hp : IgnoresOutbox p) (hg : ∀ a, IgnoresOutbox (g a)) : IgnoresOutbox (p >>= g) := by
  intro db db' b after hsame h
  obtain ⟨a, mid, hfirst, hsecond⟩ := Prog.finish_bind_eq_ok h
  obtain ⟨mid', hfirst', hsame'⟩ := hp db db' a mid hsame hfirst
  obtain ⟨after', hsecond', hsame''⟩ := hg a mid mid' b after hsame' hsecond
  exact ⟨after', (Prog.finish_bind_ok hfirst').trans hsecond', hsame''⟩

theorem IgnoresOutbox.ret {α : Type} (a : α) : IgnoresOutbox (Prog.ret a : RecruiterProgram α) := by
  intro db db' b after hsame h
  obtain ⟨hb, rfl⟩ := Prod.mk.inj h
  obtain rfl := Except.ok.inj hb
  exact ⟨db', rfl, hsame⟩

theorem IgnoresOutbox.raise {α : Type} (e : RecruiterError) :
    IgnoresOutbox (Prog.raise e : RecruiterProgram α) := by
  intro db db' b after _ h
  cases (Prod.mk.inj h).1

theorem followUp_ignoresOutbox (record : Option RecruiterEventRecord) :
    IgnoresOutbox (followUp surroundings event decision record outgoing) := by
  unfold followUp
  split
  · split
    · exact IgnoresOutbox.raise _
    · intro db db' round after hsame h
      obtain ⟨hround, rfl⟩ := Prod.mk.inj h
      obtain rfl := Except.ok.inj hround
      refine ⟨_, rfl, ?_⟩
      exact (RecruiterDb.stage_sameRows surroundings _ db).trans
        (hsame.trans (RecruiterDb.stage_sameRows surroundings _ db').symm)
  · exact IgnoresOutbox.ret _

theorem record_ignoresOutbox (transition : Option ApplicationStatus) :
    IgnoresOutbox (RecruiterProgram.attempting fun db =>
      db.record surroundings event transition outgoing) := by
  intro db db' record after hsame h
  obtain ⟨after', hrecord, hafter⟩ :=
    RecruiterDb.record_sameRows hsame (RecruiterProgram.attempting_finish.mp h)
  exact ⟨after', RecruiterProgram.attempting_finish.mpr hrecord, hafter⟩

theorem recordRounds_ignoresOutbox (events : List RecruiterEvent) :
    IgnoresOutbox (recordRounds surroundings events) := by
  induction events with
  | nil => exact IgnoresOutbox.ret _
  | cons event events ih =>
      unfold recordRounds
      refine IgnoresOutbox.bind ?_ fun round => ih.bind fun rounds => IgnoresOutbox.ret _
      unfold recordRound
      dsimp only
      split
      · exact IgnoresOutbox.ret _
      · exact followUp_ignoresOutbox none
      · split
        · exact IgnoresOutbox.raise _
        · refine (record_ignoresOutbox _).bind fun record => ?_
          split
          · exact IgnoresOutbox.ret _
          · exact followUp_ignoresOutbox _

end round

/-! ### The second run -/

section recovery

variable {surroundings : RecruiterSurroundings} {event : RecruiterEvent} {events : List RecruiterEvent}
variable {db db₁ crashed after : RecruiterDb} {round round' : RecordRound} {rounds : List RecordRound}

/-- On the tables a crash left, the node finds the same follow-ups and leaves the same tables if it
is safe, and loses follow-ups if not. -/
def Recovers (surroundings : RecruiterSurroundings) (events : List RecruiterEvent) (safe : Prop)
    (rounds : List RecordRound) (after crashed : RecruiterDb) : Prop :=
  ∃ rounds' after', (recordRounds surroundings events).finish () crashed = (.ok rounds', after') ∧
    (safe → rounds'.map (·.followUps) = rounds.map (·.followUps) ∧ after' = after) ∧
    (¬ safe → totalFollowUps rounds' < totalFollowUps rounds)

theorem recordRounds_cons_finish
    (h : (recordRounds surroundings (event :: events)).finish () db = (.ok rounds, after)) :
    ∃ round rest db₁, rounds = round :: rest ∧
      (recordRound surroundings event).finish () db = (.ok round, db₁) ∧
      (recordRounds surroundings events).finish () db₁ = (.ok rest, after) := by
  unfold recordRounds at h
  obtain ⟨round, db₁, hround, h⟩ := Prog.finish_bind_eq_ok h
  obtain ⟨rest, db₂, hrest, h⟩ := Prog.finish_bind_eq_ok h
  obtain ⟨hrounds, rfl⟩ := Prod.mk.inj h
  exact ⟨round, rest, db₁, (Except.ok.inj hrounds).symm, hround, hrest⟩

theorem recordRounds_cons_of_finish
    (hround : (recordRound surroundings event).finish () db = (.ok round, db₁))
    (hrest : (recordRounds surroundings events).finish () db₁ = (.ok rounds, after)) :
    (recordRounds surroundings (event :: events)).finish () db = (.ok (round :: rounds), after) := by
  unfold recordRounds
  rw [Prog.finish_bind_ok hround, Prog.finish_bind_ok hrest]
  rfl

theorem recovers_refl (h : (recordRounds surroundings events).finish () db = (.ok rounds, after)) :
    Recovers surroundings events True rounds after db :=
  ⟨rounds, after, h, fun _ => ⟨rfl, rfl⟩, fun hno => absurd trivial hno⟩

/-- A round that changes nothing any more, before the rest of the second run. -/
theorem Recovers.cons {safe : Prop} (good : Prop) (h : Recovers surroundings events safe rounds after crashed)
    (hagain : (recordRound surroundings event).finish () crashed = (.ok round', crashed))
    (hgood : good → round'.followUps = round.followUps) (hbad : ¬ good → round'.count < round.count) :
    Recovers surroundings (event :: events) (good ∧ safe) (round :: rounds) after crashed := by
  obtain ⟨rounds', after', hrest, hsafe, hlost⟩ := h
  refine ⟨round' :: rounds', after', recordRounds_cons_of_finish hagain hrest, ?_, fun hnot => ?_⟩
  · rintro ⟨hg, hs⟩
    obtain ⟨hsame, hafter⟩ := hsafe hs
    refine ⟨?_, hafter⟩
    rw [List.map_cons, List.map_cons, hgood hg, hsame]
  · have hhead : round'.count ≤ round.count := by
      by_cases hg : good
      · exact Nat.le_of_eq (RecordRound.count_congr (hgood hg))
      · exact Nat.le_of_lt (hbad hg)
    have htail : totalFollowUps rounds' ≤ totalFollowUps rounds := by
      by_cases hs : safe
      · exact Nat.le_of_eq (totalFollowUps_congr (hsafe hs).1)
      · exact Nat.le_of_lt (hlost hs)
    unfold totalFollowUps at *
    rw [List.map_cons, List.map_cons, List.sum_cons, List.sum_cons]
    by_cases hg : good
    · have hs := hlost fun hs => hnot ⟨hg, hs⟩
      omega
    · have hlt := hbad hg
      omega

theorem Recovers.congr {safe safe' : Prop} (h : Recovers surroundings events safe rounds after crashed)
    (hiff : safe' ↔ safe) : Recovers surroundings events safe' rounds after crashed := by
  obtain ⟨rounds', after', hrest, hsafe, hlost⟩ := h
  exact ⟨rounds', after', hrest, fun hs => hsafe (hiff.mp hs), fun hs => hlost (mt hiff.mpr hs)⟩

/-- A message that is stored is skipped. -/
theorem recordRound_stored {applicationId : UUID} {key : String} {existing : CommunicationEventRow}
    {outgoing : List EmittedEvent}
    (haction : (triage surroundings.reading surroundings.minClassificationConfidence event).action =
      .record)
    (houtgoing : eventsForRecorded surroundings event
      (triage surroundings.reading surroundings.minClassificationConfidence event) = .ok outgoing)
    (happlication : event.correlation.applicationId = some applicationId)
    (hkey : event.dedupeKey surroundings.reading = .ok key)
    (hstored : crashed.getByDedupeKey key = some existing)
    (hrow : crashed.lifecycle.applications existing.applicationId ≠ none) :
    ∃ round, (recordRound surroundings event).finish () crashed = (.ok round, crashed) ∧
      round.followUps = RecordRound.empty.followUps := by
  obtain ⟨record, hrecord, hcreated⟩ := RecruiterDb.record_again
    (triage surroundings.reading surroundings.minClassificationConfidence event).transition outgoing
    happlication hkey hstored hrow
  refine ⟨{ RecordRound.empty with record := some record }, ?_, rfl⟩
  unfold recordRound
  dsimp only
  rw [haction]
  dsimp only
  rw [houtgoing]
  dsimp only
  rw [Prog.finish_bind_ok (RecruiterProgram.attempting_finish.mpr hrecord), hcreated]
  rfl

/-- A message that is stored now has follow-ups in its round exactly if it has one coming. -/
theorem count_pos_of_followUp {applicationId : UUID} {key : String} {outgoing : List EmittedEvent}
    {record : RecruiterEventRecord} {row : ApplicationRow}
    (happlication : event.correlation.applicationId = some applicationId)
    (hkey : event.dedupeKey surroundings.reading = .ok key)
    (hid : record.applicationId = applicationId)
    (hrow : db.lifecycle.applications applicationId = some row)
    (hrefused : record.refusedTransition.isSome = refusesMove row (triage surroundings.reading
      surroundings.minClassificationConfidence event).transition)
    (h : (followUp surroundings event (triage surroundings.reading
      surroundings.minClassificationConfidence event) (some record) outgoing).finish () db₁ =
        (.ok round, after)) :
    0 < round.count ↔ hasFollowUp surroundings event db = true := by
  unfold hasFollowUp
  dsimp only
  rw [happlication]
  simp only [Option.any_some, hrow, ← hrefused]
  have hreason : (reviewReasonOf (triage surroundings.reading surroundings.minClassificationConfidence
      event) (some record)).isSome = (record.refusedTransition.isSome || (triage surroundings.reading
        surroundings.minClassificationConfidence event).reviewReason.isSome) := by
    unfold reviewReasonOf
    cases hrefusedBy : record.refusedTransition with
    | none => simp [hrefusedBy]
    | some refused => simp [hrefusedBy]
  rcases followUp_cases (triage surroundings.reading surroundings.minClassificationConfidence event)
    outgoing (some record) hkey with
    ⟨reason, round', hsome, hcount, hprogram⟩ | ⟨round', hnone, hintent, hinterview, hreview, hprogram⟩
  · rw [hprogram] at h
    obtain rfl := Except.ok.inj (Prod.mk.inj h).1
    rw [hsome, Option.isSome_some] at hreason
    have hor := hreason.symm
    simp only [Bool.or_eq_true] at hor ⊢
    constructor
    · intro _
      tauto
    · intro _
      omega
  · rw [hprogram] at h
    obtain rfl := Except.ok.inj (Prod.mk.inj h).1
    rw [hnone, Option.isSome_none] at hreason
    have hor := hreason.symm
    simp only [Bool.or_eq_false_iff] at hor
    rw [hor.1, hor.2]
    rw [Option.bind_some, hid] at hinterview
    rw [Option.isSome_some, Bool.true_and] at hintent
    unfold RecordRound.count
    rw [hreview, hinterview, ← hintent]
    simp only [Bool.false_or, Bool.or_eq_true, Option.toList_none, List.length_nil, Nat.zero_add]
    cases round'.intent with
    | none =>
        cases interviewRequestsFor surroundings event (triage surroundings.reading
            surroundings.minClassificationConfidence event) applicationId with
        | none => simp
        | some request => simp
    | some intent => simp

/-! The crash falls before a round, within it or after it. -/

theorem recordRounds_cons (event : RecruiterEvent) (events : List RecruiterEvent) :
    recordRounds surroundings (event :: events) = (recordRound surroundings event >>= fun round =>
      recordRounds surroundings events >>= fun rounds => Prog.ret (round :: rounds)) := rfl

theorem crashed_ret (h : recordRound surroundings event = .ret round) (inputs : List Unit) :
    ((recordRounds surroundings (event :: events)).exec inputs db).2 =
      ((recordRounds surroundings events).exec inputs db).2 := by
  rw [recordRounds_cons, h, Prog.ret_bind]
  exact Prog.exec_map _ _ _ _

theorem crashed_step (events : List RecruiterEvent) (db : RecruiterDb) {f : Unit → RecruiterDb → Unit × RecruiterDb}
    (h : recordRound surroundings event = .call f fun _ => .ret round) (inputs : List Unit) :
    ((recordRounds surroundings (event :: events)).exec (() :: inputs) db).2 =
      ((recordRounds surroundings events).exec inputs (f () db).2).2 := by
  rw [recordRounds_cons, h]
  exact Prog.exec_map (recordRounds surroundings events) (fun rounds => round :: rounds) inputs (f () db).2

theorem recordRound_record {outgoing : List EmittedEvent}
    (haction : (triage surroundings.reading surroundings.minClassificationConfidence event).action =
      .record)
    (houtgoing : eventsForRecorded surroundings event
      (triage surroundings.reading surroundings.minClassificationConfidence event) = .ok outgoing) :
    recordRound surroundings event = (do
      let record ← RecruiterProgram.attempting fun db => db.record surroundings event
        (triage surroundings.reading surroundings.minClassificationConfidence event).transition
        outgoing
      if !record.created then return { RecordRound.empty with record := some record }
      else followUp surroundings event (triage surroundings.reading
        surroundings.minClassificationConfidence event) (some record) outgoing) := by
  unfold recordRound
  dsimp only
  rw [haction]
  dsimp only
  rw [houtgoing]

/-- After a crash in a batch whose first message the store had not seen: it is skipped, with what it
had coming. -/
theorem recovers_new {applicationId : UUID} {key : String} {outgoing : List EmittedEvent}
    {record : RecruiterEventRecord} {stored : RecruiterDb} {steps : ℕ}
    (ih : ∀ steps, Recovers surroundings events (CrashSafe surroundings events steps db₁) rounds after
      ((recordRounds surroundings events).exec (List.replicate steps ()) db₁).2)
    (haction : (triage surroundings.reading surroundings.minClassificationConfidence event).action =
      .record)
    (houtgoing : eventsForRecorded surroundings event
      (triage surroundings.reading surroundings.minClassificationConfidence event) = .ok outgoing)
    (happlication : event.correlation.applicationId = some applicationId)
    (hkey : event.dedupeKey surroundings.reading = .ok key) (hnew : db.getByDedupeKey key = none)
    (hwrite : db.write surroundings key event applicationId (triage surroundings.reading
      surroundings.minClassificationConfidence event).transition outgoing = .ok (record, stored))
    (hround : (recordRound surroundings event).finish () db = (.ok round, db₁))
    (hrest : (recordRounds surroundings events).finish () db₁ = (.ok rounds, after)) :
    Recovers surroundings (event :: events) (CrashSafe surroundings (event :: events) (steps + 1) db)
      (round :: rounds) after ((recordRounds surroundings (event :: events)).exec
        (List.replicate (steps + 1) ()) db).2 := by
  obtain ⟨-, hcreated, hid, hget, row, hrow, hrefused⟩ := RecruiterDb.write_ok hnew hwrite
  have hrecord := RecruiterDb.record_of_new happlication hkey hnew hwrite
  have hstoredRow : stored.lifecycle.applications applicationId ≠ none := by
    have hextends := (RecruiterDb.write_ok hnew hwrite).1
    exact hextends.applications applicationId (by simp [hrow])
  have hfollowUp : (followUp surroundings event (triage surroundings.reading
      surroundings.minClassificationConfidence event) (some record) outgoing).finish () stored =
        (.ok round, db₁) := by
    rw [recordRound_record haction houtgoing,
      Prog.finish_bind_ok (RecruiterProgram.attempting_finish.mpr hrecord), hcreated] at hround
    exact hround
  have hcount := count_pos_of_followUp happlication hkey hid hrow hrefused hfollowUp
  have hisNew : isNew surroundings event db = true := by
    unfold isNew
    simp [hkey, hnew, Except.toOption]
  have hsafe : CrashSafe surroundings (event :: events) (steps + 1) db ↔
      (round.count = 0 ∧ CrashSafe surroundings events steps db₁) := by
    conv_lhs => unfold CrashSafe
    dsimp only
    rw [haction, hround]
    dsimp only
    have hiff : (isNew surroundings event db = true → hasFollowUp surroundings event db = false) ↔
        round.count = 0 := by
      rw [← Bool.not_eq_true, ← hcount]
      constructor
      · intro h
        have hzero := h hisNew
        omega
      · intro h _
        omega
    rw [hiff]
  -- Wherever the second run finds the message stored, it skips it.
  have hskips : ∀ crashed, RecruiterDb.Extends stored crashed →
      ∃ round', (recordRound surroundings event).finish () crashed = (.ok round', crashed) ∧
        round'.followUps = RecordRound.empty.followUps := fun crashed hextends =>
    recordRound_stored haction houtgoing happlication hkey (hextends.communications key _ hget)
      (hextends.applications applicationId hstoredRow)
  have hexec : ((recordRounds surroundings (event :: events)).exec (List.replicate (steps + 1) ()) db).2 =
      ((followUp surroundings event (triage surroundings.reading
        surroundings.minClassificationConfidence event) (some record) outgoing >>= fun round =>
          recordRounds surroundings events >>= fun rounds => Prog.ret (round :: rounds)).exec
            (List.replicate steps ()) stored).2 := by
    rw [recordRounds_cons, recordRound_record haction houtgoing, List.replicate_succ, Prog.bind_assoc,
      RecruiterProgram.attempting_exec hrecord, hcreated]
    rfl
  rw [hexec]
  have hzero : RecordRound.empty.count = 0 := rfl
  rcases followUp_cases (triage surroundings.reading surroundings.minClassificationConfidence event)
    outgoing (some record) hkey with
    ⟨reason, round', -, hone, hprogram⟩ | ⟨round', -, -, -, -, hprogram⟩
  · -- A review comes: its event is staged in a step of its own.
    rw [hprogram] at hfollowUp
    obtain ⟨hround', rfl⟩ := Prod.mk.inj hfollowUp
    obtain rfl := Except.ok.inj hround'
    have hunsafe : ¬ CrashSafe surroundings (event :: events) (steps + 1) db := by
      intro hs
      have hcount0 := (hsafe.mp hs).1
      omega
    rw [hprogram]
    cases steps with
    | zero =>
        -- The crash falls before that.
        obtain ⟨skipped, hskip, hempty⟩ := hskips stored (RecruiterDb.Extends.refl stored)
        obtain ⟨after', hrest', -⟩ := recordRounds_ignoresOutbox events _ stored _ _
          (RecruiterDb.stage_sameRows surroundings _ stored) hrest
        refine ⟨skipped :: rounds, after', recordRounds_cons_of_finish hskip hrest',
          fun hs => absurd hs hunsafe, fun _ => ?_⟩
        unfold totalFollowUps
        rw [List.map_cons, List.map_cons, List.sum_cons, List.sum_cons,
          RecordRound.count_congr hempty, hzero, hone]
        omega
    | succ steps =>
        have hcrashed := Prog.exec_map (recordRounds surroundings events)
          (fun rounds => round' :: rounds) (List.replicate steps ()) (stored.stage surroundings
            (reviewEvent surroundings (event.review key reason (some record))))
        have hextends := (RecruiterDb.stage_extends surroundings
          (reviewEvent surroundings (event.review key reason (some record))) stored).trans
            (crashed_extends surroundings events (List.replicate steps ()) _)
        obtain ⟨skipped, hskip, hempty⟩ := hskips _ hextends
        rw [← hcrashed] at hskip
        have hrecovers := ih steps
        rw [← hcrashed] at hrecovers
        refine (hrecovers.cons (round'.count = 0) hskip (fun hg => ?_) fun _ => ?_).congr ?_
        · omega
        · rw [RecordRound.count_congr hempty, hzero, hone]
          omega
        · constructor
          · intro hs
            exact absurd hs hunsafe
          · intro hboth
            have hcount0 := hboth.1
            omega
  · rw [hprogram] at hfollowUp
    obtain ⟨hround', rfl⟩ := Prod.mk.inj hfollowUp
    obtain rfl := Except.ok.inj hround'
    rw [hprogram, Prog.ret_bind, Prog.exec_map]
    obtain ⟨skipped, hskip, hempty⟩ :=
      hskips _ (crashed_extends surroundings events (List.replicate steps ()) stored)
    refine ((ih steps).cons (round'.count = 0) hskip (fun hg => ?_) fun hg => ?_).congr hsafe
    · rw [hempty, RecordRound.followUps_of_count_eq_zero hg]
    · rw [RecordRound.count_congr hempty, hzero]
      omega

/-- After a crash in a batch whose first message was stored before: it is skipped both times. -/
theorem recovers_stored {applicationId : UUID} {key : String} {outgoing : List EmittedEvent}
    {record : RecruiterEventRecord} {existing : CommunicationEventRow} {steps : ℕ}
    (ih : ∀ steps, Recovers surroundings events (CrashSafe surroundings events steps db) rounds after
      ((recordRounds surroundings events).exec (List.replicate steps ()) db).2)
    (haction : (triage surroundings.reading surroundings.minClassificationConfidence event).action =
      .record)
    (houtgoing : eventsForRecorded surroundings event
      (triage surroundings.reading surroundings.minClassificationConfidence event) = .ok outgoing)
    (happlication : event.correlation.applicationId = some applicationId)
    (hkey : event.dedupeKey surroundings.reading = .ok key)
    (hexisting : db.getByDedupeKey key = some existing)
    (hrow : db.lifecycle.applications existing.applicationId ≠ none)
    (hcreated : record.created = false)
    (hrecord : db.record surroundings event (triage surroundings.reading
      surroundings.minClassificationConfidence event).transition outgoing = (.ok record, db)) :
    Recovers surroundings (event :: events) (CrashSafe surroundings (event :: events) (steps + 1) db)
      ({ RecordRound.empty with record := some record } :: rounds) after
        ((recordRounds surroundings (event :: events)).exec (List.replicate (steps + 1) ()) db).2 := by
  have hround : (recordRound surroundings event).finish () db =
      (.ok { RecordRound.empty with record := some record }, db) := by
    rw [recordRound_record haction houtgoing,
      Prog.finish_bind_ok (RecruiterProgram.attempting_finish.mpr hrecord), hcreated]
    rfl
  have hexec : ((recordRounds surroundings (event :: events)).exec (List.replicate (steps + 1) ()) db).2 =
      ((recordRounds surroundings events).exec (List.replicate steps ()) db).2 := by
    rw [recordRounds_cons, recordRound_record haction houtgoing, List.replicate_succ, Prog.bind_assoc,
      RecruiterProgram.attempting_exec hrecord, hcreated]
    exact Prog.exec_map _ _ _ _
  have hsafe : CrashSafe surroundings (event :: events) (steps + 1) db ↔
      (True ∧ CrashSafe surroundings events steps db) := by
    have hisNew : isNew surroundings event db = false := by
      unfold isNew
      simp [hkey, hexisting, Except.toOption]
    conv_lhs => unfold CrashSafe
    dsimp only
    rw [haction, hround, hisNew]
    simp
  have hextends := crashed_extends surroundings events (List.replicate steps ()) db
  obtain ⟨skipped, hskip, hempty⟩ := recordRound_stored haction houtgoing happlication hkey
    (hextends.communications key _ hexisting) (hextends.applications _ hrow)
  rw [hexec]
  exact ((ih steps).cons True hskip (fun _ => hempty) fun hno => absurd trivial hno).congr hsafe

/-- After a crash in a batch whose first message is for a person: it is reviewed both times. -/
theorem recovers_review {steps : ℕ}
    (ih : ∀ steps, Recovers surroundings events (CrashSafe surroundings events steps db₁) rounds after
      ((recordRounds surroundings events).exec (List.replicate steps ()) db₁).2)
    (haction : (triage surroundings.reading surroundings.minClassificationConfidence event).action =
      .review)
    (hround : (recordRound surroundings event).finish () db = (.ok round, db₁)) :
    Recovers surroundings (event :: events) (CrashSafe surroundings (event :: events) (steps + 1) db)
      (round :: rounds) after ((recordRounds surroundings (event :: events)).exec
        (List.replicate (steps + 1) ()) db).2 := by
  have hfollowUp : recordRound surroundings event = followUp surroundings event
      (triage surroundings.reading surroundings.minClassificationConfidence event) none [] := by
    unfold recordRound
    dsimp only
    rw [haction]
  have hsafe : CrashSafe surroundings (event :: events) (steps + 1) db ↔
      (True ∧ CrashSafe surroundings events steps db₁) := by
    conv_lhs => unfold CrashSafe
    dsimp only
    rw [haction, hround]
    simp
  cases hkey : event.dedupeKey surroundings.reading with
  | error e =>
      exfalso
      have hreason := reviewReason_of_review haction
      obtain ⟨reason, hreason⟩ := Option.isSome_iff_exists.mp hreason
      rw [hfollowUp] at hround
      unfold followUp reviewReasonOf at hround
      rw [Option.bind_none] at hround
      dsimp only at hround
      rw [hreason] at hround
      dsimp only at hround
      rw [hkey] at hround
      cases (Prod.mk.inj hround).1
  | ok key =>
      rcases followUp_cases (triage surroundings.reading surroundings.minClassificationConfidence event)
        [] none hkey with ⟨reason, round', -, -, hprogram⟩ | ⟨round', hnone, -, -, -, -⟩
      · rw [hprogram] at hfollowUp
        rw [hfollowUp] at hround
        obtain ⟨hround', rfl⟩ := Prod.mk.inj hround
        obtain rfl := Except.ok.inj hround'
        have hextends := crashed_extends surroundings events (List.replicate steps ())
          (db.stage surroundings (reviewEvent surroundings (event.review key reason none)))
        have hstaged := hextends.outbox _ RecruiterDb.staged_stage
        have hexec := crashed_step events db hfollowUp (List.replicate steps ())
        rw [List.replicate_succ, hexec]
        -- The event is staged already, and is not staged again.
        have hagain : ∀ crashed, crashed.staged (reviewEvent surroundings
            (event.review key reason none)).dedupeKey = true →
              (recordRound surroundings event).finish () crashed = (.ok round', crashed) := by
          intro crashed hcrashed
          rw [hfollowUp, Prog.finish_call, RecruiterDb.stage_of_staged hcrashed]
          rfl
        exact ((ih steps).cons True (hagain _ hstaged) (fun _ => rfl)
          fun hno => absurd trivial hno).congr hsafe
      · exfalso
        have hreason := reviewReason_of_review haction
        unfold reviewReasonOf at hnone
        rw [Option.bind_none] at hnone
        dsimp only at hnone
        rw [hnone] at hreason
        cases hreason

/-- Whatever the crash left, the second run finds the same follow-ups and leaves the same tables if
the crash was safe, and has fewer follow-ups if not. -/
theorem recordRounds_recovers (h : (recordRounds surroundings events).finish () db = (.ok rounds, after))
    (steps : ℕ) : Recovers surroundings events (CrashSafe surroundings events steps db) rounds after
      ((recordRounds surroundings events).exec (List.replicate steps ()) db).2 := by
  induction events generalizing db rounds steps with
  | nil =>
      obtain ⟨hrounds, rfl⟩ := Prod.mk.inj h
      have hstate : ((recordRounds surroundings []).exec (List.replicate steps ()) db).2 = db := by
        exact congrArg Prod.snd (Prog.exec_ret _ _ _)
      rw [hstate]
      exact (recovers_refl h).congr (by simp [CrashSafe])
  | cons event events ih =>
      cases steps with
      | zero => exact (recovers_refl h).congr (by simp [CrashSafe])
      | succ steps =>
          obtain ⟨round, rest, db₁, rfl, hround, hrest⟩ := recordRounds_cons_finish h
          cases haction : (triage surroundings.reading surroundings.minClassificationConfidence
            event).action with
          | ignore =>
              have hprogram : recordRound surroundings event = .ret RecordRound.empty := by
                unfold recordRound
                dsimp only
                rw [haction]
                rfl
              rw [hprogram] at hround
              obtain ⟨hempty, rfl⟩ := Prod.mk.inj hround
              obtain rfl := Except.ok.inj hempty
              rw [crashed_ret hprogram]
              have hagain : ∀ crashed, (recordRound surroundings event).finish () crashed =
                  (.ok RecordRound.empty, crashed) := fun crashed => by rw [hprogram]; rfl
              refine ((ih hrest (steps + 1)).cons True (hagain _) (fun _ => rfl)
                fun hno => absurd trivial hno).congr ?_
              conv_lhs => unfold CrashSafe
              dsimp only
              rw [haction]
              simp
          | review =>
              exact recovers_review (ih hrest) haction hround
          | record =>
              cases houtgoing : eventsForRecorded surroundings event (triage surroundings.reading
                surroundings.minClassificationConfidence event) with
              | error e =>
                  unfold recordRound at hround
                  dsimp only at hround
                  rw [haction] at hround
                  dsimp only at hround
                  rw [houtgoing] at hround
                  cases (Prod.mk.inj hround).1
              | ok outgoing =>
                  have hsecond := hround
                  rw [recordRound_record haction houtgoing] at hsecond
                  obtain ⟨record, stored, hrecord, hrestOf⟩ := Prog.finish_bind_eq_ok hsecond
                  clear hsecond
                  rw [RecruiterProgram.attempting_finish] at hrecord
                  obtain ⟨applicationId, key, happlication, hkey, hcases⟩ :=
                    RecruiterDb.record_ok hrecord
                  rcases hcases with ⟨existing, hexisting, hrow, hcreated, rfl⟩ | ⟨hnew, hwrite⟩
                  · rw [hcreated] at hrestOf
                    obtain ⟨hempty, rfl⟩ := Prod.mk.inj hrestOf
                    obtain rfl := Except.ok.inj hempty
                    exact recovers_stored (ih hrest) haction houtgoing happlication hkey hexisting hrow
                      hcreated hrecord
                  · exact recovers_new (ih hrest) haction houtgoing happlication hkey hnew hwrite hround
                      hrest

/-- **Recording survives the crashes that lose no follow-up.** The node dies after any number of its
steps and is executed again from its checkpoint: it returns the reviews, replies and interviews of
the run that never crashed, in their order, and leaves the tables that run leaves, exactly if no
message the first run stored had one of them coming. -/
theorem recordRecruiterEvents_survives {emitted : List EmittedEvent} {update : RecorderUpdate}
    (h : (recordRecruiterEvents surroundings emitted events).finish () db = (.ok update, after))
    (steps : ℕ) :
    (∃ again, (recordRecruiterEvents surroundings emitted events).finish ()
        ((recordRecruiterEvents surroundings emitted events).exec (List.replicate steps ()) db).2 =
          (.ok again, after) ∧ again.followUps = update.followUps) ↔
      CrashSafe surroundings events steps db := by
  unfold recordRecruiterEvents at h ⊢
  obtain ⟨rounds, after', hrounds, hreturn⟩ := Prog.finish_bind_eq_ok h
  obtain ⟨hupdate, hafter⟩ := Prod.mk.inj hreturn
  obtain rfl := Except.ok.inj hupdate
  subst hafter
  obtain ⟨rounds', again, hagain, hsafe, hlost⟩ := recordRounds_recovers hrounds steps
  have hexec : ((recordRounds surroundings events >>= fun rounds =>
      Prog.ret (RecorderUpdate.of emitted rounds)).exec (List.replicate steps ()) db).2 =
        ((recordRounds surroundings events).exec (List.replicate steps ()) db).2 :=
    Prog.exec_map _ _ _ _
  have hfinish : (recordRounds surroundings events >>= fun rounds =>
      Prog.ret (RecorderUpdate.of emitted rounds)).finish ()
        ((recordRounds surroundings events).exec (List.replicate steps ()) db).2 =
          (.ok (RecorderUpdate.of emitted rounds'), again) := by
    rw [Prog.finish_bind_ok hagain]
    rfl
  simp only [Prog.pure_eq]
  rw [hexec, hfinish]
  constructor
  · rintro ⟨update', hsame, hfollowUps⟩
    obtain ⟨hupdate', -⟩ := Prod.mk.inj hsame
    obtain rfl := Except.ok.inj hupdate'
    by_contra hunsafe
    have hlt := hlost hunsafe
    have hcount := congrArg FollowUps.count hfollowUps
    rw [count_followUps_of, count_followUps_of] at hcount
    omega
  · intro hs
    obtain ⟨hsame, rfl⟩ := hsafe hs
    exact ⟨_, rfl, followUps_of_congr hsame⟩

end recovery

/-- A world in which ids are the lengths of what they are for. -/
def plainSurroundings : RecruiterSurroundings where
  reading := ⟨fun _ => "", id, fun _ => true⟩
  minClassificationConfidence := 3 / 5
  now := 100
  rowId := String.length
  eventId := String.length
  actionId := String.length
  uuid5 := String.length
  draft event := ⟨event.message.fromAddress.getD "", "Re: Interview", "Hello"⟩
  redactText := id
  redactPayload := id

/-- A recruiter invites to an interview and waits for an answer. -/
def inviteMessage : RecruiterEvent where
  message := ⟨"m-1", 90, "Are you free on Tuesday?", some "Interview", some "ada@acme.example", none⟩
  classification := .interviewInvite
  confidence := 1
  summary := none
  requiresReply := true
  commitments := []
  source := .model
  correlation :=
    { outcome := .matched
      applicationId := some 7
      confidence := 1
      signals := [.thread]
      threshold := 3 / 4
      candidates := []
      linked_only_when_matched := by decide }

/-- The application that message is about, applied to. -/
def appliedDb : RecruiterDb where
  lifecycle :=
    { applications id := if id = 7 then some ⟨.applied, none, some 10, some 10, 10⟩ else none
      eventLog := EventLog.empty
      statusView _ := none
      seen _ := none }
  communications := []
  commitments := []
  outbox := []

/-- News about the application that ask for nothing. -/
def newsMessage : RecruiterEvent :=
  { inviteMessage with
    message := ⟨"message-0", 80, "We are still reading.", some "Update", some "ada@acme.example", none⟩
    classification := .generalUpdate
    requiresReply := false }

/-- The node dies after it stored the news, and the invite is still answered. -/
theorem recordRecruiterEvents_survives_invite :
    ∃ update after, (recordRecruiterEvents plainSurroundings [] [newsMessage, inviteMessage]).finish ()
        appliedDb = (.ok update, after) ∧
      ∃ again, (recordRecruiterEvents plainSurroundings [] [newsMessage, inviteMessage]).finish ()
        ((recordRecruiterEvents plainSurroundings [] [newsMessage, inviteMessage]).exec
          (List.replicate 1 ()) appliedDb).2 = (.ok again, after) ∧ again.followUps = update.followUps := by
  have hok : ((recordRecruiterEvents plainSurroundings [] [newsMessage, inviteMessage]).finish ()
      appliedDb).1.isOk = true := by decide +kernel
  have hrecord : (triage plainSurroundings.reading plainSurroundings.minClassificationConfidence
      newsMessage).action = .record := by decide +kernel
  have hquiet : hasFollowUp plainSurroundings newsMessage appliedDb = false := by decide +kernel
  have hsafe : CrashSafe plainSurroundings [newsMessage, inviteMessage] 1 appliedDb := by
    simp only [CrashSafe, hrecord]
    exact ⟨fun _ => hquiet, trivial⟩
  cases hrun : (recordRecruiterEvents plainSurroundings [] [newsMessage, inviteMessage]).finish () appliedDb with
  | mk answer after =>
      rw [hrun] at hok
      cases answer with
      | error e => cases hok
      | ok update => exact ⟨update, after, rfl, (recordRecruiterEvents_survives hrun 1).mpr hsafe⟩

/-- The node dies after it stored the invite: the reply it owed is never proposed. -/
theorem crash_loses_reply :
    ¬ ∀ (surroundings : RecruiterSurroundings) (emitted : List EmittedEvent)
        (events : List RecruiterEvent) (db : RecruiterDb) (update : RecorderUpdate)
        (after : RecruiterDb) (steps : ℕ),
        (recordRecruiterEvents surroundings emitted events).finish () db = (.ok update, after) →
          ∃ again, (recordRecruiterEvents surroundings emitted events).finish ()
            ((recordRecruiterEvents surroundings emitted events).exec (List.replicate steps ()) db).2 =
              (.ok again, after) ∧ again.followUps = update.followUps := by
  intro hclaim
  have hreplies : ((recordRecruiterEvents plainSurroundings [] [inviteMessage]).finish ()
      appliedDb).1.toOption.map (·.followUps.pendingActions.length) = some 1 := by decide +kernel
  have hnone : ((recordRecruiterEvents plainSurroundings [] [inviteMessage]).finish ()
      ((recordRecruiterEvents plainSurroundings [] [inviteMessage]).exec (List.replicate 1 ())
        appliedDb).2).1.toOption.map (·.followUps.pendingActions.length) = some 0 := by decide +kernel
  cases hrun : (recordRecruiterEvents plainSurroundings [] [inviteMessage]).finish () appliedDb with
  | mk answer after =>
      rw [hrun] at hreplies
      cases answer with
      | error e => cases hreplies
      | ok update =>
          obtain ⟨again, hagain, hsame⟩ := hclaim _ _ _ _ _ _ 1 hrun
          rw [hagain] at hnone
          have hfirst : update.followUps.pendingActions.length = 1 := Option.some.inj hreplies
          have hsecond : again.followUps.pendingActions.length = 0 := Option.some.inj hnone
          rw [hsame] at hsecond
          omega

end PersonalOS
