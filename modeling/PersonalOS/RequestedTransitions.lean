import PersonalOS.JobSearch
import PersonalOS.LifecycleCalls

/-! # Requested transitions

The node that writes the status changes whose effects have run, over passes that crash.

* **Node.** `applyRequestedTransitions` makes one transition a request with an ok receipt, and
  reports each request as applied or not.
* **Passes.** A crash loses what a pass has returned or was about to return, and the node runs
  again on the same state; the other actors move the same applications meanwhile.
* **Report.** `requested_transitions_reported`: a pass reports what it has committed itself, and
  this is the truth about the run unless another pass had committed a move;
  `committed_transition_reported_refused` is that crash. -/

namespace PersonalOS

open Concurrent Concurrent.Prog ApplicationLifecycleStore

variable {τ : Type}

/-- A manual transition with an external effect, on its way through approval. -/
structure RequestedTransition where
  /-- Also the id of the action its effect was proposed as. -/
  requestId : UUID
  applicationId : UUID
  toStatus : ApplicationStatus
  reason : Option String
  requestedBy : String
deriving DecidableEq, Repr

/-- What became of one requested transition once its action was answered. -/
structure TransitionOutcome where
  requestId : UUID
  applicationId : UUID
  toStatus : ApplicationStatus
  applied : Bool
  detail : Option String
deriving DecidableEq, Repr

/-- The slice of the run's state that the node reads. -/
structure RequestedState where
  requestedTransitions : List RequestedTransition
  actionReceipts : List ActionReceipt
  approvalRefusals : List ApprovalRefusal
  transitionOutcomes : List TransitionOutcome
deriving DecidableEq, Repr

/-- The state update the node returns. -/
structure RequestedUpdate where
  transitionOutcomes : List TransitionOutcome
  requestedTransitions : List RequestedTransition
deriving DecidableEq, Repr

def RefusalReason.value : RefusalReason → String
  | noRequest => "no_approval_request"
  | notApproved => "not_approved"
  | deniedByUser => "denied_by_user"
  | misdirectedDecision => "misdirected_decision"
  | hashMismatch => "action_hash_mismatch"
  | expired => "approval_expired"

/-- `str(exc)` of the exceptions the node catches; the others end it. -/
def LifecycleError.caught : LifecycleError → Option String
  | notFound message => some message
  | invalidApplicationTransition message _ => some message
  | applicationTransitionConflict message => some message
  | integrity => none
  | aborted => none

namespace RequestedState

/-- The receipt of an action; of several, the last. -/
def receiptOf (actionId : UUID) (state : RequestedState) : Option ActionReceipt :=
  (state.actionReceipts.filter (·.actionId == actionId)).getLast?

def refusalOf (actionId : UUID) (state : RequestedState) : Option ApprovalRefusal :=
  (state.approvalRefusals.filter (·.actionId == actionId)).getLast?

end RequestedState

namespace RequestedTransition

def outcome (applied : Bool) (detail : Option String) (request : RequestedTransition) :
    TransitionOutcome where
  requestId := request.requestId
  applicationId := request.applicationId
  toStatus := request.toStatus
  applied := applied
  detail := detail

/-- The move that the transition of a request writes, at its time. -/
def move (now : Time) (request : RequestedTransition) : StatusMove where
  applicationId := request.applicationId
  newStatus := request.toStatus
  reason := request.reason
  actor := request.requestedBy
  now := some now
  quietSince := none

end RequestedTransition

namespace JobSearchGraph

variable [DecidableEq τ] (redactText : RedactText) (t : τ) (state : RequestedState)

/-- One round of the node's loop. -/
def applyRequest (request : RequestedTransition) : LifecycleProgram τ TransitionOutcome :=
  match state.receiptOf request.requestId with
  | some receipt =>
      if receipt.ok then do
        match ← (transition redactText t request.applicationId request.toStatus request.reason
            request.requestedBy none).attempt with
        | .ok _ => return request.outcome true none
        | .error e =>
            match e.caught with
            | some message =>
                return request.outcome false (some s!"effect ran; status not changed: {message}")
            | none => raise e
      else
        let detail := (receipt.detail.filter (· ≠ "")).getD "no detail"
        return request.outcome false (some s!"effect failed: {detail}")
  | none =>
      match state.refusalOf request.requestId with
      | some refusal => return request.outcome false (some s!"effect not run: {refusal.reason.value}")
      | none => return request.outcome false (some "effect not run: no answer on record")

def applyRequests : List RequestedTransition → LifecycleProgram τ (List TransitionOutcome)
  | [] => return []
  | request :: requests => do
      let outcome ← applyRequest redactText t state request
      let outcomes ← applyRequests requests
      return outcome :: outcomes

/-- Write each requested move whose effect ran; record why the others did not. -/
def applyRequestedTransitions : LifecycleProgram τ RequestedUpdate := do
  let outcomes ← applyRequests redactText t state state.requestedTransitions
  return { transitionOutcomes := state.transitionOutcomes ++ outcomes, requestedTransitions := [] }

end JobSearchGraph

/-- A process is a pass of the node, or another actor. -/
inductive TransitionRole where
  | pass
  | actor (task : LifecycleTask)
deriving DecidableEq, Repr

inductive TransitionAnswer where
  | update (update : RequestedUpdate)
  | answer (answer : LifecycleAnswer)
deriving DecidableEq, Repr

def TransitionRole.program [DecidableEq τ] (redactText : RedactText) (state : RequestedState) (t : τ) :
    TransitionRole → LifecycleProgram τ TransitionAnswer
  | pass => do return .update (← JobSearchGraph.applyRequestedTransitions redactText t state)
  | actor task => do return .answer (← task.program redactText t)

/-- Any number of passes of the node on one state, and of other actors. -/
def requestedPool [DecidableEq τ] (redactText : RedactText) (state : RequestedState)
    (roles : τ → TransitionRole) (applications : UUID → Option Time) :
    Pool τ LifecycleInput (LifecycleDb τ) LifecycleError TransitionAnswer where
  procs t := (roles t).program redactText state t
  state := LifecycleDb.created applications

/-! ### What one round has written -/

/-- These steps commit a move of this request. -/
def CommitsRequest (redactText : RedactText) (request : RequestedTransition)
    (steps : List (OwnStep LifecycleInput (LifecycleDb τ))) : Prop :=
  ∃ step ∈ steps, ∃ now, CommitsMove redactText (request.move now) now step

theorem keepsLog_of_notMoved {redactText : RedactText} {request : RequestedTransition}
    {steps : List (OwnStep LifecycleInput (LifecycleDb τ))} (h : ∀ s ∈ steps, KeepsLog s) :
    ¬ CommitsRequest redactText request steps := by
  rintro ⟨step, hmem, now, hstep⟩
  have hmoves := hstep.moves
  rw [not_moves_of_keepsLog (h step hmem)] at hmoves
  cases hmoves

section round

variable [DecidableEq τ] {redactText : RedactText} {t : τ} {state : RequestedState}
variable {request : RequestedTransition} {outcome : TransitionOutcome}
variable {steps : List (OwnStep LifecycleInput (LifecycleDb τ))}

/-- A round reports the request as applied exactly when its own transition was committed, while
no application goes away. -/
theorem applyRequest_ends (h : (JobSearchGraph.applyRequest redactText t state request).ends steps
      (.ok outcome))
    (hstays : ∀ s ∈ steps, ∀ s' ∈ steps, (s.before.applications request.applicationId).isSome →
      (s'.before.applications request.applicationId).isSome) :
    (∃ detail, outcome = request.outcome outcome.applied detail) ∧
      (outcome.applied = true → CommitsRequest redactText request steps) ∧
      (outcome.applied = false → ∀ s ∈ steps, KeepsLog s) := by
  have hnone : ∀ {detail}, (ret (request.outcome false detail) :
      LifecycleProgram τ TransitionOutcome).ends steps (.ok outcome) →
      (∃ detail, outcome = request.outcome outcome.applied detail) ∧
        (outcome.applied = true → CommitsRequest redactText request steps) ∧
        (outcome.applied = false → ∀ s ∈ steps, KeepsLog s) := by
    intro detail hret
    obtain ⟨rfl, hout⟩ := hret
    obtain rfl := Except.ok.inj hout
    exact ⟨⟨detail, rfl⟩, fun happlied => (by cases happlied), fun _ s hs => by cases hs⟩
  unfold JobSearchGraph.applyRequest at h
  cases hreceipt : state.receiptOf request.requestId with
  | none =>
      rw [hreceipt] at h
      dsimp only at h
      split at h
      · exact hnone h
      · exact hnone h
  | some receipt =>
      rw [hreceipt] at h
      dsimp only at h
      split at h
      · obtain ⟨r, front, rest, rfl, hattempt, hrest⟩ := ends_bind_ok h
        obtain ⟨r', hr, htransition⟩ := ends_attempt hattempt
        obtain rfl := Except.ok.inj hr
        rcases transition_ends htransition with
          ⟨early, step, late, time, rfl, -, -, hstep, -, hended⟩ | ⟨⟨e, rfl⟩, hquiet⟩
        · -- The move was committed, and the application is there when it is read again.
          have hcommits : CommitsRequest redactText request ((early ++ step :: late) ++ rest) :=
            ⟨step, by simp, time, hstep⟩
          rcases hended with ⟨state', rfl⟩ | ⟨last, hlast, hgone⟩
          · obtain ⟨rfl, hout⟩ := hrest
            obtain rfl := Except.ok.inj hout
            exact ⟨⟨none, rfl⟩, fun _ => hcommits, fun happlied => by cases happlied⟩
          · obtain ⟨seen, hwrite⟩ := hstep
            obtain ⟨stored, -, hstored, -⟩ := writeMove_ok hwrite
            have hthere := hstays step (by simp) last (by simp [hlast]) (by
              show (step.before.applications request.applicationId).isSome
              exact Option.isSome_iff_exists.mpr ⟨stored, hstored⟩)
            rw [hgone] at hthere
            cases hthere
        · cases hcaught : e.caught with
          | none =>
              simp only [hcaught] at hrest
              cases hrest.2
          | some message =>
              simp only [hcaught] at hrest
              obtain ⟨rfl, hout⟩ := hrest
              obtain rfl := Except.ok.inj hout
              refine ⟨⟨_, rfl⟩, fun happlied => (by cases happlied), fun _ s hs => ?_⟩
              rw [List.append_nil] at hs
              exact hquiet s hs
      · exact hnone h

/-- The rounds of a pass, one a request, and what `told` says of each: the request, its own steps
and the outcome reported for it. -/
inductive Rounds (told : RequestedTransition → List (OwnStep LifecycleInput (LifecycleDb τ)) →
    TransitionOutcome → Prop) : List RequestedTransition →
    List (OwnStep LifecycleInput (LifecycleDb τ)) → List TransitionOutcome → Prop where
  | nil : Rounds told [] [] []
  | cons {request : RequestedTransition} {requests : List RequestedTransition}
      {steps steps' : List (OwnStep LifecycleInput (LifecycleDb τ))} {outcome : TransitionOutcome}
      {outcomes : List TransitionOutcome} :
      told request steps outcome → Rounds told requests steps' outcomes →
      Rounds told (request :: requests) (steps ++ steps') (outcome :: outcomes)

omit [DecidableEq τ] in
theorem Rounds.mono {told told' : RequestedTransition →
      List (OwnStep LifecycleInput (LifecycleDb τ)) → TransitionOutcome → Prop}
    {requests : List RequestedTransition} {outcomes : List TransitionOutcome}
    (h : Rounds told requests steps outcomes)
    (htold : ∀ request own outcome, (∀ s ∈ own, s ∈ steps) → told request own outcome →
      told' request own outcome) : Rounds told' requests steps outcomes := by
  induction h with
  | nil => exact .nil
  | cons hround _ ih =>
      refine .cons (htold _ _ _ (fun s hs => List.mem_append_left _ hs) hround) ?_
      exact ih fun request own outcome hown => htold request own outcome fun s hs =>
        List.mem_append_right _ (hown s hs)

omit [DecidableEq τ] in
theorem Rounds.first {told : RequestedTransition → List (OwnStep LifecycleInput (LifecycleDb τ)) →
      TransitionOutcome → Prop} {requests : List RequestedTransition}
    {outcomes : List TransitionOutcome}
    (h : Rounds told (request :: requests) steps (outcome :: outcomes)) :
    ∃ own, (∀ s ∈ own, s ∈ steps) ∧ told request own outcome := by
  cases h with
  | cons hround _ => exact ⟨_, fun s hs => List.mem_append_left _ hs, hround⟩

theorem applyRequests_ends {requests : List RequestedTransition} {outcomes : List TransitionOutcome}
    (h : (JobSearchGraph.applyRequests redactText t state requests).ends steps (.ok outcomes)) :
    Rounds (fun request own outcome =>
      (JobSearchGraph.applyRequest redactText t state request).ends own (.ok outcome))
      requests steps outcomes := by
  induction requests generalizing steps outcomes with
  | nil =>
      obtain ⟨rfl, hout⟩ := h
      obtain rfl := Except.ok.inj hout
      exact .nil
  | cons request requests ih =>
      obtain ⟨outcome, own, rest, rfl, hround, hrest⟩ := ends_bind_ok h
      obtain ⟨outcomes', later, last, rfl, hrounds, hlast⟩ := ends_bind_ok hrest
      obtain ⟨rfl, hout⟩ := hlast
      obtain rfl := Except.ok.inj hout
      rw [List.append_nil]
      exact .cons hround (ih hrounds)

end round

/-! ### Runs -/

/-- The same applications are on record. -/
def SameKnown (db db' : LifecycleDb τ) : Prop :=
  ∀ id, (db'.applications id).isSome = (db.applications id).isSome

theorem ActivityStep.sameKnown {task : LifecycleTask} {db db' : LifecycleDb τ}
    (h : ActivityStep task db db') : SameKnown db db' := by
  have hupdate : ∀ {id : UUID} {row row' : ApplicationRow}, db.applications id = some row →
      ∀ id', (Function.update db.applications id (some row') id').isSome =
        (db.applications id').isSome := by
    intro id row row' hrow id'
    by_cases hid : id' = id
    · subst hid
      rw [Function.update_self, hrow]
      rfl
    · rw [Function.update_of_ne hid]
  intro id
  cases h with
  | quiet _ happ _ => rw [happ]
  | noted id' row now hrow => exact hupdate hrow id
  | moved event log stored row hstored _ _ _ _ => exact hupdate hstored id

section run

variable [DecidableEq τ] {redactText : RedactText} {t : τ} {state : RequestedState}
variable {roles : τ → TransitionRole} {applications : UUID → Option Time}
variable {sched : List (τ × LifecycleInput)}

theorem applyRequests_steps {requests : List RequestedTransition} :
    (JobSearchGraph.applyRequests redactText t state requests).stepsOnly SameKnown := by
  induction requests with
  | nil => trivial
  | cons request requests ih =>
      refine stepsOnly_bind ?_ fun outcome => stepsOnly_bind ih fun outcomes => trivial
      unfold JobSearchGraph.applyRequest
      split
      · split
        · refine stepsOnly_bind (stepsOnly_attempt (stepsOnly_mono (transition_steps
            fun id quietSince now (h : LifecycleTask.recordActivity 0 none none = _) => by cases h)
            fun _ _ h => h.sameKnown)) fun answer => ?_
          split
          · trivial
          · split
            · trivial
            · trivial
        · trivial
      · split
        · trivial
        · trivial

theorem role_steps {role : TransitionRole} :
    (role.program redactText state t).stepsOnly SameKnown := by
  cases role with
  | pass => exact stepsOnly_bind (stepsOnly_bind applyRequests_steps fun _ => trivial) fun _ => trivial
  | actor task =>
      exact stepsOnly_bind (stepsOnly_mono task_steps fun _ _ h => h.sameKnown) fun _ => trivial

theorem known_stepsOf {s : OwnStep LifecycleInput (LifecycleDb τ)}
    (hs : s ∈ (requestedPool redactText state roles applications).stepsOf t sched) (id : UUID) :
    (s.before.applications id).isSome = (applications id).isSome := by
  obtain ⟨front, rest, -, hbefore, -⟩ := Pool.mem_stepsOf hs
  rw [hbefore]
  have hmeets : Pool.Meets (fun _ => SameKnown)
      (requestedPool redactText state roles applications) front :=
    Pool.meets_stepsOnly (fun _ _ _ => rfl) fun _ => role_steps
  refine Pool.Meets.inv (J := fun db => (db.applications id).isSome = (applications id).isSome)
    (fun u db db' hstep h => (hstep id).trans h) hmeets ?_
  show (((applications id).map ApplicationRow.create).isSome) = _
  rw [Option.isSome_map]

theorem pass_rounds {update : RequestedUpdate} (hpass : roles t = .pass)
    (h : (((requestedPool redactText state roles applications).run sched).procs t).outcome =
      some (.ok (.update update))) :
    ∃ outcomes, update = ⟨state.transitionOutcomes ++ outcomes, []⟩ ∧
      Rounds (fun request own outcome =>
        (JobSearchGraph.applyRequest redactText t state request).ends own (.ok outcome) ∧
        (∃ detail, outcome = request.outcome outcome.applied detail) ∧
        (outcome.applied = true ↔ CommitsRequest redactText request own))
        state.requestedTransitions
        ((requestedPool redactText state roles applications).stepsOf t sched) outcomes := by
  have hends := Pool.ends_stepsOf h
  have hprogram : (requestedPool redactText state roles applications).procs t =
      TransitionRole.pass.program redactText state t := by
    rw [← hpass]
    rfl
  rw [hprogram] at hends
  obtain ⟨update', steps, rest, hsteps, hnode, hrest, hout⟩ := ends_bind_ok hends
  obtain rfl := TransitionAnswer.update.inj (Except.ok.inj hout)
  rw [hrest, List.append_nil] at hsteps
  obtain ⟨outcomes, steps', rest', hsteps', hrounds, hrest', hupdate⟩ := ends_bind_ok hnode
  rw [hrest', List.append_nil] at hsteps'
  rw [← hsteps', ← hsteps] at hrounds
  refine ⟨outcomes, (Except.ok.inj hupdate), (applyRequests_ends hrounds).mono ?_⟩
  intro request own outcome hown hround
  obtain ⟨hdetail, happlied, hnot⟩ := applyRequest_ends hround fun s hs s' hs' hknown => by
    rw [known_stepsOf (hown s' hs')]
    rwa [known_stepsOf (hown s hs)] at hknown
  refine ⟨hround, hdetail, happlied, fun hcommits => ?_⟩
  cases happ : outcome.applied with
  | true => rfl
  | false => exact absurd hcommits (keepsLog_of_notMoved (hnot happ))

/-- Another pass has committed a move of the request. -/
def LostCommit (redactText : RedactText) (state : RequestedState) (roles : τ → TransitionRole)
    (applications : UUID → Option Time) (sched : List (τ × LifecycleInput)) (t : τ)
    (request : RequestedTransition) : Prop :=
  ∃ u, u ≠ t ∧ roles u = .pass ∧ CommitsRequest redactText request
    ((requestedPool redactText state roles applications).stepsOf u sched)

end run

/-- The report on a request is the truth: applied means that the pass committed its move, and not
applied that no pass did. -/
def ReportsTruth (redactText : RedactText) (lost : Prop) (request : RequestedTransition)
    (own : List (OwnStep LifecycleInput (LifecycleDb τ))) (outcome : TransitionOutcome) : Prop :=
  (outcome.applied = true → CommitsRequest redactText request own) ∧
    (outcome.applied = false → ¬ CommitsRequest redactText request own ∧ ¬ lost)

/-- **Requested transitions**: in every run of passes of the node and of other actors on the same
applications, a pass that returns has handled the requests one by one, and its report on each is
the truth exactly when no other pass has committed a move of the request, unless this pass has
committed one as well. -/
theorem requested_transitions_reported [DecidableEq τ] (redactText : RedactText)
    (state : RequestedState) (roles : τ → TransitionRole) (applications : UUID → Option Time)
    (sched : List (τ × LifecycleInput)) (t : τ) (update : RequestedUpdate) (hpass : roles t = .pass)
    (hreturned : (((requestedPool redactText state roles applications).run sched).procs t).outcome =
      some (.ok (.update update))) :
    ∃ outcomes, update = ⟨state.transitionOutcomes ++ outcomes, []⟩ ∧
      Rounds (fun request own outcome =>
        (JobSearchGraph.applyRequest redactText t state request).ends own (.ok outcome) ∧
        (∃ detail, outcome = request.outcome outcome.applied detail) ∧
        (ReportsTruth redactText (LostCommit redactText state roles applications sched t request)
            request own outcome ↔
          (LostCommit redactText state roles applications sched t request →
            CommitsRequest redactText request own)))
        state.requestedTransitions
        ((requestedPool redactText state roles applications).stepsOf t sched) outcomes := by
  obtain ⟨outcomes, hupdate, hrounds⟩ := pass_rounds hpass hreturned
  refine ⟨outcomes, hupdate, hrounds.mono ?_⟩
  rintro request own outcome - ⟨hround, hdetail, happlied⟩
  refine ⟨hround, hdetail, ?_⟩
  unfold ReportsTruth
  constructor
  · intro htruth hlost
    cases happ : outcome.applied with
    | true => exact happlied.mp happ
    | false => exact absurd hlost (htruth.2 happ).2
  · intro hkept
    refine ⟨happlied.mp, fun happ => ?_⟩
    have hnot : ¬ CommitsRequest redactText request own := fun hcommits => by
      rw [happlied.mpr hcommits] at happ
      cases happ
    exact ⟨hnot, fun hlost => hnot (hkept hlost)⟩

/-- The submission of application 7, whose effect has run. -/
def submittedState : RequestedState where
  requestedTransitions := [⟨5, 7, .applied, none, "maddy"⟩]
  actionReceipts := [⟨5, true, none, none⟩]
  approvalRefusals := []
  transitionOutcomes := []

/-- Processes 0 and 1 are passes of the node; the others prepare the application. -/
def submissionRoles : ℕ → TransitionRole
  | 0 => .pass
  | 1 => .pass
  | n + 2 => .actor (.updateStatus
      ⟨7, [.saved, .preparing, .readyToApply].getD n .skipped, none, "setup", some 1, none⟩)

/-- Let these processes step in turn, all their transactions committing. -/
def submissionTurns (processes : List ℕ) : List (ℕ × LifecycleInput) :=
  processes.zipIdx.map fun e => (e.1, { clock := 10, eventId := 100 + e.2, commits := true })

/-- The pass that no crash interrupts. -/
theorem requested_transitions_reported_submitted :
    ∃ outcomes, (⟨[⟨5, 7, .applied, true, none⟩], []⟩ : RequestedUpdate) =
        ⟨submittedState.transitionOutcomes ++ outcomes, []⟩ ∧
      Rounds (fun request own outcome =>
        (JobSearchGraph.applyRequest id 0 submittedState request).ends own (.ok outcome) ∧
        (∃ detail, outcome = request.outcome outcome.applied detail) ∧
        (ReportsTruth id (LostCommit id submittedState submissionRoles (fun _ => some 0)
            (submissionTurns [2, 2, 3, 3, 4, 4, 0, 0, 0, 0]) 0 request) request own outcome ↔
          (LostCommit id submittedState submissionRoles (fun _ => some 0)
              (submissionTurns [2, 2, 3, 3, 4, 4, 0, 0, 0, 0]) 0 request →
            CommitsRequest id request own)))
        submittedState.requestedTransitions
        ((requestedPool id submittedState submissionRoles fun _ => some 0).stepsOf 0
          (submissionTurns [2, 2, 3, 3, 4, 4, 0, 0, 0, 0])) outcomes :=
  requested_transitions_reported id submittedState submissionRoles (fun _ => some 0)
    (submissionTurns [2, 2, 3, 3, 4, 4, 0, 0, 0, 0]) 0 _ rfl (by decide +kernel)

/-- The first pass commits the move and its process dies before the checkpoint; the second finds
the application APPLIED, is refused, and reports that the status was not changed. -/
theorem committed_transition_reported_refused :
    ¬ ∀ (redactText : RedactText) (state : RequestedState) (roles : ℕ → TransitionRole)
        (applications : UUID → Option Time) (sched : List (ℕ × LifecycleInput)) (t : ℕ)
        (update : RequestedUpdate), state.transitionOutcomes = [] → roles t = .pass →
      (((requestedPool redactText state roles applications).run sched).procs t).outcome =
        some (.ok (.update update)) →
      ∀ request ∈ state.requestedTransitions, ∀ outcome ∈ update.transitionOutcomes,
        outcome.requestId = request.requestId → outcome.applied = false →
        ∀ u, roles u = .pass → ¬ CommitsRequest redactText request
          ((requestedPool redactText state roles applications).stepsOf u sched) := by
  intro h
  have hsecond := h id submittedState submissionRoles (fun _ => some 0)
    (submissionTurns [2, 2, 3, 3, 4, 4, 0, 0, 0, 0, 1, 1]) 1
    ⟨[⟨5, 7, .applied, false,
      some "effect ran; status not changed: cannot transition application from 'applied' to 'applied'"⟩],
      []⟩ rfl rfl (by decide +kernel) ⟨5, 7, .applied, none, "maddy"⟩ List.mem_cons_self _
    List.mem_cons_self rfl rfl 0 rfl
  -- The first pass has reported its move as applied, so that it has committed it.
  have houtcome : (((requestedPool id submittedState submissionRoles fun _ => some 0).run
      (submissionTurns [2, 2, 3, 3, 4, 4, 0, 0, 0, 0, 1, 1])).procs 0).outcome =
        some (.ok (.update ⟨[⟨5, 7, .applied, true, none⟩], []⟩)) := by
    decide +kernel
  obtain ⟨outcomes, hupdate, hrounds⟩ := pass_rounds rfl houtcome
  obtain rfl : outcomes = [⟨5, 7, .applied, true, none⟩] :=
    (RequestedUpdate.mk.inj hupdate).1.symm
  obtain ⟨own, hown, -, -, happlied⟩ := hrounds.first
  obtain ⟨step, hmem, hcommits⟩ := happlied.mp rfl
  exact hsecond ⟨step, hown step hmem, hcommits⟩

end PersonalOS
