import PersonalOS.JobSearchGraph
import Mathlib.Data.List.Nodup

/-! # Which decisions the approval checkpoint appends

`approval_checkpoint` merges the gate's answers and the resume value's decisions through one
dictionary keyed by action id, and appends what it then holds for the pending actions.

* `EveryActionAnswered` is what the node is for: one decision for each pending action, none
  for another action, each the gate's own answer where the gate gave one and the resume
  value's otherwise.
* `approvalCheckpoint_answered_iff` says when it does that: exactly when the pending actions
  have distinct ids and the gate and the resume value together are `Complete`.  A resume value
  that is empty, or leaves out an action, is not refused. -/

namespace PersonalOS

variable {P : Type}

/-- What the gate has on file for the action at position `n`: its answer, unless pending. -/
def gateAnswer (gate : ApprovalGate P) (n : ℕ) (intent : ActionIntent P) : Option ApprovalDecision :=
  match gate n intent with
  | .error _ => none
  | .ok decision => if decision.verdict = .pending then none else some decision

/-- The decisions a resume value carries. -/
def resumeDecisions : Option ResumeValue → List ApprovalDecision
  | none => []
  | some value =>
      match decisionsFromResume value with
      | .error _ => []
      | .ok decisions => decisions

/-- One decision for each pending action and for no other, from the gate or else the resume. -/
structure EveryActionAnswered (gate : ApprovalGate P) (resumed : List ApprovalDecision)
    (intents : List (ActionIntent P)) (decisions : List ApprovalDecision) : Prop where
  one : ∀ intent ∈ intents, (decisions.map (·.actionId)).count intent.actionId = 1
  pending : ∀ d ∈ decisions, ∃ intent ∈ intents, d.actionId = intent.actionId
  answer : ∀ n intent, intents[n]? = some intent → ∀ d ∈ decisions, d.actionId = intent.actionId →
    some d = (gateAnswer gate n intent).or (latest (·.actionId) intent.actionId resumed)

/-- Some pending action is left to the resume value. -/
def Asks (gate : ApprovalGate P) (intents : List (ActionIntent P)) : Prop :=
  ∃ n intent, intents[n]? = some intent ∧ gateAnswer gate n intent = none

/-- The gate answers about the actions it was asked about, the resume value answers all the
others, and it does not answer differently what the gate has answered. -/
structure Complete (gate : ApprovalGate P) (resumed : List ApprovalDecision)
    (intents : List (ActionIntent P)) : Prop where
  nodup : (intents.map (·.actionId)).Nodup
  named : ∀ n intent d, intents[n]? = some intent → gateAnswer gate n intent = some d →
    d.actionId = intent.actionId
  kept : Asks gate intents → ∀ n intent d d', intents[n]? = some intent →
    gateAnswer gate n intent = some d → latest (·.actionId) intent.actionId resumed = some d' → d' = d
  resumed : ∀ n intent, intents[n]? = some intent → gateAnswer gate n intent = none →
    ∃ d, latest (·.actionId) intent.actionId resumed = some d

/-! ### The dictionary of answers -/

theorem lookup_map_find? {α : Type} (key : α → UUID) (id : UUID) (entries : List α) :
    (entries.map fun a => (key a, a)).lookup id = entries.find? fun a => key a == id := by
  induction entries with
  | nil => rfl
  | cons a entries ih =>
      simp only [List.map_cons, List.lookup_cons, List.find?_cons, ih, BEq.comm (a := id)]

theorem lookup_resumed (id : UUID) (resumed : List ApprovalDecision)
    (answered : List (UUID × ApprovalDecision)) :
    (resumed.reverse.map (fun d => (d.actionId, d)) ++ answered).lookup id =
      (latest (·.actionId) id resumed).or (answered.lookup id) := by
  rw [List.lookup_append, lookup_map_find?]
  rfl

theorem exists_getElem?_cons {α : Type} {a : α} {entries : List α} {n : ℕ} {p : ℕ → α → Prop} :
    (∃ k b, (a :: entries)[k]? = some b ∧ p (n + k) b) ↔
      p n a ∨ ∃ k b, entries[k]? = some b ∧ p (n + 1 + k) b := by
  constructor
  · rintro ⟨k, b, hk, hp⟩
    cases k with
    | zero =>
        obtain rfl := Option.some.inj hk
        exact Or.inl hp
    | succ k =>
        refine Or.inr ⟨k, b, hk, ?_⟩
        rwa [show n + 1 + k = n + (k + 1) by omega]
  · rintro (hp | ⟨k, b, hk, hp⟩)
    · exact ⟨0, a, rfl, hp⟩
    · refine ⟨k + 1, b, hk, ?_⟩
      rwa [show n + (k + 1) = n + 1 + k by omega]

section reviewAll

variable {gate : ApprovalGate P} {requests : List ApprovalRequest}

/-- What the loop over the pending actions leaves: the gate's answers under their actions'
ids, and the actions it has none for. -/
theorem reviewAll_spec {intents : List (ActionIntent P)} {n : ℕ} {reviewed : Reviewed P}
    (h : reviewAll gate requests n intents = .ok reviewed) :
    (∀ id d, (id, d) ∈ reviewed.answered ↔ ∃ k intent, intents[k]? = some intent ∧
      intent.actionId = id ∧ gateAnswer gate (n + k) intent = some d) ∧
    (∀ intent, intent ∈ reviewed.outstanding ↔ ∃ k b, intents[k]? = some b ∧
      b = intent ∧ gateAnswer gate (n + k) b = none) := by
  induction intents generalizing n reviewed with
  | nil =>
      obtain rfl := Except.ok.inj h
      simp
  | cons intent intents ih =>
      simp only [reviewAll] at h
      split at h
      · cases h
      cases hg : gate n intent with
      | error error => rw [hg] at h; cases h
      | ok decision =>
          rw [hg] at h
          cases hrest : reviewAll gate requests (n + 1) intents with
          | error error => rw [hrest] at h; cases h
          | ok rest =>
              rw [hrest] at h
              obtain ⟨hanswered, houtstanding⟩ := ih hrest
              have hreviewed := Except.ok.inj h
              refine ⟨fun id d => ?_, fun b => ?_⟩
              · rw [exists_getElem?_cons (p := fun k i =>
                  i.actionId = id ∧ gateAnswer gate k i = some d), ← hanswered, ← hreviewed]
                by_cases hp : decision.verdict = .pending
                · simp [gateAnswer, hg, hp]
                · simp [gateAnswer, hg, hp, or_comm, eq_comm]
              · rw [exists_getElem?_cons (p := fun k i =>
                  i = b ∧ gateAnswer gate k i = none), ← houtstanding, ← hreviewed]
                by_cases hp : decision.verdict = .pending
                · simp [gateAnswer, hg, hp, eq_comm]
                · simp [gateAnswer, hg, hp]

end reviewAll

/-! ### The node -/

section node

variable {gate : ApprovalGate P} {resumed : List ApprovalDecision} {intents : List (ActionIntent P)}
variable {answers : List (UUID × ApprovalDecision)}

/-- The dictionary the node collects from: the resume value's decisions, where some action was
left to it, over the gate's answers. -/
structure Merged (gate : ApprovalGate P) (resumed : List ApprovalDecision)
    (intents : List (ActionIntent P)) (answers : List (UUID × ApprovalDecision)) : Prop where
  fromResume : Asks gate intents → ∀ id d, latest (·.actionId) id resumed = some d →
    answers.lookup id = some d
  origin : ∀ id d, answers.lookup id = some d →
    (Asks gate intents ∧ latest (·.actionId) id resumed = some d) ∨
    ∃ n intent, intents[n]? = some intent ∧ intent.actionId = id ∧ gateAnswer gate n intent = some d
  fromGate : ∀ n intent d, intents[n]? = some intent → gateAnswer gate n intent = some d →
    ∃ d', answers.lookup intent.actionId = some d'

theorem map_collect (h : ∀ intent ∈ intents, ∃ d, answers.lookup intent.actionId = some d ∧
    d.actionId = intent.actionId) :
    (collect answers intents).map (·.actionId) = intents.map (·.actionId) := by
  induction intents with
  | nil => rfl
  | cons intent intents ih =>
      obtain ⟨d, hd, hid⟩ := h intent List.mem_cons_self
      have hrest := ih fun i hi => h i (List.mem_cons_of_mem _ hi)
      simp only [collect] at hrest ⊢
      simp [hd, hid, hrest]

theorem mem_collect {d : ApprovalDecision} : d ∈ collect answers intents ↔
    ∃ intent ∈ intents, answers.lookup intent.actionId = some d := by
  simp [collect]

theorem Merged.answered (h : Merged gate resumed intents answers) (hc : Complete gate resumed intents) :
    EveryActionAnswered gate resumed intents (collect answers intents) := by
  -- The answer under the id of the action at position `n` is the one expected there.
  have hat : ∀ n intent, intents[n]? = some intent → ∃ d, answers.lookup intent.actionId = some d ∧
      d.actionId = intent.actionId ∧
      some d = (gateAnswer gate n intent).or (latest (·.actionId) intent.actionId resumed) := by
    intro n intent hn
    cases hg : gateAnswer gate n intent with
    | none =>
        obtain ⟨d, hd⟩ := hc.resumed n intent hn hg
        exact ⟨d, h.fromResume ⟨n, intent, hn, hg⟩ _ _ hd, (latest_mem hd).2, hd.symm⟩
    | some d =>
        obtain ⟨d', hd'⟩ := h.fromGate n intent d hn hg
        obtain rfl : d' = d := by
          rcases h.origin _ _ hd' with ⟨hasks, hl⟩ | ⟨m, intent', hm, hid, hg'⟩
          · exact hc.kept hasks n intent d d' hn hg hl
          · obtain rfl : m = n := by
              refine (List.getElem?_inj ?_ hc.nodup).mp ?_
              · simpa using (List.getElem?_eq_some_iff.mp hm).1
              · rw [List.getElem?_map, List.getElem?_map, hm, hn]
                simp [hid]
            rw [hm] at hn
            obtain rfl := Option.some.inj hn
            rw [hg'] at hg
            exact Option.some.inj hg
        exact ⟨d', hd', hc.named n intent d' hn hg, rfl⟩
  have hmap : (collect answers intents).map (·.actionId) = intents.map (·.actionId) := by
    refine map_collect fun intent hmem => ?_
    obtain ⟨n, hn⟩ := List.mem_iff_getElem?.mp hmem
    obtain ⟨d, hd, hid, -⟩ := hat n intent hn
    exact ⟨d, hd, hid⟩
  refine ⟨?_, ?_, ?_⟩
  · intro intent hmem
    rw [hmap]
    exact List.count_eq_one_of_mem hc.nodup (List.mem_map_of_mem hmem)
  · intro d hd
    have : d.actionId ∈ intents.map (·.actionId) := hmap ▸ List.mem_map_of_mem hd
    obtain ⟨intent, hmem, hid⟩ := List.mem_map.mp this
    exact ⟨intent, hmem, hid.symm⟩
  · intro n intent hn d hd hid
    obtain ⟨d', hd', hid', hexpected⟩ := hat n intent hn
    obtain ⟨intent', hmem', hlookup⟩ := mem_collect.mp hd
    obtain ⟨m, hm⟩ := List.mem_iff_getElem?.mp hmem'
    obtain ⟨d'', hd'', hid'', -⟩ := hat m intent' hm
    rw [hlookup] at hd''
    obtain rfl := Option.some.inj hd''
    have : intent'.actionId = intent.actionId := hid''.symm.trans hid
    rw [this, hd'] at hlookup
    obtain rfl := Option.some.inj hlookup
    exact hexpected

theorem Merged.complete (h : Merged gate resumed intents answers)
    (ha : EveryActionAnswered gate resumed intents (collect answers intents)) :
    Complete gate resumed intents := by
  -- Every pending action's own decision is the one expected for it.
  have hat : ∀ n intent, intents[n]? = some intent → ∃ d ∈ collect answers intents,
      d.actionId = intent.actionId ∧
      some d = (gateAnswer gate n intent).or (latest (·.actionId) intent.actionId resumed) := by
    intro n intent hn
    have hone := ha.one intent (List.mem_of_getElem? hn)
    obtain ⟨d, hd, hid⟩ := List.mem_map.mp (List.count_pos_iff.mp (by omega :
      0 < ((collect answers intents).map (·.actionId)).count intent.actionId))
    exact ⟨d, hd, hid, ha.answer n intent hn d hd hid⟩
  have hnamed : ∀ n intent d, intents[n]? = some intent → gateAnswer gate n intent = some d →
      d.actionId = intent.actionId := by
    intro n intent d hn hg
    obtain ⟨d', -, hid, hexpected⟩ := hat n intent hn
    rw [hg] at hexpected
    obtain rfl : d' = d := Option.some.inj hexpected
    exact hid
  have hresumed : ∀ n intent, intents[n]? = some intent → gateAnswer gate n intent = none →
      ∃ d, latest (·.actionId) intent.actionId resumed = some d := by
    intro n intent hn hg
    obtain ⟨d, -, -, hexpected⟩ := hat n intent hn
    rw [hg] at hexpected
    exact ⟨d, hexpected.symm⟩
  refine ⟨?_, hnamed, ?_, hresumed⟩
  · have hmap : (collect answers intents).map (·.actionId) = intents.map (·.actionId) := by
      refine map_collect fun intent hmem => ?_
      obtain ⟨n, hn⟩ := List.mem_iff_getElem?.mp hmem
      have hsome : ∃ d, answers.lookup intent.actionId = some d := by
        cases hg : gateAnswer gate n intent with
        | some d => exact h.fromGate n intent d hn hg
        | none =>
            obtain ⟨d, hd⟩ := hresumed n intent hn hg
            exact ⟨d, h.fromResume ⟨n, intent, hn, hg⟩ _ _ hd⟩
      obtain ⟨d, hd⟩ := hsome
      refine ⟨d, hd, ?_⟩
      rcases h.origin _ _ hd with ⟨-, hl⟩ | ⟨m, intent', hm, hid, hg⟩
      · exact (latest_mem hl).2
      · rw [hnamed m intent' d hm hg, hid]
    refine List.nodup_iff_count_le_one.mpr fun id => ?_
    by_cases hid : id ∈ intents.map (·.actionId)
    · obtain ⟨intent, hmem, rfl⟩ := List.mem_map.mp hid
      have := ha.one intent hmem
      rw [hmap] at this
      omega
    · rw [List.count_eq_zero_of_not_mem hid]
      omega
  · intro hasks n intent d d' hn hg hl
    have hmem : d' ∈ collect answers intents :=
      mem_collect.mpr ⟨intent, List.mem_of_getElem? hn, h.fromResume hasks _ _ hl⟩
    have := ha.answer n intent hn d' hmem (latest_mem hl).2
    rw [hg] at this
    exact Option.some.inj this

theorem reviewAll_answered {requests : List ApprovalRequest} {reviewed : Reviewed P} {id : UUID}
    {d : ApprovalDecision} (h : reviewAll gate requests 0 intents = .ok reviewed)
    (hd : reviewed.answered.lookup id = some d) : ∃ n intent, intents[n]? = some intent ∧
      intent.actionId = id ∧ gateAnswer gate n intent = some d := by
  obtain ⟨l₁, l₂, hl, -⟩ := List.lookup_eq_some_iff.mp hd
  have hmem : (id, d) ∈ reviewed.answered := by simp [hl]
  simpa using ((reviewAll_spec h).1 id d).mp hmem

theorem reviewAll_lookup {requests : List ApprovalRequest} {reviewed : Reviewed P} {n : ℕ}
    {intent : ActionIntent P} {d : ApprovalDecision}
    (h : reviewAll gate requests 0 intents = .ok reviewed) (hn : intents[n]? = some intent)
    (hg : gateAnswer gate n intent = some d) :
    ∃ d', reviewed.answered.lookup intent.actionId = some d' := by
  have hmem : (intent.actionId, d) ∈ reviewed.answered :=
    ((reviewAll_spec h).1 _ _).mpr ⟨n, intent, hn, rfl, by simpa using hg⟩
  exact Option.isSome_iff_exists.mp (List.lookup_isSome_iff.mpr ⟨_, hmem, by simp⟩)

theorem reviewAll_outstanding {requests : List ApprovalRequest} {reviewed : Reviewed P}
    (h : reviewAll gate requests 0 intents = .ok reviewed) :
    reviewed.outstanding ≠ [] ↔ Asks gate intents := by
  constructor
  · intro hne
    obtain ⟨b, hb⟩ := List.exists_mem_of_ne_nil _ hne
    obtain ⟨k, i, hk, -, hg⟩ := ((reviewAll_spec h).2 b).mp hb
    exact ⟨k, i, hk, by simpa using hg⟩
  · rintro ⟨k, i, hk, hg⟩
    exact List.ne_nil_of_mem (((reviewAll_spec h).2 i).mpr ⟨k, i, hk, rfl, by simpa using hg⟩)

theorem settleReview_merged {requests : List ApprovalRequest} {resume : Option ResumeValue}
    {reviewed : Reviewed P} {decisions : List ApprovalDecision}
    (hr : reviewAll gate requests 0 intents = .ok reviewed)
    (h : settleReview requests resume intents reviewed = .decided decisions) :
    ∃ answers, decisions = collect answers intents ∧
      Merged gate (resumeDecisions resume) intents answers := by
  unfold settleReview at h
  split at h
  · rename_i hout
    have hasks : ¬ Asks gate intents := fun ha => (reviewAll_outstanding hr).mpr ha hout
    refine ⟨reviewed.answered, (CheckpointResult.decided.inj h).symm, ?_⟩
    refine ⟨fun ha => absurd ha hasks, fun id d hd => Or.inr (reviewAll_answered hr hd), ?_⟩
    exact fun n intent d hn hg => reviewAll_lookup hr hn hg
  · rename_i hout
    have hasks : Asks gate intents := (reviewAll_outstanding hr).mp hout
    cases resume with
    | none => cases h
    | some value =>
        dsimp only at h
        cases hv : decisionsFromResume value with
        | error error => rw [hv] at h; cases h
        | ok resumed =>
            rw [hv] at h
            have hres : resumeDecisions (some value) = resumed := by simp [resumeDecisions, hv]
            rw [hres]
            refine ⟨_, (CheckpointResult.decided.inj h).symm, ?_, ?_, ?_⟩
            · intro _ id d hd
              rw [lookup_resumed, hd, Option.some_or]
            · intro id d hd
              rw [lookup_resumed] at hd
              cases hl : latest (·.actionId) id resumed with
              | none =>
                  rw [hl, Option.none_or] at hd
                  exact Or.inr (reviewAll_answered hr hd)
              | some d' =>
                  rw [hl, Option.some_or] at hd
                  exact Or.inl ⟨hasks, hd⟩
            · intro n intent d hn hg
              obtain ⟨d', hd'⟩ := reviewAll_lookup hr hn hg
              rw [lookup_resumed, hd']
              cases latest (·.actionId) intent.actionId resumed with
              | none => exact ⟨d', rfl⟩
              | some d'' => exact ⟨d'', rfl⟩

theorem approvalCheckpoint_merged {resume : Option ResumeValue} {state : JobSearchState P}
    {decisions : List ApprovalDecision} (hload : load state.pendingActions = .ok intents)
    (h : approvalCheckpoint gate resume state = .decided decisions) :
    ∃ answers, decisions = collect answers intents ∧
      Merged gate (resumeDecisions resume) intents answers := by
  unfold approvalCheckpoint at h
  rw [hload] at h
  cases intents with
  | nil =>
      refine ⟨[], (CheckpointResult.decided.inj h).symm, ?_, ?_, ?_⟩
      · rintro ⟨n, intent, hn, -⟩
        simp at hn
      · intro id d hd
        simp at hd
      · intro n intent d hn
        simp at hn
  | cons intent intents =>
      dsimp only at h
      cases hr : reviewAll gate state.approvalRequests 0 (intent :: intents) with
      | error error => rw [hr] at h; cases h
      | ok reviewed =>
          rw [hr] at h
          exact settleReview_merged hr h

/-- **What the checkpoint appends**: an execution that neither raises nor parks gives every
pending action its one answer exactly when the gate and the resume value were complete. -/
theorem approvalCheckpoint_answered_iff (resume : Option ResumeValue) (state : JobSearchState P)
    {decisions : List ApprovalDecision} (hload : load state.pendingActions = .ok intents)
    (h : approvalCheckpoint gate resume state = .decided decisions) :
    EveryActionAnswered gate (resumeDecisions resume) intents decisions ↔
      Complete gate (resumeDecisions resume) intents := by
  obtain ⟨answers, rfl, hm⟩ := approvalCheckpoint_merged hload h
  exact ⟨hm.complete, hm.answered⟩

end node

/-! ### A batch answered in part -/

/-- Both actions pending, with their requests on file. -/
def batchState : JobSearchState PlainPayload :=
  let state : JobSearchState PlainPayload := ⟨[some submission, some recruiterReply], [], [], [], []⟩
  match requestApproval (fun n => 100 + n) 0 none state with
  | .ok state => state
  | .error _ => state

theorem approvalCheckpoint_answered_iff_batch :
    EveryActionAnswered (interruptOnlyApprovalGate 5) [submissionApproval]
        [submission, recruiterReply] [submissionApproval] ↔
      Complete (interruptOnlyApprovalGate 5) [submissionApproval] [submission, recruiterReply] :=
  approvalCheckpoint_answered_iff (some (.decision submissionApproval)) batchState rfl rfl

/-- The reply is left without a decision. -/
theorem approvalCheckpoint_partial_resume :
    ¬ ∀ (gate : ApprovalGate PlainPayload) (resume : Option ResumeValue)
        (state : JobSearchState PlainPayload) (intents : List (ActionIntent PlainPayload))
        (decisions : List ApprovalDecision), load state.pendingActions = .ok intents →
      approvalCheckpoint gate resume state = .decided decisions →
      EveryActionAnswered gate (resumeDecisions resume) intents decisions := by
  intro h
  have hbatch := h (interruptOnlyApprovalGate 5) (some (.decision submissionApproval)) batchState
    [submission, recruiterReply] [submissionApproval] rfl rfl
  exact absurd (hbatch.one recruiterReply (by decide)) (by decide)

end PersonalOS
