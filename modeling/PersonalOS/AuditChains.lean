import PersonalOS.AuditTrail

/-! # What a workflow's trail holds

* **Steps.** A trail is of `TrailStep`s: the intent of an action, a verdict, or an event.  The steps of the
  decisions have one intent for each hash, with the first decision on it (`TrailStep.proposed_of_mem`).
* **Trails.** Every decision and every event of the workflow is one step, in the order they happened, and
  no verdict on an action comes before its intent (`IsTrail`). -/

namespace PersonalOS

namespace AuditTrail

variable {ρ : Type}

/-! ### Steps of a trail -/

/-- What an entry of a trail is of. -/
inductive TrailStep where
  | intent (row : DecisionRow)
  | verdict (row : DecisionRow)
  | event (row : EventRow)

namespace TrailStep

def intent? : TrailStep → Option DecisionRow
  | intent row => some row
  | _ => none

def verdict? : TrailStep → Option DecisionRow
  | verdict row => some row
  | _ => none

def event? : TrailStep → Option EventRow
  | event row => some row
  | _ => none

/-- The entry of a step. -/
def entry (tools : AuditTools ρ) (chains : Chains ρ) (events : List EventRow) :
    TrailStep → AuditTrailEntry ρ
  | intent row => chains.intent tools row events
  | verdict row => chains.decision tools row
  | event row => chains.entry tools row

/-- The steps of the decisions, each hash proposed before its first one. -/
def ofDecisions : List DecisionRow → List String → List TrailStep
  | [], _ => []
  | row :: rows, proposed =>
      if proposed.contains row.argsHash then verdict row :: ofDecisions rows proposed
      else intent row :: verdict row :: ofDecisions rows (row.argsHash :: proposed)

theorem verdicts_ofDecisions (rows : List DecisionRow) (proposed : List String) :
    (ofDecisions rows proposed).filterMap verdict? = rows := by
  induction rows generalizing proposed with
  | nil => rfl
  | cons row rows ih =>
      rw [ofDecisions]
      split
      case isTrue => exact congrArg (row :: ·) (ih proposed)
      case isFalse => exact congrArg (row :: ·) (ih _)

theorem events_ofDecisions (rows : List DecisionRow) (proposed : List String) :
    (ofDecisions rows proposed).filterMap event? = [] := by
  induction rows generalizing proposed with
  | nil => rfl
  | cons row rows ih =>
      rw [ofDecisions]
      split
      case isTrue => exact ih proposed
      case isFalse => exact ih _

theorem mem_intents {rows : List DecisionRow} {proposed : List String} {row : DecisionRow}
    (h : row ∈ (ofDecisions rows proposed).filterMap intent?) :
    row ∈ rows ∧ row.argsHash ∉ proposed := by
  induction rows generalizing proposed with
  | nil => cases h
  | cons row' rows ih =>
      rw [ofDecisions] at h
      split at h
      case isTrue =>
        obtain ⟨hmem, hnew⟩ := ih h
        exact ⟨List.mem_cons_of_mem row' hmem, hnew⟩
      case isFalse hnew' =>
        rcases List.mem_cons.mp h with rfl | h
        · exact ⟨List.mem_cons_self, fun hmem => hnew' (List.contains_iff_mem.mpr hmem)⟩
        · obtain ⟨hmem, hnew⟩ := ih h
          exact ⟨List.mem_cons_of_mem row' hmem, fun hmem => hnew (List.mem_cons_of_mem _ hmem)⟩

theorem nodup_intents (rows : List DecisionRow) (proposed : List String) :
    (((ofDecisions rows proposed).filterMap intent?).map (·.argsHash)).Nodup := by
  induction rows generalizing proposed with
  | nil => exact List.nodup_nil
  | cons row rows ih =>
      rw [ofDecisions]
      split
      case isTrue => exact ih proposed
      case isFalse =>
        refine List.nodup_cons.mpr ⟨fun hmem => ?_, ih _⟩
        obtain ⟨row', hrow', hhash⟩ := List.mem_map.mp hmem
        exact (mem_intents hrow').2 (hhash ▸ List.mem_cons_self)

/-- The action of a decision was proposed, with the first decision on it. -/
theorem proposed_of_mem {rows : List DecisionRow} (hsorted : rows.Pairwise decidedFirst)
    {proposed : List String} {row : DecisionRow} (h : row ∈ rows) (hnew : row.argsHash ∉ proposed) :
    ∃ row' ∈ (ofDecisions rows proposed).filterMap intent?,
      row'.argsHash = row.argsHash ∧ row'.decidedAt ≤ row.decidedAt := by
  induction rows generalizing proposed with
  | nil => cases h
  | cons first rows ih =>
      obtain ⟨hfirst, hrest⟩ := List.pairwise_cons.mp hsorted
      rw [ofDecisions]
      split
      case isTrue hold =>
        rcases List.mem_cons.mp h with rfl | h
        · exact absurd (List.contains_iff_mem.mp hold) hnew
        · exact ih hrest h hnew
      case isFalse =>
        by_cases hhash : first.argsHash = row.argsHash
        · refine ⟨first, List.mem_cons_self, hhash, ?_⟩
          rcases List.mem_cons.mp h with rfl | h
          · exact le_refl _
          · rcases hfirst row h with hlt | ⟨heq, -⟩
            · exact hlt.le
            · exact heq.le
        · rcases List.mem_cons.mp h with rfl | h
          · exact absurd rfl hhash
          · have hnew' : row.argsHash ∉ first.argsHash :: proposed := by
              rw [List.mem_cons, not_or]
              exact ⟨fun heq => hhash heq.symm, hnew⟩
            obtain ⟨row', hrow', hsame⟩ := ih hrest h hnew'
            exact ⟨row', List.mem_cons_of_mem first hrow', hsame⟩

end TrailStep

theorem proposals_eq_map (tools : AuditTools ρ) (chains : Chains ρ) (events : List EventRow)
    (rows : List DecisionRow) (proposed : List String) :
    AuditTables.proposals tools chains events rows proposed =
      (TrailStep.ofDecisions rows proposed).map (TrailStep.entry tools chains events) := by
  induction rows generalizing proposed with
  | nil => rfl
  | cons row rows ih =>
      rw [AuditTables.proposals, TrailStep.ofDecisions]
      split
      case isTrue => rw [ih, List.map_cons, TrailStep.entry]
      case isFalse => rw [ih, List.map_cons, List.map_cons, TrailStep.entry, TrailStep.entry]

instance : Std.Total (happensFirst (ρ := ρ)) where
  total entry entry' := by
    unfold happensFirst
    unfold Instant at *
    omega

instance : IsTrans (AuditTrailEntry ρ) happensFirst where
  trans entry entry' entry'' h h' := by
    unfold happensFirst at *
    unfold Instant at *
    omega

instance : Std.Total decidedFirst where
  total row row' := by
    unfold decidedFirst
    unfold Instant UUID at *
    omega

instance : IsTrans DecisionRow decidedFirst where
  trans row row' row'' h h' := by
    unfold decidedFirst at *
    unfold Instant UUID at *
    omega

/-- The order of the entries of two steps. -/
def TrailStep.Before (tools : AuditTools ρ) (chains : Chains ρ) (events : List EventRow)
    (step step' : TrailStep) : Prop :=
  happensFirst (step.entry tools chains events) (step'.entry tools chains events)

section before

variable {tools : AuditTools ρ} {chains : Chains ρ} {events : List EventRow}

instance : DecidableRel (TrailStep.Before tools chains events) :=
  fun _ _ => inferInstanceAs (Decidable (happensFirst _ _))

instance : Std.Total (TrailStep.Before tools chains events) where
  total _ _ := total_of happensFirst _ _

instance : IsTrans TrailStep (TrailStep.Before tools chains events) where
  trans _ _ _ h h' := trans_of happensFirst h h'

theorem decidedAt_lt_of_before {row row' : DecisionRow}
    (h : TrailStep.Before tools chains events (.verdict row) (.intent row')) :
    row.decidedAt < row'.decidedAt := by
  rcases h with hlt | ⟨-, horder⟩
  · exact hlt
  · exact absurd horder (by decide : ¬ AuditStage.policyDecision.order ≤ AuditStage.intent.order)

end before

/-! ### Trails -/

/-- The steps are a trail of the workflow: in the order of the entries, with every decision and every
event of it once; every action has one intent, its first decision, which comes before its verdicts. -/
structure IsTrail (tables : AuditTables ρ) (workflowId : UUID) (before : TrailStep → TrailStep → Prop)
    (steps : List TrailStep) : Prop where
  ordered : steps.Pairwise before
  verdicts : (steps.filterMap TrailStep.verdict?).Perm
    (tables.decisions.filter (·.workflowId = some workflowId))
  events : (steps.filterMap TrailStep.event?).Perm (tables.events.filter (·.workflowId = some workflowId))
  intents : ((steps.filterMap TrailStep.intent?).map (·.argsHash)).Nodup
  intents_subset : steps.filterMap TrailStep.intent? ⊆ steps.filterMap TrailStep.verdict?
  proposed : ∀ row ∈ steps.filterMap TrailStep.verdict?, ∃ row' ∈ steps.filterMap TrailStep.intent?,
    row'.argsHash = row.argsHash ∧ row'.decidedAt ≤ row.decidedAt
  intent_first : steps.Pairwise fun step step' => ∀ row row',
    step = .verdict row → step' = .intent row' → row.argsHash ≠ row'.argsHash

theorem isTrail_insertionSort (tools : AuditTools ρ) (tables : AuditTables ρ) (workflowId : UUID)
    (chains : Chains ρ) (events : List EventRow) :
    IsTrail tables workflowId (TrailStep.Before tools chains events)
      ((TrailStep.ofDecisions (tables.decisionsOf workflowId) [] ++
        (tables.eventsOf workflowId).map TrailStep.event).insertionSort
          (TrailStep.Before tools chains events)) := by
  generalize hsteps : TrailStep.ofDecisions (tables.decisionsOf workflowId) [] ++
    (tables.eventsOf workflowId).map TrailStep.event = steps
  have hperm := List.perm_insertionSort (TrailStep.Before tools chains events) steps
  have hordered := List.pairwise_insertionSort (TrailStep.Before tools chains events) steps
  have hverdicts : steps.filterMap TrailStep.verdict? = tables.decisionsOf workflowId := by
    rw [← hsteps, List.filterMap_append, TrailStep.verdicts_ofDecisions, List.filterMap_map]
    exact (congrArg _ (List.filterMap_eq_nil_iff.mpr fun _ _ => rfl)).trans (List.append_nil _)
  have hevents : steps.filterMap TrailStep.event? = tables.eventsOf workflowId := by
    rw [← hsteps, List.filterMap_append, TrailStep.events_ofDecisions, List.filterMap_map]
    exact List.filterMap_some
  have hintents : steps.filterMap TrailStep.intent? =
      (TrailStep.ofDecisions (tables.decisionsOf workflowId) []).filterMap TrailStep.intent? := by
    rw [← hsteps, List.filterMap_append, List.filterMap_map]
    exact (congrArg _ (List.filterMap_eq_nil_iff.mpr fun _ _ => rfl)).trans (List.append_nil _)
  have hnodup : ((steps.filterMap TrailStep.intent?).map (·.argsHash)).Nodup := by
    rw [hintents]
    exact TrailStep.nodup_intents _ _
  have hproposed : ∀ row ∈ steps.filterMap TrailStep.verdict?, ∃ row' ∈ steps.filterMap TrailStep.intent?,
      row'.argsHash = row.argsHash ∧ row'.decidedAt ≤ row.decidedAt := by
    intro row hrow
    rw [hverdicts] at hrow
    rw [hintents]
    exact TrailStep.proposed_of_mem (List.pairwise_insertionSort decidedFirst _) hrow List.not_mem_nil
  refine
    { ordered := hordered
      verdicts := (hperm.filterMap _).trans (hverdicts ▸ List.perm_insertionSort decidedFirst _)
      events := (hperm.filterMap _).trans (hevents ▸ List.perm_insertionSort oldestFirst _)
      intents := ((hperm.filterMap _).map _).nodup_iff.mpr hnodup
      intents_subset := ?_
      proposed := ?_
      intent_first := ?_ }
  · intro row hrow
    have hrow' := (hperm.filterMap TrailStep.intent?).mem_iff.mp hrow
    rw [hintents] at hrow'
    refine (hperm.filterMap TrailStep.verdict?).mem_iff.mpr ?_
    rw [hverdicts]
    exact (TrailStep.mem_intents hrow').1
  · intro row hrow
    obtain ⟨row', hrow', hsame⟩ := hproposed row ((hperm.filterMap TrailStep.verdict?).mem_iff.mp hrow)
    exact ⟨row', (hperm.filterMap TrailStep.intent?).mem_iff.mpr hrow', hsame⟩
  · refine List.Pairwise.imp_of_mem ?_ hordered
    rintro step step' hstep hstep' hfirst row row' rfl rfl hhash
    have hverdict : row ∈ steps.filterMap TrailStep.verdict? :=
      List.mem_filterMap.mpr ⟨_, hperm.mem_iff.mp hstep, rfl⟩
    have hintent : row' ∈ steps.filterMap TrailStep.intent? :=
      List.mem_filterMap.mpr ⟨_, hperm.mem_iff.mp hstep', rfl⟩
    obtain ⟨first, hfirst', hsame, hle⟩ := hproposed row hverdict
    have heq : first = row' := Keyed.eq_of_key hnodup hfirst' hintent (hsame.trans hhash)
    exact absurd (heq ▸ hle) (not_le.mpr (decidedAt_lt_of_before hfirst))

/-- **A workflow's trail holds everything that was recorded for it.**  There is one just for the workflows
that exist, and it is a trail: every decision and every event once, in the order they happened, each
action proposed once and before every verdict on it. -/
theorem workflow_trail_holds_everything (tools : AuditTools ρ) (tables : AuditTables ρ) (workflowId : UUID) :
    (tables.workflowTrail tools workflowId = none ↔ workflowId ∉ tables.workflows) ∧
      ∀ trail ∈ tables.workflowTrail tools workflowId, ∃ steps,
        trail = steps.map
          (TrailStep.entry tools (tables.chainsOf tools workflowId) (tables.eventsOf workflowId)) ∧
        IsTrail tables workflowId
          (TrailStep.Before tools (tables.chainsOf tools workflowId) (tables.eventsOf workflowId)) steps := by
  refine ⟨?_, ?_⟩
  · rw [AuditTables.workflowTrail]
    split
    case isTrue h => exact ⟨fun hnone => (Option.some_ne_none _ hnone).elim, fun hnot => (hnot h).elim⟩
    case isFalse h => exact ⟨fun _ => h, fun _ => rfl⟩
  · intro trail htrail
    rw [AuditTables.workflowTrail] at htrail
    split at htrail
    case isFalse => cases htrail
    case isTrue =>
      refine ⟨_, ?_, isTrail_insertionSort tools tables workflowId _ _⟩
      have hmap := List.map_insertionSort
        (TrailStep.Before tools (tables.chainsOf tools workflowId) (tables.eventsOf workflowId)) happensFirst
        (TrailStep.entry tools (tables.chainsOf tools workflowId) (tables.eventsOf workflowId))
        (TrailStep.ofDecisions (tables.decisionsOf workflowId) [] ++
          (tables.eventsOf workflowId).map TrailStep.event) fun _ _ _ _ => Iff.rfl
      rw [hmap, ← Option.some.inj htrail, List.map_append, proposals_eq_map, List.map_map]
      rfl

end AuditTrail

end PersonalOS
