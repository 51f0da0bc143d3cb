import PersonalOS.CommandHistory
import PersonalOS.ParkedApprovals

/-! # Inputs are applied once

Any number of requests and workers on one thread of a workflow, interleaved step by step, with
their history.

* **Steps.** `HistoryStep` says what one step of a call does to the state and to the history.
* **Applied once.** A worker that is redelivered a command asks whether the newest checkpoint is
  the command's own; that the command has written an older one, it does not see.  `FindsItself`
  excludes that, and `Redelivers` says which crashes and redeliveries are considered;
  `input_applied_once` shows that then no input is handed to the graph twice, and
  `message_applied_twice` is the message whose answer ran before it was redelivered. -/

namespace PersonalOS

open Concurrent Concurrent.Prog DurableWorkflowRunner

variable {τ : Type} [DecidableEq τ]

/-! ### What a history says -/

namespace WorkEvent

def worker : WorkEvent τ → τ
  | claimed t _ _ => t
  | looked t _ _ => t
  | fed t _ => t
  | .over t _ => t

def feeds (commandId : UUID) : WorkEvent τ → Bool
  | fed _ c => c == commandId
  | _ => false

end WorkEvent

/-- How often the graph was handed the command's input. -/
def timesFed (commandId : UUID) (history : List (WorkEvent τ)) : ℕ :=
  history.countP (·.feeds commandId)

/-- The worker is done with its command, or has died. -/
def Over (t : τ) (history : List (WorkEvent τ)) : Prop :=
  .over t true ∈ history ∨ .over t false ∈ history

/-- Who has claimed the command. -/
def claimants (commandId : UUID) (history : List (WorkEvent τ)) : List τ :=
  history.filterMap fun
    | .claimed t c _ => if c = commandId then some t else none
    | _ => none

/-- The commands whose input the worker has handed over. -/
def fedBy (t : τ) (history : List (WorkEvent τ)) : List UUID :=
  history.filterMap fun
    | .fed u c => if u = t then some c else none
    | _ => none

/-- What one step has added to the history satisfies `P`. -/
def OnEvents (P : HistoryState τ → WorkEvent τ → Prop) (x x' : HistoryState τ) : Prop :=
  ∀ e ∈ x'.2.take (x'.2.length - x.2.length), P x e

/-- A command is claimed when all who claimed it before are done with it or have died; and who
dies after handing over its input has written a checkpoint. -/
def Redelivers (x : HistoryState τ) : WorkEvent τ → Prop
  | .claimed _ commandId _ => ∀ u ∈ claimants commandId x.2, Over u x.2
  | .over t true => ∀ commandId ∈ fedBy t x.2, some commandId ∈ x.1.1.2.stamps
  | _ => True

/-- Who looks for the checkpoint of a command that has written one finds it newest. -/
def FindsItself (x : HistoryState τ) : WorkEvent τ → Prop
  | .looked _ commandId _ => some commandId ∈ x.1.1.2.stamps →
      x.1.1.2.newest.bind (·.commandId) = some commandId
  | _ => True

/-- A command whose input is handed over has not written a checkpoint yet. -/
def FedFresh (x : HistoryState τ) : WorkEvent τ → Prop
  | .fed _ commandId => some commandId ∉ x.1.1.2.stamps
  | _ => True

instance (t : τ) (history : List (WorkEvent τ)) : Decidable (Over t history) :=
  inferInstanceAs (Decidable (_ ∨ _))

instance (x : HistoryState τ) : DecidablePred (Redelivers x)
  | .claimed _ commandId _ => inferInstanceAs (Decidable (∀ u ∈ claimants commandId x.2, Over u x.2))
  | .over t true =>
      inferInstanceAs (Decidable (∀ commandId ∈ fedBy t x.2, some commandId ∈ x.1.1.2.stamps))
  | .over _ false => inferInstanceAs (Decidable True)
  | .looked _ _ _ => inferInstanceAs (Decidable True)
  | .fed _ _ => inferInstanceAs (Decidable True)

instance (x : HistoryState τ) : DecidablePred (FindsItself x)
  | .looked _ commandId _ => inferInstanceAs (Decidable (some commandId ∈ x.1.1.2.stamps →
      x.1.1.2.newest.bind (·.commandId) = some commandId))
  | .claimed _ _ _ => inferInstanceAs (Decidable True)
  | .over _ _ => inferInstanceAs (Decidable True)
  | .fed _ _ => inferInstanceAs (Decidable True)

instance (P : HistoryState τ → WorkEvent τ → Prop) [∀ x, DecidablePred (P x)] (x x' : HistoryState τ) :
    Decidable (OnEvents P x x') :=
  inferInstanceAs (Decidable (∀ e ∈ x'.2.take (x'.2.length - x.2.length), P x e))

/-! ### What a step does -/

/-- The worker has claimed the command, and is neither done with it nor dead. -/
def Works (t : τ) (commandId : UUID) (history : List (WorkEvent τ)) : Prop :=
  (∃ attempts, .claimed t commandId attempts ∈ history) ∧ ¬ Over t history

/-- The claim was the first one, or no checkpoint of the command was the newest. -/
def Cleared (t : τ) (commandId : UUID) (history : List (WorkEvent τ)) : Prop :=
  .claimed t commandId 1 ∈ history ∨ .looked t commandId false ∈ history

/-- The runs of the command that are given no input. -/
def Continues (commandId : UUID) : Begins τ :=
  fun stamp input _ => stamp = some commandId ∧ input = .none

/-- What one step of call `t` does, to the state and to the history. -/
inductive HistoryStep (t : τ) (x : HistoryState τ) : HistoryState τ → Prop where
  | quiet : HistoryStep t x x
  | queued (row : CommandRow) : row.command.commandId = x.1.2.nextCommand →
      HistoryStep t x ((x.1.1,
        { x.1.2 with rows := x.1.2.rows ++ [row], nextCommand := x.1.2.nextCommand + 1 }), x.2)
  | claimed (row : CommandRow) : row ∈ x.1.2.rows → row.unfinished = true →
      (∀ e ∈ x.2, e.worker ≠ t) → x.1.1.2.phase t = .waiting →
      HistoryStep t x ((x.1.1, x.1.2.update row.command.commandId .claim),
        .claimed t row.command.commandId (row.attempts + 1) :: x.2)
  | looked (n : ℕ) (commandId : UUID) : Works t commandId x.2 →
      HistoryStep t x (((x.1.1.1.tick n, x.1.1.2), x.1.2),
        .looked t commandId (x.1.1.2.newest.bind (·.commandId) == some commandId) :: x.2)
  | fed (n : ℕ) (commandId : UUID) (input : GraphInput) : Works t commandId x.2 →
      Cleared t commandId x.2 → x.1.1.2.phase t = .waiting →
      HistoryStep t x (((x.1.1.1.tick n, (begin t (some commandId) input x.1.1.2).2), x.1.2),
        .fed t commandId :: x.2)
  | ran (commandId : UUID) (r : RunnerState τ) : Works t commandId x.2 →
      RunnerStep (Continues commandId) t x.1.1 r → HistoryStep t x ((r, x.1.2), x.2)
  | settled (commandId : UUID) (status : CommandStatus) : Works t commandId x.2 →
      (x.1.1.2.phase t).isExecuting = false → status = .dispatched ∨ status = .failed →
      HistoryStep t x ((x.1.1, x.1.2.update commandId (.settle status)), .over t false :: x.2)
  | released (commandId : UUID) : Works t commandId x.2 →
      (x.1.1.2.phase t).isExecuting = false → (∀ c, .fed t c ∉ x.2) →
      HistoryStep t x ((x.1.1, x.1.2.update commandId .release), .over t false :: x.2)
  | died (n : ℕ) :
      HistoryStep t x (((x.1.1.1.tick n, enter t .over x.1.1.2), x.1.2), .over t true :: x.2)

/-! ### Invariants -/

/-- The ids of the rows are their own, and a claim is of a row that was claimed at least as often. -/
structure QueueInv (table : CommandTable) (history : List (WorkEvent τ)) : Prop where
  nodup : (table.rows.map (·.command.commandId)).Nodup
  fresh : ∀ row ∈ table.rows, row.command.commandId < table.nextCommand
  claims : ∀ t c attempts, .claimed t c attempts ∈ history →
    ∃ row ∈ table.rows, row.command.commandId = c ∧ 1 ≤ attempts ∧ attempts ≤ row.attempts

/-- Nobody but the worker that has a command runs it, and it has not written a checkpoint when
its worker is about to hand its input over. -/
structure AppliedInv (x : HistoryState τ) : Prop where
  queue : QueueInv x.1.2 x.2
  /-- Checkpoints are of commands that were queued before, or claimed. -/
  stamped : ∀ c, some c ∈ x.1.1.2.stamps → c < x.1.2.nextCommand ∧
    ∀ row ∈ x.1.2.rows, row.command.commandId = c → ∃ t attempts, .claimed t c attempts ∈ x.2
  oneCommand : ∀ t c c' attempts attempts', .claimed t c attempts ∈ x.2 →
    .claimed t c' attempts' ∈ x.2 → c = c'
  oneWorker : ∀ t u c, Works t c x.2 → Works u c x.2 → t = u
  unfinished : ∀ t c, Works t c x.2 → ∀ row ∈ x.1.2.rows, row.command.commandId = c →
    row.unfinished = true
  executing : ∀ t stamp mode, x.1.1.2.phase t = .executing stamp mode →
    ∃ c, stamp = some c ∧ Works t c x.2
  cleared : ∀ t c, Works t c x.2 → Cleared t c x.2 → x.1.1.2.phase t = .waiting →
    some c ∉ x.1.1.2.stamps
  fedBefore : ∀ t c, .fed t c ∈ x.2 →
    (∃ attempts, .claimed t c attempts ∈ x.2) ∧ x.1.1.2.phase t ≠ .waiting
  /-- Who is over after handing an input over has left a checkpoint, or a finished row. -/
  fedOver : ∀ t c, .fed t c ∈ x.2 → Over t x.2 → some c ∈ x.1.1.2.stamps ∨
    ∀ row ∈ x.1.2.rows, row.command.commandId = c → row.unfinished = false
  once : ∀ c, timesFed c x.2 ≤ 1

/-! ### What an event changes of who works on what -/

section events

variable {t : τ} {c : UUID} {e : WorkEvent τ} {history : List (WorkEvent τ)}

omit [DecidableEq τ] in
theorem Over.cons (h : Over t history) : Over t (e :: history) :=
  h.imp (List.mem_cons_of_mem e) (List.mem_cons_of_mem e)

omit [DecidableEq τ] in
theorem Over.of_cons (h : Over t (e :: history)) (he : ∀ died, e ≠ .over t died) :
    Over t history := by
  rcases h with h | h
  · exact Or.inl ((List.mem_cons.mp h).resolve_left fun heq => he true heq.symm)
  · exact Or.inr ((List.mem_cons.mp h).resolve_left fun heq => he false heq.symm)

omit [DecidableEq τ] in
theorem not_works_over {died : Bool} : ¬ Works t c (.over t died :: history) := by
  intro h
  cases died with
  | true => exact h.2 (Or.inl List.mem_cons_self)
  | false => exact h.2 (Or.inr List.mem_cons_self)

omit [DecidableEq τ] in
theorem Works.of_cons (h : Works t c (e :: history)) (he : ∀ attempts, e ≠ .claimed t c attempts) :
    Works t c history := by
  obtain ⟨⟨attempts, hclaimed⟩, hover⟩ := h
  refine ⟨⟨attempts, (List.mem_cons.mp hclaimed).resolve_left fun heq => ?_⟩, fun ho => hover ho.cons⟩
  exact he attempts heq.symm

omit [DecidableEq τ] in
theorem Works.cons (h : Works t c history) (he : ∀ died, e ≠ .over t died) :
    Works t c (e :: history) := by
  obtain ⟨⟨attempts, hclaimed⟩, hover⟩ := h
  exact ⟨⟨attempts, List.mem_cons_of_mem e hclaimed⟩, fun ho => hover (ho.of_cons he)⟩

omit [DecidableEq τ] in
theorem timesFed_cons (he : ∀ t, e ≠ .fed t c) : timesFed c (e :: history) = timesFed c history := by
  refine List.countP_cons_of_neg ?_
  cases e with
  | fed t c' =>
      intro h
      exact he t (by rw [eq_of_beq h])
  | claimed t c' attempts => exact Bool.false_ne_true
  | looked t c' underWay => exact Bool.false_ne_true
  | «over» t died => exact Bool.false_ne_true

end events

/-! ### Each kind of step -/

namespace QueueInv

variable {table : CommandTable} {history : List (WorkEvent τ)}

omit [DecidableEq τ] in
theorem cons (h : QueueInv table history) {e : WorkEvent τ} (he : ∀ t c attempts, e ≠ .claimed t c attempts) :
    QueueInv table (e :: history) := by
  refine ⟨h.nodup, h.fresh, fun t c attempts hmem => h.claims t c attempts ?_⟩
  exact (List.mem_cons.mp hmem).resolve_left fun heq => he t c attempts heq.symm

omit [DecidableEq τ] in
theorem row_eq (h : QueueInv table history) {row row' : CommandRow} (hrow : row ∈ table.rows)
    (hrow' : row' ∈ table.rows) (hid : row.command.commandId = row'.command.commandId) : row = row' :=
  List.inj_on_of_nodup_map h.nodup hrow hrow' hid

omit [DecidableEq τ] in
theorem update (h : QueueInv table history) {f : CommandRow → CommandRow} (hf : CommandRow.Keeps f)
    (hattempts : ∀ row, row.attempts ≤ (f row).attempts) (c : UUID) :
    QueueInv (table.update c f) history := by
  have hids : (table.update c f).rows.map (·.command.commandId) =
      table.rows.map (·.command.commandId) := by
    rw [CommandTable.update, List.map_map]
    exact List.map_congr_left fun row _ => congrArg WorkflowCommand.commandId ((hf.only c) row).1
  refine ⟨hids ▸ h.nodup, fun row' hrow' => ?_, fun t c' attempts hclaim => ?_⟩
  · obtain ⟨row, hrow, rfl⟩ := List.mem_map.mp hrow'
    rw [((hf.only c) row).1]
    exact h.fresh row hrow
  · obtain ⟨row, hrow, hid, hpos, hle⟩ := h.claims t c' attempts hclaim
    refine ⟨_, List.mem_map_of_mem hrow, ?_, hpos, hle.trans ?_⟩
    · rw [((hf.only c) row).1]
      exact hid
    · split
      · exact hattempts row
      · exact le_refl _

end QueueInv

namespace AppliedInv

variable {t : τ} {x : HistoryState τ}

omit [DecidableEq τ] in
/-- A step on the thread: only its worker's phase changes, and a new checkpoint is of the command
the worker has. -/
theorem onThread (h : AppliedInv x) {r : RunnerState τ}
    (hother : ∀ u, u ≠ t → r.2.phase u = x.1.1.2.phase u) (hkept : x.1.1.2.stamps ⊆ r.2.stamps)
    (hstamps : ∀ c, some c ∈ r.2.stamps →
      some c ∈ x.1.1.2.stamps ∨ Works t c x.2 ∧ r.2.phase t ≠ .waiting)
    (hself : r.2.phase t = x.1.1.2.phase t ∨ r.2.phase t ≠ .waiting ∧
      ∀ stamp mode, r.2.phase t = .executing stamp mode → ∃ c, stamp = some c ∧ Works t c x.2) :
    AppliedInv ((r, x.1.2), x.2) := by
  have hwaiting : ∀ u, r.2.phase u = .waiting → x.1.1.2.phase u = .waiting := by
    intro u hu
    by_cases hut : u = t
    · subst hut
      rcases hself with hsame | hmoved
      · exact hsame ▸ hu
      · exact absurd hu hmoved.1
    · exact hother u hut ▸ hu
  refine ⟨h.queue, ?_, h.oneCommand, h.oneWorker, h.unfinished, ?_, ?_, ?_, ?_, h.once⟩
  · intro c hc
    rcases hstamps c hc with hc | ⟨hworks, -⟩
    · exact h.stamped c hc
    · obtain ⟨attempts, hclaimed⟩ := hworks.1
      obtain ⟨row, hrow, hid, -⟩ := h.queue.claims t c attempts hclaimed
      exact ⟨hid ▸ h.queue.fresh row hrow, fun _ _ _ => ⟨t, attempts, hclaimed⟩⟩
  · intro u stamp mode hu
    by_cases hut : u = t
    · subst hut
      rcases hself with hsame | hmoved
      · exact h.executing u stamp mode (hsame ▸ hu)
      · exact hmoved.2 stamp mode hu
    · exact h.executing u stamp mode (hother u hut ▸ hu)
  · intro u c hworks hcleared hu hc
    rcases hstamps c hc with hc | ⟨hworks', hphase⟩
    · exact h.cleared u c hworks hcleared (hwaiting u hu) hc
    · obtain rfl := h.oneWorker u t c hworks hworks'
      exact hphase hu
  · intro u c hfed
    obtain ⟨hclaimed, hphase⟩ := h.fedBefore u c hfed
    exact ⟨hclaimed, fun hu => hphase (hwaiting u hu)⟩
  · intro u c hfed hover
    exact (h.fedOver u c hfed hover).imp_left (@hkept _)

omit [DecidableEq τ] in
/-- Nothing but time passes. -/
theorem tick (h : AppliedInv x) (n : ℕ) : AppliedInv (((x.1.1.1.tick n, x.1.1.2), x.1.2), x.2) :=
  ⟨h.queue, h.stamped, h.oneCommand, h.oneWorker, h.unfinished, h.executing, h.cleared, h.fedBefore,
    h.fedOver, h.once⟩

/-- A step of a run that is given no input. -/
theorem ran (h : AppliedInv x) {c : UUID} {r : RunnerState τ} (hworks : Works t c x.2)
    (hs : RunnerStep (Continues c) t x.1.1 r) : AppliedInv ((r, x.1.2), x.2) := by
  have hphases : ∀ u, u ≠ t → r.2.phase u = x.1.1.2.phase u := fun u hu => (hs.sameCall hu).phase
  have hkept := hs.stamps
  cases hs with
  | lease s₁ _ _ => exact h.onThread hphases hkept (fun _ hc => Or.inl hc) (Or.inl rfl)
  | marked n status => exact h.onThread hphases hkept (fun _ hc => Or.inl hc) (Or.inl rfl)
  | began n stamp input _ _ hB =>
      obtain ⟨rfl, rfl⟩ := hB
      refine h.onThread hphases hkept (fun _ hc => Or.inl hc) (Or.inr ⟨?_, fun stamp mode hp => ?_⟩)
      · rw [begin_phase_self]
        exact fun hp => by cases hp
      · rw [begin_phase_self] at hp
        cases hp
        exact ⟨c, rfl, hworks⟩
  | advanced n stamp mode next hphase hmode =>
      obtain ⟨c', rfl, hworks'⟩ := h.executing t stamp mode hphase
      have hphase' : (advance t (some c') next x.1.1.2).phase t = .executing (some c') .advancing :=
        enter_phase_self ..
      have hmoved : (advance t (some c') next x.1.1.2).phase t ≠ .waiting := by
        rw [hphase']
        exact fun hp => by cases hp
      refine h.onThread hphases hkept (fun c₀ hc => ?_) (Or.inr ⟨hmoved, fun stamp' mode' hp => ?_⟩)
      · rcases List.mem_cons.mp hc with hc | hc
        · exact Or.inr ⟨Option.some.inj hc ▸ hworks', hmoved⟩
        · exact Or.inl hc
      · rw [hphase'] at hp
        cases hp
        exact ⟨c', rfl, hworks'⟩
  | stopped n stamp mode outcome hphase hmode =>
      refine h.onThread hphases hkept (fun c₀ hc => ?_) (Or.inr ⟨?_, fun stamp' mode' hp => ?_⟩)
      · rw [stop_stamps] at hc
        exact Or.inl hc
      · rw [stop_phase_self]
        exact fun hp => by cases hp
      · rw [stop_phase_self] at hp
        cases hp
  | left n =>
      refine h.onThread hphases hkept (fun _ hc => Or.inl hc) (Or.inr ⟨?_, fun stamp' mode' hp => ?_⟩)
      · rw [enter_phase_self]
        exact fun hp => by cases hp
      · rw [enter_phase_self] at hp
        cases hp

omit [DecidableEq τ] in
/-- A look or an input handed over is remembered. -/
theorem remember (h : AppliedInv x) {e : WorkEvent τ} (hclaimed : ∀ t c attempts, e ≠ .claimed t c attempts)
    (hover : ∀ t died, e ≠ .over t died)
    (hlooked : ∀ t c, e = .looked t c false → some c ∉ x.1.1.2.stamps)
    (hfed : ∀ t c, e = .fed t c →
      Works t c x.2 ∧ x.1.1.2.phase t ≠ .waiting ∧ timesFed c x.2 = 0) :
    AppliedInv (x.1, e :: x.2) := by
  have hbefore : ∀ u c, Works u c (e :: x.2) → Works u c x.2 := fun u c hw => hw.of_cons (hclaimed u c)
  have hclaims : ∀ {u c attempts}, .claimed u c attempts ∈ e :: x.2 → .claimed u c attempts ∈ x.2 :=
    fun hmem => (List.mem_cons.mp hmem).resolve_left fun heq => hclaimed _ _ _ heq.symm
  refine ⟨h.queue.cons hclaimed, ?_, ?_, ?_, ?_, ?_, ?_, ?_, ?_, ?_⟩
  · intro c hc
    refine ⟨(h.stamped c hc).1, fun row hrow hid => ?_⟩
    obtain ⟨u, attempts, hmem⟩ := (h.stamped c hc).2 row hrow hid
    exact ⟨u, attempts, List.mem_cons_of_mem e hmem⟩
  · exact fun u c c' attempts attempts' hmem hmem' =>
      h.oneCommand u c c' attempts attempts' (hclaims hmem) (hclaims hmem')
  · exact fun u v c hu hv => h.oneWorker u v c (hbefore u c hu) (hbefore v c hv)
  · exact fun u c hu => h.unfinished u c (hbefore u c hu)
  · intro u stamp mode hu
    obtain ⟨c, hstamp, hworks⟩ := h.executing u stamp mode hu
    exact ⟨c, hstamp, hworks.cons (hover u)⟩
  · intro u c hu hcleared hphase
    rcases hcleared with hmem | hmem
    · exact h.cleared u c (hbefore u c hu) (Or.inl (hclaims hmem)) hphase
    · rcases List.mem_cons.mp hmem with heq | hmem
      · exact hlooked u c heq.symm
      · exact h.cleared u c (hbefore u c hu) (Or.inr hmem) hphase
  · intro u c hmem
    rcases List.mem_cons.mp hmem with heq | hmem
    · obtain ⟨⟨⟨attempts, hclaim⟩, -⟩, hphase, -⟩ := hfed u c heq.symm
      exact ⟨⟨attempts, List.mem_cons_of_mem e hclaim⟩, hphase⟩
    · obtain ⟨⟨attempts, hclaim⟩, hphase⟩ := h.fedBefore u c hmem
      exact ⟨⟨attempts, List.mem_cons_of_mem e hclaim⟩, hphase⟩
  · intro u c hmem ho
    have ho := ho.of_cons (hover u)
    rcases List.mem_cons.mp hmem with heq | hmem
    · exact absurd ho (hfed u c heq.symm).1.2
    · exact h.fedOver u c hmem ho
  · intro c
    by_cases he : ∃ u, e = .fed u c
    · obtain ⟨u, rfl⟩ := he
      have hnone := (hfed u c rfl).2.2
      have hone : timesFed c (.fed u c :: x.2) = timesFed c x.2 + 1 :=
        List.countP_cons_of_pos (beq_self_eq_true c)
      show timesFed c (.fed u c :: x.2) ≤ 1
      omega
    · rw [timesFed_cons fun u hu => he ⟨u, hu⟩]
      exact h.once c

/-- The input of a command is handed over for the first time: whoever handed it over before would
be over, and would have left a checkpoint of the command, since its row is unfinished. -/
theorem unfed (h : AppliedInv x) {c : UUID} (hworks : Works t c x.2) (hcleared : Cleared t c x.2)
    (hphase : x.1.1.2.phase t = .waiting) : timesFed c x.2 = 0 := by
  refine List.countP_eq_zero.mpr fun e he hfeeds => ?_
  cases e with
  | fed u c' =>
      obtain rfl : c' = c := eq_of_beq hfeeds
      obtain ⟨⟨attempts, hclaim⟩, hphase'⟩ := h.fedBefore u c' he
      by_cases hover : Over u x.2
      · rcases h.fedOver u c' he hover with hstamp | hfinished
        · exact h.cleared t c' hworks hcleared hphase hstamp
        · obtain ⟨row, hrow, hid, -⟩ := h.queue.claims u c' attempts hclaim
          have hrow' := hfinished row hrow hid
          rw [h.unfinished t c' hworks row hrow hid] at hrow'
          cases hrow'
      · obtain rfl := h.oneWorker t u c' hworks ⟨⟨attempts, hclaim⟩, hover⟩
        exact hphase' hphase
  | claimed u c' attempts => cases hfeeds
  | looked u c' underWay => cases hfeeds
  | «over» u died => cases hfeeds

/-- A run of the command enters the graph with its input. -/
theorem fed (h : AppliedInv x) {n : ℕ} {c : UUID} {input : GraphInput} (hworks : Works t c x.2)
    (hcleared : Cleared t c x.2) (hphase : x.1.1.2.phase t = .waiting) :
    AppliedInv (((x.1.1.1.tick n, (begin t (some c) input x.1.1.2).2), x.1.2), .fed t c :: x.2) := by
  have hunfed := h.unfed hworks hcleared hphase
  have hphase' := begin_phase_self t (some c) input x.1.1.2
  have hmoved : (begin t (some c) input x.1.1.2).2.phase t ≠ .waiting := by
    rw [hphase']
    exact fun hp => by cases hp
  have hbegun : AppliedInv (((x.1.1.1.tick n, (begin t (some c) input x.1.1.2).2), x.1.2), x.2) := by
    refine h.onThread (t := t) (fun u hu => begin_phase_ne t (some c) hu input _) ?_ (fun c' hc => ?_)
      (Or.inr ⟨hmoved, fun stamp mode hp => ?_⟩)
    · show x.1.1.2.stamps ⊆ (begin t (some c) input x.1.1.2).2.stamps
      rw [begin_stamps]
      exact List.subset_append_right _ _
    · have hc' : some c' ∈ (begin t (some c) input x.1.1.2).2.stamps := hc
      rw [begin_stamps] at hc'
      rcases List.mem_append.mp hc' with hc' | hc'
      · cases input with
        | initial =>
            obtain rfl : c' = c := by simpa using hc'
            exact Or.inr ⟨hworks, hmoved⟩
        | none => cases hc'
        | resume value => cases hc'
      · exact Or.inl hc'
    · have hp' : (begin t (some c) input x.1.1.2).2.phase t = .executing stamp mode := hp
      rw [hphase'] at hp'
      cases hp'
      exact ⟨c, rfl, hworks⟩
  refine hbegun.remember (fun _ _ _ he => by cases he) (fun _ _ he => by cases he)
    (fun _ _ he => by cases he) fun u c' he => ?_
  cases he
  exact ⟨hworks, hmoved, hunfed⟩

omit [DecidableEq τ] in
theorem queued (h : AppliedInv x) {row : CommandRow} (hid : row.command.commandId = x.1.2.nextCommand) :
    AppliedInv ((x.1.1,
      { x.1.2 with rows := x.1.2.rows ++ [row], nextCommand := x.1.2.nextCommand + 1 }), x.2) := by
  have hlast : ∀ row' ∈ x.1.2.rows, row'.command.commandId ≠ row.command.commandId := by
    intro row' hrow' heq
    have hlt := h.queue.fresh row' hrow'
    rw [heq, hid] at hlt
    exact absurd hlt (Nat.lt_irrefl _)
  -- Nothing is known of the new id yet.
  have hunclaimed : ∀ t c attempts, .claimed t c attempts ∈ x.2 → row.command.commandId ≠ c := by
    intro t c attempts hclaim heq
    obtain ⟨row', hrow', hid', -⟩ := h.queue.claims t c attempts hclaim
    exact hlast row' hrow' (hid'.trans heq.symm)
  refine ⟨⟨?_, ?_, ?_⟩, ?_, h.oneCommand, h.oneWorker, ?_, h.executing, h.cleared, h.fedBefore, ?_,
    h.once⟩
  · rw [List.map_append, List.nodup_append]
    refine ⟨h.queue.nodup, List.nodup_singleton _, ?_⟩
    intro c hc c' hc' heq
    obtain ⟨row', hrow', rfl⟩ := List.mem_map.mp hc
    rw [List.map_singleton, List.mem_singleton] at hc'
    exact hlast row' hrow' (heq.trans hc')
  · intro row' hrow'
    rcases List.mem_append.mp hrow' with hrow' | hrow'
    · exact Nat.lt_succ_of_lt (h.queue.fresh row' hrow')
    · rw [List.mem_singleton.mp hrow', hid]
      exact Nat.lt_succ_self _
  · intro t c attempts hclaim
    obtain ⟨row', hrow', hrest⟩ := h.queue.claims t c attempts hclaim
    exact ⟨row', List.mem_append_left _ hrow', hrest⟩
  · intro c hc
    obtain ⟨hlt, hclaimed⟩ := h.stamped c hc
    refine ⟨Nat.lt_succ_of_lt hlt, fun row' hrow' hid' => ?_⟩
    rcases List.mem_append.mp hrow' with hrow' | hrow'
    · exact hclaimed row' hrow' hid'
    · rw [List.mem_singleton.mp hrow', hid] at hid'
      exact absurd hid' (Nat.ne_of_gt hlt)
  · intro t c hworks row' hrow' hid'
    rcases List.mem_append.mp hrow' with hrow' | hrow'
    · exact h.unfinished t c hworks row' hrow' hid'
    · obtain ⟨attempts, hclaim⟩ := hworks.1
      rw [List.mem_singleton.mp hrow'] at hid'
      exact absurd hid' (hunclaimed t c attempts hclaim)
  · intro t c hfed hover
    refine (h.fedOver t c hfed hover).imp_right fun hfinished row' hrow' hid' => ?_
    rcases List.mem_append.mp hrow' with hrow' | hrow'
    · exact hfinished row' hrow' hid'
    · obtain ⟨⟨attempts, hclaim⟩, -⟩ := h.fedBefore t c hfed
      rw [List.mem_singleton.mp hrow'] at hid'
      exact absurd hid' (hunclaimed t c attempts hclaim)

omit [DecidableEq τ] in
/-- A row that is claimed counts one attempt more. -/
theorem counted (h : AppliedInv x) (c : UUID) :
    AppliedInv ((x.1.1, x.1.2.update c .claim), x.2) := by
  have hrows : ∀ row' ∈ (x.1.2.update c .claim).rows, ∃ row ∈ x.1.2.rows,
      row'.command = row.command ∧ row'.unfinished = row.unfinished := by
    intro row' hrow'
    obtain ⟨row, hrow, rfl⟩ := List.mem_map.mp hrow'
    refine ⟨row, hrow, ?_⟩
    unfold CommandRow.claim
    split
    · split
      · rename_i hopen
        exact ⟨rfl, hopen.symm⟩
      · exact ⟨rfl, rfl⟩
    · exact ⟨rfl, rfl⟩
  have hattempts : ∀ row : CommandRow, row.attempts ≤ row.claim.attempts := by
    intro row
    unfold CommandRow.claim
    split
    · exact Nat.le_succ _
    · exact le_refl _
  refine ⟨h.queue.update CommandRow.claim_keeps hattempts c, ?_, h.oneCommand, h.oneWorker, ?_,
    h.executing, h.cleared, h.fedBefore, ?_, h.once⟩
  · intro c' hc'
    refine ⟨(h.stamped c' hc').1, fun row' hrow' hid => ?_⟩
    obtain ⟨row, hrow, hcommand, -⟩ := hrows row' hrow'
    exact (h.stamped c' hc').2 row hrow (hcommand ▸ hid)
  · intro t c' hworks row' hrow' hid
    obtain ⟨row, hrow, hcommand, hsame⟩ := hrows row' hrow'
    rw [hsame]
    exact h.unfinished t c' hworks row hrow (hcommand ▸ hid)
  · intro t c' hfed hover
    refine (h.fedOver t c' hfed hover).imp_right fun hfinished row' hrow' hid => ?_
    obtain ⟨row, hrow, hcommand, hsame⟩ := hrows row' hrow'
    rw [hsame]
    exact hfinished row hrow (hcommand ▸ hid)

omit [DecidableEq τ] in
/-- A worker that has done nothing so far is remembered as the one that claimed the row. -/
theorem claims (h : AppliedInv x) {row : CommandRow} (hrow : row ∈ x.1.2.rows)
    (hattempts : 1 ≤ row.attempts) (hunfinished : row.unfinished = true)
    (hnew : ∀ e ∈ x.2, e.worker ≠ t) (hfree : ∀ u, ¬ Works u row.command.commandId x.2)
    (hfirst : row.attempts = 1 → some row.command.commandId ∉ x.1.1.2.stamps) :
    AppliedInv (x.1, .claimed t row.command.commandId row.attempts :: x.2) := by
  have hworks : ∀ {u c}, Works u c (.claimed t row.command.commandId row.attempts :: x.2) →
      Works u c x.2 ∨ u = t ∧ c = row.command.commandId := by
    intro u c hw
    by_cases heq : u = t ∧ c = row.command.commandId
    · exact Or.inr heq
    · refine Or.inl (hw.of_cons fun attempts he => heq ?_)
      cases he
      exact ⟨rfl, rfl⟩
  have hother : ∀ {u c attempts}, .claimed u c attempts ∈ x.2 → u ≠ t := fun hmem => hnew _ hmem
  refine ⟨⟨h.queue.nodup, h.queue.fresh, ?_⟩, ?_, ?_, ?_, ?_, ?_, ?_, ?_, ?_, ?_⟩
  · intro u c attempts hmem
    rcases List.mem_cons.mp hmem with heq | hmem
    · cases heq
      exact ⟨row, hrow, rfl, hattempts, le_refl _⟩
    · exact h.queue.claims u c attempts hmem
  · intro c hc
    refine ⟨(h.stamped c hc).1, fun row' hrow' hid => ?_⟩
    obtain ⟨u, attempts, hclaim⟩ := (h.stamped c hc).2 row' hrow' hid
    exact ⟨u, attempts, List.mem_cons_of_mem _ hclaim⟩
  · intro u c c' attempts attempts' hmem hmem'
    rcases List.mem_cons.mp hmem with heq | hmem
    · cases heq
      rcases List.mem_cons.mp hmem' with heq' | hmem'
      · cases heq'
        rfl
      · exact absurd rfl (hother hmem')
    · rcases List.mem_cons.mp hmem' with heq' | hmem'
      · cases heq'
        exact absurd rfl (hother hmem)
      · exact h.oneCommand u c c' attempts attempts' hmem hmem'
  · intro u v c hu hv
    rcases hworks hu with hu | ⟨hut, hc⟩
    · rcases hworks hv with hv | ⟨-, rfl⟩
      · exact h.oneWorker u v c hu hv
      · exact absurd hu (hfree u)
    · rcases hworks hv with hv | ⟨hvt, -⟩
      · exact absurd (hc ▸ hv) (hfree v)
      · exact hut.trans hvt.symm
  · intro u c hu row' hrow' hid
    rcases hworks hu with hu | ⟨-, rfl⟩
    · exact h.unfinished u c hu row' hrow' hid
    · rw [h.queue.row_eq hrow' hrow hid]
      exact hunfinished
  · intro u stamp mode hu
    obtain ⟨c, hstamp, hw⟩ := h.executing u stamp mode hu
    exact ⟨c, hstamp, hw.cons fun _ he => by cases he⟩
  · intro u c hu hcleared hphase
    rcases hcleared with hmem | hmem
    · rcases List.mem_cons.mp hmem with heq | hmem
      · injection heq with hut hc hone
        rw [hc]
        exact hfirst hone.symm
      · rcases hworks hu with hu | ⟨hut, -⟩
        · exact h.cleared u c hu (Or.inl hmem) hphase
        · exact absurd hut (hother hmem)
    · have hmem := (List.mem_cons.mp hmem).resolve_left fun heq => by cases heq
      rcases hworks hu with hu | ⟨hut, -⟩
      · exact h.cleared u c hu (Or.inr hmem) hphase
      · exact absurd hut (hnew _ hmem)
  · intro u c hmem
    have hmem := (List.mem_cons.mp hmem).resolve_left fun heq => by cases heq
    obtain ⟨⟨attempts, hclaim⟩, hphase⟩ := h.fedBefore u c hmem
    exact ⟨⟨attempts, List.mem_cons_of_mem _ hclaim⟩, hphase⟩
  · intro u c hmem hover
    have hmem := (List.mem_cons.mp hmem).resolve_left fun heq => by cases heq
    exact h.fedOver u c hmem (hover.of_cons fun _ he => by cases he)
  · intro c
    show timesFed c (.claimed t _ _ :: x.2) ≤ 1
    rw [timesFed_cons fun u he => by cases he]
    exact h.once c

omit [DecidableEq τ] in
/-- A worker claims an unfinished row that nobody works on.  If nobody ever claimed it, its command
has not written a checkpoint. -/
theorem claimed (h : AppliedInv x) {row : CommandRow} (hrow : row ∈ x.1.2.rows)
    (hunfinished : row.unfinished = true) (hnew : ∀ e ∈ x.2, e.worker ≠ t)
    (hfree : ∀ u, ¬ Works u row.command.commandId x.2) :
    AppliedInv ((x.1.1, x.1.2.update row.command.commandId .claim),
      .claimed t row.command.commandId (row.attempts + 1) :: x.2) := by
  have hclaim : row.claim = { row with status := .inProgress, attempts := row.attempts + 1 } :=
    if_pos hunfinished
  have hmem : row.claim ∈ (x.1.2.update row.command.commandId .claim).rows :=
    List.mem_map.mpr ⟨row, hrow, if_pos rfl⟩
  rw [hclaim] at hmem
  refine (h.counted row.command.commandId).claims hmem (Nat.succ_le_succ (Nat.zero_le _)) rfl hnew
    hfree fun hone hstamp => ?_
  obtain ⟨u, attempts, hclaimed⟩ := (h.stamped _ hstamp).2 row hrow rfl
  obtain ⟨row', hrow', hid, hpos, hle⟩ := h.queue.claims u _ attempts hclaimed
  obtain rfl := h.queue.row_eq hrow' hrow hid
  have hone : row'.attempts + 1 = 1 := hone
  omega

omit [DecidableEq τ] in
/-- A worker is over: no row is taken up again by that, and only its own is finished. -/
theorem ends (h : AppliedInv x) {table : CommandTable} {died : Bool} (hqueue : QueueInv table x.2)
    (hnext : table.nextCommand = x.1.2.nextCommand)
    (hrows : ∀ row' ∈ table.rows, ∃ row ∈ x.1.2.rows, row'.command = row.command ∧
      (row'.unfinished = true → row.unfinished = true) ∧
      (row.unfinished = true → row'.unfinished = true ∨ Works t row.command.commandId x.2))
    (hphase : (x.1.1.2.phase t).isExecuting = false)
    (hfed : ∀ c, .fed t c ∈ x.2 → some c ∈ x.1.1.2.stamps ∨
      ∀ row ∈ table.rows, row.command.commandId = c → row.unfinished = false) :
    AppliedInv ((x.1.1, table), .over t died :: x.2) := by
  have hworks : ∀ u c, Works u c (.over t died :: x.2) → Works u c x.2 ∧ u ≠ t := by
    intro u c hw
    refine ⟨hw.of_cons fun _ he => (by cases he), ?_⟩
    rintro rfl
    exact not_works_over hw
  refine ⟨hqueue.cons fun _ _ _ he => (by cases he), ?_, ?_, ?_, ?_, ?_, ?_, ?_, ?_, ?_⟩
  · intro c hc
    refine ⟨hnext ▸ (h.stamped c hc).1, fun row' hrow' hid => ?_⟩
    obtain ⟨row, hrow, hcommand, -⟩ := hrows row' hrow'
    obtain ⟨u, attempts, hclaim⟩ := (h.stamped c hc).2 row hrow (hcommand ▸ hid)
    exact ⟨u, attempts, List.mem_cons_of_mem _ hclaim⟩
  · intro u c c' attempts attempts' hmem hmem'
    have hmem := (List.mem_cons.mp hmem).resolve_left fun heq => by cases heq
    have hmem' := (List.mem_cons.mp hmem').resolve_left fun heq => by cases heq
    exact h.oneCommand u c c' attempts attempts' hmem hmem'
  · exact fun u v c hu hv => h.oneWorker u v c (hworks u c hu).1 (hworks v c hv).1
  · intro u c hu row' hrow' hid
    obtain ⟨hu, hut⟩ := hworks u c hu
    obtain ⟨row, hrow, hcommand, -, hkept⟩ := hrows row' hrow'
    have hid' : row.command.commandId = c := hcommand ▸ hid
    refine (hkept (h.unfinished u c hu row hrow hid')).resolve_right fun ht => ?_
    exact hut (h.oneWorker u t c hu (hid' ▸ ht))
  · intro u stamp mode hu
    obtain ⟨c, hstamp, hw⟩ := h.executing u stamp mode hu
    have hut : u ≠ t := by
      rintro rfl
      have hu' : x.1.1.2.phase u = .executing stamp mode := hu
      rw [hu'] at hphase
      cases hphase
    refine ⟨c, hstamp, hw.cons fun _ he => hut ?_⟩
    injection he with ht
    exact ht.symm
  · intro u c hu hcleared
    refine h.cleared u c (hworks u c hu).1 ?_
    rcases hcleared with hmem | hmem
    · exact Or.inl ((List.mem_cons.mp hmem).resolve_left fun heq => by cases heq)
    · exact Or.inr ((List.mem_cons.mp hmem).resolve_left fun heq => by cases heq)
  · intro u c hmem
    have hmem := (List.mem_cons.mp hmem).resolve_left fun heq => by cases heq
    obtain ⟨⟨attempts, hclaim⟩, hphase'⟩ := h.fedBefore u c hmem
    exact ⟨⟨attempts, List.mem_cons_of_mem _ hclaim⟩, hphase'⟩
  · intro u c hmem hover
    have hmem := (List.mem_cons.mp hmem).resolve_left fun heq => by cases heq
    by_cases hut : u = t
    · exact hfed c (hut ▸ hmem)
    · have hover := hover.of_cons fun _ he => hut (by injection he with ht; exact ht.symm)
      refine (h.fedOver u c hmem hover).imp_right fun hfinished row' hrow' hid => ?_
      obtain ⟨row, hrow, hcommand, hkept, -⟩ := hrows row' hrow'
      have hrow := hfinished row hrow (hcommand ▸ hid)
      cases hopen : row'.unfinished with
      | false => rfl
      | true =>
          rw [hkept hopen] at hrow
          cases hrow
  · intro c
    show timesFed c (.over t died :: x.2) ≤ 1
    rw [timesFed_cons fun u he => by cases he]
    exact h.once c

omit [DecidableEq τ] in
theorem settled (h : AppliedInv x) {c : UUID} {status : CommandStatus} (hworks : Works t c x.2)
    (hphase : (x.1.1.2.phase t).isExecuting = false)
    (hstatus : status = .dispatched ∨ status = .failed) :
    AppliedInv ((x.1.1, x.1.2.update c (.settle status)), .over t false :: x.2) := by
  have hkeeps := CommandRow.settle_keeps hstatus
  have hfinished : ∀ row : CommandRow, (row.settle status).unfinished = false := by
    intro row
    rcases hstatus with rfl | rfl <;> rfl
  refine h.ends (h.queue.update hkeeps (fun row => le_refl _) c) rfl (fun row' hrow' => ?_) hphase ?_
  · obtain ⟨row, hrow, rfl⟩ := List.mem_map.mp hrow'
    refine ⟨row, hrow, ((hkeeps.only c) row).1, ((hkeeps.only c) row).2, fun hopen => ?_⟩
    split
    · rename_i hid
      exact Or.inr (hid ▸ hworks)
    · exact Or.inl hopen
  · intro c' hmem
    obtain ⟨⟨attempts, hclaim⟩, -⟩ := h.fedBefore t c' hmem
    obtain ⟨attempts', hclaim'⟩ := hworks.1
    obtain rfl := h.oneCommand t c' c attempts attempts' hclaim hclaim'
    refine Or.inr fun row' hrow' hid => ?_
    obtain ⟨row, hrow, rfl⟩ := List.mem_map.mp hrow'
    rw [((hkeeps.only c') row).1] at hid
    rw [if_pos hid]
    exact hfinished row

omit [DecidableEq τ] in
theorem released (h : AppliedInv x) {c : UUID} (hphase : (x.1.1.2.phase t).isExecuting = false)
    (hunfed : ∀ c, .fed t c ∉ x.2) :
    AppliedInv ((x.1.1, x.1.2.update c .release), .over t false :: x.2) := by
  have hsame : ∀ row : CommandRow, row.unfinished = true → row.release.unfinished = true := by
    intro row hopen
    unfold CommandRow.release
    split
    · rfl
    · exact hopen
  have hattempts : ∀ row : CommandRow, row.attempts ≤ row.release.attempts := by
    intro row
    unfold CommandRow.release
    split <;> exact le_refl _
  refine h.ends (h.queue.update CommandRow.release_keeps hattempts c) rfl (fun row' hrow' => ?_) hphase
    fun c' hmem => absurd hmem (hunfed c')
  obtain ⟨row, hrow, rfl⟩ := List.mem_map.mp hrow'
  have hkeeps := (CommandRow.release_keeps.only c) row
  refine ⟨row, hrow, hkeeps.1, hkeeps.2, fun hopen => Or.inl ?_⟩
  split
  · exact hsame row hopen
  · exact hopen

/-- A worker dies.  If it has handed an input over, it has written a checkpoint with it. -/
theorem died (h : AppliedInv x) {n : ℕ} (hcrash : ∀ c, .fed t c ∈ x.2 → some c ∈ x.1.1.2.stamps) :
    AppliedInv (((x.1.1.1.tick n, enter t .over x.1.1.2), x.1.2), .over t true :: x.2) := by
  have hphase : (enter t .over x.1.1.2).phase t = .over := enter_phase_self ..
  have hleft : AppliedInv (((x.1.1.1.tick n, enter t .over x.1.1.2), x.1.2), x.2) := by
    refine h.onThread (t := t) (fun u hu => enter_phase_ne t hu _ _) (fun _ hc => hc)
      (fun _ hc => Or.inl hc) (Or.inr ⟨fun hp => ?_, fun stamp mode hp => ?_⟩)
    · have hp : (enter t .over x.1.1.2).phase t = .waiting := hp
      rw [hphase] at hp
      cases hp
    · have hp : (enter t .over x.1.1.2).phase t = .executing stamp mode := hp
      rw [hphase] at hp
      cases hp
  refine hleft.ends hleft.queue rfl (fun row hrow => ⟨row, hrow, rfl, id, Or.inl⟩) ?_
    fun c hmem => Or.inl (hcrash c hmem)
  show ((enter t .over x.1.1.2).phase t).isExecuting = false
  rw [hphase]
  rfl

end AppliedInv

/-! ### Conditions on the events -/

section onEvents

variable {P : HistoryState τ → WorkEvent τ → Prop} {x : HistoryState τ} {s : WorkflowState τ}
variable {e : WorkEvent τ}

omit [DecidableEq τ] in
theorem onEvents_cons : OnEvents P x (s, e :: x.2) ↔ P x e := by
  have htake : (e :: x.2).take ((e :: x.2).length - x.2.length) = [e] := by
    rw [List.length_cons, Nat.add_sub_cancel_left, List.take_succ_cons, List.take_zero]
  unfold OnEvents
  rw [htake]
  exact List.forall_mem_singleton

omit [DecidableEq τ] in
theorem onEvents_same : OnEvents P x (s, x.2) := by
  unfold OnEvents
  rw [Nat.sub_self]
  exact fun _ he => absurd he List.not_mem_nil

omit [DecidableEq τ] in
theorem mem_claimants {t : τ} {c : UUID} {attempts : ℕ} {history : List (WorkEvent τ)}
    (h : .claimed t c attempts ∈ history) : t ∈ claimants c history :=
  List.mem_filterMap.mpr ⟨_, h, if_pos rfl⟩

theorem mem_fedBy {t : τ} {c : UUID} {history : List (WorkEvent τ)} (h : .fed t c ∈ history) :
    c ∈ fedBy t history := List.mem_filterMap.mpr ⟨_, h, if_pos rfl⟩

end onEvents

/-- **One step**, within the crashes and redeliveries considered: the invariants are kept, and an
input is handed over only before its command has written a checkpoint. -/
theorem AppliedInv.step {t : τ} {x x' : HistoryState τ} (h : AppliedInv x)
    (hredelivers : OnEvents Redelivers x x') (hfinds : OnEvents FindsItself x x')
    (hs : HistoryStep t x x') : AppliedInv x' ∧ OnEvents FedFresh x x' := by
  cases hs with
  | quiet => exact ⟨h, onEvents_same⟩
  | queued row hid => exact ⟨h.queued hid, onEvents_same⟩
  | claimed row hrow hunfinished hnew hphase =>
      have hover := onEvents_cons.mp hredelivers
      refine ⟨h.claimed hrow hunfinished hnew fun u hu => ?_, onEvents_cons.mpr trivial⟩
      obtain ⟨attempts, hclaim⟩ := hu.1
      exact hu.2 (hover u (mem_claimants hclaim))
  | looked n c hworks =>
      have hnewest := onEvents_cons.mp hfinds
      refine ⟨(h.tick n).remember (fun _ _ _ he => by cases he) (fun _ _ he => by cases he) ?_
        (fun _ _ he => by cases he), onEvents_cons.mpr trivial⟩
      intro u c' he hstamp
      injection he with _ hc hfalse
      subst hc
      rw [hnewest hstamp, beq_self_eq_true] at hfalse
      cases hfalse
  | fed n c input hworks hcleared hphase =>
      exact ⟨h.fed hworks hcleared hphase, onEvents_cons.mpr (h.cleared t c hworks hcleared hphase)⟩
  | ran c r hworks hs => exact ⟨h.ran hworks hs, onEvents_same⟩
  | settled c status hworks hphase hstatus =>
      exact ⟨h.settled hworks hphase hstatus, onEvents_cons.mpr trivial⟩
  | released c hworks hphase hunfed =>
      exact ⟨h.released hphase hunfed, onEvents_cons.mpr trivial⟩
  | died n =>
      have hcrash := onEvents_cons.mp hredelivers
      exact ⟨h.died fun c hmem => hcrash c (mem_fedBy hmem), onEvents_cons.mpr trivial⟩

/-! ### What a run raises -/

section raises

open Concurrent.Prog (raisesOnly raisesOnly_bind raisesOnly_attempt raisesOnly_onFst)

variable {t : τ} {ttl : Time}

/-- Another worker has the lease. -/
def Refused (e : RunnerError) : Prop := ∃ reason holder, e = .lease (.unavailable reason holder)

theorem stream_raises {input : GraphInput} {commandId : Option UUID} {run : StreamedRun} :
    (stream t input commandId run).raisesOnly (· = .graph) := by
  have hsteps : ∀ nexts, (superSteps t commandId nexts).raisesOnly (· = .graph) := by
    intro nexts
    induction nexts with
    | nil => trivial
    | cons next nexts ih => exact fun _ => ih
  unfold stream
  refine raisesOnly_bind (fun _ => trivial) fun mode => ?_
  split
  · exact fun _ => trivial
  · refine raisesOnly_bind (hsteps _) fun _ => raisesOnly_bind (fun _ => trivial) fun _ => ?_
    cases run.outcome with
    | returned => trivial
    | interrupted interrupt => trivial
    | raised => exact rfl

theorem invoke_raises {input : GraphInput} {commandId : Option UUID} {run : StreamedRun} :
    (invoke t input commandId run).raisesOnly (· = .graph) := by
  unfold invoke
  refine raisesOnly_bind (fun _ => trivial) fun _ => ?_
  refine raisesOnly_attempt stream_raises (fun _ => ?_) fun e he => ?_
  · refine raisesOnly_bind (fun _ => trivial) fun newest => ?_
    cases newest with
    | none => exact fun _ => trivial
    | some checkpoint =>
        dsimp only
        split
        · exact fun _ => trivial
        · trivial
  · exact raisesOnly_bind (fun _ => trivial) fun _ => he

theorem release_raises {lease : WorkflowLease} :
    (WorkflowLeaseStore.release t lease).raisesOnly (· = .operational) := by
  unfold WorkflowLeaseStore.release WorkflowLeaseStore.statement
  refine raisesOnly_bind (fun _ => trivial) fun now => raisesOnly_bind (fun _ => trivial) fun b => ?_
  cases b with
  | none => exact rfl
  | some b => trivial

/-- What is known of a call without looking at the others: how far it has come. -/
def phaseContract (t : τ) : Contract (RunnerState τ) where
  rely s s' := s'.2.phase t = s.2.phase t
  guar _ _ := True
  assume _ _ := True
  rely_refl _ := rfl
  rely_trans h₁ h₂ := h₂.trans h₁

/-- A call that is refused the lease has not begun. -/
theorem hold_refused {owner : String} {threadId : Option String} {body : RunnerProgram τ Unit}
    {s : RunnerState τ} (hphase : s.2.phase t = .waiting) (hbody : body.raisesOnly (¬ Refused ·)) :
    (hold t ttl owner threadId body).wp (phaseContract t) (fun _ _ => True)
      (fun e s => Refused e → s.2.phase t = .waiting) s := by
  have hacquire := wp_onFst (L := phaseContract t) (R := fun r => r.phase t = .waiting)
    (K := ⟨fun _ _ => True, fun _ _ => True, fun _ _ => True, fun _ => trivial, fun _ _ => trivial⟩)
    (g := RunnerInput.toLeaseInput) (h := RunnerError.lease) (E := fun _ _ => True)
    (p := WorkflowLeaseStore.acquire t ttl owner threadId) (Q := fun _ _ => True)
    (fun s s' (hr : s'.2.phase t = s.2.phase t) hR => ⟨trivial, hr.trans hR⟩)
    (fun _ _ _ _ => trivial) (fun _ _ _ _ _ => trivial) (x := s)
    (wp_mono (wp_of_raisesOnly (fun _ _ => trivial) raisesOnly_true) (fun _ _ _ => trivial)
      fun _ _ _ => trivial) hphase
  refine wp_bind (wp_mono hacquire (fun lease s₁ _ => ?_) fun e s₁ hs₁ _ => hs₁.2)
  refine wp_mono (wp_of_raisesOnly (P := (¬ Refused ·)) (fun _ _ => trivial) ?_) (fun _ _ _ => trivial)
    fun e s₂ he hrefused => absurd hrefused he
  refine raisesOnly_tryFinally hbody (raisesOnly_onFst (raisesOnly_mono release_raises ?_))
  rintro e rfl ⟨reason, holder, he⟩
  cases he

theorem not_refused_of_graph {e : RunnerError} (he : e = .graph) : ¬ Refused e := by
  rintro ⟨reason, holder, hr⟩
  rw [he] at hr
  cases hr

theorem start_refused {owner : String} {threadId : Option String} {commandId : Option UUID}
    {run : StreamedRun} {s : RunnerState τ} (hphase : s.2.phase t = .waiting) :
    (start t ttl owner threadId commandId run).wp (phaseContract t) (fun _ _ => True)
      (fun e s => Refused e → s.2.phase t = .waiting) s :=
  hold_refused hphase (raisesOnly_mono invoke_raises fun _ => not_refused_of_graph)

theorem resume_refused {owner : String} {threadId : Option String} {input : GraphInput}
    {commandId : Option UUID} {run : StreamedRun} {s : RunnerState τ}
    (hphase : s.2.phase t = .waiting) :
    (resume t ttl owner threadId input commandId run).wp (phaseContract t) (fun _ _ => True)
      (fun e s => Refused e → s.2.phase t = .waiting) s := by
  refine hold_refused hphase (raisesOnly_bind (fun _ => trivial) fun newest => ?_)
  cases newest with
  | none =>
      rintro ⟨reason, holder, he⟩
      cases he
  | some checkpoint =>
      dsimp only
      split
      · exact fun _ => trivial
      · exact raisesOnly_mono invoke_raises fun _ => not_refused_of_graph

end raises

/-! ### The calls keep the contract -/

/-- What the other calls leave alone. -/
structure SameHistory (t : τ) (x x' : HistoryState τ) : Prop where
  call : SameCall t x.1.1 x'.1.1
  own : ∀ e : WorkEvent τ, e.worker = t → (e ∈ x'.2 ↔ e ∈ x.2)

def historyContract (t : τ) : Contract (HistoryState τ) where
  rely := SameHistory t
  guar := HistoryStep t
  assume x x' := OnEvents Redelivers x x' ∧ OnEvents FindsItself x x'
  rely_refl x := ⟨.refl t x.1.1, fun _ _ => Iff.rfl⟩
  rely_trans h₁ h₂ := ⟨h₁.call.trans h₂.call, fun e he => (h₂.own e he).trans (h₁.own e he)⟩

theorem HistoryStep.sameHistory {t u : τ} {x x' : HistoryState τ} (h : HistoryStep u x x')
    (ht : t ≠ u) : SameHistory t x x' := by
  have hown : ∀ {e : WorkEvent τ}, e.worker = u → ∀ e' : WorkEvent τ, e'.worker = t →
      (e' ∈ e :: x.2 ↔ e' ∈ x.2) := by
    intro e he e' he'
    refine ⟨fun hmem => (List.mem_cons.mp hmem).resolve_left ?_, List.mem_cons_of_mem e⟩
    rintro rfl
    exact ht (he'.symm.trans he)
  have hsame : ∀ n, SameCall t x.1.1 (x.1.1.1.tick n, x.1.1.2) := fun n => ⟨rfl, rfl, fun _ h => h⟩
  cases h with
  | quiet => exact ⟨.refl t x.1.1, fun _ _ => Iff.rfl⟩
  | queued row hid => exact ⟨.refl t x.1.1, fun _ _ => Iff.rfl⟩
  | claimed row _ _ _ _ => exact ⟨.refl t x.1.1, hown rfl⟩
  | looked n c _ => exact ⟨hsame n, hown rfl⟩
  | fed n c input _ _ hphase =>
      refine ⟨⟨rfl, begin_phase_ne u (some c) ht input _, ?_⟩, hown rfl⟩
      show x.1.1.2.stamps ⊆ (begin u (some c) input x.1.1.2).2.stamps
      rw [begin_stamps]
      exact List.subset_append_right _ _
  | ran c r _ hs => exact ⟨hs.sameCall ht, fun _ _ => Iff.rfl⟩
  | settled c status _ _ _ => exact ⟨.refl t x.1.1, hown rfl⟩
  | released c _ _ _ => exact ⟨.refl t x.1.1, hown rfl⟩
  | died n => exact ⟨⟨rfl, enter_phase_ne u ht _ _, fun _ h => h⟩, hown rfl⟩

/-- A run either begins in this step or takes one that any call may take; and who is waiting now
has been all the time. -/
theorem RunnerStep.began_or {B : Begins τ} (B' : Begins τ) {t : τ} {s s' : RunnerState τ}
    (h : RunnerStep B t s s') :
    (∃ n commandId input, s.2.phase t = .waiting ∧ s.1.held t ≠ none ∧ B commandId input s.2 ∧
      s' = (s.1.tick n, (begin t commandId input s.2).2)) ∨
    (RunnerStep B' t s s' ∧ ¬ (s.2.phase t = .waiting ∧ (s'.2.phase t).isExecuting = true) ∧
      (s'.2.phase t = .waiting → s.2.phase t = .waiting)) := by
  have hsame : ∀ {r : RunnerState τ}, r.2.phase t = s.2.phase t →
      ¬ (s.2.phase t = .waiting ∧ (r.2.phase t).isExecuting = true) ∧
        (r.2.phase t = .waiting → s.2.phase t = .waiting) := by
    intro r hr
    refine ⟨fun h => ?_, fun h => hr ▸ h⟩
    rw [hr, h.1] at h
    cases h.2
  have hover : ∀ {r : RunnerState τ}, r.2.phase t = .over →
      ¬ (s.2.phase t = .waiting ∧ (r.2.phase t).isExecuting = true) ∧
        (r.2.phase t = .waiting → s.2.phase t = .waiting) := by
    intro r hr
    refine ⟨fun h => ?_, fun h => ?_⟩
    · rw [hr] at h
      cases h.2
    · rw [hr] at h
      cases h
  cases h with
  | lease s₁ hs hidle => exact Or.inr ⟨.lease s₁ hs hidle, hsame rfl⟩
  | marked n status => exact Or.inr ⟨.marked n status, hsame rfl⟩
  | began n commandId input hphase hheld hB =>
      exact Or.inl ⟨n, commandId, input, hphase, hheld, hB, rfl⟩
  | advanced n commandId mode next hphase hmode =>
      refine Or.inr ⟨.advanced n commandId mode next hphase hmode, fun h => ?_, fun h => ?_⟩
      · rw [hphase] at h
        cases h.1
      · have h : (advance t commandId next s.2).phase t = .waiting := h
        rw [show (advance t commandId next s.2).phase t = .executing commandId .advancing from
          enter_phase_self ..] at h
        cases h
  | stopped n commandId mode outcome hphase hmode =>
      exact Or.inr ⟨.stopped n commandId mode outcome hphase hmode, hover (stop_phase_self ..)⟩
  | left n => exact Or.inr ⟨.left n, hover (enter_phase_self ..)⟩

section calls

variable {t : τ} {ttl : Time} {x : HistoryState τ} {β γ : Type}

/-- What a call does to the runner, between its steps on the queue. -/
def segmentContract (B : Begins τ) (t : τ) : Contract (WorkflowState τ) where
  rely s s' := SameCall t s.1 s'.1
  guar s s' := ∃ r, s' = (r, s.2) ∧ RunnerStep B t s.1 r
  assume _ _ := True
  rely_refl s := .refl t s.1
  rely_trans := SameCall.trans

theorem onRunner_segment {B : Begins τ} {p : RunnerProgram τ β} {Q : β → RunnerState τ → Prop}
    {E : RunnerError → RunnerState τ → Prop} {s : WorkflowState τ}
    (hp : p.wp (runnerContract (fun _ _ => True) B t) Q E s.1) :
    (onRunner p).wp (segmentContract B t) (fun b s => Q b s.1)
      (fun e s => ∃ error, e = .runner error ∧ E error s.1) s := by
  refine wp_mono (wp_onFst (L := segmentContract B t) (R := fun _ => True)
    (E := fun e s => ∃ error, e = .runner error ∧ E error s) (fun _ _ hr _ => ⟨hr, trivial⟩)
    (fun _ _ _ _ => trivial) (fun _ s' _ _ hs => ⟨s', rfl, hs⟩)
    (wp_mono hp (fun _ _ h => h) fun e _ he => ⟨e, rfl, he⟩) trivial) (fun _ _ h => h.1)
    fun _ _ h => h.1

/-- One step that is remembered, and what follows. -/
theorem wp_noted {f : WorkflowInput → WorkflowState τ → β × WorkflowState τ}
    {note : WorkflowInput → WorkflowState τ → WorkflowState τ → Option (WorkEvent τ)}
    {k : β → HistoryProgram τ γ} {Q : γ → HistoryState τ → Prop}
    {E : WorkflowError → HistoryState τ → Prop}
    (h : ∀ x' i, SameHistory t x x' →
      HistoryStep t x' ((f i x'.1).2, (note i x'.1 (f i x'.1).2).toList ++ x'.2) ∧
        (k (f i x'.1).1).wp (historyContract t) Q E
          ((f i x'.1).2, (note i x'.1 (f i x'.1).2).toList ++ x'.2)) :
    ((act f).noting note >>= k).wp (historyContract t) Q E x :=
  fun x' hr i _ => h x' i hr

omit [DecidableEq τ] in
theorem Works.same {c : UUID} {x' : HistoryState τ} (h : Works t c x.2) (hs : SameHistory t x x') :
    Works t c x'.2 := by
  obtain ⟨⟨attempts, hclaim⟩, hover⟩ := h
  refine ⟨⟨attempts, (hs.own _ rfl).mpr hclaim⟩, fun ho => hover ?_⟩
  exact ho.imp (hs.own _ rfl).mp (hs.own _ rfl).mp

omit [DecidableEq τ] in
theorem Cleared.same {c : UUID} {x' : HistoryState τ} (h : Cleared t c x.2)
    (hs : SameHistory t x x') : Cleared t c x'.2 :=
  h.imp (hs.own _ rfl).mpr (hs.own _ rfl).mpr

/-- A run that is given no input hands none over. -/
theorem continues_spec {c : UUID} {p : RunnerProgram τ Unit} {Q : RunnerState τ → Prop}
    {E : RunnerError → RunnerState τ → Prop} (hworks : Works t c x.2) (hunfed : ∀ c, .fed t c ∉ x.2)
    (hp : p.wp (runnerContract (fun _ _ => True) (Continues c) t) (fun _ => Q) E x.1.1) :
    ((onRunner p).noting silent).wp (historyContract t)
      (fun _ x => Q x.1.1 ∧ Works t c x.2 ∧ ∀ c, .fed t c ∉ x.2)
      (fun e x => (∃ error, e = .runner error ∧ E error x.1.1) ∧ Works t c x.2 ∧ ∀ c, .fed t c ∉ x.2)
      x := by
  refine wp_noting (L := historyContract t) (R := fun _ history => Works t c history ∧ ∀ c, .fed t c ∉ history)
    ?_ (fun _ _ => trivial) ?_ (onRunner_segment hp) ⟨hworks, hunfed⟩
  · intro x₁ x₂ hs hR
    exact ⟨hs.call, hR.1.same hs, fun c hmem => hR.2 c ((hs.own _ rfl).mp hmem)⟩
  · rintro i s s' history hR ⟨r, rfl, hs⟩ -
    exact ⟨.ran c r hR.1 hs, hR⟩

/-- A run as its command was queued: its input is handed over where it begins. -/
theorem asQueued_spec {command : WorkflowCommand} {p : RunnerProgram τ Unit} {Q : RunnerState τ → Prop}
    {E : RunnerError → RunnerState τ → Prop} {B : Begins τ}
    (hB : ∀ commandId input s, B commandId input s → commandId = some command.commandId ∧
      (command.kind = .retry → input = .none))
    (hworks : Works t command.commandId x.2) (hcleared : Cleared t command.commandId x.2)
    (hunfed : ∀ c, .fed t c ∉ x.2)
    (hp : p.wp (runnerContract (fun _ _ => True) B t) (fun _ => Q) E x.1.1) :
    ((onRunner p).noting (feedNote t command)).wp (historyContract t)
      (fun _ x => Q x.1.1 ∧ Works t command.commandId x.2)
      (fun e x => (∃ error, e = .runner error ∧ E error x.1.1) ∧ Works t command.commandId x.2 ∧
        (x.1.1.2.phase t = .waiting → ∀ c, .fed t c ∉ x.2)) x := by
  refine wp_mono (wp_noting (L := historyContract t) (R := fun s history =>
    Works t command.commandId history ∧ Cleared t command.commandId history ∧
      (s.1.2.phase t = .waiting → ∀ c, .fed t c ∉ history)) ?_ (fun _ _ => trivial) ?_
    (onRunner_segment hp) ⟨hworks, hcleared, fun _ => hunfed⟩) (fun _ _ h => ⟨h.1, h.2.1⟩)
    fun _ _ h => ⟨h.1, h.2.1, h.2.2.2⟩
  · intro x₁ x₂ hs hR
    refine ⟨hs.call, hR.1.same hs, hR.2.1.same hs, fun hphase c hmem => ?_⟩
    exact hR.2.2 (hs.call.phase ▸ hphase) c ((hs.own _ rfl).mp hmem)
  · rintro i s s' history ⟨hworks, hcleared, hunfed⟩ ⟨r, rfl, hs⟩ -
    rcases hs.began_or (Continues command.commandId) with
      ⟨n, commandId, input, hphase, hheld, hbegins, rfl⟩ | ⟨hs, hentered, hwaiting⟩
    · obtain ⟨rfl, hretry⟩ := hB _ _ _ hbegins
      have hphase' : (begin t (some command.commandId) input s.1.2).2.phase t = .executing
          (some command.commandId) (begin t (some command.commandId) input s.1.2).1 :=
        begin_phase_self ..
      have hmoved : (begin t (some command.commandId) input s.1.2).2.phase t ≠ .waiting := by
        rw [hphase']
        exact fun h => by cases h
      have hexecuting : ((begin t (some command.commandId) input s.1.2).2.phase t).isExecuting = true := by
        rw [hphase']
        rfl
      by_cases hkind : command.kind = .retry
      · have hnote : feedNote t command i s ((s.1.1.tick n,
            (begin t (some command.commandId) input s.1.2).2), s.2) = none :=
          if_neg fun h => h.1 hkind
        rw [hnote]
        obtain rfl := hretry hkind
        exact ⟨.ran command.commandId _ hworks (.began n _ .none hphase hheld ⟨rfl, rfl⟩), hworks,
          hcleared, fun h => absurd h hmoved⟩
      · have hnote : feedNote t command i s ((s.1.1.tick n,
            (begin t (some command.commandId) input s.1.2).2), s.2) =
            some (.fed t command.commandId) := if_pos ⟨hkind, hphase, hexecuting⟩
        rw [hnote]
        refine ⟨.fed n command.commandId input hworks hcleared hphase,
          hworks.cons fun _ he => (by cases he), ?_, fun h => absurd h hmoved⟩
        exact hcleared.imp (List.mem_cons_of_mem _) (List.mem_cons_of_mem _)
    · have hnote : feedNote t command i s (r, s.2) = none := if_neg fun h => hentered h.2
      rw [hnote]
      exact ⟨.ran command.commandId r hworks hs, hworks, hcleared, fun h => hunfed (hwaiting h)⟩

/-- What a worker has left of its command after the run: it is not in the graph, and it has handed
nothing over if it was refused the lease. -/
abbrev Stopped (t : τ) (c : UUID) {β : Type} (p : HistoryProgram τ β) (x : HistoryState τ) : Prop :=
  p.wp (historyContract t)
    (fun _ x => Works t c x.2 ∧ (x.1.1.2.phase t).isExecuting = false)
    (fun e x => Works t c x.2 ∧ (x.1.1.2.phase t).isExecuting = false ∧
      ∀ reason holder, e = .runner (.lease (.unavailable reason holder)) → ∀ c, .fed t c ∉ x.2) x

theorem resume_stopped {owner : String} {threadId : Option String} {c : UUID} {run : StreamedRun}
    (hworks : Works t c x.2) (hunfed : ∀ c, .fed t c ∉ x.2) (hphase : x.1.1.2.phase t = .waiting) :
    Stopped t c ((onRunner (resume t ttl owner threadId .none (some c) run)).noting silent) x := by
  refine wp_mono (continues_spec hworks hunfed (resume_spec hphase fun _ _ => ⟨rfl, rfl⟩))
    (fun _ _ h => ⟨h.2.1, h.1⟩) fun e x' h => ?_
  obtain ⟨⟨error, -, hidle⟩, hworks', hunfed'⟩ := h
  exact ⟨hworks', hidle, fun _ _ _ => hunfed'⟩

theorem runAsQueued_stopped {owner : String} {command : WorkflowCommand} {run : StreamedRun}
    (hworks : Works t command.commandId x.2) (hcleared : Cleared t command.commandId x.2)
    (hunfed : ∀ c, .fed t c ∉ x.2) (hphase : x.1.1.2.phase t = .waiting) :
    Stopped t command.commandId
      ((onRunner (runAsQueued t ttl owner command run)).noting (feedNote t command)) x := by
  let B : Begins τ := fun commandId input _ =>
    commandId = some command.commandId ∧ (command.kind = .retry → input = .none)
  have hboth : (runAsQueued t ttl owner command run).wp (runnerContract (fun _ _ => True) B t)
      (fun _ s => (s.2.phase t).isExecuting = false ∧ True)
      (fun e s => (s.2.phase t).isExecuting = false ∧ (Refused e → s.2.phase t = .waiting)) x.1.1 := by
    unfold runAsQueued
    cases hkind : command.kind with
    | start =>
        refine wp_and (fun _ _ hr => hr.phase) (fun _ _ _ => trivial) (start_spec hphase fun _ _ => ?_)
          (start_refused hphase)
        exact ⟨rfl, fun h => by rw [hkind] at h; cases h⟩
    | retry =>
        exact wp_and (fun _ _ hr => hr.phase) (fun _ _ _ => trivial)
          (resume_spec hphase fun _ _ => ⟨rfl, fun _ => rfl⟩) (resume_refused hphase)
    | resume =>
        refine wp_and (fun _ _ hr => hr.phase) (fun _ _ _ => trivial) (resume_spec hphase fun _ _ => ?_)
          (resume_refused hphase)
        exact ⟨rfl, fun h => by rw [hkind] at h; cases h⟩
  refine wp_mono (asQueued_spec (fun _ _ _ h => h) hworks hcleared hunfed hboth)
    (fun _ _ h => ⟨h.2, h.1.1⟩) fun e x' h => ?_
  obtain ⟨⟨error, rfl, hidle, hrefused⟩, hworks', hunfed'⟩ := h
  refine ⟨hworks', hidle, fun reason holder he => hunfed' (hrefused ⟨reason, holder, ?_⟩)⟩
  injection he

theorem runRemembered_stopped {owner : String} {claimed : CommandRow} {run : StreamedRun}
    (hclaimed : .claimed t claimed.command.commandId claimed.attempts ∈ x.2)
    (hworks : Works t claimed.command.commandId x.2) (hpos : 1 ≤ claimed.attempts)
    (hunfed : ∀ c, .fed t c ∉ x.2) (hphase : x.1.1.2.phase t = .waiting) :
    Stopped t claimed.command.commandId (runRemembered t ttl owner claimed run) x := by
  unfold runRemembered
  dsimp only
  split
  · refine wp_noted fun x₁ i hs => ⟨.looked i.elapsed _ (hworks.same hs), ?_⟩
    have hworks₁ := (hworks.same hs).cons (e := .looked t claimed.command.commandId
      (x₁.1.1.2.newest.bind (·.commandId) == some claimed.command.commandId)) fun _ he => by cases he
    have hphase₁ : x₁.1.1.2.phase t = .waiting := hs.call.phase.trans hphase
    have hunfed₁ : ∀ c, .fed t c ∉ .looked t claimed.command.commandId
        (x₁.1.1.2.newest.bind (·.commandId) == some claimed.command.commandId) :: x₁.2 := by
      intro c hmem
      rcases List.mem_cons.mp hmem with he | hmem
      · cases he
      · exact hunfed c ((hs.own _ rfl).mp hmem)
    split
    · exact resume_stopped hworks₁ hunfed₁ hphase₁
    · rename_i hother
      rw [Bool.not_eq_true] at hother
      have hother : (x₁.1.1.2.newest.bind (·.commandId) == some claimed.command.commandId) = false :=
        hother
      have hmem : .looked t claimed.command.commandId false ∈ .looked t claimed.command.commandId
          (x₁.1.1.2.newest.bind (·.commandId) == some claimed.command.commandId) :: x₁.2 := by
        rw [hother]
        exact List.mem_cons_self
      exact runAsQueued_stopped hworks₁ (Or.inr hmem) hunfed₁ hphase₁
  · rename_i hone
    have hone : claimed.attempts = 1 := by omega
    exact runAsQueued_stopped hworks (Or.inl (hone ▸ hclaimed)) hunfed hphase

theorem finishRow_spec {c : UUID} {f : CommandRow → CommandRow} {k : HistoryProgram τ β}
    (hstep : ∀ x', SameHistory t x x' →
      HistoryStep t x' ((x'.1.1, x'.1.2.update c f), .over t false :: x'.2))
    (hk : ∀ x', k.wp (historyContract t) (fun _ _ => True) (fun _ _ => True) x') :
    (finishRow t c f >>= fun _ => k).wp (historyContract t) (fun _ _ => True) (fun _ _ => True) x :=
  wp_noted fun x' _ hs => ⟨hstep x' hs, hk _⟩

omit [DecidableEq τ] in
theorem SameHistory.idle {x' : HistoryState τ} (hs : SameHistory t x x')
    (h : (x.1.1.2.phase t).isExecuting = false) : (x'.1.1.2.phase t).isExecuting = false :=
  hs.call.phase ▸ h

theorem processRemembered_spec {owner : String} {run : StreamedRun}
    (hnew : ∀ e ∈ x.2, e.worker ≠ t) (hphase : x.1.1.2.phase t = .waiting) :
    (processRemembered t ttl owner run).wp (historyContract t) (fun _ _ => True) (fun _ _ => True)
      x := by
  refine wp_noted fun x₁ i hs => ?_
  have hnew₁ : ∀ e ∈ x₁.2, e.worker ≠ t := fun e he hw => hnew e ((hs.own e hw).mp he) hw
  have hphase₁ : x₁.1.1.2.phase t = .waiting := hs.call.phase.trans hphase
  cases hrow : x₁.1.2.rows[i.candidate]? with
  | none =>
      simp only [CommandTable.claimNext, hrow, claimNote]
      exact ⟨.quiet, fun _ _ => trivial⟩
  | some row =>
      simp only [CommandTable.claimNext, hrow, claimNote]
      split
      · rename_i hunfinished
        have hclaim : row.claim = { row with status := .inProgress, attempts := row.attempts + 1 } :=
          if_pos hunfinished
        rw [hclaim]
        refine ⟨.claimed row (List.mem_of_getElem? hrow) hunfinished hnew₁ hphase₁, ?_⟩
        refine wp_bind (wp_attempt (wp_mono (runRemembered_stopped List.mem_cons_self
          ⟨⟨_, List.mem_cons_self⟩, ?_⟩ (Nat.succ_le_succ (Nat.zero_le _)) ?_ hphase₁) (fun _ x₂ h₂ => ?_)
          fun error x₂ h₂ => ?_))
        · rintro (hmem | hmem)
          · exact hnew₁ _ ((List.mem_cons.mp hmem).resolve_left fun he => by cases he) rfl
          · exact hnew₁ _ ((List.mem_cons.mp hmem).resolve_left fun he => by cases he) rfl
        · exact fun c hmem => hnew₁ _ ((List.mem_cons.mp hmem).resolve_left fun he => by cases he) rfl
        · refine finishRow_spec (fun x₃ hs₃ => ?_) fun _ _ _ => trivial
          exact .settled _ .dispatched (h₂.1.same hs₃) (hs₃.idle h₂.2) (Or.inl rfl)
        · split
          · rename_i he
            cases he
          · rename_i reason holder he
            refine finishRow_spec (fun x₃ hs₃ => ?_) fun _ _ _ => trivial
            injection he with he
            refine .released _ (h₂.1.same hs₃) (hs₃.idle h₂.2.1) fun c hmem => ?_
            exact h₂.2.2 reason holder he c ((hs₃.own _ rfl).mp hmem)
          · refine finishRow_spec (fun x₃ hs₃ => ?_) fun _ _ _ => trivial
            exact .settled _ .failed (h₂.1.same hs₃) (hs₃.idle h₂.2.1) (Or.inr rfl)
      · exact ⟨.quiet, fun _ _ => trivial⟩

theorem queue_spec {command : UUID → WorkflowCommand} {dedupe : Option Dedupe}
    (hid : ∀ id, (command id).commandId = id) :
    ((enqueueCommand command dedupe).noting silent).wp (historyContract t) (fun _ _ => True)
      (fun _ _ => True) x := by
  have hended : ∀ (b : Bool) (x' : HistoryState τ),
      ((if b then pure () else raise .duplicateCommand : WorkflowProgram τ Unit).noting silent).wp
        (historyContract t) (fun _ _ => True) (fun _ _ => True) x' := by
    intro b x'
    split <;> exact fun _ _ => trivial
  intro x₁ _ i _
  refine ⟨?_, hended _ _⟩
  · simp only [CommandTable.enqueue, silent]
    rcases @enqueue_cases (command x₁.1.2.nextCommand) dedupe x₁.1.2.rows with he | ⟨he, -⟩
    · simp only [he]
      exact .quiet
    · simp only [he]
      exact .queued _ (hid _)

/-- Every call keeps the contract, whenever its process dies. -/
theorem commandCall_spec {thread : WorkflowThread} {call : CommandCall}
    (hnew : ∀ e ∈ x.2, e.worker ≠ t) (hphase : x.1.1.2.phase t = .waiting) :
    (call.program t ttl thread).wp (historyContract t) (fun _ _ => True) (fun _ _ => True) x := by
  refine wp_mortal (fun i x' => ⟨.died i.elapsed, fun _ _ => trivial⟩) ?_
  cases call with
  | queue request => exact queue_spec fun _ => rfl
  | worker owner run =>
      exact wp_bind (wp_mono (processRemembered_spec hnew hphase) (fun _ _ _ _ _ => trivial)
        fun _ _ h => h)

end calls

/-! ### Interleavings -/

omit [DecidableEq τ] in
/-- A thread whose checkpoints are of commands queued before. -/
theorem AppliedInv.begin {clock : Time} {runStatus : RunStatus} {checkpoints : List Checkpoint}
    {nextCommand : UUID} (hfresh : ∀ c, some c ∈ checkpoints.map (·.commandId) → c < nextCommand) :
    AppliedInv (((.unleased clock runStatus checkpoints, { rows := [], nextCommand, closed := [] }), []) :
      HistoryState τ) := by
  refine ⟨⟨.nil, ?_, ?_⟩, fun c hc => ⟨hfresh c hc, ?_⟩, ?_, ?_, ?_, ?_, ?_, ?_, ?_, fun _ => Nat.zero_le _⟩
  · exact fun _ h => (by cases h)
  · exact fun _ _ _ h => (by cases h)
  · exact fun _ h => (by cases h)
  · exact fun _ _ _ _ _ h => (by cases h)
  · exact fun _ _ _ h => absurd h.1.choose_spec List.not_mem_nil
  · exact fun _ _ h => absurd h.1.choose_spec List.not_mem_nil
  · exact fun _ _ _ h => (by cases h)
  · exact fun _ _ h => absurd h.1.choose_spec List.not_mem_nil
  · exact fun _ _ h => (by cases h)
  · exact fun _ _ h => (by cases h)

/-- **Inputs are applied once**: when commands are redelivered only from workers that are over, and
a redelivered command that has written a checkpoint finds the newest one its own, every command's
input is handed to the graph at most once, and never after the command has written a checkpoint. -/
theorem input_applied_once (ttl clock : Time) (thread : WorkflowThread) (calls : τ → CommandCall)
    (runStatus : RunStatus) (checkpoints : List Checkpoint) (nextCommand : UUID)
    (hfresh : ∀ c, some c ∈ checkpoints.map (·.commandId) → c < nextCommand)
    (sched : List (τ × WorkflowInput))
    (hm : Pool.Meets (fun _ x x' => OnEvents Redelivers x x' ∧ OnEvents FindsItself x x')
      (commandPool ttl clock thread calls runStatus checkpoints nextCommand) sched) :
    (∀ c, timesFed c
      ((commandPool ttl clock thread calls runStatus checkpoints nextCommand).run sched).state.2 ≤ 1) ∧
    Pool.Meets (fun _ => OnEvents FedFresh)
      (commandPool ttl clock thread calls runStatus checkpoints nextCommand) sched := by
  have hsound : Pool.Sound historyContract (fun _ _ _ => True) (fun _ _ _ => True)
      (commandPool ttl clock thread calls runStatus checkpoints nextCommand) :=
    fun t => commandCall_spec (fun e he => absurd he List.not_mem_nil) rfl
  have hG : ∀ t u : τ, t ≠ u → ∀ x x', (historyContract u).guar x x' → (historyContract t).rely x x' :=
    fun t u htu x x' h => HistoryStep.sameHistory h htu
  have hstart : AppliedInv (commandPool ttl clock thread calls runStatus checkpoints nextCommand).state :=
    .begin hfresh
  refine ⟨(Pool.run_inv (J := AppliedInv) hsound (fun _ => rfl) hG
    (fun e _ x x' hcond hs h => (h.step hcond.1 hcond.2 hs).1) hm hstart).once, ?_⟩
  exact Pool.run_meets (J := AppliedInv) hsound (fun _ => rfl) hG (fun _ x => onEvents_same)
    (fun t x x' hcond hs h => h.step hcond.1 hcond.2 hs) hm hstart

/-- A message as it is queued. -/
def messageRequest : CommandRequest where
  kind := .start
  actorId := "user:1"
  graphInput := .mapping []
  interruptIds := []
  dedupe := none

/-- A message, its worker, and the workers it is redelivered to. -/
def redeliveredMessage : ℕ → CommandCall
  | 0 => .queue messageRequest
  | 1 => .worker "host:1" parkingRun
  | _ => .worker "host:2" parkingRun

/-- The first worker dies after its run has parked, before the row is settled. -/
def redeliveredSteps : List (ℕ × WorkflowInput) :=
  steps 0 1 0 ++ steps 1 11 0 ++ (1, ⟨⟨⟨0, false⟩, true⟩, 0⟩) :: steps 2 11 0

theorem input_applied_once_redelivered :
    (∀ c, timesFed c ((commandPool defaultLeaseTtlSeconds 0 submissionThread redeliveredMessage
      .pending [] 0).run redeliveredSteps).state.2 ≤ 1) ∧
    Pool.Meets (fun _ => OnEvents FedFresh) (commandPool defaultLeaseTtlSeconds 0 submissionThread
      redeliveredMessage .pending [] 0) redeliveredSteps :=
  input_applied_once defaultLeaseTtlSeconds 0 submissionThread redeliveredMessage .pending [] 0
    (fun _ h => absurd h List.not_mem_nil) redeliveredSteps (by decide +kernel)

/-- A message, its worker, the answer to the approval it parks on, the worker of the answer, and
the worker the message is redelivered to. -/
def answeredMessage : Fin 5 → CommandCall
  | 0 => .queue messageRequest
  | 1 => .worker "host:1" parkingRun
  | 2 => .queue resumeRequest
  | 3 => .worker "host:2" ⟨[[]], .returned⟩
  | 4 => .worker "host:3" parkingRun

def answeredMessageSteps : List (Fin 5 × WorkflowInput) :=
  steps 0 1 0 ++ steps 1 11 0 ++ (1, ⟨⟨⟨0, false⟩, true⟩, 0⟩) :: steps 2 1 0 ++ steps 3 13 1 ++
    steps 4 7 0

/-- The newest checkpoint is the answer's when the message is redelivered, and its input is handed
over a second time. -/
theorem message_applied_twice :
    ¬ ∀ (τ : Type) [DecidableEq τ] (ttl clock : Time) (thread : WorkflowThread)
      (calls : τ → CommandCall) (runStatus : RunStatus) (checkpoints : List Checkpoint)
      (nextCommand : UUID) (sched : List (τ × WorkflowInput)), 0 < ttl →
      (∀ c, some c ∈ checkpoints.map (·.commandId) → c < nextCommand) →
      Pool.Meets (fun _ => OnEvents Redelivers)
        (commandPool ttl clock thread calls runStatus checkpoints nextCommand) sched →
      ∀ c, timesFed c ((commandPool ttl clock thread calls runStatus checkpoints
        nextCommand).run sched).state.2 ≤ 1 := by
  intro h
  have honce := h (Fin 5) defaultLeaseTtlSeconds 0 submissionThread answeredMessage .pending [] 0
    answeredMessageSteps (by decide) (fun _ h => absurd h List.not_mem_nil) (by decide +kernel) 0
  exact absurd honce (by decide +kernel)

end PersonalOS
